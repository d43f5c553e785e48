import Lineage.SubtypeLinks

/-!
# The workspace

The workspace holds the classes under edit: at most one definition per name, and beside the
definitions the subtype links that they declare.  Every operation changes the two together,
so the links are those of the definitions that are there now and of no earlier one.
-/

namespace Lineage

/-- The classes under edit and the subtype links they declare. -/
structure Workspace where
  /-- The definition of each class. -/
  classes : NameMap Descriptor
  /-- The links that the definitions declare. -/
  links : SubtypeLinks
deriving DecidableEq

namespace Workspace

/-- The workspace without a class. -/
def empty : Workspace := ⟨∅, ∅⟩

instance : EmptyCollection Workspace := ⟨empty⟩

instance : Inhabited Workspace := ⟨empty⟩

/-- The definition of the class `name`. -/
def lookup (w : Workspace) (name : String) : Option Descriptor := w.classes.get? name

/-- Whether the class `name` is defined. -/
def contains (w : Workspace) (name : String) : Bool := w.classes.contains name

/-- The names of the classes. -/
def names (w : Workspace) : NameSet := w.classes.keys

/-- The number of classes. -/
def size (w : Workspace) : Nat := w.classes.size

/-- Whether there is no class. -/
def isEmpty (w : Workspace) : Bool := w.classes.isEmpty

/-- The classes that declare `parent` as a supertype. -/
def subtypes (w : Workspace) (parent : String) : NameSet := w.links.subtypes parent

/-- The links once the definition of `name`, if there is one, is left out. -/
def linksWithout (w : Workspace) (name : String) : SubtypeLinks :=
  match w.lookup name with
  | none => w.links
  | some old => w.links.remove old

/-- The workspace with `d` as the definition of its class. -/
def insert (w : Workspace) (d : Descriptor) : Workspace where
  classes := w.classes.insert d.name d
  links := (w.linksWithout d.name).insert d

/-- The workspace without the class `name`. -/
def erase (w : Workspace) (name : String) : Workspace where
  classes := w.classes.erase name
  links := w.linksWithout name

/-- The definition that `d` replaces, and the workspace with `d`. -/
def replace (w : Workspace) (d : Descriptor) : Option Descriptor × Workspace :=
  (w.lookup d.name, w.insert d)

/-- The definition of the class `name`, and the workspace without it. -/
def take (w : Workspace) (name : String) : Option Descriptor × Workspace :=
  (w.lookup name, w.erase name)

/-- The workspace that some definitions make, later ones replacing earlier ones. -/
def ofDescriptors (descriptors : List Descriptor) : Workspace :=
  descriptors.foldl insert ∅

theorem contains_eq_false_iff {w : Workspace} {name : String} :
  w.contains name = false ↔ w.lookup name = none
  := by
  rw [contains, NameMap.contains, Option.isSome_eq_false_iff, Option.isNone_iff_eq_none]
  rfl

theorem lookup_insert {w : Workspace} {d : Descriptor} {name : String} :
  (w.insert d).lookup name = if name = d.name then some d else w.lookup name
  := NameMap.get?_insert

theorem lookup_erase {w : Workspace} {a name : String} :
  (w.erase name).lookup a = if a = name then none else w.lookup a
  := NameMap.get?_erase

end Workspace

end Lineage
