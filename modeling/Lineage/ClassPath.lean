import Lineage.SubtypeLinks

/-!
# The class path

The class path holds the classes that are available for reference and never edited.  It is
made once from a list of definitions; where a name is defined more than once, the last
definition counts, and only the definitions that count contribute subtype links.
-/

namespace Lineage

/-- The last definition of each name that a list of definitions has. -/
def lastDefinitions (descriptors : List Descriptor) : NameMap Descriptor :=
  descriptors.foldl (fun classes d => classes.insert d.name d) ∅

/-- The classes available for reference and the subtype links they declare. -/
structure ClassPath where
  /-- The definition of each class. -/
  classes : NameMap Descriptor
  /-- The links that the definitions declare. -/
  links : SubtypeLinks
deriving DecidableEq

namespace ClassPath

/-- The class path without a class. -/
def empty : ClassPath := ⟨∅, ∅⟩

instance : EmptyCollection ClassPath := ⟨empty⟩

instance : Inhabited ClassPath := ⟨empty⟩

/-- The class path that some definitions make. -/
def ofDescriptors (descriptors : List Descriptor) : ClassPath where
  classes := lastDefinitions descriptors
  links := SubtypeLinks.ofDescriptors (lastDefinitions descriptors).values

/-- The definition of the class `name`. -/
def lookup (path : ClassPath) (name : String) : Option Descriptor := path.classes.get? name

/-- Whether the class `name` is defined. -/
def contains (path : ClassPath) (name : String) : Bool := path.classes.contains name

/-- The names of the classes. -/
def names (path : ClassPath) : NameSet := path.classes.keys

/-- The number of classes. -/
def size (path : ClassPath) : Nat := path.classes.size

/-- Whether there is no class. -/
def isEmpty (path : ClassPath) : Bool := path.classes.isEmpty

/-- The classes that declare `parent` as a supertype. -/
def subtypes (path : ClassPath) (parent : String) : NameSet := path.links.subtypes parent

end ClassPath

end Lineage
