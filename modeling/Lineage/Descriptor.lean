import Lineage.Text.Quoted

/-!
# Class descriptors

A descriptor is one definition of a class: its name, the superclass it extends, if any, and
the interfaces it implements.  `Descriptor.supertypes` lists the names it declares, the
superclass first and each name once; `Descriptor.rename` substitutes one name for another
wherever the definition mentions it.
-/

namespace Lineage

/-- The name of the class that every platform class descends from. -/
def rootName : String := "java/lang/Object"

/-- One definition of a class. -/
structure Descriptor where
  /-- The qualified name, by which the class is known. -/
  name : String
  /-- The direct superclass; a root has none. -/
  superName : Option String
  /-- The interfaces implemented directly, in the order of their declaration. -/
  interfaces : List String
deriving DecidableEq, Inhabited

namespace Descriptor

/-- The definition of a class without interfaces. -/
def ofName (name : String) (superName : Option String) : Descriptor :=
  ⟨name, superName, []⟩

/-- The definition with one more interface, declared last. -/
def implementing (d : Descriptor) (interface : String) : Descriptor :=
  { d with interfaces := d.interfaces ++ [interface] }

/-- The direct supertypes as declared: the superclass, then the interfaces. -/
def declared (d : Descriptor) : List String := d.superName.toList ++ d.interfaces

/-- The direct supertypes, each where it is declared first. -/
def supertypes (d : Descriptor) : List String := d.declared.eraseDups

/-- Whether `name` is declared as a direct supertype. -/
def declares (d : Descriptor) (name : String) : Bool :=
  d.superName = some name || d.interfaces.contains name

/-- The name `new` in the place of `old`, and any other name as it is. -/
def substitute (old new name : String) : String := if name = old then new else name

/-- The definition with `new` for every mention of `old`. -/
def rename (d : Descriptor) (old new : String) : Descriptor where
  name := substitute old new d.name
  superName := d.superName.map (substitute old new)
  interfaces := d.interfaces.map (substitute old new)

/-- The definition written out in full. -/
def text (d : Descriptor) : String :=
  Text.record "ClassDescriptor" [
    ("name", Text.quoted d.name),
    ("super_name", match d.superName with
      | none => "None"
      | some name => "Some(" ++ Text.quoted name ++ ")"),
    ("interfaces", Text.quotedList d.interfaces)]

@[simp]
theorem mem_supertypes {d : Descriptor} {name : String} :
  name ∈ d.supertypes ↔ d.declares name
  := by
  simp [supertypes, declared, declares]

@[simp]
theorem name_rename {d : Descriptor} {old new : String} :
  (d.rename old new).name = substitute old new d.name
  := rfl

/-! ### Declared names and renaming -/

theorem mem_declared {d : Descriptor} {name : String} :
  name ∈ d.declared ↔ d.declares name
  := by
  simp [declared, declares]

theorem declared_rename {d : Descriptor} {old new : String} :
  (d.rename old new).declared = d.declared.map (substitute old new)
  := by
  rw [declared, declared, List.map_append]
  congr 1
  cases h : d.superName <;> simp [rename, h]

/-- What a renamed definition declares are the new names of what it declared. -/
theorem declares_rename {d : Descriptor} {old new name : String} :
  (d.rename old new).declares name ↔ ∃ a, d.declares a ∧ substitute old new a = name
  := by
  rw [← mem_declared, declared_rename, List.mem_map]
  simp only [mem_declared]

theorem substitute_of_ne {old new name : String} (h : name ≠ old) :
  substitute old new name = name
  := if_neg h

theorem substitute_self {old new : String} :
  substitute old new old = new
  := if_pos rfl

/-- A definition that does not mention a name is not changed by renaming it. -/
theorem rename_of_not_declares {d : Descriptor} {old new : String} (hname : d.name ≠ old)
    (h : ¬ d.declares old) :
  d.rename old new = d
  := by
  have hmap : ∀ name ∈ d.declared, substitute old new name = name := by
    intro name hin
    apply substitute_of_ne
    rintro rfl
    exact h (mem_declared.mp hin)
  have hsuper : d.superName.map (substitute old new) = d.superName := by
    cases e : d.superName with
    | none => rfl
    | some name =>
      rw [Option.map_some, hmap name]
      simp [declared, e]
  have hinterfaces : d.interfaces.map (substitute old new) = d.interfaces := by
    apply Eq.trans _ (List.map_id _)
    apply List.map_congr_left
    intro name hin
    apply hmap name (List.mem_append_right _ hin)
  rw [rename, substitute_of_ne hname, hsuper, hinterfaces]

end Descriptor

end Lineage
