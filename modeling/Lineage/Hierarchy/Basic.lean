import Lineage.Adjacency
import Lineage.Platform
import Lineage.Workspace

/-!
# The class hierarchy

A hierarchy looks names up in the workspace first and on the class path second, so a class
of the workspace shadows one of the same name on the class path: neither the definition nor
the links of the shadowed class show.
-/

namespace Lineage

/-- Settings of a hierarchy. -/
structure Options where
  /-- Whether classes of the class path count among the descendants of a class; classes of
  the workspace always do. -/
  runtimeDescendants : Bool
deriving DecidableEq, Inhabited

/-- The settings that hold unless others are asked for. -/
def Options.default : Options := ⟨false⟩

/-- The source in which a name is found. -/
inductive Origin where
  | workspace
  | runtime
deriving DecidableEq, Inhabited

/-- The two sources of classes and the settings of their hierarchy. -/
structure Hierarchy where
  workspace : Workspace
  classPath : ClassPath
  options : Options
deriving DecidableEq

namespace Hierarchy

/-! ### Resolution -/

/-- The definition that `name` stands for, and where it is found. -/
def locate (h : Hierarchy) (name : String) : Option (Descriptor × Origin) :=
  match h.workspace.lookup name with
  | some d => some (d, .workspace)
  | none => (h.classPath.lookup name).map fun d => (d, .runtime)

/-- The definition that `name` stands for. -/
def resolve (h : Hierarchy) (name : String) : Option Descriptor :=
  (h.workspace.lookup name).or (h.classPath.lookup name)

/-- Whether `name` stands for a class. -/
def resolves (h : Hierarchy) (name : String) : Bool := (h.resolve name).isSome

/-- Whether `name` stands for a class of the class path. -/
def isLibrary (h : Hierarchy) (name : String) : Bool :=
  (h.locate name).any fun found => found.2 = .runtime

/-! ### Direct links -/

/-- The supertypes that `name` declares; none if it does not resolve. -/
def supertypes (h : Hierarchy) (name : String) : List String :=
  match h.resolve name with
  | none => []
  | some d => d.supertypes

/-- The supertypes of `name` that resolve. -/
def knownSupertypes (h : Hierarchy) (name : String) : List String :=
  (h.supertypes name).filter h.resolves

/-- The supertypes of `name` that do not resolve. -/
def missingSupertypes (h : Hierarchy) (name : String) : List String :=
  (h.supertypes name).filter (!h.resolves ·)

/-- The classes that declare `name`, those of the workspace first.  A class of the class path
counts unless one of the workspace shadows it. -/
def subtypes (h : Hierarchy) (name : String) : List String :=
  (h.workspace.subtypes name).toList ++
    ((h.classPath.subtypes name).filter (!h.workspace.contains ·)).toList

/-- The declared link: `child` resolves to a definition that lists `parent`. -/
def Declares (h : Hierarchy) (child parent : String) : Prop :=
  ∃ d, h.resolve child = some d ∧ d.declares parent

theorem mem_supertypes {h : Hierarchy} {name parent : String} :
  parent ∈ h.supertypes name ↔ h.Declares name parent
  := by
  rw [supertypes, Declares]
  cases h.resolve name <;> simp

theorem mem_knownSupertypes {h : Hierarchy} {name parent : String} :
  parent ∈ h.knownSupertypes name ↔ h.Declares name parent ∧ h.resolves parent
  := by
  rw [knownSupertypes, List.mem_filter, mem_supertypes]

/-! ### The finite range of the links -/

/-- The supertypes declared by any class of either source. -/
def declaredNames (h : Hierarchy) : List String :=
  (h.workspace.classes.values ++ h.classPath.classes.values).flatMap Descriptor.supertypes

/-- The subtypes linked to any name in either source. -/
def linkedNames (h : Hierarchy) : List String :=
  (h.workspace.links.table.values ++ h.classPath.links.table.values).flatMap NameSet.toList

theorem mem_declaredNames {h : Hierarchy} {name parent : String}
    (hp : parent ∈ h.supertypes name) :
  parent ∈ h.declaredNames
  := by
  obtain ⟨d, hd, hdeclares⟩ := mem_supertypes.mp hp
  refine List.mem_flatMap.mpr ⟨d, List.mem_append.mpr ?_, Descriptor.mem_supertypes.mpr hdeclares⟩
  rcases Option.or_eq_some_iff.mp hd with hd | ⟨-, hd⟩
  · exact Or.inl (NameMap.mem_values_of_get? hd)
  · exact Or.inr (NameMap.mem_values_of_get? hd)

theorem mem_values_of_mem_subtypes {links : SubtypeLinks} {parent child : String}
    (hc : child ∈ links.subtypes parent) :
  ∃ children ∈ links.table.values, child ∈ children.toList
  := by
  rw [SubtypeLinks.subtypes] at hc
  cases e : links.table.get? parent with
  | none => simp [e] at hc
  | some children => exact ⟨children, NameMap.mem_values_of_get? e, by simpa [e] using hc⟩

theorem mem_linkedNames {h : Hierarchy} {name child : String} (hc : child ∈ h.subtypes name) :
  child ∈ h.linkedNames
  := by
  rcases List.mem_append.mp hc with hc | hc
  · obtain ⟨children, hin, hchild⟩ := mem_values_of_mem_subtypes (NameSet.mem_toList.mp hc)
    exact List.mem_flatMap.mpr ⟨children, List.mem_append_left _ hin, hchild⟩
  · obtain ⟨children, hin, hchild⟩ :=
      mem_values_of_mem_subtypes (NameSet.mem_filter.mp (NameSet.mem_toList.mp hc)).1
    exact List.mem_flatMap.mpr ⟨children, List.mem_append_right _ hin, hchild⟩

end Hierarchy

end Lineage
