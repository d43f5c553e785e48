import Lineage.Descriptor
import Lineage.NameMap

/-!
# Links from supertypes to their direct subtypes

`SubtypeLinks` answers which classes declare a given supertype.  It is kept up to date link
by link as definitions come and go, and it holds links of supertypes that no class defines,
so a class that is defined later finds its subtypes waiting.  A supertype without a subtype
has no entry.
-/

namespace Lineage

/-- The direct subtypes of each supertype that has one. -/
structure SubtypeLinks where
  /-- The set of direct subtypes under each supertype. -/
  table : NameMap NameSet
deriving DecidableEq

namespace SubtypeLinks

/-- No link at all. -/
def empty : SubtypeLinks := ⟨∅⟩

instance : EmptyCollection SubtypeLinks := ⟨empty⟩

instance : Inhabited SubtypeLinks := ⟨empty⟩

/-- The direct subtypes of `parent`. -/
def subtypes (links : SubtypeLinks) (parent : String) : NameSet :=
  (links.table.get? parent).getD ∅

/-- Whether there is no link. -/
def isEmpty (links : SubtypeLinks) : Bool := links.table.isEmpty

/-- The links with the one from `parent` to `child`. -/
def link (links : SubtypeLinks) (child parent : String) : SubtypeLinks :=
  ⟨links.table.insert parent ((links.subtypes parent).insert child)⟩

/-- The links without the one from `parent` to `child`. -/
def unlink (links : SubtypeLinks) (child parent : String) : SubtypeLinks :=
  let remaining := (links.subtypes parent).erase child
  ⟨if remaining.isEmpty then links.table.erase parent
    else links.table.insert parent remaining⟩

/-- The links with all that `d` declares. -/
def insert (links : SubtypeLinks) (d : Descriptor) : SubtypeLinks :=
  d.supertypes.foldl (fun links parent => links.link d.name parent) links

/-- The links without any that `d` declares. -/
def remove (links : SubtypeLinks) (d : Descriptor) : SubtypeLinks :=
  d.supertypes.foldl (fun links parent => links.unlink d.name parent) links

/-- The links that some definitions declare. -/
def ofDescriptors (descriptors : List Descriptor) : SubtypeLinks :=
  descriptors.foldl insert ∅

/-! ### The members of a set of subtypes -/

@[simp]
theorem subtypes_empty (parent : String) :
  (∅ : SubtypeLinks).subtypes parent = ∅
  := rfl

theorem mem_subtypes_link {links : SubtypeLinks} {child parent c p : String} :
  c ∈ (links.link child parent).subtypes p
    ↔ (p = parent ∧ c = child) ∨ c ∈ links.subtypes p
  := by
  by_cases h : p = parent
  · subst h
    simp [link, subtypes]
  · simp [link, subtypes, NameMap.get?_insert, h]

theorem mem_subtypes_unlink {links : SubtypeLinks} {child parent c p : String} :
  c ∈ (links.unlink child parent).subtypes p
    ↔ c ∈ links.subtypes p ∧ ¬ (p = parent ∧ c = child)
  := by
  by_cases h : p = parent
  · subst h
    rw [unlink]
    split
    · rename_i hnone
      have hnone := NameSet.isEmpty_iff.mp hnone c
      simp only [subtypes, NameMap.get?_erase_self, Option.getD_none, NameSet.not_mem_empty,
        NameSet.mem_erase] at hnone ⊢
      grind
    · simp only [subtypes, NameMap.get?_insert_self, Option.getD_some, NameSet.mem_erase]
      grind
  · rw [unlink]
    split
    · simp [subtypes, NameMap.get?_erase, h]
    · simp [subtypes, NameMap.get?_insert, h]

theorem mem_subtypes_foldl_link {links : SubtypeLinks} {child c p : String}
    {parents : List String} :
  c ∈ (parents.foldl (fun links parent => links.link child parent) links).subtypes p
    ↔ (c = child ∧ p ∈ parents) ∨ c ∈ links.subtypes p
  := by
  induction parents generalizing links with
  | nil => simp
  | cons head tail ih =>
    rw [List.foldl_cons, ih, mem_subtypes_link, List.mem_cons]
    grind

theorem mem_subtypes_foldl_unlink {links : SubtypeLinks} {child c p : String}
    {parents : List String} :
  c ∈ (parents.foldl (fun links parent => links.unlink child parent) links).subtypes p
    ↔ c ∈ links.subtypes p ∧ ¬ (c = child ∧ p ∈ parents)
  := by
  induction parents generalizing links with
  | nil => simp
  | cons head tail ih =>
    rw [List.foldl_cons, ih, mem_subtypes_unlink, List.mem_cons]
    grind

/-- A definition adds its own links and no other. -/
theorem mem_subtypes_insert {links : SubtypeLinks} {d : Descriptor} {c p : String} :
  c ∈ (links.insert d).subtypes p ↔ (c = d.name ∧ d.declares p) ∨ c ∈ links.subtypes p
  := by
  rw [insert, mem_subtypes_foldl_link, Descriptor.mem_supertypes]

/-- Taking a definition away takes its own links and no other. -/
theorem mem_subtypes_remove {links : SubtypeLinks} {d : Descriptor} {c p : String} :
  c ∈ (links.remove d).subtypes p ↔ c ∈ links.subtypes p ∧ ¬ (c = d.name ∧ d.declares p)
  := by
  rw [remove, mem_subtypes_foldl_unlink, Descriptor.mem_supertypes]

end SubtypeLinks

end Lineage
