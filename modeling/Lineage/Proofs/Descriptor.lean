import Lineage.Descriptor
import Mathlib.Data.List.Sort

/-!
# The supertypes of a definition

A list keeps the first entries of another one if it has the same entries, in the order in which
they come there first (`KeepsFirst`).  There is one such list, and `List.eraseDups` gives it
(`keepsFirst_iff`).

A definition lists each of its supertypes once, where it declares it first.  Renaming may make
two supertypes one: what a renamed definition lists are the new names of what it listed
before, again each where it comes first (`supertypes_rename`).
-/

namespace Lineage

/-! ### Lists with every entry once -/

section EraseDups

variable {α β : Type} [DecidableEq α] [DecidableEq β]

/-- What holds of the empty list, and of a list once it holds of the later entries that
differ from the first one, holds of every list. -/
theorem eraseDups_induction {motive : List α → Prop} (nil : motive [])
    (cons : ∀ head tail, motive (tail.filter (!· == head)) → motive (head :: tail))
    (list : List α) :
  motive list
  := by
  induction h : list.length using Nat.strongRecOn generalizing list with
  | ind n ih =>
    cases list with
    | nil => apply nil
    | cons head tail =>
      apply cons
      apply ih (tail.filter (!· == head)).length _ _ rfl
      have hle := List.length_filter_le (!· == head) tail
      rw [List.length_cons] at h
      omega

theorem eraseDups_of_nodup {list : List α} (h : list.Nodup) :
  list.eraseDups = list
  := by
  induction list using eraseDups_induction with
  | nil => rfl
  | cons head tail ih =>
    obtain ⟨hhead, htail⟩ := List.nodup_cons.mp h
    have hfilter : tail.filter (!· == head) = tail := by
      apply List.filter_eq_self.mpr
      intro entry hin
      have hne : entry ≠ head := by
        rintro rfl
        exact hhead hin
      simp [hne]
    rw [hfilter] at ih
    rw [List.eraseDups_cons, hfilter, ih htail]

theorem filter_eraseDups (keep : α → Bool) (list : List α) :
  list.eraseDups.filter keep = (list.filter keep).eraseDups
  := by
  induction list using eraseDups_induction with
  | nil => rfl
  | cons head tail ih =>
    rw [List.eraseDups_cons, List.filter_cons, List.filter_cons, ih, List.filter_filter]
    split
    · rw [List.eraseDups_cons, List.filter_filter]
      congr 2
      apply List.filter_congr
      intro entry _
      apply Bool.and_comm
    · rename_i hhead
      -- an entry that is kept is not the first one, which is not
      congr 1
      apply List.filter_congr
      intro entry _
      by_cases he : entry = head
      · simp [he, hhead]
      · simp [he]

/-- Entries that were equal beforehand make no difference to which images come first. -/
theorem eraseDups_map (f : α → β) (list : List α) :
  (list.map f).eraseDups = (list.eraseDups.map f).eraseDups
  := by
  induction list using eraseDups_induction with
  | nil => rfl
  | cons head tail ih =>
    rw [List.map_cons, List.eraseDups_cons, List.eraseDups_cons, List.map_cons,
      List.eraseDups_cons]
    congr 1
    have hmap : (tail.map f).filter (!· == f head)
        = ((tail.filter (!· == head)).map f).filter (!· == f head) := by
      rw [List.filter_map, List.filter_map, List.filter_filter]
      congr 1
      apply List.filter_congr
      intro entry _
      by_cases he : entry = head
      · simp [he]
      · simp [he]
    rw [hmap, ← filter_eraseDups, ← filter_eraseDups, ih]

/-! ### The first entries of a list -/

/-- In `list`, `a` comes first before `b` does. -/
def Precedes (list : List α) (a b : α) : Prop := list.idxOf a < list.idxOf b

variable {list kept kept' : List α}

theorem precedes_irrefl (a : α) :
  ¬ Precedes list a a
  := Nat.lt_irrefl (list.idxOf a)

theorem precedes_asymm {a b : α} (h : Precedes list a b) :
  ¬ Precedes list b a
  := Nat.lt_asymm h

instance : Std.Irrefl (Precedes list) := ⟨precedes_irrefl⟩

instance : Std.Antisymm (Precedes list) := ⟨fun _ _ hab hba => absurd hba (precedes_asymm hab)⟩

/-- The entry in front precedes all others, and leaves these in the order they had. -/
theorem precedes_cons_iff {head a b : α} (hb : b ≠ head) :
  Precedes (head :: list) a b ↔ a = head ∨ Precedes list a b
  := by
  rw [Precedes, List.idxOf_cons_ne list hb.symm]
  by_cases ha : a = head
  · simp [ha]
  · rw [List.idxOf_cons_ne list (Ne.symm ha)]
    simp [ha, Precedes]

/-- `kept` has the entries of `list`, in the order in which they come first. -/
structure KeepsFirst (list kept : List α) : Prop where
  mem_iff : ∀ entry, entry ∈ kept ↔ entry ∈ list
  ordered : kept.Pairwise (Precedes list)

theorem KeepsFirst.nodup (h : KeepsFirst list kept) :
  kept.Nodup
  := h.ordered.nodup

theorem KeepsFirst.unique (h : KeepsFirst list kept) (h' : KeepsFirst list kept') :
  kept = kept'
  := by
  apply h.ordered.eq_of_mem_iff h'.ordered
  intro entry
  rw [h.mem_iff, h'.mem_iff]

theorem keepsFirst_eraseDups (list : List α) :
  KeepsFirst list list.eraseDups
  := by
  constructor
  · intro entry
    apply List.mem_eraseDups
  · -- by induction on `list` itself: what is kept of its tail is kept of it, less the head
    induction list with
    | nil => apply List.Pairwise.nil
    | cons head tail ih =>
      rw [List.eraseDups_cons, ← filter_eraseDups, List.pairwise_cons]
      have hne : ∀ {entry}, entry ∈ tail.eraseDups.filter (!· == head) → entry ≠ head := by
        intro entry hin
        simpa using (List.mem_filter.mp hin).2
      constructor
      · intro entry hin
        apply (precedes_cons_iff (hne hin)).mpr (Or.inl rfl)
      · apply (ih.filter _).imp_of_mem
        intro a b _ hb hab
        apply (precedes_cons_iff (hne hb)).mpr (Or.inr hab)

/-- No other list keeps the first entries than the one without the later repetitions. -/
theorem keepsFirst_iff :
  KeepsFirst list kept ↔ kept = list.eraseDups
  := by
  constructor
  · intro h
    apply h.unique (keepsFirst_eraseDups list)
  · rintro rfl
    apply keepsFirst_eraseDups

end EraseDups

/-! ### Supertypes -/

namespace Descriptor

theorem nodup_supertypes (d : Descriptor) :
  d.supertypes.Nodup
  := (keepsFirst_eraseDups d.declared).nodup

/-- A renamed definition lists the new names of its supertypes, each where it comes first. -/
theorem supertypes_rename (d : Descriptor) (old new : String) :
  (d.rename old new).supertypes = (d.supertypes.map (substitute old new)).eraseDups
  := by
  rw [supertypes, declared_rename, eraseDups_map, supertypes]

/-- A definition lists what it declares as its direct supertypes, each name once and in the order
in which the names are declared first.  Renaming keeps to this: the renamed definition lists what
was listed, with the new name in the place of the old one, each name where it comes first. -/
theorem supertypes_keep_first (d : Descriptor) (old new : String) :
  let replaced := d.supertypes.map fun name => if name = old then new else name
  (d.rename old new).supertypes = replaced.eraseDups
    ∧ KeepsFirst replaced (d.rename old new).supertypes
    ∧ d.supertypes.Nodup
    ∧ KeepsFirst d.declared d.supertypes
    ∧ ∀ name, name ∈ d.supertypes ↔ d.declares name
  := by
  intro replaced
  have hrename : (d.rename old new).supertypes = replaced.eraseDups := d.supertypes_rename old new
  refine ⟨hrename, keepsFirst_iff.mpr hrename, d.nodup_supertypes,
    keepsFirst_eraseDups d.declared, ?_⟩
  intro name
  apply mem_supertypes

/-- Two supertypes become one, which stays in the place of the first of them. -/
example :
  let d : Descriptor := ⟨"C", some "A", ["I", "B", "J", "A"]⟩
  d.supertypes = ["A", "I", "B", "J"] ∧ (d.rename "B" "A").supertypes = ["A", "I", "J"]
  := by decide

end Descriptor

end Lineage
