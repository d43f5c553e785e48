/-!
# Finite sets of names

A `NameSet` is a list of class names in strictly ascending order, names being compared
code point by code point.  A set has one such list only, so two sets with the same members
are equal (`NameSet.ext`), and reading the list off a set gives its names sorted and
without repetition.
-/

namespace Lineage

/-- A finite set of names, kept as its strictly ascending list. -/
structure NameSet where
  /-- The members, in ascending order. -/
  toList : List String
  ascending : toList.Pairwise (· < ·)
deriving DecidableEq

namespace NameSet

/-! ### Ascending lists -/

/-- The ascending list `names` with `name` put at its place. -/
def insertInto (name : String) : List String → List String
  | [] => [name]
  | head :: tail =>
      if name < head then name :: head :: tail
      else if head < name then head :: insertInto name tail
      else head :: tail

theorem eq_of_not_lt {a b : String} (h₁ : ¬ a < b) (h₂ : ¬ b < a) :
  a = b
  := String.le_antisymm (String.not_lt.mp h₂) (String.not_lt.mp h₁)

theorem mem_insertInto {a name : String} {names : List String} :
  a ∈ insertInto name names ↔ a = name ∨ a ∈ names
  := by
  induction names with
  | nil => simp [insertInto]
  | cons head tail ih =>
    rw [insertInto]
    split
    · simp
    · split
      · simp [ih, or_left_comm]
      · rename_i h₁ h₂
        simp [eq_of_not_lt h₁ h₂]

theorem insertInto_ascending {name : String} {names : List String}
    (h : names.Pairwise (· < ·)) :
  (insertInto name names).Pairwise (· < ·)
  := by
  induction names with
  | nil => simp [insertInto]
  | cons head tail ih =>
    have hhead := List.pairwise_cons.mp h
    rw [insertInto]
    split
    · rename_i hlt
      refine List.pairwise_cons.mpr ⟨fun b hb => ?_, h⟩
      rcases List.mem_cons.mp hb with rfl | hb
      · exact hlt
      · exact String.lt_trans hlt (hhead.1 b hb)
    · split
      · rename_i hlt
        refine List.pairwise_cons.mpr ⟨fun b hb => ?_, ih hhead.2⟩
        rcases mem_insertInto.mp hb with rfl | hb
        · exact hlt
        · exact hhead.1 b hb
      · exact h

/-- Ascending lists with the same members are the same list. -/
theorem ascending_unique {xs ys : List String} (hx : xs.Pairwise (· < ·))
    (hy : ys.Pairwise (· < ·)) (h : ∀ a, a ∈ xs ↔ a ∈ ys) :
  xs = ys
  := by
  induction xs generalizing ys with
  | nil =>
    cases ys with
    | nil => rfl
    | cons y _ => simpa using h y
  | cons x xs ih =>
    cases ys with
    | nil => simpa using h x
    | cons y ys =>
      have hx := List.pairwise_cons.mp hx
      have hy := List.pairwise_cons.mp hy
      have hxy : x = y := by
        rcases List.mem_cons.mp ((h x).mp List.mem_cons_self) with e | hin
        · exact e
        · rcases List.mem_cons.mp ((h y).mpr List.mem_cons_self) with e | hin'
          · exact e.symm
          · exact absurd (hy.1 x hin) (String.lt_asymm (hx.1 y hin'))
      subst hxy
      congr 1
      refine ih hx.2 hy.2 fun a => ⟨fun ha => ?_, fun ha => ?_⟩
      · rcases List.mem_cons.mp ((h a).mp (List.mem_cons_of_mem _ ha)) with rfl | h'
        · exact absurd (hx.1 a ha) (String.lt_irrefl a)
        · exact h'
      · rcases List.mem_cons.mp ((h a).mpr (List.mem_cons_of_mem _ ha)) with rfl | h'
        · exact absurd (hy.1 a ha) (String.lt_irrefl a)
        · exact h'

/-! ### Sets -/

instance : Membership String NameSet where
  mem names name := name ∈ names.toList

instance (name : String) (names : NameSet) : Decidable (name ∈ names) :=
  inferInstanceAs (Decidable (name ∈ names.toList))

@[simp]
theorem mem_toList {name : String} {names : NameSet} :
  name ∈ names.toList ↔ name ∈ names
  := Iff.rfl

/-- A set is determined by its members. -/
@[ext]
theorem ext {s t : NameSet} (h : ∀ name, name ∈ s ↔ name ∈ t) :
  s = t
  := by
  cases s with
  | mk xs hx =>
    cases t with
    | mk ys hy =>
      congr 1
      exact ascending_unique hx hy h

/-- The set with no member. -/
def empty : NameSet := ⟨[], List.Pairwise.nil⟩

instance : EmptyCollection NameSet := ⟨empty⟩

instance : Inhabited NameSet := ⟨empty⟩

@[simp]
theorem not_mem_empty (name : String) :
  name ∉ (∅ : NameSet)
  := List.not_mem_nil

/-- The set with `name` added. -/
def insert (names : NameSet) (name : String) : NameSet :=
  ⟨insertInto name names.toList, insertInto_ascending names.ascending⟩

@[simp]
theorem mem_insert {a name : String} {names : NameSet} :
  a ∈ names.insert name ↔ a = name ∨ a ∈ names
  := mem_insertInto

/-- The members that pass `keep`. -/
def filter (names : NameSet) (keep : String → Bool) : NameSet :=
  ⟨names.toList.filter keep, names.ascending.filter keep⟩

@[simp]
theorem mem_filter {a : String} {names : NameSet} {keep : String → Bool} :
  a ∈ names.filter keep ↔ a ∈ names ∧ keep a
  := List.mem_filter

/-- The set without `name`. -/
def erase (names : NameSet) (name : String) : NameSet :=
  names.filter (· ≠ name)

@[simp]
theorem mem_erase {a name : String} {names : NameSet} :
  a ∈ names.erase name ↔ a ∈ names ∧ a ≠ name
  := by
  simp [erase]

/-- The members of `names` together with the names listed in `more`. -/
def insertMany (names : NameSet) (more : List String) : NameSet :=
  more.foldl insert names

@[simp]
theorem mem_insertMany {a : String} {names : NameSet} {more : List String} :
  a ∈ names.insertMany more ↔ a ∈ names ∨ a ∈ more
  := by
  induction more generalizing names with
  | nil => simp [insertMany]
  | cons head tail ih =>
    have h : names.insertMany (head :: tail) = (names.insert head).insertMany tail := rfl
    rw [h, ih, mem_insert, List.mem_cons]
    grind

/-- The set of the names in a list. -/
def ofList (names : List String) : NameSet :=
  (∅ : NameSet).insertMany names

@[simp]
theorem mem_ofList {a : String} {names : List String} :
  a ∈ ofList names ↔ a ∈ names
  := by
  simp [ofList]

/-- The number of members. -/
def size (names : NameSet) : Nat := names.toList.length

/-- Whether there is no member. -/
def isEmpty (names : NameSet) : Bool := names.toList.isEmpty

theorem nodup (names : NameSet) :
  names.toList.Nodup
  := names.ascending.imp fun h => (String.ne_of_lt h)

theorem isEmpty_iff {names : NameSet} :
  names.isEmpty ↔ ∀ a, a ∉ names
  := by
  rw [isEmpty, List.isEmpty_iff, List.eq_nil_iff_forall_not_mem]
  rfl

end NameSet

end Lineage
