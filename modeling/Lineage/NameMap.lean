import Lineage.NameSet

/-!
# Finite maps from names

A `NameMap V` is an association list whose keys ascend strictly.  A map has one such list
only, so two maps that answer every look-up alike are equal (`NameMap.ext`).
-/

namespace Lineage

/-- A finite map from names to `V`, kept as its list of entries with ascending keys. -/
structure NameMap (V : Type) where
  /-- The entries, by ascending key. -/
  entries : List (String × V)
  ascending : entries.Pairwise (fun e f => e.1 < f.1)
deriving DecidableEq

namespace NameMap

variable {V : Type}

/-! ### Ascending entries -/

/-- The value that the first entry under `name` has. -/
def find (name : String) : List (String × V) → Option V
  | [] => none
  | (key, value) :: tail => if key = name then some value else find name tail

/-- The ascending entries with `value` put under `name`, in place of what was there. -/
def put (name : String) (value : V) : List (String × V) → List (String × V)
  | [] => [(name, value)]
  | (key, old) :: tail =>
      if name < key then (name, value) :: (key, old) :: tail
      else if key < name then (key, old) :: put name value tail
      else (name, value) :: tail

theorem fst_of_mem_put {name : String} {value : V} {entries : List (String × V)}
    {e : String × V} (h : e ∈ put name value entries) :
  e.1 = name ∨ e ∈ entries
  := by
  induction entries with
  | nil => simp_all [put]
  | cons head tail ih =>
    rw [put] at h
    split at h
    · simp only [List.mem_cons] at h ⊢
      grind
    · split at h
      · simp only [List.mem_cons] at h ⊢
        grind
      · simp only [List.mem_cons] at h ⊢
        grind

theorem put_ascending {name : String} {value : V} {entries : List (String × V)}
    (h : entries.Pairwise (fun e f => e.1 < f.1)) :
  (put name value entries).Pairwise (fun e f => e.1 < f.1)
  := by
  induction entries with
  | nil => simp [put]
  | cons head tail ih =>
    have hhead := List.pairwise_cons.mp h
    rw [put]
    split
    · rename_i hlt
      refine List.pairwise_cons.mpr ⟨fun e he => ?_, h⟩
      rcases List.mem_cons.mp he with rfl | he
      · exact hlt
      · exact String.lt_trans hlt (hhead.1 e he)
    · split
      · rename_i hlt
        refine List.pairwise_cons.mpr ⟨fun e he => ?_, ih hhead.2⟩
        rcases fst_of_mem_put he with e' | he
        · exact e' ▸ hlt
        · exact hhead.1 e he
      · rename_i h₁ h₂
        have e := NameSet.eq_of_not_lt h₁ h₂
        exact List.pairwise_cons.mpr ⟨fun f hf => e ▸ hhead.1 f hf, hhead.2⟩

theorem find_put {a name : String} {value : V} {entries : List (String × V)} :
  find a (put name value entries) = if a = name then some value else find a entries
  := by
  induction entries with
  | nil => simp [put, find, eq_comm]
  | cons head tail ih =>
    rw [put]
    split
    · grind [find]
    · split
      · grind [find, String.lt_irrefl]
      · rename_i h₁ h₂
        have e := NameSet.eq_of_not_lt h₁ h₂
        grind [find]

theorem find_eq_none_of_lt {name : String} {entries : List (String × V)}
    (h : ∀ e ∈ entries, name < e.1) :
  find name entries = none
  := by
  induction entries with
  | nil => rfl
  | cons head tail ih =>
    have hne : head.1 ≠ name := fun e =>
      String.lt_irrefl name (e ▸ h head List.mem_cons_self)
    rw [find, if_neg hne]
    exact ih fun e he => h e (List.mem_cons_of_mem _ he)

/-- Ascending entries with the same answers are the same entries. -/
theorem entries_unique {xs ys : List (String × V)}
    (hx : xs.Pairwise (fun e f => e.1 < f.1)) (hy : ys.Pairwise (fun e f => e.1 < f.1))
    (h : ∀ a, find a xs = find a ys) :
  xs = ys
  := by
  induction xs generalizing ys with
  | nil =>
    cases ys with
    | nil => rfl
    | cons y _ => simpa [find] using h y.1
  | cons x xs ih =>
    cases ys with
    | nil => simpa [find] using h x.1
    | cons y ys =>
      have hx := List.pairwise_cons.mp hx
      have hy := List.pairwise_cons.mp hy
      have hnone : ∀ {z : String × V} {zs : List (String × V)} {a : String},
          (∀ e ∈ zs, z.1 < e.1) → a < z.1 → find a (z :: zs) = none := by
        intro z zs a hz ha
        refine find_eq_none_of_lt fun e he => ?_
        rcases List.mem_cons.mp he with rfl | he
        · exact ha
        · exact String.lt_trans ha (hz e he)
      have hkey : x.1 = y.1 := by
        refine NameSet.eq_of_not_lt (fun hlt => ?_) fun hlt => ?_
        · have := h x.1
          rw [hnone hy.1 hlt] at this
          simp [find] at this
        · have := h y.1
          rw [hnone hx.1 hlt] at this
          simp [find] at this
      have hvalue : x = y := by
        have := h x.1
        simp only [find, hkey, if_true, Option.some.injEq] at this
        exact Prod.ext hkey this
      subst hvalue
      congr 1
      refine ih hx.2 hy.2 fun a => ?_
      by_cases ha : x.1 = a
      · subst ha
        rw [find_eq_none_of_lt hx.1, find_eq_none_of_lt hy.1]
      · simpa [find, ha] using h a

/-! ### Maps -/

/-- The map with no entry. -/
def empty : NameMap V := ⟨[], List.Pairwise.nil⟩

instance : EmptyCollection (NameMap V) := ⟨empty⟩

instance : Inhabited (NameMap V) := ⟨empty⟩

/-- The value under `name`. -/
def get? (m : NameMap V) (name : String) : Option V := find name m.entries

/-- Whether there is a value under `name`. -/
def contains (m : NameMap V) (name : String) : Bool := (m.get? name).isSome

/-- The map with `value` under `name`. -/
def insert (m : NameMap V) (name : String) (value : V) : NameMap V :=
  ⟨put name value m.entries, put_ascending m.ascending⟩

/-- The map with nothing under `name`. -/
def erase (m : NameMap V) (name : String) : NameMap V :=
  ⟨m.entries.filter (fun e => e.1 ≠ name), m.ascending.filter _⟩

/-- The keys, in ascending order. -/
def keys (m : NameMap V) : NameSet :=
  ⟨m.entries.map Prod.fst, List.pairwise_map.mpr m.ascending⟩

/-- The values, by ascending key. -/
def values (m : NameMap V) : List V := m.entries.map Prod.snd

/-- The number of entries. -/
def size (m : NameMap V) : Nat := m.entries.length

/-- Whether there is no entry. -/
def isEmpty (m : NameMap V) : Bool := m.entries.isEmpty

/-- A map is determined by its answers. -/
@[ext]
theorem ext {m n : NameMap V} (h : ∀ name, m.get? name = n.get? name) :
  m = n
  := by
  cases m with
  | mk xs hx =>
    cases n with
    | mk ys hy =>
      congr 1
      exact entries_unique hx hy h

@[simp]
theorem get?_empty (name : String) :
  (∅ : NameMap V).get? name = none
  := rfl

theorem get?_insert {m : NameMap V} {a name : String} {value : V} :
  (m.insert name value).get? a = if a = name then some value else m.get? a
  := find_put

@[simp]
theorem get?_insert_self {m : NameMap V} {name : String} {value : V} :
  (m.insert name value).get? name = some value
  := by
  simp [get?_insert]

theorem find_filter {a name : String} {entries : List (String × V)} :
  find a (entries.filter (fun e => e.1 ≠ name)) = if a = name then none else find a entries
  := by
  induction entries with
  | nil => simp [find]
  | cons head tail ih => grind [find]

theorem get?_erase {m : NameMap V} {a name : String} :
  (m.erase name).get? a = if a = name then none else m.get? a
  := find_filter

@[simp]
theorem get?_erase_self {m : NameMap V} {name : String} :
  (m.erase name).get? name = none
  := by
  simp [get?_erase]

theorem find_isSome {a : String} {entries : List (String × V)} :
  (find a entries).isSome ↔ a ∈ entries.map Prod.fst
  := by
  induction entries with
  | nil => simp [find]
  | cons head tail ih => grind [find]

theorem contains_iff {m : NameMap V} {name : String} :
  m.contains name ↔ ∃ value, m.get? name = some value
  := Option.isSome_iff_exists

@[simp]
theorem mem_keys {m : NameMap V} {name : String} :
  name ∈ m.keys ↔ m.contains name
  := find_isSome.symm

@[simp]
theorem size_keys {m : NameMap V} :
  m.keys.size = m.size
  := List.length_map _

theorem find_eq_some_iff {a : String} {v : V} {entries : List (String × V)}
    (h : entries.Pairwise (fun e f => e.1 < f.1)) :
  find a entries = some v ↔ (a, v) ∈ entries
  := by
  induction entries with
  | nil => simp [find]
  | cons head tail ih =>
    have h := List.pairwise_cons.mp h
    by_cases e : head.1 = a
    · subst e
      rw [find, if_pos rfl, List.mem_cons]
      refine ⟨fun hv => Or.inl (by grind), fun hv => ?_⟩
      rcases hv with hv | hv
      · rw [← hv]
      · exact absurd (h.1 _ hv) (String.lt_irrefl _)
    · rw [find, if_neg e, ih h.2, List.mem_cons]
      grind

theorem mem_entries {m : NameMap V} {name : String} {value : V} :
  (name, value) ∈ m.entries ↔ m.get? name = some value
  := (find_eq_some_iff m.ascending).symm

theorem mem_values_of_get? {m : NameMap V} {name : String} {value : V}
    (h : m.get? name = some value) :
  value ∈ m.values
  := List.mem_map_of_mem (mem_entries.mpr h)

@[simp]
theorem mem_values {m : NameMap V} {value : V} :
  value ∈ m.values ↔ ∃ name, m.get? name = some value
  := by
  rw [values, List.mem_map]
  constructor
  · rintro ⟨⟨name, value⟩, hin, rfl⟩
    exact ⟨name, mem_entries.mp hin⟩
  · rintro ⟨name, h⟩
    exact ⟨(name, value), mem_entries.mpr h, rfl⟩

theorem isEmpty_iff {m : NameMap V} :
  m.isEmpty ↔ ∀ name, m.get? name = none
  := by
  rw [isEmpty, List.isEmpty_iff]
  refine ⟨fun h name => ?_, fun h => ?_⟩
  · rw [get?, h, find]
  · have : m = ∅ := ext h
    rw [this]
    rfl

end NameMap

end Lineage
