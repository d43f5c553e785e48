import Lineage.NameSet

/-!
# Breadth-first search among names

An `Adjacency` gives each name its successors, all of them within one finite list.  The
search keeps the set of names it has come upon and a queue of those it has still to look at;
a name enters the set and the queue together, and only once.  What is outside the set within
the finite list shrinks as the queue grows, so the search ends, however the successors
run in circles.
-/

namespace Lineage

/-- The successors of each name, all within one finite list. -/
structure Adjacency where
  /-- The successors of a name, in the order they are looked at. -/
  next : String → List String
  bounded : ∃ range : List String, ∀ name, ∀ successor ∈ next name, successor ∈ range

namespace Adjacency

/-- The names of a list that are not in the set yet, each once, and the set with them. -/
def discover (reached : NameSet) : List String → List String × NameSet
  | [] => ([], reached)
  | name :: rest =>
      if name ∈ reached then discover reached rest
      else
        let found := discover (reached.insert name) rest
        (name :: found.1, found.2)

/-- The number of entries of `range` that the set has not reached. -/
def unreached (range : List String) (reached : NameSet) : Nat :=
  (range.filter (· ∉ reached)).length

theorem unreached_insert_le {range : List String} {reached : NameSet} {name : String} :
  unreached range (reached.insert name) ≤ unreached range reached
  := by
  induction range with
  | nil => simp [unreached]
  | cons head tail ih =>
    simp only [unreached, List.filter_cons, NameSet.mem_insert] at ih ⊢
    grind

theorem unreached_insert_lt {range : List String} {reached : NameSet} {name : String}
    (hin : name ∈ range) (hout : name ∉ reached) :
  unreached range (reached.insert name) < unreached range reached
  := by
  induction range with
  | nil => simp at hin
  | cons head tail ih =>
    have hle := @unreached_insert_le tail reached name
    simp only [unreached, List.filter_cons, NameSet.mem_insert] at ih hle ⊢
    grind

/-- Each name discovered leaves one entry fewer to reach. -/
theorem unreached_discover {range : List String} {reached : NameSet} {names : List String}
    (h : ∀ name ∈ names, name ∈ range) :
  unreached range (discover reached names).2 + (discover reached names).1.length
    ≤ unreached range reached
  := by
  induction names generalizing reached with
  | nil => simp [discover]
  | cons head tail ih =>
    have htail : ∀ name ∈ tail, name ∈ range := fun name hname =>
      h name (List.mem_cons_of_mem _ hname)
    rw [discover]
    split
    · exact ih htail
    · rename_i hout
      have hlt := unreached_insert_lt (h head List.mem_cons_self) hout
      have := @ih (reached.insert head) htail
      simp only [List.length_cons]
      omega

/-- The names looked at from a queue on, in order, given the set of those come upon. -/
def explore (a : Adjacency) (reached : NameSet) : List String → List String
  | [] => []
  | current :: queue =>
      let found := discover reached (a.next current)
      current :: explore a found.2 (queue ++ found.1)
termination_by queue => 2 * unreached a.bounded.choose reached + queue.length
decreasing_by
  have := @unreached_discover _ reached _ (a.bounded.choose_spec current)
  simp only [List.length_append, List.length_cons]
  omega

/-- The names that the search from `start` looks at, in order. -/
def visits (a : Adjacency) (start : String) : List String :=
  a.explore ((∅ : NameSet).insert start) [start]

/-- The names that the search from `start` reaches, `start` included. -/
def reach (a : Adjacency) (start : String) : NameSet :=
  NameSet.ofList (a.visits start)

/-! ### Nothing beyond the start and the successors is reached -/

theorem mem_of_mem_discover {reached : NameSet} {names : List String} {name : String}
    (h : name ∈ (discover reached names).1) :
  name ∈ names
  := by
  induction names generalizing reached with
  | nil => simp [discover] at h
  | cons head tail ih =>
    rw [discover] at h
    split at h
    · exact List.mem_cons_of_mem _ (ih h)
    · rcases List.mem_cons.mp h with rfl | h
      · exact List.mem_cons_self
      · exact List.mem_cons_of_mem _ (ih h)

theorem mem_explore {a : Adjacency} {reached : NameSet} {queue : List String} {name : String}
    (h : name ∈ a.explore reached queue) :
  name ∈ queue ∨ ∃ source, name ∈ a.next source
  := by
  fun_induction explore a reached queue with
  | case1 => simp at h
  | case2 reached current queue found ih =>
    rcases List.mem_cons.mp h with rfl | h
    · exact Or.inl List.mem_cons_self
    · rcases ih h with h | h
      · rcases List.mem_append.mp h with h | h
        · exact Or.inl (List.mem_cons_of_mem _ h)
        · exact Or.inr ⟨current, mem_of_mem_discover h⟩
      · exact Or.inr h

theorem mem_reach_imp {a : Adjacency} {start name : String} (h : name ∈ a.reach start) :
  name = start ∨ ∃ source, name ∈ a.next source
  := by
  rcases mem_explore (NameSet.mem_ofList.mp h) with h | h
  · exact Or.inl (List.mem_singleton.mp h)
  · exact Or.inr h

end Adjacency

end Lineage
