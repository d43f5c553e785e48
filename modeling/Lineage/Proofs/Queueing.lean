import Lineage.Proofs.Reachability
import Mathlib.Data.List.Nodup

/-!
# Loops over a queue

A `QueueLoop` takes one entry after the other off the front of a queue, and in each turn puts
what it comes upon at the end; it has ended when the queue is empty.  A `Course` is what such
a loop has done so far, with all that it has put into the queue, and `QueueLoop.Ends` says that
it ends, whatever turns it takes, with each name in the queue at most once.  This follows from
an invariant of its turns that bounds their number (`QueueLoop.Invariant.ends`).

A `Search` is such a loop over names, which comes from each name to the successors that an
adjacency gives.  It marks what it puts into the queue, passes over what is marked, and may
pass over its start without having marked it.  All the same it looks at the names that the
adjacency visits, one by one, and so it ends and finds the names that can be reached
(`Search.Settled.ends`).
-/

namespace Lineage

/-- A loop that goes on as long as there is an entry in its queue. -/
structure QueueLoop (W E : Type) where
  /-- The entries that are waiting, in order. -/
  queue : W → List E
  /-- The name of an entry. -/
  name : W → E → String
  /-- What one turn can make of a state. -/
  Turn : W → W → Prop
  /-- A turn takes the first entry off the queue, and puts what it comes upon at the end. -/
  queue_of_turn : ∀ {w next}, Turn w next →
    ∃ current rest added, queue w = current :: rest ∧ queue next = rest ++ added

namespace QueueLoop

variable {W E : Type} {l : QueueLoop W E} {start w : W} {n : Nat} {entered : List E}

/-- From `start` the loop has come to a state in a number of turns, each of which took the
first entry off the queue and put some at its end; `entered` are all entries that have been in
the queue, those of the start included, in order. -/
inductive Course (l : QueueLoop W E) (start : W) : Nat → List E → W → Prop where
  | begin : Course l start 0 (l.queue start) start
  | turn {n : Nat} {entered added rest : List E} {current : E} {w next : W}
      (h : Course l start n entered w) (hqueue : l.queue w = current :: rest)
      (hturn : l.Turn w next) (hadded : l.queue next = rest ++ added) :
      Course l start (n + 1) (entered ++ added) next

/-- The loop ends from `start`, with no name twice in the queue, and with a result. -/
structure Ends (l : QueueLoop W E) (start : W) (Result : W → Prop) : Prop where
  /-- As long as the queue has an entry, there is a next turn, -/
  goes_on : ∀ {n entered w}, l.Course start n entered w → l.queue w ≠ [] → ∃ next, l.Turn w next
  /-- but the loop cannot go on for ever: -/
  bounded : ∃ bound, ∀ {n entered w}, l.Course start n entered w → n ≤ bound
  /-- however far it has come, it comes to an empty queue. -/
  ends : ∀ {n entered w}, l.Course start n entered w →
    ∃ m added last, l.Course start (n + m) (entered ++ added) last ∧ l.queue last = []
  /-- No two entries of one name are put into the queue. -/
  once : ∀ {n entered w}, l.Course start n entered w → (entered.map (l.name w)).Nodup
  /-- When the queue is empty, the result is there. -/
  done : ∀ {n entered w}, l.Course start n entered w → l.queue w = [] → Result w

/-- Every turn that is taken is one of the course. -/
theorem Course.exists_turn {next : W} (h : l.Course start n entered w) (hturn : l.Turn w next) :
  ∃ added, l.Course start (n + 1) (entered ++ added) next
  := by
  obtain ⟨current, rest, added, hqueue, hadded⟩ := l.queue_of_turn hturn
  exact ⟨added, h.turn hqueue hturn hadded⟩

/-- A loop that can always go on, but not for ever, comes to an empty queue. -/
theorem ends_of_goes_on {bound : Nat}
    (hgoes_on : ∀ {n entered w}, l.Course start n entered w → l.queue w ≠ [] →
      ∃ next, l.Turn w next)
    (hbound : ∀ {n entered w}, l.Course start n entered w → n ≤ bound)
    (h : l.Course start n entered w) :
  ∃ m added last, l.Course start (n + m) (entered ++ added) last ∧ l.queue last = []
  := by
  -- by induction on the number of turns that are left
  induction hleft : bound - n generalizing n entered w with
  | zero =>
    have hqueue : l.queue w = [] := by
      by_contra hne
      obtain ⟨next, hturn⟩ := hgoes_on h hne
      obtain ⟨added, hnext⟩ := h.exists_turn hturn
      have := hbound hnext
      omega
    use 0, [], w
    rw [List.append_nil]
    exact ⟨h, hqueue⟩
  | succ left ih =>
    by_cases hqueue : l.queue w = []
    · use 0, [], w
      rw [List.append_nil]
      exact ⟨h, hqueue⟩
    · obtain ⟨next, hturn⟩ := hgoes_on h hqueue
      obtain ⟨added, hnext⟩ := h.exists_turn hturn
      obtain ⟨m, more, last, hlast, hempty⟩ := ih hnext (by omega)
      use 1 + m, added ++ more, last
      rw [← Nat.add_assoc, ← List.append_assoc]
      exact ⟨hlast, hempty⟩

section Ends

variable {Result Result' : W → Prop}

/-- What holds of a loop from its start on, by the number of turns and all entries so far, and
shows that it ends: each turn keeps it, there is a turn as long as the queue has an entry, and
the number of turns is bounded. -/
structure Invariant (l : QueueLoop W E) (start : W) (Result : W → Prop) (bound : Nat)
    (Holds : Nat → List E → W → Prop) : Prop where
  begin : Holds 0 (l.queue start) start
  turn : ∀ {n entered added rest current w next}, Holds n entered w →
    l.queue w = current :: rest → l.Turn w next → l.queue next = rest ++ added →
    Holds (n + 1) (entered ++ added) next
  goes_on : ∀ {n entered rest current w}, Holds n entered w → l.queue w = current :: rest →
    ∃ next, l.Turn w next
  bounded : ∀ {n entered w}, Holds n entered w → n ≤ bound
  once : ∀ {n entered w}, Holds n entered w → (entered.map (l.name w)).Nodup
  done : ∀ {n entered w}, Holds n entered w → l.queue w = [] → Result w

variable {bound : Nat} {Holds : Nat → List E → W → Prop}

theorem Invariant.holds (h : l.Invariant start Result bound Holds)
    (hcourse : l.Course start n entered w) :
  Holds n entered w
  := by
  induction hcourse with
  | begin => exact h.begin
  | turn _ hcons hnext hadded ih => apply h.turn ih hcons hnext hadded

theorem Invariant.ends (h : l.Invariant start Result bound Holds) :
  l.Ends start Result
  := by
  have hbound : ∀ {n entered w}, l.Course start n entered w → n ≤ bound :=
    fun hcourse => h.bounded (h.holds hcourse)
  have hgoes_on : ∀ {n entered w}, l.Course start n entered w → l.queue w ≠ [] →
      ∃ next, l.Turn w next := by
    intro n entered w hcourse hne
    obtain ⟨current, rest, hcons⟩ := List.exists_cons_of_ne_nil hne
    apply h.goes_on (h.holds hcourse) hcons
  constructor
  case goes_on => exact hgoes_on
  case bounded => exact ⟨bound, hbound⟩
  case ends => exact ends_of_goes_on hgoes_on hbound
  case once => exact fun hcourse => h.once (h.holds hcourse)
  case done => exact fun hcourse => h.done (h.holds hcourse)

/-- A loop that starts with an empty queue has ended. -/
theorem ends_of_queue_eq_nil (hqueue : l.queue start = []) (hresult : Result start) :
  l.Ends start Result
  := by
  have hinvariant : l.Invariant start Result 0
      fun n entered w => n = 0 ∧ entered = [] ∧ w = start := by
    constructor
    case begin => exact ⟨rfl, hqueue, rfl⟩
    case turn =>
      rintro n entered added rest current w next ⟨-, -, rfl⟩ hcons
      cases hqueue.symm.trans hcons
    case goes_on =>
      rintro n entered rest current w ⟨-, -, rfl⟩ hcons
      cases hqueue.symm.trans hcons
    case bounded => exact fun h => Nat.le_of_eq h.1
    case once =>
      rintro n entered w ⟨-, rfl, -⟩
      apply List.nodup_nil
    case done =>
      rintro n entered w ⟨-, -, rfl⟩ _
      apply hresult
  apply hinvariant.ends

theorem Ends.imp (h : l.Ends start Result) (himp : ∀ w, Result w → Result' w) :
  l.Ends start Result'
  where
  goes_on := h.goes_on
  bounded := h.bounded
  ends := h.ends
  once := h.once
  done hcourse hempty := himp _ (h.done hcourse hempty)

end Ends

end QueueLoop

/-! ### Each name is visited once -/

namespace Adjacency

variable {a : Adjacency} {reached : NameSet} {names queue : List String} {name start : String}

theorem not_mem_of_mem_discover (h : name ∈ (discover reached names).1) :
  name ∉ reached
  := by
  induction names generalizing reached with
  | nil => exact absurd h List.not_mem_nil
  | cons head tail ih =>
    rw [discover] at h
    split at h
    · apply ih h
    · rename_i hout
      rcases List.mem_cons.mp h with rfl | h
      · apply hout
      · intro hin
        apply ih h
        rw [NameSet.mem_insert]
        exact Or.inr hin

theorem nodup_discover (reached : NameSet) (names : List String) :
  (discover reached names).1.Nodup
  := by
  induction names generalizing reached with
  | nil => apply List.nodup_nil
  | cons head tail ih =>
    rw [discover]
    split
    · apply ih
    · apply List.nodup_cons.mpr
      use fun h => not_mem_of_mem_discover h (NameSet.mem_insert.mpr (Or.inl rfl))
      apply ih

/-- The set after a discovery has what it had before and what has been discovered. -/
theorem mem_discover_snd_iff_fst :
  name ∈ (discover reached names).2 ↔ name ∈ reached ∨ name ∈ (discover reached names).1
  := by
  rw [mem_discover_snd]
  by_cases hin : name ∈ reached
  · simp [hin]
  · simp only [hin, false_or]
    exact ⟨fun h => mem_discover_fst h hin, mem_of_mem_discover⟩

/-- A queue is gone through in its order before anything else. -/
theorem exists_explore_eq_append (a : Adjacency) (reached : NameSet) (queue : List String) :
  ∃ more, a.explore reached queue = queue ++ more
  := by
  fun_induction explore a reached queue with
  | case1 => exact ⟨[], rfl⟩
  | case2 reached current queue found ih =>
    obtain ⟨more, hmore⟩ := ih
    use found.1 ++ more
    rw [hmore, List.append_assoc, List.cons_append]

/-- If the names in the queue have been come upon, each of them once, then no name is looked at
twice. -/
theorem nodup_explore (hqueue : queue.Nodup) (hreached : ∀ name ∈ queue, name ∈ reached) :
  (a.explore reached queue).Nodup
    ∧ ∀ name ∈ a.explore reached queue, name ∈ queue ∨ name ∉ reached
  := by
  fun_induction explore a reached queue with
  | case1 => exact ⟨List.nodup_nil, fun name h => absurd h List.not_mem_nil⟩
  | case2 reached current queue found ih =>
    have hcurrent := hreached current List.mem_cons_self
    have hfound : ∀ {name}, name ∈ found.1 → name ∉ reached := not_mem_of_mem_discover
    obtain ⟨hout, hnodup⟩ := List.nodup_cons.mp hqueue
    obtain ⟨hexplore, hnew⟩ := ih
      (by
        apply List.Nodup.append hnodup (nodup_discover _ _)
        intro name hin hname
        exact hfound hname (hreached name (List.mem_cons_of_mem _ hin)))
      (by
        intro name hname
        apply mem_discover_snd_iff_fst.mpr
        rcases List.mem_append.mp hname with hname | hname
        · exact Or.inl (hreached name (List.mem_cons_of_mem _ hname))
        · exact Or.inr hname)
    -- what is still looked at is in the queue, or has not been come upon before
    have hlater : ∀ name ∈ a.explore found.2 (queue ++ found.1),
        name ∈ queue ∨ name ∉ reached := by
      intro name hname
      rcases hnew name hname with hname | hname
      · exact (List.mem_append.mp hname).imp id hfound
      · exact Or.inr fun hin => hname (mem_discover_snd_iff_fst.mpr (Or.inl hin))
    constructor
    · apply List.nodup_cons.mpr
      exact ⟨fun h => (hlater current h).elim hout (absurd hcurrent), hexplore⟩
    · intro name hname
      rcases List.mem_cons.mp hname with rfl | hname
      · exact Or.inl List.mem_cons_self
      · exact (hlater name hname).imp (List.mem_cons_of_mem _) id

/-- No name is visited twice. -/
theorem nodup_visits (a : Adjacency) (start : String) :
  (a.visits start).Nodup
  := by
  apply (nodup_explore (List.nodup_singleton start) _).1
  intro name hname
  rw [NameSet.mem_insert]
  exact Or.inl (List.mem_singleton.mp hname)

end Adjacency

/-! ### Searches -/

/-- How a search for names goes on. -/
structure Search where
  /-- The names that it comes upon at a name, in order. -/
  next : String → List String
  /-- Whether a name is passed over, though it is not marked. -/
  skips : String → Bool
  /-- Whether a name that is marked is a result. -/
  reports : String → Bool

/-- A search under way. -/
structure Search.State where
  /-- The names marked so far. -/
  marked : NameSet
  /-- The results so far. -/
  found : NameSet
  /-- The names that are still to be looked at, in order. -/
  queue : List String

namespace Search

/-- A name marked and put into the queue, unless it is passed over. -/
def meet (c : Search) (w : State) (name : String) : State :=
  if c.skips name || name ∈ w.marked then w
  else ⟨w.marked.insert name, if c.reports name then w.found.insert name else w.found,
    w.queue ++ [name]⟩

/-- Names that are met go to the end of the queue. -/
theorem prefix_queue_foldl_meet (c : Search) (names : List String) (w : State) :
  w.queue <+: (names.foldl c.meet w).queue
  := by
  apply List.foldlRecOn (motive := fun v : State => w.queue <+: v.queue)
  · apply List.prefix_rfl
  · intro v hv name _
    rw [meet]
    split
    · apply hv
    · apply hv.trans (List.prefix_append _ _)

/-- The loop of a search: the first name is taken off the queue, and what is come upon there is
met. -/
def loop (c : Search) : QueueLoop State String where
  queue := State.queue
  name _ name := name
  Turn w next := ∃ current rest, w.queue = current :: rest
    ∧ next = (c.next current).foldl c.meet { w with queue := rest }
  queue_of_turn := by
    rintro w _ ⟨current, rest, hqueue, rfl⟩
    obtain ⟨added, hadded⟩ :=
      c.prefix_queue_foldl_meet (c.next current) { w with queue := rest }
    exact ⟨current, rest, added, hqueue, hadded.symm⟩

variable {c : Search} {a : Adjacency} {start name : String} {before : NameSet}
variable {w : State} {n : Nat} {entered : List String}

/-- A search that can pass over its start only, and then has it marked or passes over it; what
was found before the start is added to. -/
structure Settled (c : Search) (start : String) (before : NameSet) (w : State) : Prop where
  skips : ∀ {name}, c.skips name = true → name = start
  guarded : c.skips start = true ∨ start ∈ w.marked
  mem_found : ∀ {name}, name ∈ w.found
    ↔ name ∈ before ∨ (name ∈ w.marked ∧ name ≠ start ∧ c.reports name = true)

/-- The names that are passed over are those marked and the start. -/
theorem Settled.passes_iff (h : c.Settled start before w) :
  (c.skips name || decide (name ∈ w.marked)) = true ↔ name ∈ w.marked.insert start
  := by
  rw [Bool.or_eq_true, decide_eq_true_eq, NameSet.mem_insert]
  constructor
  · exact Or.imp h.skips id
  · rintro (rfl | hin)
    · exact h.guarded
    · exact Or.inr hin

theorem Settled.meet (h : c.Settled start before w) (name : String) :
  c.Settled start before (c.meet w name)
  := by
  rw [Search.meet]
  split
  · apply h
  · rename_i hout
    rw [h.passes_iff, NameSet.mem_insert, not_or] at hout
    constructor
    case skips => exact h.skips
    case guarded => exact h.guarded.imp id fun hin => NameSet.mem_insert.mpr (Or.inr hin)
    case mem_found =>
      intro a
      by_cases ha : a = name
      · subst ha
        by_cases hreports : c.reports a = true <;> simp [h.mem_found, hreports, hout]
      · by_cases hreports : c.reports name = true <;> simp [h.mem_found, hreports, ha]

/-- What is come upon is discovered: it enters the queue, and the marks. -/
theorem Settled.foldl_meet (h : c.Settled start before w) (names : List String) :
  (names.foldl c.meet w).queue
      = w.queue ++ (Adjacency.discover (w.marked.insert start) names).1
    ∧ (names.foldl c.meet w).marked.insert start
      = (Adjacency.discover (w.marked.insert start) names).2
  := by
  induction names generalizing w with
  | nil => exact ⟨(List.append_nil _).symm, rfl⟩
  | cons head tail ih =>
    obtain ⟨hqueue, hmarked⟩ := ih (h.meet head)
    rw [List.foldl_cons, hqueue, hmarked, Adjacency.discover, Search.meet]
    by_cases hin : head ∈ w.marked.insert start
    · rw [if_pos (h.passes_iff.mpr hin), if_pos hin]
      exact ⟨rfl, rfl⟩
    · have hinsert : (w.marked.insert head).insert start
          = (w.marked.insert start).insert head := by
        ext name
        simp only [NameSet.mem_insert]
        apply or_left_comm
      rw [if_neg (mt h.passes_iff.mp hin), if_neg hin, hinsert, List.append_assoc]
      exact ⟨rfl, rfl⟩

/-- A search that has looked at some names so far. -/
structure Halfway (c : Search) (a : Adjacency) (start : String) (before : NameSet)
    (asked entered : List String) (w : State) : Prop extends c.Settled start before w where
  entered_eq : entered = asked ++ w.queue
  /-- The names looked at and those yet to come are what the adjacency visits. -/
  visits_eq : asked ++ a.explore (w.marked.insert start) w.queue = a.visits start
  mem_entered : ∀ {name}, name ∈ entered ↔ name ∈ w.marked.insert start

/-- In a turn, a search looks at the next name that is visited. -/
theorem Halfway.turn {asked rest added : List String} {current : String}
    (h : c.Halfway a start before asked entered w) (hnext : c.next = a.next)
    (hqueue : w.queue = current :: rest)
    (hadded : ((c.next current).foldl c.meet { w with queue := rest }).queue = rest ++ added) :
  c.Halfway a start before (asked ++ [current]) (entered ++ added)
    ((c.next current).foldl c.meet { w with queue := rest })
  := by
  have hsettled : c.Settled start before { w with queue := rest } :=
    ⟨h.skips, h.guarded, h.mem_found⟩
  obtain ⟨hfold, hmarked⟩ := hsettled.foldl_meet (c.next current)
  have hdiscovered : (Adjacency.discover (w.marked.insert start) (c.next current)).1 = added := by
    apply List.append_cancel_left (hfold.symm.trans hadded)
  constructor
  case toSettled =>
    apply List.foldlRecOn (motive := c.Settled start before) _ _ hsettled
    intro w hw name _
    apply hw.meet
  case entered_eq => rw [hadded, h.entered_eq, hqueue]; simp
  case visits_eq =>
    rw [← h.visits_eq, hqueue, Adjacency.explore, hmarked, hfold, hnext, List.append_assoc]
    rfl
  case mem_entered =>
    intro name
    rw [hmarked, Adjacency.mem_discover_snd_iff_fst, hdiscovered, List.mem_append, h.mem_entered]

theorem Settled.halfway_start (h : c.Settled start before w) (hqueue : w.queue = [start])
    (hmarked : ∀ name ∈ w.marked, name = start) :
  c.Halfway a start before [] [start] w
  := by
  have hstart : ∀ name, name ∈ w.marked.insert start ↔ name = start := by
    intro name
    rw [NameSet.mem_insert, or_iff_left_of_imp (hmarked name)]
  constructor
  case toSettled => exact h
  case entered_eq => rw [hqueue, List.nil_append]
  case visits_eq =>
    have hset : w.marked.insert start = (∅ : NameSet).insert start := by
      ext name
      rw [hstart, NameSet.mem_insert, or_iff_left (NameSet.not_mem_empty name)]
    rw [hqueue, hset, List.nil_append]
    rfl
  case mem_entered =>
    intro name
    rw [hstart, List.mem_singleton]

theorem Halfway.nodup_entered {asked : List String}
    (h : c.Halfway a start before asked entered w) :
  entered.Nodup
  := by
  obtain ⟨more, hmore⟩ := a.exists_explore_eq_append (w.marked.insert start) w.queue
  have hvisits := a.nodup_visits start
  rw [← h.visits_eq, hmore, ← List.append_assoc, ← h.entered_eq] at hvisits
  apply (List.nodup_append.mp hvisits).1

theorem Halfway.length_asked_le {asked : List String}
    (h : c.Halfway a start before asked entered w) :
  asked.length ≤ (a.visits start).length
  := by
  rw [← h.visits_eq, List.length_append]
  apply Nat.le_add_right

/-- When the queue is empty, all that can be reached has been marked. -/
theorem Halfway.mem_found_iff {asked : List String}
    (h : c.Halfway a start before asked entered w) (hqueue : w.queue = []) :
  name ∈ w.found
    ↔ name ∈ before ∨ (name ∈ a.reach start ∧ name ≠ start ∧ c.reports name = true)
  := by
  have hasked : asked = a.visits start := by
    rw [← h.visits_eq, hqueue, Adjacency.explore, List.append_nil]
  have hreach : name ∈ a.reach start ↔ name = start ∨ name ∈ w.marked := by
    rw [Adjacency.reach, NameSet.mem_ofList, ← hasked, ← NameSet.mem_insert, ← h.mem_entered,
      h.entered_eq, hqueue, List.append_nil]
  rw [h.mem_found, hreach]
  tauto

/-- A search along an adjacency ends, and finds what can be reached from its start.  Whether
the start itself is found, is settled before. -/
theorem Settled.ends {begun : State} (h : c.Settled start before begun)
    (hqueue : begun.queue = [start]) (hmarked : ∀ name ∈ begun.marked, name = start)
    (hnext : c.next = a.next) :
  c.loop.Ends begun fun w => ∀ name, name ∈ w.found
    ↔ name ∈ before ∨ (name ∈ a.reach start ∧ name ≠ start ∧ c.reports name = true)
  := by
  have hinvariant : c.loop.Invariant begun
      (fun w => ∀ name, name ∈ w.found
        ↔ name ∈ before ∨ (name ∈ a.reach start ∧ name ≠ start ∧ c.reports name = true))
      (a.visits start).length
      fun n entered w => ∃ asked, asked.length = n ∧ c.Halfway a start before asked entered w := by
    constructor
    case begin =>
      use [], rfl
      change c.Halfway a start before [] begun.queue begun
      rw [hqueue]
      apply h.halfway_start hqueue hmarked
    case turn =>
      rintro n entered added rest current w _ ⟨asked, hlength, hasked⟩ hcons
        ⟨current', rest', hcons', rfl⟩ hadded
      obtain ⟨rfl, rfl⟩ := List.cons.inj (hcons'.symm.trans hcons)
      refine ⟨asked ++ [current'], ?_, hasked.turn hnext hcons hadded⟩
      rw [List.length_append, hlength, List.length_singleton]
    case goes_on =>
      rintro n entered rest current w - hcons
      exact ⟨_, current, rest, hcons, rfl⟩
    case bounded =>
      rintro n entered w ⟨asked, rfl, hasked⟩
      apply hasked.length_asked_le
    case once =>
      rintro n entered w ⟨asked, -, hasked⟩
      change (entered.map id).Nodup
      rw [List.map_id]
      apply hasked.nodup_entered
    case done =>
      rintro n entered w ⟨asked, -, hasked⟩ hempty name
      apply hasked.mem_found_iff hempty
  apply hinvariant.ends

end Search

end Lineage
