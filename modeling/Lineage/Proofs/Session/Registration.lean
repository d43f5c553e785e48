import Lineage.Proofs.Session.Vertices

/-!
# How long a vertex stays registered

A vertex that is given out for a name is registered for it until an operation `Dismisses` it:
an edit takes the class of that name out of the workspace, by removing or by renaming it, and
the class path has none to take its place.  Nothing else ends the registration, neither
entering the class anew nor shadowing and uncovering it, and nothing brings it back: a vertex
that has been dismissed is never given out again, even when the name comes back and has a
vertex once more (`registered_until_dismissed`).
-/

namespace Lineage.Session

/-- An operation takes the class `name` out of the workspace, and the class path has no class
of that name. -/
def Dismisses (s : Session) (operation : Operation) (name : String) : Prop :=
  s.classPath.lookup name = none
    ∧ ∃ e diff t, operation = .edit e ∧ e.vacated? = some name ∧ s.edit e = .ok (diff, t)

/-- The vertex `id` is given out for `name`, by looking it up or by registering it, and the
session is `t` thereafter. -/
def Obtains (s : Session) (name : String) (id : VertexId) (t : Session) : Prop :=
  s.vertex? name = some id ∧ t = s ∨ s.register name = some (id, t)

variable {s t : Session} {diff : Diff} {id : VertexId} {name a : String}

/-! ### Giving out vertices -/

/-- Registering a name that has a vertex gives this vertex and changes nothing. -/
theorem register_of_vertex? (h : s.vertex? name = some id) :
  s.register name = some (id, s)
  := by
  rw [register, h]

/-- Registering a name gives the vertex that it has, or else makes the next one if the name
resolves. -/
theorem register_cases (h : s.register name = some (id, t)) :
  s.vertex? name = some id ∧ t = s
    ∨ ∃ d, s.vertex? name = none ∧ id = s.vertices.next
      ∧ t = { s with
          registry := ⟨s.registry.vertices.insert name id⟩
          vertices := s.vertices.add d }
  := by
  cases e : s.vertex? name with
  | some id' =>
    rw [register_of_vertex? e] at h
    obtain ⟨rfl, rfl⟩ := Prod.mk.inj (Option.some.inj h)
    exact Or.inl ⟨rfl, rfl⟩
  | none =>
    rw [register, e] at h
    obtain ⟨d, -, h⟩ := Option.map_eq_some_iff.mp h
    rw [Registry.obtain_of_none e] at h
    obtain ⟨rfl, rfl⟩ := Prod.mk.inj h
    exact Or.inr ⟨d, rfl, rfl, rfl⟩

/-- What is given out for a name is registered for it. -/
theorem Obtains.vertex?_eq (h : s.Obtains name id t) :
  t.vertex? name = some id
  := by
  rcases h with ⟨h, rfl⟩ | h
  · apply h
  · rcases register_cases h with ⟨h, rfl⟩ | ⟨d, -, -, rfl⟩
    · apply h
    · apply NameMap.get?_insert_self

theorem Obtains.sound (hs : s.Sound) (h : s.Obtains name id t) :
  t.Sound
  := by
  rcases h with ⟨-, rfl⟩ | h
  · apply hs
  · have hafter := hs.register name
    rw [after, h] at hafter
    apply hafter

/-- A vertex that is there is given out only for a name that it is registered for. -/
theorem Obtains.vertex?_eq_of_some (h : s.Obtains name id t)
    (hid : (s.vertices.get? id).map Vertex.name = some a) :
  s.vertex? name = some id
  := by
  rcases h with ⟨h, -⟩ | h
  · apply h
  · rcases register_cases h with ⟨h, -⟩ | ⟨d, -, rfl, -⟩
    · apply h
    · rw [VertexTable.get?_next] at hid
      exact absurd hid (Option.some_ne_none a).symm

/-! ### The registered vertex after one operation -/

/-- A vertex is registered for a name after an operation exactly if it was so before and is
not dismissed. -/
theorem vertex?_after_iff (hid : (s.vertices.get? id).map Vertex.name = some a)
    (operation : Operation) :
  (s.after operation).vertex? name = some id
    ↔ s.vertex? name = some id ∧ ¬ s.Dismisses operation name
  := by
  cases operation with
  | edit e =>
    rcases s.after_edit_cases e with ⟨diff, t, he, h⟩ | ⟨⟨error, he⟩, h⟩
    · rw [h, vertex?_of_edit he]
      have hdismisses : s.Dismisses (.edit e) name
          ↔ e.vacated? = some name ∧ s.classPath.lookup name = none := by
        constructor
        · rintro ⟨hpath, e', -, -, heq, hvacated, -⟩
          obtain rfl := Operation.edit.inj heq
          exact ⟨hvacated, hpath⟩
        · rintro ⟨hvacated, hpath⟩
          exact ⟨hpath, e, diff, t, rfl, hvacated, he⟩
      rw [hdismisses]
      split
      · rename_i hvacated
        simp [hvacated]
      · rename_i hvacated
        simp [hvacated]
    · rw [h, and_iff_left]
      rintro ⟨-, e', diff, t, heq, -, he'⟩
      obtain rfl := Operation.edit.inj heq
      rw [he] at he'
      cases he'
  | register a' =>
    have hspared : ¬ s.Dismisses (.register a') name := by
      rintro ⟨-, e, diff, t, heq, -⟩
      cases heq
    rw [and_iff_left hspared]
    rcases s.after_register_cases a' with ⟨d, hnone, -, h⟩ | h
    · rw [h]
      change (s.registry.vertices.insert a' s.vertices.next).get? name = some id
        ↔ s.vertex? name = some id
      rw [NameMap.get?_insert]
      split
      · -- the vertex that is just made is another one
        rename_i hname
        rw [hname, hnone]
        constructor
        · intro hnext
          rw [← Option.some.inj hnext, VertexTable.get?_next] at hid
          exact absurd hid (Option.some_ne_none a).symm
        · intro hid
          exact absurd hid (Option.some_ne_none id).symm
      · apply Iff.rfl
    · rw [h]
  | untracked d =>
    rw [and_iff_left]
    · apply Iff.rfl
    · rintro ⟨-, e, diff, t, heq, -⟩
      cases heq
  | setData id' d =>
    rw [and_iff_left]
    · rcases s.after_setData_cases id' d with h | h
      · rw [h]
        apply Iff.rfl
      · rw [h]
    · rintro ⟨-, e, diff, t, heq, -⟩
      cases heq

/-! ### The registered vertex after a run -/

/-- A vertex is registered for a name after a run exactly if it was so before and is dismissed
by no operation of the run. -/
theorem Sound.vertex?_run_iff (hs : s.Sound)
    (hid : (s.vertices.get? id).map Vertex.name = some a) (operations : List Operation) :
  (s.run operations).vertex? name = some id
    ↔ s.vertex? name = some id
      ∧ ∀ k operation, operations[k]? = some operation →
        ¬ (s.run (operations.take k)).Dismisses operation name
  := by
  induction operations generalizing s with
  | nil => simp [Session.run]
  | cons operation rest ih =>
    have hrun : ∀ list, s.run (operation :: list) = (s.after operation).run list := fun _ => rfl
    rw [hrun, ih (hs.after operation) ((hs.evolves_after operation).map_name hid),
      vertex?_after_iff hid, and_assoc]
    apply and_congr_right
    intro _
    constructor
    · rintro ⟨hfirst, hrest⟩ k
      cases k with
      | zero =>
        intro next hnext
        obtain rfl := Option.some.inj hnext
        apply hfirst
      | succ k => apply hrest k
    · intro h
      exact ⟨h 0 operation rfl, fun k => h (k + 1)⟩

/-- Whatever vertex a run begins with: in the session that it leads to, no vertex is given
out that was there and not registered. -/
theorem Sound.not_obtains_of_not_registered (hs : s.Sound)
    (hid : (s.vertices.get? id).map Vertex.name = some name) (hout : s.vertex? name ≠ some id)
    (operations : List Operation) (a : String) (t : Session) :
  ¬ (s.run operations).Obtains a id t
  := by
  intro h
  have hid' := (hs.evolves_run operations).map_name hid
  have hvertex := h.vertex?_eq_of_some hid'
  -- it could only be registered for its own name
  have ha := (hs.run operations).registered hvertex
  rw [hid'] at ha
  obtain rfl := Option.some.inj ha
  apply hout
  apply ((hs.vertex?_run_iff hid operations).mp hvertex).1

/-- A vertex is the registered one of its class exactly if it is registered for its name. -/
theorem isTracked_iff (hid : (s.vertices.get? id).map Vertex.name = some name) :
  s.isTracked id ↔ s.vertex? name = some id
  := by
  obtain ⟨v, hv, rfl⟩ := Option.map_eq_some_iff.mp hid
  rw [isTracked, hv]
  apply decide_eq_true_iff

/-- In every session that can come about, let `id` be the vertex that is given out for a name.
After any run it is registered for the name exactly if no operation of the run has dismissed
it; this is when registering the name gives it again, and when it counts as the registered
vertex of its class.  Once it is not registered any more it is never given out again, for
whatever name. -/
theorem registered_until_dismissed (hs : s.Reachable) (h : s.Obtains name id t)
    (operations : List Operation) :
  let u := t.run operations
  (u.vertex? name = some id ↔ ∀ k operation, operations[k]? = some operation →
      ¬ (t.run (operations.take k)).Dismisses operation name)
    ∧ (u.register name = some (id, u) ↔ u.vertex? name = some id)
    ∧ (u.isTracked id ↔ u.vertex? name = some id)
    ∧ (u.vertex? name ≠ some id → ∀ more a v, ¬ (u.run more).Obtains a id v)
  := by
  intro u
  have ht : t.Sound := h.sound hs.sound
  have hvertex := h.vertex?_eq
  have hbears := ht.registered hvertex
  have hid := (ht.evolves_run operations).map_name hbears
  refine ⟨?_, ?_, ?_, ?_⟩
  · rw [ht.vertex?_run_iff hbears, and_iff_right hvertex]
  · constructor
    · intro hregister
      apply Obtains.vertex?_eq (Or.inr hregister)
    · apply register_of_vertex?
  · apply isTracked_iff hid
  · intro hout more a v
    apply (ht.run operations).not_obtains_of_not_registered hid hout

/-- The class path has a class of the name "R" and none of the name "A".  The vertex of "R" is
kept while the class is shadowed, uncovered, shadowed again and renamed away; that of "A" is
dismissed when the class gets another name, and a class "A" entered anew has another vertex. -/
theorem registered_until_dismissed_renamed :
  let s := (start (Workspace.ofDescriptors [⟨"A", some "R", []⟩])
      (ClassPath.ofDescriptors [⟨"R", none, []⟩]) Options.default).run
    [.register "R", .register "A"]
  let operations : List Operation := [.edit (.put ⟨"R", some "S", []⟩), .edit (.remove "R"),
    .edit (.put ⟨"R", some "T", []⟩), .edit (.rename "R" "Q"), .edit (.rename "A" "B"),
    .edit (.put ⟨"A", none, []⟩), .register "A"]
  let u := s.run operations
  s.Reachable ∧ s.Obtains "R" ⟨0⟩ s ∧ s.Obtains "A" ⟨1⟩ s
    ∧ u.register "R" = some (⟨0⟩, u) ∧ u.register "A" = some (⟨2⟩, u)
    ∧ ∀ more a v, ¬ (u.run more).Obtains a ⟨1⟩ v
  := by
  intro s operations u
  have hs : s.Reachable := (Reachable.opened (.start (Workspace.made_ofDescriptors _) _ _)).run _
  have hr : s.Obtains "R" ⟨0⟩ s := Or.inl ⟨by decide, rfl⟩
  have ha : s.Obtains "A" ⟨1⟩ s := Or.inl ⟨by decide, rfl⟩
  obtain ⟨-, hkept, -, -⟩ := registered_until_dismissed hs hr operations
  obtain ⟨-, -, -, hgone⟩ := registered_until_dismissed hs ha operations
  refine ⟨hs, hr, ha, hkept.mpr (by decide), ?_, hgone (by decide)⟩
  apply register_of_vertex?
  decide

end Lineage.Session
