import Lineage.Proofs.Session.Soundness

/-!
# Registered vertices follow the edits

A name `Follows` when its registered vertex, if it has one, holds the definition that the
name resolves to.  Entering a class and taking one out refresh the vertex of that class, and
a renaming refreshes the vertices of the old name and of the classes that mention it.  The
one vertex an edit forgets is that of the new name of a renaming: it may have been registered
for the class of that name on the class path, which the renamed class then shadows.  A run in
which no renaming `Strands` a vertex in this way, and only such a run, keeps the name
following throughout (`follows_throughout_iff`).
-/

namespace Lineage.Session

/-- The registered vertex of a name, if there is one, holds what the name resolves to. -/
def Follows (s : Session) (name : String) : Prop :=
  ∀ id, s.vertex? name = some id →
    ∃ d, s.vertices.data? id = some d ∧ s.hierarchy.resolve name = some d

/-- The class `old` can be renamed to `new`, and `new` has a registered vertex although the
class path does not define it as the renamed class. -/
def Strands (s : Session) (old new : String) : Prop :=
  ∃ d id, s.workspace.lookup old = some d ∧ s.workspace.lookup new = none
    ∧ s.vertex? new = some id ∧ s.classPath.lookup new ≠ some (d.rename old new)

variable {s t : Session} {diff : Diff} {d : Descriptor} {old new name a : String}

/-! ### Parts of edits -/

/-- What follows depends on the vertex, on what it holds and on what the name resolves to. -/
theorem follows_congr (hvertex : t.vertex? a = s.vertex? a)
    (hdata : ∀ id, s.vertex? a = some id → t.vertices.data? id = s.vertices.data? id)
    (hresolve : t.hierarchy.resolve a = s.hierarchy.resolve a) :
  t.Follows a ↔ s.Follows a
  := by
  apply forall_congr'
  intro id
  rw [hvertex, hresolve]
  apply imp_congr_right
  intro h
  rw [hdata id h]

theorem follows_withWorkspace {w : Workspace} (h : w.lookup a = s.workspace.lookup a) :
  (s.withWorkspace w).Follows a ↔ s.Follows a
  := by
  apply follows_congr
  · rfl
  · intro id _
    rfl
  · change (w.lookup a).or (s.classPath.lookup a) = _
    rw [h]
    rfl

/-- A class that is entered follows, and nothing else changes. -/
theorem follows_define (hs : s.Sound) :
  (s.define d).Follows a ↔ a = d.name ∨ s.Follows a
  := by
  have hlookup : (s.define d).workspace.lookup a
      = if a = d.name then some d else s.workspace.lookup a := Workspace.lookup_insert
  by_cases ha : a = d.name
  · constructor
    · intro _
      apply Or.inl ha
    · intro _ id hid
      rw [ha] at hid
      use d, hs.data?_refreshed_self hid
      apply Hierarchy.resolve_of_lookup
      rw [if_pos ha] at hlookup
      apply hlookup
  · rw [or_iff_right ha]
    apply follows_congr
    · rfl
    · intro id hid
      apply hs.data?_refreshed_of_ne hid ha
    · rw [if_neg ha] at hlookup
      change ((s.define d).workspace.lookup a).or (s.classPath.lookup a) = _
      rw [hlookup]
      rfl

/-- A name that has left the workspace follows, and nothing else changes. -/
theorem follows_release (hs : s.Sound) (hout : s.workspace.lookup name = none) :
  (s.release name).Follows a ↔ a = name ∨ s.Follows a
  := by
  by_cases ha : a = name
  · subst ha
    constructor
    · intro _
      apply Or.inl rfl
    · intro _ id hid
      rw [vertex?_release] at hid
      cases e : s.classPath.lookup a with
      | none =>
        rw [if_pos ⟨rfl, e⟩] at hid
        exact absurd hid (Option.some_ne_none id).symm
      | some d =>
        have hne : s.classPath.lookup a ≠ none := by
          rw [e]
          apply Option.some_ne_none
        rw [if_neg (not_and_of_not_right _ hne)] at hid
        use d
        constructor
        · rw [vertices_release_of_some e]
          apply hs.data?_refreshed_self hid
        · rw [hierarchy_release, Hierarchy.resolve_of_lookup_eq_none hout]
          apply e
  · rw [or_iff_right ha]
    apply follows_congr
    · rw [vertex?_release, if_neg (not_and_of_not_left _ ha)]
    · intro id hid
      cases e : s.classPath.lookup name with
      | none => rw [vertices_release_of_none e]
      | some d =>
        rw [vertices_release_of_some e]
        apply hs.data?_refreshed_of_ne hid ha
    · rw [hierarchy_release]

/-! ### Entering and taking out -/

theorem follows_of_put (hs : s.Sound) (h : s.put d = .ok (diff, t)) :
  t.Follows a ↔ a = d.name ∨ s.Follows a
  := by
  obtain ⟨-, -, rfl⟩ := put_eq_ok_iff.mp h
  apply follows_define hs.advance

theorem follows_of_remove (hs : s.Sound) (h : s.remove name = .ok (diff, t)) :
  t.Follows a ↔ a = name ∨ s.Follows a
  := by
  obtain ⟨d, -, -, rfl⟩ := remove_eq_ok_iff.mp h
  have hsound := hs.advance.withWorkspace (hs.workspace.erase name)
  rw [follows_release hsound]
  · by_cases ha : a = name
    · simp [ha]
    · rw [or_iff_right ha, or_iff_right ha]
      apply follows_withWorkspace (s := s.advance.2)
      rw [Workspace.lookup_erase, if_neg ha]
      rfl
  · apply Eq.trans Workspace.lookup_erase
    rw [if_pos rfl]

/-! ### Renaming -/

theorem follows_moved_of_ne (hs : s.Sound) (hd : s.workspace.lookup old = some d)
    (hnew : s.workspace.lookup new = none) (ha : a ≠ new) :
  (s.moved old new d).Follows a ↔ a = old ∨ s.Follows a
  := by
  have hname : (d.rename old new).name = new := by
    rw [Descriptor.name_rename, hs.workspace.named hd, Descriptor.substitute_self]
  have hlookup : ((s.workspace.erase old).insert (d.rename old new)).lookup a
      = if a = old then none else s.workspace.lookup a := by
    rw [Workspace.lookup_insert, hname, if_neg ha, Workspace.lookup_erase]
  have hne : old ≠ new := by
    rintro rfl
    rw [hd] at hnew
    exact absurd hnew (Option.some_ne_none d)
  have hsound := hs.withWorkspace ((hs.workspace.erase old).insert (d.rename old new))
  rw [moved, follows_release hsound]
  · by_cases ha' : a = old
    · simp [ha']
    · rw [or_iff_right ha', or_iff_right ha']
      apply follows_withWorkspace
      rw [hlookup, if_neg ha']
  · change ((s.workspace.erase old).insert (d.rename old new)).lookup old = none
    rw [Workspace.lookup_insert, hname, if_neg hne, Workspace.lookup_erase, if_pos rfl]

/-- The new name follows exactly when its vertex happens to hold the renamed class. -/
theorem follows_moved_self (hs : s.Sound) (hd : s.workspace.lookup old = some d)
    (hnew : s.workspace.lookup new = none) :
  (s.moved old new d).Follows new
    ↔ ∀ id, s.vertex? new = some id → s.vertices.data? id = some (d.rename old new)
  := by
  have hname : d.name = old := hs.workspace.named hd
  have hne : new ≠ old := by
    rintro rfl
    rw [hd] at hnew
    exact absurd hnew (Option.some_ne_none d)
  have hresolve : (s.moved old new d).hierarchy.resolve new = some (d.rename old new) := by
    apply Hierarchy.resolve_of_lookup
    apply Eq.trans (lookup_moved hname)
    rw [if_pos rfl]
  have hvertex : (s.moved old new d).vertex? new = s.vertex? new := by
    rw [moved, vertex?_release, if_neg (not_and_of_not_left _ hne)]
    rfl
  have hdata : ∀ id, s.vertex? new = some id →
      (s.moved old new d).vertices.data? id = s.vertices.data? id := by
    intro id hid
    have hsound :=
      hs.withWorkspace ((hs.workspace.erase old).insert (d.rename old new))
    rw [moved]
    cases e : s.classPath.lookup old with
    | none => rw [vertices_release_of_none (by apply e)]; rfl
    | some f =>
      rw [vertices_release_of_some (by apply e)]
      apply hsound.data?_refreshed_of_ne hid hne
  apply forall_congr'
  intro id
  rw [hvertex, hresolve]
  apply imp_congr_right
  intro hid
  rw [hdata id hid]
  simp only [Option.some.injEq, exists_eq_right']

theorem Follows.foldl_rewrite (hs : s.Sound) (hf : s.Follows a) (names : List String) :
  (names.foldl (rewrite old new) s).Follows a
  := by
  induction names generalizing s with
  | nil => apply hf
  | cons head tail ih =>
    apply ih (hs.rewrite old new head)
    cases e : s.workspace.lookup head with
    | none =>
      rw [rewrite_of_none e]
      apply hf
    | some d =>
      rw [rewrite_of_some e]
      apply (follows_define hs).mpr (Or.inr hf)

/-- Rewriting other classes makes no difference to a name. -/
theorem follows_foldl_rewrite (hs : s.Sound) {names : List String} (hold : old ∉ names)
    (ha : a ∉ names) :
  (names.foldl (rewrite old new) s).Follows a ↔ s.Follows a
  := by
  induction names generalizing s with
  | nil => apply Iff.rfl
  | cons head tail ih =>
    obtain ⟨hhead, htail⟩ := List.ne_and_not_mem_of_not_mem_cons ha
    obtain ⟨hhead', htail'⟩ := List.ne_and_not_mem_of_not_mem_cons hold
    rw [List.foldl_cons, ih (hs.rewrite old new head) htail' htail]
    cases e : s.workspace.lookup head with
    | none => rw [rewrite_of_none e]
    | some d =>
      have hname : (d.rename old new).name = head := by
        rw [Descriptor.name_rename, hs.workspace.named e,
          Descriptor.substitute_of_ne hhead'.symm]
      rw [rewrite_of_some e, follows_define hs, hname, or_iff_right hhead]

/-- A renaming that succeeds keeps every name following but, perhaps, the new one. -/
theorem Follows.of_rename (hs : s.Sound) (hf : s.Follows a)
    (h : s.rename old new = .ok (diff, t)) (ha : a ≠ new) :
  t.Follows a
  := by
  obtain ⟨d, hd, hnew, rfl⟩ := of_rename_eq_ok h
  apply Follows.foldl_rewrite (hs.advance.moved old new d)
  apply (follows_moved_of_ne hs.advance hd hnew ha).mpr (Or.inr hf)

/-- After a renaming that succeeds the new name follows unless its vertex is stranded. -/
theorem follows_of_rename_self (hs : s.Sound) (hf : s.Follows new)
    (h : s.rename old new = .ok (diff, t)) :
  t.Follows new ↔ ¬ s.Strands old new
  := by
  obtain ⟨d, hd, hnew, rfl⟩ := of_rename_eq_ok h
  have hold : old ∉ (s.mentioning old).toList := not_mem_mentioning_self hs.workspace
  have hout : new ∉ (s.mentioning old).toList := not_mem_mentioning_of_none hs.workspace hnew
  rw [follows_foldl_rewrite (hs.advance.moved old new d) hold hout,
    follows_moved_self hs.advance hd hnew]
  constructor
  · rintro hdata ⟨e, id, he, -, hid, hne⟩
    rw [hd] at he
    obtain rfl := Option.some.inj he
    obtain ⟨f, hf, hresolve⟩ := hf id hid
    rw [Hierarchy.resolve_of_lookup_eq_none hnew] at hresolve
    apply hne
    apply Eq.trans hresolve
    rw [← hf]
    apply hdata id hid
  · intro hstrands id hid
    obtain ⟨f, hf, hresolve⟩ := hf id hid
    rw [Hierarchy.resolve_of_lookup_eq_none hnew] at hresolve
    apply Eq.trans hf
    rw [← hresolve]
    by_contra hne
    apply hstrands
    exact ⟨d, id, hd, hnew, hid, hne⟩

/-! ### Operations and runs -/

/-- A name goes on following through every operation that neither renames a class to it nor
puts a definition into a vertex. -/
theorem Follows.after (hs : s.Sound) (hf : s.Follows a) {operation : Operation}
    (hset : operation.isSetData = false)
    (hrename : ∀ old, operation ≠ .edit (.rename old a)) :
  (s.after operation).Follows a
  := by
  cases operation with
  | edit e =>
    rcases s.after_edit_cases e with ⟨diff, t, he, h⟩ | ⟨-, h⟩
    · rw [h]
      cases e with
      | put d => apply (follows_of_put hs he).mpr (Or.inr hf)
      | remove name => apply (follows_of_remove hs he).mpr (Or.inr hf)
      | rename old new =>
        apply hf.of_rename hs he
        rintro rfl
        exact hrename old rfl
    · rw [h]
      apply hf
  | register name =>
    rcases s.after_register_cases name with ⟨d, -, hd, h⟩ | h
    · rw [h]
      intro id hid
      change (s.registry.vertices.insert name s.vertices.next).get? a = some id at hid
      rw [NameMap.get?_insert] at hid
      split at hid
      · rename_i ha
        rw [← Option.some.inj hid, VertexTable.data?, VertexTable.get?_add, if_pos rfl, ha]
        exact ⟨d, rfl, hd⟩
      · obtain ⟨v, hv, -⟩ := hs.exists_vertex hid
        rw [VertexTable.data?, VertexTable.get?_add_of_some hv, ← hv]
        apply hf id hid
    · rw [h]
      apply hf
  | untracked d =>
    intro id hid
    obtain ⟨v, hv, -⟩ := hs.exists_vertex hid
    change ∃ e, (s.vertices.add d).data? id = some e ∧ s.hierarchy.resolve a = some e
    rw [VertexTable.data?, VertexTable.get?_add_of_some hv, ← hv]
    apply hf id hid
  | setData id d => exact absurd hset Bool.true_eq_false.mp

/-- A name goes on following through a renaming to it unless its vertex is stranded. -/
theorem follows_after_rename (hs : s.Sound) (hf : s.Follows new) :
  (s.after (.edit (.rename old new))).Follows new ↔ ¬ s.Strands old new
  := by
  rcases s.after_edit_cases (.rename old new) with ⟨diff, t, he, h⟩ | ⟨⟨error, he⟩, h⟩
  · rw [h]
    apply follows_of_rename_self hs hf he
  · rw [h]
    constructor
    · rintro - ⟨d, id, hd, hnew, -, -⟩
      have hok := rename_eq_ok_iff.mpr ⟨d, hd, hnew, rfl⟩
      rw [edit, hok] at he
      cases he
    · intro _
      apply hf

/-- In a session that is just opened nothing is registered. -/
theorem Opened.follows (hs : s.Opened) (name : String) :
  s.Follows name
  := by
  cases hs with
  | start hw descriptors options =>
    intro id h
    exact absurd h (Option.some_ne_none id).symm

/-- In a run that puts no definition into a vertex, a name follows throughout exactly when no
renaming of the run strands its vertex. -/
theorem follows_throughout_iff (hs : s.Opened) {operations : List Operation}
    (hset : ∀ operation ∈ operations, operation.isSetData = false) (name : String) :
  (∀ k, (s.run (operations.take k)).Follows name)
    ↔ ∀ k old, operations[k]? = some (.edit (.rename old name)) →
        ¬ (s.run (operations.take k)).Strands old name
  := by
  have hsound : ∀ k, (s.run (operations.take k)).Sound := by
    intro k
    apply ((Reachable.opened hs).run _).sound
  constructor
  · intro h k old hk
    have hnext := h (k + 1)
    rw [run_take_succ s hk] at hnext
    apply (follows_after_rename (hsound k) (h k)).mp hnext
  · intro h k
    induction k with
    | zero => apply hs.follows
    | succ k ih =>
      cases hk : operations[k]? with
      | none =>
        rw [run_take_succ_of_none s hk]
        apply ih
      | some operation =>
        rw [run_take_succ s hk]
        by_cases hrename : ∃ old, operation = .edit (.rename old name)
        · obtain ⟨old, rfl⟩ := hrename
          apply (follows_after_rename (hsound k) ih).mpr (h k old hk)
        · apply ih.after (hsound k) (hset operation (List.mem_of_getElem? hk))
          apply not_exists.mp hrename

/-- A class renamed to a class of the class path that is defined alike: the vertex follows
while it is shadowed, uncovered and shadowed again. -/
theorem follows_throughout_renamed_alike :
  let s := start (Workspace.ofDescriptors [⟨"X", some "S", []⟩])
    (ClassPath.ofDescriptors [⟨"R", some "S", []⟩]) Options.default
  let operations : List Operation := [.register "R", .edit (.put ⟨"R", some "T", []⟩),
    .edit (.remove "R"), .edit (.rename "X" "R")]
  s.Opened ∧ (∀ operation ∈ operations, operation.isSetData = false)
    ∧ ∀ k, (s.run (operations.take k)).Follows "R"
  := by
  intro s operations
  have hs : s.Opened := .start (Workspace.made_ofDescriptors _) _ _
  have hset : ∀ operation ∈ operations, operation.isSetData = false := by
    decide
  refine ⟨hs, hset, ?_⟩
  apply (follows_throughout_iff hs hset "R").mpr
  intro k old hk
  match k with
  | 0 | 1 | 2 => cases hk
  | 3 =>
    obtain rfl : "X" = old := by
      simpa [operations] using hk
    rintro ⟨d, id, hd, -, -, hne⟩
    obtain rfl : (⟨"X", some "S", []⟩ : Descriptor) = d := by
      apply Option.some.inj (Eq.trans _ hd)
      decide
    apply hne
    decide
  | k + 4 => cases hk

/-- A class renamed to a class of the class path that has a vertex: the vertex goes on holding
the class that is now shadowed. -/
theorem not_follows_renamed_shadowing :
  ¬ ((Session.start (Workspace.ofDescriptors [⟨"A", none, []⟩])
      (ClassPath.ofDescriptors [⟨"R", some "S", []⟩]) Options.default).run
    [.register "R", .edit (.rename "A" "R")]).Follows "R"
  := by
  intro h
  obtain ⟨d, hdata, hresolve⟩ := h ⟨0⟩ (by decide)
  rw [← hdata] at hresolve
  revert hresolve
  decide

end Lineage.Session
