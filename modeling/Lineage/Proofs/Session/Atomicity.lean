import Lineage.Proofs.Session.InPlace

/-!
# Atomicity

A session is `Atomic`: every edit of it is refused for one of the known causes and changes
nothing, or succeeds and takes the next number.  The numbers of the edits that succeed in a
run are 1, 2, 3 and so on, whatever is refused between them.
-/

namespace Lineage.Session

variable {s t : Session} {diff : Diff}

/-! ### The numbers of edits -/

theorem sequence_release (s : Session) (name : String) :
  (s.release name).sequence = s.sequence
  := by
  rw [release]
  split <;> rfl

/-- Redirecting classes is part of one edit and has no number of its own. -/
theorem sequence_foldl_redirect (old new : String) (names : List String)
    (state : Diff × Session) :
  (names.foldl (redirect old new) state).1.sequence = state.1.sequence
    ∧ (names.foldl (redirect old new) state).2.sequence = state.2.sequence
  := by
  induction names generalizing state with
  | nil => exact ⟨rfl, rfl⟩
  | cons head tail ih =>
    obtain ⟨hdiff, hsession⟩ := ih (redirect old new state head)
    rw [List.foldl_cons, hdiff, hsession]
    cases h : state.2.workspace.lookup head with
    | none =>
      rw [redirect_of_none h]
      exact ⟨rfl, rfl⟩
    | some d =>
      rw [redirect_of_some h]
      exact ⟨Diff.sequence_record _ _, rfl⟩

/-- An edit that succeeds takes the next number. -/
theorem sequence_of_edit {e : Edit} (h : s.edit e = .ok (diff, t)) :
  diff.sequence = s.sequence + 1 ∧ t.sequence = s.sequence + 1
  := by
  cases e with
  | put d =>
    obtain ⟨-, rfl, rfl⟩ := put_eq_ok_iff.mp h
    exact ⟨Diff.sequence_record _ _, rfl⟩
  | remove name =>
    obtain ⟨d, -, rfl, rfl⟩ := remove_eq_ok_iff.mp h
    exact ⟨Diff.sequence_record _ _, sequence_release _ _⟩
  | rename old new =>
    obtain ⟨d, -, -, ht⟩ := rename_eq_ok_iff.mp h
    obtain ⟨rfl, rfl⟩ := Prod.mk.inj ht
    obtain ⟨hdiff, hsession⟩ := sequence_foldl_redirect old new (s.mentioning old).toList
      (s.advance.1.record (some d) (some (d.rename old new)), s.advance.2.moved old new d)
    rw [hdiff, hsession]
    exact ⟨Diff.sequence_record _ _, sequence_release _ _⟩

/-- An operation with a diff takes the next number. -/
theorem sequence_of_diff?_eq_some {operation : Operation} (h : s.diff? operation = some diff) :
  diff.sequence = s.sequence + 1 ∧ (s.after operation).sequence = s.sequence + 1
  := by
  cases operation with
  | edit e =>
    rcases s.after_edit_cases e with ⟨diff', t, he, ht⟩ | ⟨⟨error, he⟩, -⟩
    · rw [diff?, he] at h
      obtain rfl := Option.some.inj h
      rw [ht]
      apply sequence_of_edit he
    · rw [diff?, he] at h
      exact absurd h (Option.some_ne_none diff).symm
  | register | untracked | setData => exact absurd h (Option.some_ne_none diff).symm

/-- An operation without a diff takes no number. -/
theorem sequence_of_diff?_eq_none {operation : Operation} (h : s.diff? operation = none) :
  (s.after operation).sequence = s.sequence
  := by
  cases operation with
  | edit e =>
    rcases s.after_edit_cases e with ⟨diff, t, he, -⟩ | ⟨-, ht⟩
    · rw [diff?, he] at h
      exact absurd h (Option.some_ne_none diff)
    · rw [ht]
  | register name =>
    rcases s.after_register_cases name with ⟨d, -, -, h⟩ | h
    · rw [h]
    · rw [h]
  | untracked d => rfl
  | setData id d =>
    rcases s.after_setData_cases id d with h | h
    · rw [h]
    · rw [h]

/-- The diffs of a run have the numbers that follow, one after the other. -/
theorem sequence_of_getElem?_diffs {operations : List Operation} {k : Nat}
    (h : (s.diffs operations)[k]? = some diff) :
  diff.sequence = s.sequence + UInt64.ofNat (k + 1)
  := by
  induction operations generalizing s k with
  | nil => exact absurd h (Option.some_ne_none diff).symm
  | cons operation rest ih =>
    rw [diffs] at h
    cases hdiff : s.diff? operation with
    | none =>
      rw [hdiff, Option.toList_none, List.nil_append] at h
      rw [ih h, sequence_of_diff?_eq_none hdiff]
    | some first =>
      obtain ⟨hfirst, hafter⟩ := sequence_of_diff?_eq_some hdiff
      rw [hdiff, Option.toList_some, List.singleton_append] at h
      cases k with
      | zero =>
        obtain rfl := Option.some.inj h
        apply hfirst
      | succ k =>
        rw [List.getElem?_cons_succ] at h
        rw [ih h, hafter, UInt64.ofNat_add (k + 1), UInt64.add_assoc, UInt64.add_comm 1]
        rfl

/-- A run counts the edits that succeed. -/
theorem sequence_run (s : Session) (operations : List Operation) :
  (s.run operations).sequence = s.sequence + UInt64.ofNat (s.diffs operations).length
  := by
  induction operations generalizing s with
  | nil => apply (UInt64.add_zero s.sequence).symm
  | cons operation rest ih =>
    have hrest : (s.run (operation :: rest)).sequence
        = (s.after operation).sequence + UInt64.ofNat ((s.after operation).diffs rest).length :=
      ih (s.after operation)
    rw [hrest, diffs, List.length_append]
    cases hdiff : s.diff? operation with
    | none =>
      rw [sequence_of_diff?_eq_none hdiff, Option.toList_none, List.length_nil, Nat.zero_add]
    | some first =>
      rw [(sequence_of_diff?_eq_some hdiff).2, Option.toList_some, List.length_singleton,
        UInt64.ofNat_add, UInt64.add_assoc]
      rfl

theorem Opened.sequence (hs : s.Opened) :
  s.sequence = 0
  := by
  cases hs
  rfl

/-! ### Atomicity -/

/-- Each edit of a session is either refused, for one cause, and changes nothing, or succeeds
and has the next number. -/
structure Atomic (s : Session) : Prop where
  /-- Putting a class is refused exactly if it lists its own name. -/
  put_refused : ∀ d error, s.put d = .error error
    ↔ d.name ∈ d.supertypes ∧ error = .selfInheritance d.name
  /-- Removing a class is refused exactly if it is not in the workspace. -/
  remove_refused : ∀ name error, s.remove name = .error error
    ↔ s.workspace.contains name = false ∧ error = .classNotFound name
  /-- Renaming a class is refused exactly if it is not in the workspace, or if it is there and
  one of the new name is as well. -/
  rename_refused : ∀ old new error, s.rename old new = .error error
    ↔ s.workspace.contains old = false ∧ error = .classNotFound old
      ∨ s.workspace.contains old = true ∧ s.workspace.contains new = true
        ∧ error = .classExists new
  /-- A definition is refused by a vertex exactly if it is of another class. -/
  setData_refused : ∀ id d error, s.setData id d = .error error
    ↔ ∃ v, s.vertices.get? id = some v ∧ d.name ≠ v.name
      ∧ error = .nameMismatch v.name d.name
  /-- An edit that is refused, done in place, leaves all of the session as it was. -/
  unchanged : ∀ e error, s.edit e = .error error
    → e.inPlace.perform s = (.error error, s) ∧ s.after (.edit e) = s
  /-- A definition that is refused leaves all of the session as it was. -/
  setData_unchanged : ∀ id d error, s.setData id d = .error error
    → (Action.setData id d).perform s = (.error error, s) ∧ s.after (.setData id d) = s
  /-- A definition that is put into a vertex in place makes the session that has it there, and
  does not count as an edit. -/
  uncounted : ∀ id d t, s.setData id d = .ok t
    → (Action.setData id d).perform s = (.ok ⟨⟩, t) ∧ t.sequence = s.sequence
  /-- An edit that succeeds, done in place, makes the session that it leads to, which counts
  one edit more, and its diff bears this number. -/
  counted : ∀ e diff t, s.edit e = .ok (diff, t)
    → e.inPlace.perform s = (.ok diff, t) ∧ t.sequence = s.sequence + 1
      ∧ diff.sequence = t.sequence

theorem Sound.atomic (hs : s.Sound) :
  s.Atomic
  where
  put_refused d error := by
    rw [put_eq_error_iff, Descriptor.mem_supertypes]
  remove_refused name error := remove_eq_error_iff
  rename_refused old new error := rename_eq_error_iff
  setData_refused id d error := setData_eq_error_iff
  unchanged e error h := by
    use perform_of_edit_eq_error h
    rw [Session.after, h]
  setData_unchanged id d error h := by
    obtain ⟨v, hv, hname, rfl⟩ := setData_eq_error_iff.mp h
    use Action.perform_setData_of_ne hv hname
    rw [Session.after, h]
  uncounted id d t h := by
    use Action.perform_setData h
    have ht : (s.after (.setData id d)).sequence = s.sequence := sequence_of_diff?_eq_none rfl
    rw [Session.after, h] at ht
    apply ht
  counted e diff t h := by
    obtain ⟨hdiff, ht⟩ := sequence_of_edit h
    use perform_of_edit_eq_ok hs.workspace h, ht
    rw [hdiff, ht]

/-- In every session that can come about, edits are atomic, and in every run the edits that
succeed have the numbers 1, 2, 3 and so on, as far as there are numbers. -/
theorem edits_atomic (hs : s.Reachable) :
  s.Atomic
    ∧ ∀ first : Session, first.Opened → ∀ operations : List Operation,
      (first.run operations).sequence = UInt64.ofNat (first.diffs operations).length
        ∧ ∀ k diff, (first.diffs operations)[k]? = some diff → k + 1 < UInt64.size
          → diff.sequence.toNat = k + 1
  := by
  use hs.sound.atomic
  intro first hfirst operations
  constructor
  · rw [sequence_run, hfirst.sequence, UInt64.zero_add]
  · intro k diff hdiff hk
    rw [sequence_of_getElem?_diffs hdiff, hfirst.sequence, UInt64.zero_add]
    apply UInt64.toNat_ofNat_of_lt' hk

/-- Among edits that are refused for each of the causes, two succeed and are the first and
the second one; the class path does not help to remove what is not in the workspace. -/
theorem edits_atomic_mixed :
  let first := start (Workspace.ofDescriptors [⟨"A", some "R", []⟩, ⟨"B", some "A", []⟩])
    (ClassPath.ofDescriptors [⟨"R", none, []⟩]) Options.default
  let operations : List Operation := [.register "A", .edit (.put ⟨"C", none, ["A", "C"]⟩),
    .edit (.rename "A" "B"), .edit (.put ⟨"C", some "A", []⟩), .setData ⟨0⟩ ⟨"B", none, []⟩,
    .edit (.remove "R"), .edit (.rename "A" "D")]
  let s := first.run operations
  (Edit.inPlace (.remove "R")).perform s = (.error (.classNotFound "R"), s)
    ∧ (Edit.inPlace (.rename "B" "C")).perform s = (.error (.classExists "C"), s)
    ∧ (Action.setData ⟨0⟩ ⟨"B", none, []⟩).perform s = (.error (.nameMismatch "A" "B"), s)
    ∧ s.sequence = 2
    ∧ ∃ diff, (first.diffs operations)[1]? = some diff ∧ diff.sequence.toNat = 2
  := by
  intro first operations s
  have hfirst : first.Opened := .start (Workspace.made_ofDescriptors _) _ _
  obtain ⟨hatomic, hnumbers⟩ := edits_atomic ((Reachable.opened hfirst).run operations)
  obtain ⟨hsequence, hnumber⟩ := hnumbers first hfirst operations
  have hsecond : (first.diffs operations)[1]? = some ⟨2, ["D"], ["A"], ["B", "C"],
      [⟨"R", "D"⟩, ⟨"D", "B"⟩, ⟨"D", "C"⟩], [⟨"R", "A"⟩, ⟨"A", "B"⟩, ⟨"A", "C"⟩]⟩ := by
    decide
  have hremove : s.edit (.remove "R") = .error (.classNotFound "R") := by
    rw [edit, hatomic.remove_refused]
    decide
  have hrename : s.edit (.rename "B" "C") = .error (.classExists "C") := by
    rw [edit, hatomic.rename_refused]
    decide
  have hsetData : s.setData ⟨0⟩ ⟨"B", none, []⟩ = .error (.nameMismatch "A" "B") := by
    rw [hatomic.setData_refused]
    exact ⟨⟨"A", ⟨"A", some "R", []⟩⟩, by decide⟩
  have hcount : s.sequence = 2 := by
    rw [hsequence]
    decide
  exact ⟨(hatomic.unchanged _ _ hremove).1, (hatomic.unchanged _ _ hrename).1,
    (hatomic.setData_unchanged _ _ _ hsetData).1, hcount, _, hsecond,
    hnumber 1 _ hsecond (by decide)⟩

end Lineage.Session
