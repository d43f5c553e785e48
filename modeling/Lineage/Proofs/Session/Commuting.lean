import Lineage.Proofs.Session.Amending

/-!
# Edits of different classes commute

To enter a class and to take one out are edits of one class each.  Two such edits of different
classes may be done in either order: what the one does depends on its own class only, which the
other does not touch, and the links that both of them enter under one supertype do not tell who
came first (`Sound.amend_comm`).  So a batch of edits of different classes may be done in any order
at all.  Each of them is refused, or has its diff, as if it came first, and they lead to one
session (`edits_commute`).
-/

namespace Lineage

/-- The class that an edit enters or takes out, if it is an edit of one class; a renaming is not. -/
def Edit.subject? : Edit → Option String
  | .put d => some d.name
  | .remove name => some name
  | .rename _ _ => none

theorem Edit.exists_revises {e : Edit} (h : e.subject? ≠ none) :
  ∃ name new, e.Revises name new ∧ e.subject? = some name
  := by
  cases e with
  | put d => exact ⟨d.name, some d, .put d, rfl⟩
  | remove name => exact ⟨name, none, .remove name, rfl⟩
  | rename old new => exact absurd rfl h

/-- A diff has its number for itself: what is entered does not depend on it. -/
theorem Diff.unnumbered_record (diff : Diff) (old new : Option Descriptor) :
  { diff.record old new with sequence := 0 } = { diff with sequence := 0 }.record old new
  := by
  ext1
  · rw [sequence_record]
  · rw [addedClasses_record, addedClasses_record]
  · rw [removedClasses_record, removedClasses_record]
  · rw [modifiedClasses_record, modifiedClasses_record]
  · rw [addedLinks_record, addedLinks_record]
  · rw [removedLinks_record, removedLinks_record]

namespace Session

/-- What comes of an edit, but for its number: the cause for which it is refused, or its diff. -/
def outcome (s : Session) (e : Edit) : Except EditError Diff :=
  (s.edit e).map fun result => { result.1 with sequence := 0 }

variable {s t : Session} {e f : Edit} {name a : String} {new other : Option Descriptor}

/-! ### Two edits -/

/-- Different classes may be amended in either order. -/
theorem Sound.amend_comm (hs : s.Sound) (hnew : Bears new name) (hother : Bears other a)
    (hne : name ≠ a) :
  (s.amend name new).amend a other = (s.amend a other).amend name new
  := by
  have hvertex : (s.amend name new).vertex? a = s.vertex? a := by
    rw [vertex?_amend, if_neg (fun h => hne h.1.symm)]
  have hvertex' : (s.amend a other).vertex? name = s.vertex? name := by
    rw [vertex?_amend, if_neg (fun h => hne h.1)]
  apply ((hs.amend name new).amend a other).ext ((hs.amend a other).amend name new)
  case hsequence => simp only [sequence_amend]
  case hpath => simp only [classPath_amend]
  case hoptions => simp only [options_amend]
  case hlookup =>
    intro b
    rw [lookup_amend hother, lookup_amend hnew, lookup_amend hnew, lookup_amend hother]
    by_cases hb : b = a
    · rw [if_pos hb, if_neg (fun h => hne (h.symm.trans hb)), if_pos hb]
    · rw [if_neg hb, if_neg hb]
  case hvertex =>
    intro b
    simp only [vertex?_amend, prospect_amend]
    split <;> split <;> rfl
  case hvertices =>
    intro id
    rw [get?_amend hother, get?_amend hnew, get?_amend hnew, get?_amend hother, hvertex, hvertex',
      prospect_amend, prospect_amend, Option.map_map, Option.map_map]
    -- no vertex is registered for both names
    by_cases hid : s.vertex? name = some id
    · rw [if_pos hid, if_neg (fun ha => hs.vertex_ne hid ha hne.symm rfl)]
      rfl
    · rw [if_neg hid]
      rfl

/-- What comes of an edit of one class depends on nothing but the definition there was. -/
theorem outcome_congr (h : e.Revises name new)
    (hlookup : t.workspace.lookup name = s.workspace.lookup name) :
  t.outcome e = s.outcome e
  := by
  rw [outcome, outcome, edit_of_revises h, edit_of_revises h, hlookup]
  cases refusal? name (s.workspace.lookup name) new with
  | some error => rfl
  | none =>
    simp only [Except.map, Diff.unnumbered_record]
    rfl

/-- An edit of one class amends the class and counts, unless it is refused. -/
theorem after_of_revises (h : e.Revises name new) (s : Session) :
  s.after (.edit e)
    = if refusal? name (s.workspace.lookup name) new = none then (s.amend name new).advance.2
      else s
  := by
  rw [after, edit_of_revises h]
  cases refusal? name (s.workspace.lookup name) new <;> rfl

/-- An edit of one class leaves the definitions of the others. -/
theorem lookup_after_of_ne (h : e.Revises name new) (ha : a ≠ name) :
  (s.after (.edit e)).workspace.lookup a = s.workspace.lookup a
  := by
  rw [after_of_revises h]
  split
  · apply (lookup_amend h.bears a).trans (if_neg ha)
  · rfl

/-- Edits of two classes may be done in either order. -/
theorem Sound.after_comm (hs : s.Sound) (he : e.Revises name new) (hf : f.Revises a other)
    (hne : name ≠ a) :
  (s.after (.edit e)).after (.edit f) = (s.after (.edit f)).after (.edit e)
  := by
  rw [after_of_revises hf (s.after (.edit e)), lookup_after_of_ne he hne.symm,
    after_of_revises he (s.after (.edit f)), lookup_after_of_ne hf hne,
    after_of_revises he s, after_of_revises hf s]
  split
  · split
    · rw [amend_advance, amend_advance, hs.amend_comm he.bears hf.bears hne]
    · rfl
  · rfl

/-! ### Batches of edits -/

/-- Edits of one class each leave the definition of a class that none of them is an edit of. -/
theorem lookup_run_of_subject?_ne {edits : List Edit}
    (h : ∀ e ∈ edits, e.subject? ≠ none ∧ e.subject? ≠ some a) :
  (s.run (edits.map .edit)).workspace.lookup a = s.workspace.lookup a
  := by
  rw [run, List.foldl_map]
  apply List.foldlRecOn (motive := fun t : Session => t.workspace.lookup a = s.workspace.lookup a)
  · rfl
  · intro t ht e hin
    obtain ⟨hsingle, hne⟩ := h e hin
    obtain ⟨name, new, hrevises, hname⟩ := Edit.exists_revises hsingle
    rw [lookup_after_of_ne hrevises, ht]
    rintro rfl
    exact hne hname

/-- Edits of different classes lead to one session in any order. -/
theorem Sound.run_perm (hs : s.Sound) {batch order : List Edit} (horder : order.Perm batch)
    (hsingle : ∀ e ∈ batch, e.subject? ≠ none) (hdistinct : (batch.map Edit.subject?).Nodup) :
  s.run (order.map .edit) = s.run (batch.map .edit)
  := by
  induction horder generalizing s with
  | nil => rfl
  | cons e _ ih =>
    rw [List.map_cons, List.nodup_cons] at hdistinct
    apply ih (hs.after (.edit e)) _ hdistinct.2
    intro f hf
    apply hsingle f (List.mem_cons_of_mem e hf)
  | swap e f rest =>
    obtain ⟨name, new, he, hename⟩ :=
      Edit.exists_revises (hsingle e List.mem_cons_self)
    obtain ⟨a, other, hf, hfname⟩ :=
      Edit.exists_revises (hsingle f (List.mem_cons_of_mem e List.mem_cons_self))
    have hne : name ≠ a := by
      rintro rfl
      rw [List.map_cons, List.map_cons, hename, hfname] at hdistinct
      exact (List.nodup_cons.mp hdistinct).1 List.mem_cons_self
    change ((s.after (.edit f)).after (.edit e)).run (rest.map .edit) = _
    rw [← hs.after_comm he hf hne]
    rfl
  | trans _ hsecond ihfirst ihsecond =>
    rw [ihfirst hs _ ((hsecond.map _).nodup_iff.mpr hdistinct), ihsecond hs hsingle hdistinct]
    intro e he
    apply hsingle e (hsecond.mem_iff.mp he)

/-- In every session that can come about, take a batch of edits, each of which enters or takes out
another class, and do them in any order.  Each is refused for the same cause as if it came first,
or has the same diff but for its number, and all orders lead to the same session. -/
theorem edits_commute (hs : s.Reachable) {batch order : List Edit}
    (hsingle : ∀ e ∈ batch, e.subject? ≠ none) (hdistinct : (batch.map Edit.subject?).Nodup)
    (horder : order.Perm batch) :
  (∀ before e after, order = before ++ e :: after →
      (s.run (before.map .edit)).outcome e = s.outcome e)
    ∧ s.run (order.map .edit) = s.run (batch.map .edit)
  := by
  refine ⟨?_, hs.sound.run_perm horder hsingle hdistinct⟩
  rintro before e after rfl
  have hsingle : ∀ f ∈ before ++ e :: after, f.subject? ≠ none := by
    intro f hf
    apply hsingle f (horder.mem_iff.mp hf)
  have hdistinct := (horder.map Edit.subject?).nodup_iff.mpr hdistinct
  rw [List.map_append, List.nodup_append] at hdistinct
  obtain ⟨name, new, hrevises, hname⟩ :=
    Edit.exists_revises (hsingle e (List.mem_append_right _ List.mem_cons_self))
  apply outcome_congr hrevises
  apply lookup_run_of_subject?_ne
  intro f hf
  use hsingle f (List.mem_append_left _ hf)
  rw [← hname]
  apply hdistinct.2.2 f.subject? (List.mem_map_of_mem hf) e.subject? List.mem_cons_self

/-- A class and its superclass change, another class of the superclass comes, and one that shadows
a class of the class path goes, both of the last two with vertices.  A fifth edit is refused, as
the class lists its own name. -/
theorem edits_commute_reversed :
  let s := (start (Workspace.ofDescriptors [⟨"A", some "B", []⟩, ⟨"B", none, ["I"]⟩,
      ⟨"R", some "B", []⟩])
      (ClassPath.ofDescriptors [⟨"R", none, ["I"]⟩]) Options.default).run
    [.register "B", .register "R"]
  let batch : List Edit := [.put ⟨"A", some "C", ["I"]⟩, .remove "B", .put ⟨"C", some "B", ["I"]⟩,
    .remove "R", .put ⟨"D", some "D", []⟩]
  s.run (batch.reverse.map .edit) = s.run (batch.map .edit)
    ∧ (s.run [.edit (.put ⟨"D", some "D", []⟩), .edit (.remove "R"),
          .edit (.put ⟨"C", some "B", ["I"]⟩)]).outcome (.remove "B")
        = .ok ⟨0, [], ["B"], [], [], [⟨"I", "B"⟩]⟩
  := by
  intro s batch
  have hs : s.Reachable := (Reachable.opened (.start (Workspace.made_ofDescriptors _) _ _)).run _
  have hsingle : ∀ e ∈ batch, e.subject? ≠ none := by decide
  have hdistinct : (batch.map Edit.subject?).Nodup := by decide
  obtain ⟨houtcome, hrun⟩ := edits_commute hs hsingle hdistinct batch.reverse_perm
  refine ⟨hrun, ?_⟩
  apply (houtcome [.put ⟨"D", some "D", []⟩, .remove "R", .put ⟨"C", some "B", ["I"]⟩] (.remove "B")
    [.put ⟨"A", some "C", ["I"]⟩] (by decide)).trans
  decide

end Session

end Lineage
