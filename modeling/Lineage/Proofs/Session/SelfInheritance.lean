import Lineage.Proofs.Loading

/-!
# Classes that list themselves

A workspace is `Irreflexive` when none of its classes lists its own name as a supertype.  A
class that does is refused when it is entered, but a renaming can make one: a class renamed
to one of its own supertypes comes to list itself.  A run without such a renaming, and only
such a run, keeps the workspace irreflexive throughout (`irreflexive_throughout_iff`).
-/

namespace Lineage

namespace Workspace

/-- No class lists its own name among its supertypes. -/
def Irreflexive (w : Workspace) : Prop :=
  ∀ name d, w.lookup name = some d → d.name ∉ d.supertypes

theorem irreflexive_empty :
  (∅ : Workspace).Irreflexive
  := by
  intro name d h
  exact absurd h (Option.some_ne_none d).symm

theorem Irreflexive.insert {w : Workspace} {d : Descriptor} (hw : w.Irreflexive)
    (hd : d.name ∉ d.supertypes) :
  (w.insert d).Irreflexive
  := by
  intro name e he
  rw [lookup_insert] at he
  split at he
  · obtain rfl := Option.some.inj he
    apply hd
  · apply hw name e he

theorem Irreflexive.erase {w : Workspace} (hw : w.Irreflexive) (name : String) :
  (w.erase name).Irreflexive
  := by
  intro a e he
  rw [lookup_erase] at he
  split at he
  · exact absurd he (Option.some_ne_none e).symm
  · apply hw a e he

end Workspace

namespace Session

/-- The class `old` can be renamed to `new`, which is one of its own supertypes. -/
def Collapses (s : Session) (old new : String) : Prop :=
  ∃ d, s.workspace.lookup old = some d ∧ s.workspace.lookup new = none ∧ d.declares new

variable {s t : Session} {diff : Diff} {d : Descriptor} {old new name : String}

theorem irreflexive_of_put (hs : s.workspace.Irreflexive) (h : s.put d = .ok (diff, t)) :
  t.workspace.Irreflexive
  := by
  obtain ⟨hself, -, rfl⟩ := put_eq_ok_iff.mp h
  rw [workspace_define]
  apply hs.insert
  intro hin
  exact hself (Descriptor.mem_supertypes.mp hin)

theorem irreflexive_of_remove (hs : s.workspace.Irreflexive)
    (h : s.remove name = .ok (diff, t)) :
  t.workspace.Irreflexive
  := by
  obtain ⟨d, -, -, rfl⟩ := remove_eq_ok_iff.mp h
  rw [workspace, hierarchy_release]
  apply hs.erase

/-- A class that does not list itself comes to list itself by a renaming exactly when it is
renamed to one of its supertypes. -/
theorem declares_own_name_rename (hself : ¬ d.declares d.name) :
  (d.rename old new).declares (d.rename old new).name ↔ d.name = old ∧ d.declares new
    ∨ d.name = new ∧ d.declares old
  := by
  rw [Descriptor.declares_rename, Descriptor.name_rename]
  by_cases hname : d.name = old
  · rw [hname, Descriptor.substitute_self]
    constructor
    · rintro ⟨a, ha, hsub⟩
      by_cases hold : a = old
      · rw [hold, ← hname] at ha
        exact absurd ha hself
      · rw [Descriptor.substitute_of_ne hold] at hsub
        rw [← hsub]
        apply Or.inl ⟨rfl, ha⟩
    · rintro (⟨-, hnew⟩ | ⟨-, hold⟩)
      · use new, hnew
        by_cases hold : new = old
        · rw [hold, Descriptor.substitute_self]
        · apply Descriptor.substitute_of_ne hold
      · rw [← hname] at hold
        exact absurd hold hself
  · rw [Descriptor.substitute_of_ne hname]
    constructor
    · rintro ⟨a, ha, hsub⟩
      by_cases hold : a = old
      · rw [hold, Descriptor.substitute_self] at hsub
        rw [hold] at ha
        apply Or.inr ⟨hsub.symm, ha⟩
      · rw [Descriptor.substitute_of_ne hold] at hsub
        rw [hsub] at ha
        exact absurd ha hself
    · rintro (⟨h, -⟩ | ⟨h, hold⟩)
      · exact absurd h hname
      · use old, hold
        rw [Descriptor.substitute_self, h]

/-- A renaming that succeeds keeps the workspace irreflexive unless it collapses a class. -/
theorem irreflexive_of_rename_iff (hw : s.workspace.Consistent)
    (hs : s.workspace.Irreflexive) (h : s.rename old new = .ok (diff, t)) :
  t.workspace.Irreflexive ↔ ¬ s.Collapses old new
  := by
  have hlookup := lookup_of_rename hw h
  obtain ⟨d, hd, hnew, -⟩ := of_rename_eq_ok h
  have hself : ∀ {name e}, s.workspace.lookup name = some e → ¬ e.declares e.name := by
    intro name e he hdeclares
    exact hs name e he (Descriptor.mem_supertypes.mpr hdeclares)
  have hcollapses : s.Collapses old new ↔ d.declares new := by
    constructor
    · rintro ⟨e, he, -, hdeclares⟩
      rw [hd] at he
      rw [Option.some.inj he]
      apply hdeclares
    · intro hdeclares
      exact ⟨d, hd, hnew, hdeclares⟩
  rw [hcollapses]
  constructor
  · intro ht hdeclares
    have hrenamed : t.workspace.lookup new = some (d.rename old new) := by
      rw [hlookup, if_pos rfl, hd, Option.map_some]
    apply ht new _ hrenamed
    apply Descriptor.mem_supertypes.mpr
    apply (declares_own_name_rename (hself hd)).mpr
    exact Or.inl ⟨hw.named hd, hdeclares⟩
  · intro hdeclares a e he hin
    have hin := Descriptor.mem_supertypes.mp hin
    rw [hlookup] at he
    split at he
    · rw [hd, Option.map_some] at he
      obtain rfl := Option.some.inj he
      rcases (declares_own_name_rename (hself hd)).mp hin with ⟨-, h⟩ | ⟨-, h⟩
      · exact hdeclares h
      · rw [← hw.named hd] at h
        exact hself hd h
    · split at he
      · exact absurd he (Option.some_ne_none e).symm
      · rename_i hanew haold
        obtain ⟨f, hf, rfl⟩ := Option.map_eq_some_iff.mp he
        have hname : f.name = a := hw.named hf
        rcases (declares_own_name_rename (hself hf)).mp hin with ⟨h, -⟩ | ⟨h, -⟩
        · exact haold (hname.symm.trans h)
        · exact hanew (hname.symm.trans h)

/-- An operation keeps the workspace irreflexive unless it collapses a class. -/
theorem irreflexive_after_iff (hw : s.workspace.Consistent) (hs : s.workspace.Irreflexive)
    (operation : Operation) :
  (s.after operation).workspace.Irreflexive
    ↔ ∀ old new, operation = .edit (.rename old new) → ¬ s.Collapses old new
  := by
  cases operation with
  | edit e =>
    rcases s.after_edit_cases e with ⟨diff, t, he, h⟩ | ⟨⟨error, he⟩, h⟩
    · rw [h]
      cases e with
      | put d => simp [irreflexive_of_put hs he]
      | remove name => simp [irreflexive_of_remove hs he]
      | rename old new =>
        rw [irreflexive_of_rename_iff hw hs he]
        simp
    · rw [h]
      apply iff_of_true hs
      rintro old new hrename ⟨d, hd, hnew, -⟩
      obtain rfl := Operation.edit.inj hrename
      rw [edit, rename_eq_ok_iff.mpr ⟨d, hd, hnew, rfl⟩] at he
      cases he
  | register name =>
    rw [workspace, hierarchy_after rfl]
    simp only [reduceCtorEq, false_imp_iff, implies_true, iff_true]
    apply hs
  | untracked d =>
    rw [workspace, hierarchy_after rfl]
    simp only [reduceCtorEq, false_imp_iff, implies_true, iff_true]
    apply hs
  | setData id d =>
    rw [workspace, hierarchy_after rfl]
    simp only [reduceCtorEq, false_imp_iff, implies_true, iff_true]
    apply hs

/-- From an irreflexive workspace on, the workspace is irreflexive throughout a run exactly
when no renaming of the run collapses a class; and the workspace that is loaded from files is
irreflexive. -/
theorem irreflexive_throughout_iff (hs : s.Reachable) (hirr : s.workspace.Irreflexive)
    (operations : List Operation) :
  ((∀ k, (s.run (operations.take k)).workspace.Irreflexive)
      ↔ ∀ k old new, operations[k]? = some (.edit (.rename old new)) →
          ¬ (s.run (operations.take k)).Collapses old new)
    ∧ ∀ files config (l : Loaded), Config.build files config = .ok l →
        l.session.Reachable ∧ l.session.workspace.Irreflexive
  := by
  have hw : ∀ k, (s.run (operations.take k)).workspace.Consistent := by
    intro k
    apply (hs.run _).sound.workspace
  constructor
  · constructor
    · intro h k old new hk
      have hnext := h (k + 1)
      rw [run_take_succ s hk] at hnext
      apply (irreflexive_after_iff (hw k) (h k) _).mp hnext old new rfl
    · intro h k
      induction k with
      | zero => apply hirr
      | succ k ih =>
        cases hk : operations[k]? with
        | none =>
          rw [run_take_succ_of_none s hk]
          apply ih
        | some operation =>
          rw [run_take_succ s hk]
          apply (irreflexive_after_iff (hw k) ih _).mpr
          rintro old new rfl
          apply h k old new hk
  · intro files config l hl
    use reachable_of_build hl
    apply build_induction (P := fun s : Session => s.workspace.Irreflexive) _ _ hl
    · intro descriptors options
      apply Workspace.irreflexive_empty
    · intro s d diff t hs ht
      apply irreflexive_of_put hs ht

/-- A class entered beside its superclass and renamed to a name that neither mentions. -/
theorem irreflexive_throughout_renamed_apart :
  let s := start (Workspace.ofDescriptors [⟨"B", none, []⟩]) (ClassPath.ofDescriptors [])
    Options.default
  let operations : List Operation := [.edit (.put ⟨"A", some "B", ["I"]⟩),
    .edit (.rename "A" "C"), .edit (.rename "B" "A")]
  s.Reachable ∧ s.workspace.Irreflexive
    ∧ ∀ k, (s.run (operations.take k)).workspace.Irreflexive
  := by
  intro s operations
  have hopened : s.Opened := .start (Workspace.made_ofDescriptors _) _ _
  have hs : s.Reachable := .opened hopened
  have hirr : s.workspace.Irreflexive := by
    apply Workspace.irreflexive_empty.insert
    decide
  refine ⟨hs, hirr, ?_⟩
  apply (irreflexive_throughout_iff hs hirr operations).1.mpr
  intro k old new hk
  match k with
  | 0 => cases hk
  | 1 =>
    obtain ⟨rfl, rfl⟩ : "A" = old ∧ "C" = new := by
      simpa [operations] using hk
    rintro ⟨d, hd, -, hdeclares⟩
    obtain rfl : (⟨"A", some "B", ["I"]⟩ : Descriptor) = d := by
      apply Option.some.inj (Eq.trans _ hd)
      decide
    revert hdeclares
    decide
  | 2 =>
    obtain ⟨rfl, rfl⟩ : "B" = old ∧ "A" = new := by
      simpa [operations] using hk
    rintro ⟨d, hd, -, hdeclares⟩
    obtain rfl : (⟨"B", none, []⟩ : Descriptor) = d := by
      apply Option.some.inj (Eq.trans _ hd)
      decide
    revert hdeclares
    decide
  | k + 3 => cases hk

/-- A class renamed to its own superclass, which is not in the workspace. -/
theorem not_irreflexive_renamed_to_superclass :
  ¬ ((start (Workspace.ofDescriptors [⟨"A", some "B", []⟩]) (ClassPath.ofDescriptors [])
      Options.default).run [.edit (.rename "A" "B")]).workspace.Irreflexive
  := by
  intro h
  apply h "B" ⟨"B", some "B", []⟩
  · decide
  · decide

end Session

end Lineage
