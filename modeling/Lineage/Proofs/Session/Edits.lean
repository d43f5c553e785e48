import Lineage.Proofs.Session.Run

/-!
# What edits do

Each edit is described by the session it leads to (`put_eq_ok_iff`, `remove_eq_ok_iff`,
`rename_eq_ok_iff`).  A renaming is done in parts: the class is entered under its new name
(`moved`), and then the classes that mention the old name are entered anew one after the
other (`rewrite`).  What this makes of the workspace is said all at once by
`lookup_of_rename`: every class is there with the new name in the place of the old one.
-/

namespace Lineage.Session

/-- The session after a class of the workspace, given by its definition `d`, is entered under
the name `new` in the place of `old`. -/
def moved (s : Session) (old new : String) (d : Descriptor) : Session :=
  (s.withWorkspace ((s.workspace.erase old).insert (d.rename old new))).release old

/-- The session with one class entered anew, mentioning `new` in the place of `old`. -/
def rewrite (old new : String) (s : Session) (name : String) : Session :=
  match s.workspace.lookup name with
  | none => s
  | some d => s.define (d.rename old new)

/-- The classes of the workspace that mention a name, without the class of that name. -/
def mentioning (s : Session) (name : String) : NameSet :=
  (s.workspace.subtypes name).erase name

variable {s t : Session} {diff : Diff} {d : Descriptor} {old new name : String}

/-! ### Edits that succeed -/

theorem put_eq_ok_iff :
  s.put d = .ok (diff, t)
    ↔ ¬ d.declares d.name
      ∧ diff = s.advance.1.record (s.workspace.lookup d.name) (some d)
      ∧ t = s.advance.2.define d
  := by
  rw [put]
  split
  · rename_i h
    simp [h]
  · rename_i h
    rw [Except.ok.injEq, Prod.mk.injEq, and_iff_right h]
    apply and_congr eq_comm eq_comm

theorem remove_eq_ok_iff :
  s.remove name = .ok (diff, t)
    ↔ ∃ d, s.workspace.lookup name = some d
      ∧ diff = s.advance.1.record (some d) none
      ∧ t = (s.advance.2.withWorkspace (s.workspace.erase name)).release name
  := by
  rw [remove]
  cases s.workspace.lookup name with
  | none => simp
  | some d =>
    simp only [Except.ok.injEq, Prod.mk.injEq, Option.some.injEq, exists_eq_left']
    apply and_congr eq_comm eq_comm

theorem rename_eq_ok_iff :
  s.rename old new = .ok (diff, t)
    ↔ ∃ d, s.workspace.lookup old = some d ∧ s.workspace.lookup new = none
      ∧ (diff, t) = (s.mentioning old).toList.foldl (redirect old new)
        (s.advance.1.record (some d) (some (d.rename old new)), s.advance.2.moved old new d)
  := by
  rw [rename]
  cases s.workspace.lookup old with
  | none => simp
  | some d =>
    simp only [Option.some.injEq, exists_eq_left']
    split
    · rename_i h
      obtain ⟨e, he⟩ := NameMap.contains_iff.mp h
      have he : s.workspace.lookup new = some e := he
      simp [he]
    · rename_i h
      have hnone : s.workspace.lookup new = none :=
        Workspace.contains_eq_false_iff.mp (Bool.eq_false_iff.mpr h)
      rw [hnone]
      simp only [true_and, Except.ok.injEq]
      apply eq_comm

theorem snd_foldl_redirect (names : List String) (state : Diff × Session) :
  (names.foldl (redirect old new) state).2 = names.foldl (rewrite old new) state.2
  := by
  symm
  apply List.foldl_hom Prod.snd
  intro state name
  rw [rewrite, redirect]
  cases state.2.workspace.lookup name <;> rfl

theorem snd_redirect (state : Diff × Session) (name : String) :
  (redirect old new state name).2 = state.2.rewrite old new name
  := snd_foldl_redirect [name] state

/-- A renaming that succeeds enters the class under its new name, which was free, and then
rewrites the classes that mention it. -/
theorem of_rename_eq_ok (h : s.rename old new = .ok (diff, t)) :
  ∃ d, s.workspace.lookup old = some d ∧ s.workspace.lookup new = none
    ∧ t = (s.mentioning old).toList.foldl (rewrite old new) (s.advance.2.moved old new d)
  := by
  obtain ⟨d, hd, hnew, ht⟩ := rename_eq_ok_iff.mp h
  refine ⟨d, hd, hnew, ?_⟩
  rw [← snd_foldl_redirect _ (s.advance.1.record (some d) (some (d.rename old new)), _), ← ht]

/-! ### The hierarchy after an edit -/

@[simp]
theorem hierarchy_release (s : Session) (name : String) :
  (s.release name).hierarchy = s.hierarchy
  := by
  rw [release]
  split <;> rfl

theorem workspace_define (s : Session) (d : Descriptor) :
  (s.define d).workspace = s.workspace.insert d
  := rfl

theorem workspace_moved (s : Session) (old new : String) (d : Descriptor) :
  (s.moved old new d).workspace = (s.workspace.erase old).insert (d.rename old new)
  := by
  rw [moved, workspace, hierarchy_release]
  rfl

theorem consistent_moved (hs : s.workspace.Consistent) :
  (s.moved old new d).workspace.Consistent
  := by
  rw [workspace_moved]
  apply (hs.erase old).insert

theorem lookup_moved {a : String} (hname : d.name = old) :
  (s.moved old new d).workspace.lookup a
    = if a = new then some (d.rename old new)
      else if a = old then none else s.workspace.lookup a
  := by
  rw [workspace_moved, Workspace.lookup_insert, Descriptor.name_rename, hname,
    Descriptor.substitute_self, Workspace.lookup_erase]

theorem rewrite_of_none (h : s.workspace.lookup name = none) :
  s.rewrite old new name = s
  := by
  rw [rewrite, h]

theorem rewrite_of_some (h : s.workspace.lookup name = some d) :
  s.rewrite old new name = s.define (d.rename old new)
  := by
  rw [rewrite, h]

theorem consistent_rewrite (hs : s.workspace.Consistent) :
  (s.rewrite old new name).workspace.Consistent
  := by
  cases e : s.workspace.lookup name with
  | none =>
    rw [rewrite_of_none e]
    apply hs
  | some d =>
    rw [rewrite_of_some e]
    apply hs.insert

theorem lookup_rewrite (hs : s.workspace.Consistent) (hname : name ≠ old) {a : String} :
  (s.rewrite old new name).workspace.lookup a
    = if a = name then (s.workspace.lookup a).map (·.rename old new)
      else s.workspace.lookup a
  := by
  cases e : s.workspace.lookup name with
  | none =>
    rw [rewrite_of_none e]
    split
    · rename_i ha
      rw [ha, e]
      rfl
    · rfl
  | some d =>
    have hd : (d.rename old new).name = name := by
      rw [Descriptor.name_rename, hs.named e, Descriptor.substitute_of_ne hname]
    rw [rewrite_of_some e, workspace_define, Workspace.lookup_insert, hd]
    split
    · rename_i ha
      rw [ha, e]
      rfl
    · rfl

/-- Rewriting some classes changes their definitions, each once, and no other. -/
theorem lookup_foldl_rewrite (hs : s.workspace.Consistent) {names : List String}
    (hold : old ∉ names) (hnodup : names.Nodup) (new a : String) :
  (names.foldl (rewrite old new) s).workspace.lookup a
    = if a ∈ names then (s.workspace.lookup a).map (·.rename old new)
      else s.workspace.lookup a
  := by
  induction names generalizing s with
  | nil => simp
  | cons head tail ih =>
    obtain ⟨hhead, htail⟩ := List.nodup_cons.mp hnodup
    have hne : head ≠ old := by
      rintro rfl
      exact hold List.mem_cons_self
    have hold' : old ∉ tail := fun h => hold (List.mem_cons_of_mem _ h)
    rw [List.foldl_cons, ih (consistent_rewrite hs) hold' htail, lookup_rewrite hs hne]
    by_cases ha : a = head
    · subst ha
      simp [hhead]
    · simp [ha]

theorem mem_mentioning (hs : s.workspace.Consistent) :
  name ∈ s.mentioning old
    ↔ (∃ d, s.workspace.lookup name = some d ∧ d.declares old) ∧ name ≠ old
  := by
  rw [mentioning, NameSet.mem_erase]
  apply and_congr_left
  intro _
  apply hs.mem_subtypes

theorem not_mem_mentioning_self (hs : s.workspace.Consistent) :
  old ∉ s.mentioning old
  := by
  intro h
  exact ((mem_mentioning hs).mp h).2 rfl

/-- What mentions a name is in the workspace. -/
theorem not_mem_mentioning_of_none (hs : s.workspace.Consistent)
    (h : s.workspace.lookup name = none) :
  name ∉ s.mentioning old
  := by
  intro hin
  obtain ⟨⟨d, hd, -⟩, -⟩ := (mem_mentioning hs).mp hin
  rw [h] at hd
  exact absurd hd (Option.some_ne_none d).symm

/-- A renaming that succeeds leaves every class of the workspace in its place but the renamed
one, which is under its new name, and substitutes the new name in all their definitions. -/
theorem lookup_of_rename (hs : s.workspace.Consistent) (h : s.rename old new = .ok (diff, t))
    (a : String) :
  t.workspace.lookup a
    = if a = new then (s.workspace.lookup old).map (·.rename old new)
      else if a = old then none else (s.workspace.lookup a).map (·.rename old new)
  := by
  obtain ⟨d, hd, hnew, rfl⟩ := of_rename_eq_ok h
  have hname : d.name = old := hs.named hd
  have hmoved : (s.advance.2.moved old new d).workspace.Consistent := consistent_moved hs
  have hfold := lookup_foldl_rewrite hmoved (not_mem_mentioning_self hs)
    (s.mentioning old).nodup new a
  rw [hfold, lookup_moved hname]
  by_cases ha : a = new
  · subst ha
    have hout : a ∉ (s.mentioning old).toList := not_mem_mentioning_of_none hs hnew
    rw [if_neg hout, if_pos rfl, if_pos rfl, hd, Option.map_some]
  · rw [if_neg ha, if_neg ha]
    by_cases ha' : a = old
    · rw [if_pos ha', if_pos ha', Option.map_none, ite_self]
    · rw [if_neg ha', if_neg ha']
      split
      · rfl
      · rename_i hout
        change s.workspace.lookup a = _
        cases e : s.workspace.lookup a with
        | none => rfl
        | some f =>
          -- a class that does not mention the old name is not changed by renaming it
          rw [Option.map_some, Descriptor.rename_of_not_declares]
          · rw [hs.named e]
            apply ha'
          · intro hf
            apply hout
            apply (mem_mentioning hs).mpr
            exact ⟨⟨f, e, hf⟩, ha'⟩

end Lineage.Session
