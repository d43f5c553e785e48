import Lineage.Proofs.Session.Replay

/-!
# Edits in place

An edit looks at the session and changes it in turns.  Written out as an `Action`, which
changes the session in place and may be refused at any point, nothing undoes the changes
made before a refusal; removing a class even finds out by taking it away whether there was
one.  Yet an edit that is refused has changed nothing (`perform_of_edit_eq_error`), and one
that succeeds makes the session that the edit leads to (`perform_of_edit_eq_ok`).
-/

namespace Lineage

/-- Taking away a class that is not there leaves the workspace as it is. -/
theorem Workspace.erase_of_none {w : Workspace} {name : String} (h : w.lookup name = none) :
  w.erase name = w
  := by
  have hclasses : w.classes.erase name = w.classes := by
    ext1 a
    rw [NameMap.get?_erase]
    split
    · rename_i ha
      rw [ha]
      apply h.symm
    · rfl
  rw [erase, linksWithout, h, hclasses]

theorem Session.workspace_advance (s : Session) :
  s.advance.2.workspace = s.workspace
  := rfl

/-- What changes a session in place and may be refused on the way. -/
abbrev Action (α : Type) := ExceptT EditError (StateM Session) α

namespace Action

variable {α β : Type}

/-- What comes of an action, and the session it leaves, which is there also if the action is
refused. -/
def perform (action : Action α) (s : Session) : Except EditError α × Session :=
  (action.run.run s).run

/-- Change the workspace, with what the change gives back. -/
def update (change : Workspace → α × Workspace) : Action α :=
  modifyGet fun s => ((change s.workspace).1, s.withWorkspace (change s.workspace).2)

/-- Pass the definition of a class in the workspace on to its registered vertex. -/
def refresh (name : String) : Action Unit :=
  modify fun s =>
    match s.workspace.lookup name with
    | none => s
    | some d => { s with vertices := s.refreshed name d }

/-- Put a class into the workspace, in the place of its present definition. -/
def put (d : Descriptor) : Action Diff :=
  if d.declares d.name then throw (.selfInheritance d.name)
  else do
    let diff ← modifyGet Session.advance
    let previous ← update (·.replace d)
    let current := (← get).workspace.lookup d.name
    refresh d.name
    return diff.record previous current

/-- Remove a class from the workspace, which tells whether it was there. -/
def remove (name : String) : Action Diff := do
  match ← update (·.take name) with
  | none => throw (.classNotFound name)
  | some d =>
      let diff ← modifyGet Session.advance
      modify (·.release name)
      return diff.record (some d) none

/-- Enter a class that is in the workspace under its new name. -/
def move (old new : String) (diff : Diff) : Action Diff := do
  match ← update (·.take old) with
  | none => return diff
  | some d =>
      let _ ← update (·.replace (d.rename old new))
      return diff.record (some d) (some (d.rename old new))

/-- Make one class declare `new` where it declares `old`. -/
def redirect (old new : String) (diff : Diff) (name : String) : Action Diff := do
  match (← get).workspace.lookup name with
  | none => return diff
  | some d =>
      let _ ← update (·.replace (d.rename old new))
      refresh name
      return diff.record (some d) (some (d.rename old new))

/-- Rename a class of the workspace and every mention of it there. -/
def rename (old new : String) : Action Diff := do
  let workspace := (← get).workspace
  if workspace.contains old = false then throw (.classNotFound old)
  else if workspace.contains new then throw (.classExists new)
  else
    let diff ← modifyGet Session.advance
    let mentioning := ((← get).workspace.subtypes old).erase old
    let diff ← move old new diff
    modify (·.release old)
    mentioning.toList.foldlM (redirect old new) diff

/-- Put `d` into a vertex, unless it defines another class. -/
def setData (id : VertexId) (d : Descriptor) : Action Unit := do
  match (← get).vertices.get? id with
  | none => return
  | some v =>
      if d.name ≠ v.name then throw (.nameMismatch v.name d.name)
      else modify fun s => { s with vertices := s.vertices.hold id d }

/-! ### Performing actions -/

variable {s t : Session}

@[simp]
theorem perform_pure (a : α) (s : Session) :
  perform (pure a) s = (.ok a, s)
  := rfl

@[simp]
theorem perform_throw (error : EditError) (s : Session) :
  perform (throw error : Action α) s = (.error error, s)
  := rfl

@[simp]
theorem perform_get (s : Session) :
  perform get s = (.ok s, s)
  := rfl

@[simp]
theorem perform_modify (f : Session → Session) (s : Session) :
  perform (modify f) s = (.ok ⟨⟩, f s)
  := rfl

@[simp]
theorem perform_modifyGet (f : Session → α × Session) (s : Session) :
  perform (modifyGet f) s = (.ok (f s).1, (f s).2)
  := rfl

@[simp]
theorem perform_update (change : Workspace → α × Workspace) (s : Session) :
  perform (update change) s
    = (.ok (change s.workspace).1, s.withWorkspace (change s.workspace).2)
  := rfl

/-- An action goes on where the one before it has left the session. -/
@[simp]
theorem perform_bind (action : Action α) (next : α → Action β) (s : Session) :
  perform (action >>= next) s
    = match perform action s with
      | (.ok a, t) => perform (next a) t
      | (.error error, t) => (.error error, t)
  := by
  cases e : perform action s with
  | mk outcome t =>
    change Id.run (action.run.run s) = (outcome, t) at e
    rw [perform, ExceptT.run_bind, StateT.run_bind, Id.run_bind, e]
    cases outcome <;> rfl

theorem perform_refresh {name : String} {d : Descriptor}
    (h : s.workspace.lookup name = some d) :
  perform (refresh name) s = (.ok ⟨⟩, { s with vertices := s.refreshed name d })
  := by
  simp only [refresh, perform_modify, h]

/-! ### Actions and edits -/

variable {d : Descriptor} {old new name : String}

theorem perform_put_of_declares (h : d.declares d.name) (s : Session) :
  perform (put d) s = (.error (.selfInheritance d.name), s)
  := by
  rw [put, if_pos h, perform_throw]

theorem perform_put (h : ¬ d.declares d.name) (s : Session) :
  perform (put d) s
    = (.ok (s.advance.1.record (s.workspace.lookup d.name) (some d)), s.advance.2.define d)
  := by
  have hlookup : (s.advance.2.withWorkspace (s.workspace.insert d)).workspace.lookup d.name
      = some d := by
    apply Workspace.lookup_insert.trans (if_pos rfl)
  rw [put, if_neg h]
  simp only [perform_bind, perform_modifyGet, perform_update, Workspace.replace, perform_get,
    Session.workspace_advance, hlookup, perform_refresh hlookup, perform_pure]
  rfl

/-- Taking away a class that is not there takes nothing away. -/
theorem perform_remove_of_none (h : s.workspace.lookup name = none) :
  perform (remove name) s = (.error (.classNotFound name), s)
  := by
  simp only [remove, perform_bind, perform_update, Workspace.take, h, perform_throw]
  rw [Workspace.erase_of_none h]
  rfl

theorem perform_remove (h : s.workspace.lookup name = some d) :
  perform (remove name) s
    = (.ok (s.advance.1.record (some d) none),
      (s.advance.2.withWorkspace (s.workspace.erase name)).release name)
  := by
  simp only [remove, perform_bind, perform_update, Workspace.take, h, perform_modifyGet,
    perform_modify, perform_pure]
  rfl

theorem perform_move (h : s.workspace.lookup old = some d) (new : String) (diff : Diff) :
  perform (move old new diff) s
    = (.ok (diff.record (some d) (some (d.rename old new))),
      s.withWorkspace ((s.workspace.erase old).insert (d.rename old new)))
  := by
  simp only [move, perform_bind, perform_update, Workspace.take, h, Workspace.replace,
    perform_pure]
  rfl

theorem perform_redirect (hs : s.workspace.Consistent) (hname : name ≠ old) (new : String)
    (diff : Diff) :
  perform (redirect old new diff name) s
    = (.ok (Session.redirect old new (diff, s) name).1,
      (Session.redirect old new (diff, s) name).2)
  := by
  rw [redirect]
  cases h : s.workspace.lookup name with
  | none =>
    rw [Session.redirect_of_none h]
    simp only [perform_bind, perform_get, h, perform_pure]
  | some d =>
    have hd : (d.rename old new).name = name := by
      rw [Descriptor.name_rename, hs.named h, Descriptor.substitute_of_ne hname]
    have hlookup : (s.withWorkspace (s.workspace.insert (d.rename old new))).workspace.lookup
        name = some (d.rename old new) := by
      apply Workspace.lookup_insert.trans (if_pos hd.symm)
    rw [Session.redirect_of_some h, Session.define, hd]
    simp only [perform_bind, perform_get, h, perform_update, Workspace.replace,
      perform_refresh hlookup, perform_pure]
    rfl

/-- Redirecting one class after the other in place comes to the same as the fold. -/
theorem perform_foldlM_redirect (hs : s.workspace.Consistent) {names : List String}
    (hold : old ∉ names) (new : String) (diff : Diff) :
  perform (names.foldlM (redirect old new) diff) s
    = (.ok (names.foldl (Session.redirect old new) (diff, s)).1,
      (names.foldl (Session.redirect old new) (diff, s)).2)
  := by
  induction names generalizing s diff with
  | nil => rw [List.foldlM_nil, perform_pure, List.foldl_nil]
  | cons head tail ih =>
    have hhead : head ≠ old := by
      rintro rfl
      exact hold List.mem_cons_self
    have hnext : (Session.redirect old new (diff, s) head).2.workspace.Consistent := by
      rw [Session.snd_redirect]
      apply Session.consistent_rewrite hs
    rw [List.foldlM_cons, perform_bind, perform_redirect hs hhead, List.foldl_cons]
    apply ih hnext fun h => hold (List.mem_cons_of_mem _ h)

theorem perform_rename_of_none (h : s.workspace.contains old = false) (new : String) :
  perform (rename old new) s = (.error (.classNotFound old), s)
  := by
  simp only [rename, perform_bind, perform_get, if_pos h, perform_throw]

theorem perform_rename_of_contains (h : s.workspace.contains old = true)
    (hnew : s.workspace.contains new = true) :
  perform (rename old new) s = (.error (.classExists new), s)
  := by
  simp only [rename, perform_bind, perform_get, h, Bool.true_eq_false, if_false, if_pos hnew,
    perform_throw]

theorem perform_rename (hs : s.workspace.Consistent) (h : s.workspace.lookup old = some d)
    (hnew : s.workspace.lookup new = none) :
  let state := (s.mentioning old).toList.foldl (Session.redirect old new)
    (s.advance.1.record (some d) (some (d.rename old new)), s.advance.2.moved old new d)
  perform (rename old new) s = (.ok state.1, state.2)
  := by
  have hold : s.workspace.contains old = true := NameMap.contains_iff.mpr ⟨d, h⟩
  have hnew : s.workspace.contains new = false := Workspace.contains_eq_false_iff.mpr hnew
  have hmoved : (s.advance.2.moved old new d).workspace.Consistent :=
    Session.consistent_moved hs
  have hadvance : s.advance.2.workspace.lookup old = some d := h
  simp only [rename, perform_bind, perform_get, hold, hnew, Bool.true_eq_false, if_false,
    Bool.false_eq_true, perform_modifyGet, perform_move hadvance, perform_modify]
  apply perform_foldlM_redirect hmoved (Session.not_mem_mentioning_self hs)

theorem perform_setData_of_ne {id : VertexId} {v : Vertex} (h : s.vertices.get? id = some v)
    (hname : d.name ≠ v.name) :
  perform (setData id d) s = (.error (.nameMismatch v.name d.name), s)
  := by
  simp only [setData, perform_bind, perform_get, h, if_pos hname, perform_throw]

/-- Putting a definition that is of the right class into a vertex in place makes the session
that has it there. -/
theorem perform_setData {id : VertexId} (h : s.setData id d = .ok t) :
  perform (setData id d) s = (.ok ⟨⟩, t)
  := by
  rw [Session.setData, VertexTable.setData] at h
  cases hv : s.vertices.get? id with
  | none =>
    rw [hv] at h
    obtain rfl := Except.ok.inj h
    simp only [setData, perform_bind, perform_get, hv, perform_pure]
  | some v =>
    by_cases hname : d.name = v.name
    · simp only [hv, if_pos hname] at h
      obtain rfl := Except.ok.inj h
      simp only [setData, perform_bind, perform_get, hv, hname, ne_eq, not_true_eq_false,
        if_false, perform_modify]
    · simp only [hv, if_neg hname] at h
      exact absurd h (by simp [Except.map])

end Action

/-- An edit as an action. -/
def Edit.inPlace : Edit → Action Diff
  | .put d => Action.put d
  | .remove name => Action.remove name
  | .rename old new => Action.rename old new

namespace Session

variable {s t : Session} {diff : Diff} {d : Descriptor} {old new name : String}
  {error : EditError}

/-! ### Edits that are refused -/

theorem put_eq_error_iff :
  s.put d = .error error ↔ d.declares d.name ∧ error = .selfInheritance d.name
  := by
  rw [put]
  split
  · rename_i h
    rw [Except.error.injEq, and_iff_right h, eq_comm]
  · rename_i h
    simp [h]

theorem remove_eq_error_iff :
  s.remove name = .error error
    ↔ s.workspace.contains name = false ∧ error = .classNotFound name
  := by
  rw [remove, Workspace.contains_eq_false_iff]
  cases s.workspace.lookup name with
  | none => rw [Except.error.injEq, and_iff_right rfl, eq_comm]
  | some d => simp

theorem rename_eq_error_iff :
  s.rename old new = .error error
    ↔ s.workspace.contains old = false ∧ error = .classNotFound old
      ∨ s.workspace.contains old = true ∧ s.workspace.contains new = true
        ∧ error = .classExists new
  := by
  rw [← Bool.not_eq_false (s.workspace.contains old), Workspace.contains_eq_false_iff, rename]
  cases s.workspace.lookup old with
  | none => simp [@eq_comm _ error]
  | some d => cases s.workspace.contains new <;> simp [@eq_comm _ error]

theorem setData_eq_error_iff {id : VertexId} :
  s.setData id d = .error error
    ↔ ∃ v, s.vertices.get? id = some v ∧ d.name ≠ v.name
      ∧ error = .nameMismatch v.name d.name
  := by
  rw [setData, VertexTable.setData]
  cases s.vertices.get? id with
  | none => simp [Except.map]
  | some v =>
    by_cases h : d.name = v.name
    · simp [Except.map, h]
    · simp [Except.map, h, @eq_comm _ error]

/-! ### Edits in place -/

/-- An edit that is refused, done in place, has changed nothing. -/
theorem perform_of_edit_eq_error {e : Edit} (h : s.edit e = .error error) :
  e.inPlace.perform s = (.error error, s)
  := by
  cases e with
  | put d =>
    obtain ⟨hd, rfl⟩ := put_eq_error_iff.mp h
    apply Action.perform_put_of_declares hd
  | remove name =>
    obtain ⟨hname, rfl⟩ := remove_eq_error_iff.mp h
    apply Action.perform_remove_of_none (Workspace.contains_eq_false_iff.mp hname)
  | rename old new =>
    rcases rename_eq_error_iff.mp h with ⟨hold, rfl⟩ | ⟨hold, hnew, rfl⟩
    · apply Action.perform_rename_of_none hold
    · apply Action.perform_rename_of_contains hold hnew

/-- An edit that succeeds, done in place, makes the session that it leads to. -/
theorem perform_of_edit_eq_ok (hs : s.workspace.Consistent) {e : Edit}
    (h : s.edit e = .ok (diff, t)) :
  e.inPlace.perform s = (.ok diff, t)
  := by
  cases e with
  | put d =>
    obtain ⟨hd, rfl, rfl⟩ := put_eq_ok_iff.mp h
    apply Action.perform_put hd
  | remove name =>
    obtain ⟨d, hd, rfl, rfl⟩ := remove_eq_ok_iff.mp h
    apply Action.perform_remove hd
  | rename old new =>
    obtain ⟨d, hd, hnew, ht⟩ := rename_eq_ok_iff.mp h
    obtain ⟨rfl, rfl⟩ := Prod.mk.inj ht
    apply Action.perform_rename hs hd hnew

end Session

end Lineage
