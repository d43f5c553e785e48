import Lineage.Loading
import Lineage.Proofs.Session.Soundness

/-!
# Loaded sessions

Loading enters the classes of the workspace files one by one, like any edit.  What every
such edit preserves therefore holds of a loaded session (`build_induction`).
-/

namespace Lineage

/-- What a step that succeeds preserves, all steps that succeed together preserve. -/
theorem foldlM_induction {ε α β : Type} {step : β → α → Except ε β} {P : β → Prop}
    (hstep : ∀ b a c, P b → step b a = .ok c → P c) {list : List α} {b c : β} (hb : P b)
    (h : list.foldlM step b = .ok c) :
  P c
  := by
  induction list generalizing b with
  | nil =>
    obtain rfl := Except.ok.inj h
    apply hb
  | cons head tail ih =>
    rw [List.foldlM_cons] at h
    obtain ⟨a, ha, h⟩ := Text.bind_eq_ok.mp h
    apply ih (hstep b head a hb ha) h

/-- What holds of a session with an empty workspace, and goes on holding when a class is
entered, holds of every session that is loaded. -/
theorem build_induction {P : Session → Prop}
    (hopened : ∀ descriptors options,
      P (Session.start ∅ (ClassPath.ofDescriptors descriptors) options))
    (hput : ∀ s d diff t, P s → s.put d = .ok (diff, t) → P t)
    {files : Files} {config : Config} {l : Loaded} (h : config.build files = .ok l) :
  P l.session
  := by
  obtain ⟨runtime, -, h⟩ := Text.bind_eq_ok.mp h
  apply foldlM_induction (P := fun l : Loaded => P l.session) _ _ h
  · intro l path m hl hm
    obtain ⟨descriptors, -, hm⟩ := Text.bind_eq_ok.mp hm
    apply foldlM_induction (P := fun l : Loaded => P l.session) _ hl hm
    intro l d m hl hm
    rw [Loaded.addClass] at hm
    split at hm
    · cases hm
    · rename_i diff session hput'
      cases hm
      apply hput l.session d diff session hl hput'
  · apply hopened

/-- A session that is loaded can come about. -/
theorem reachable_of_build {files : Files} {config : Config} {l : Loaded}
    (h : config.build files = .ok l) :
  l.session.Reachable
  := by
  apply build_induction _ _ h
  · intro descriptors options
    apply Session.Reachable.opened (Session.Opened.start Workspace.Made.empty descriptors options)
  · intro s d diff t hs ht
    rw [← Session.after_edit_of_ok (e := .put d) ht]
    apply hs.after

end Lineage
