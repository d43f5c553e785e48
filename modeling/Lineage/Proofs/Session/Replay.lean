import Lineage.Proofs.Diff
import Lineage.Proofs.Session.Soundness
import Mathlib.Data.Finset.SDiff

/-!
# Replaying edits

The `Inventory` of a workspace are the names of its classes and the direct links that they
declare.  The diff of an edit tells exactly how the inventory changes: applied to the one
before the edit it gives the one after it.  So whoever has the inventory of a session and is
told the diffs of a run has the inventory at the end of the run (`diffs_replay`).
-/

namespace Lineage

/-! ### Inventories -/

/-- The names of some classes and the direct links that these declare. -/
structure Inventory where
  classes : Finset String
  links : Finset Link
deriving DecidableEq

/-- The inventory after a change: without what was removed and with what was added. -/
def Inventory.apply (i : Inventory) (diff : Diff) : Inventory where
  classes := (i.classes \ diff.removedClasses.toFinset) ∪ diff.addedClasses.toFinset
  links := (i.links \ diff.removedLinks.toFinset) ∪ diff.addedLinks.toFinset

/-- The classes of a workspace and the links that their definitions declare. -/
def Workspace.inventory (w : Workspace) : Inventory where
  classes := w.names.toList.toFinset
  links := (w.classes.values.flatMap Descriptor.links).toFinset

theorem Workspace.mem_inventory_classes {w : Workspace} {name : String} :
  name ∈ w.inventory.classes ↔ w.lookup name ≠ none
  := by
  rw [inventory, List.mem_toFinset, NameSet.mem_toList, names, NameMap.mem_keys,
    NameMap.contains, Option.isSome_iff_ne_none]
  rfl

theorem Workspace.mem_inventory_links {w : Workspace} (hw : Named w.classes) {l : Link} :
  l ∈ w.inventory.links ↔ l ∈ linksOf (w.lookup l.child)
  := by
  rw [inventory, List.mem_toFinset, List.mem_flatMap]
  constructor
  · rintro ⟨d, hd, hl⟩
    obtain ⟨name, hd⟩ := NameMap.mem_values.mp hd
    have hname : l.child = name := by
      rw [(Descriptor.mem_links.mp hl).1]
      apply hw hd
    rw [hname, Workspace.lookup, hd]
    apply hl
  · intro hl
    cases hd : w.lookup l.child with
    | none =>
      rw [hd] at hl
      exact absurd hl List.not_mem_nil
    | some d =>
      rw [hd] at hl
      exact ⟨d, NameMap.mem_values_of_get? hd, hl⟩

/-- A diff tells exactly what has changed from one workspace to another. -/
structure Diff.Replays (diff : Diff) (before after : Workspace) : Prop where
  /-- What is removed was there. -/
  removed : (∀ name ∈ diff.removedClasses, name ∈ before.inventory.classes)
    ∧ ∀ l ∈ diff.removedLinks, l ∈ before.inventory.links
  /-- What is added was not there. -/
  added : (∀ name ∈ diff.addedClasses, name ∉ before.inventory.classes)
    ∧ ∀ l ∈ diff.addedLinks, l ∉ before.inventory.links
  /-- Nothing is told twice. -/
  nodup : diff.addedClasses.Nodup ∧ diff.removedClasses.Nodup ∧ diff.modifiedClasses.Nodup
    ∧ diff.addedLinks.Nodup ∧ diff.removedLinks.Nodup
  /-- Taking away what is removed and putting in what is added is all that has changed. -/
  apply_eq : before.inventory.apply diff = after.inventory
  /-- The classes modified are those that were there and still are, defined otherwise. -/
  mem_modifiedClasses : ∀ name, name ∈ diff.modifiedClasses
    ↔ ∃ d e, before.lookup name = some d ∧ after.lookup name = some e ∧ d ≠ e
  /-- Nothing is told exactly if nothing has changed. -/
  isEmpty_iff : diff.isEmpty ↔ after.classes = before.classes

namespace Diff

variable {diff : Diff} {before after : Workspace}

/-- The classes of two workspaces are the same exactly if the diff between them is empty. -/
theorem Between.isEmpty_iff (h : diff.Between before after) :
  diff.isEmpty ↔ after.classes = before.classes
  := by
  simp only [isEmpty, Bool.and_eq_true, List.isEmpty_iff]
  constructor
  · rintro ⟨⟨⟨⟨hadded, hremoved⟩, hmodified⟩, -⟩, -⟩
    ext1 name
    change after.lookup name = before.lookup name
    by_contra hne
    -- a class that has changed is in one of the lists
    by_cases hb : before.lookup name = none
    · apply List.not_mem_nil (a := name)
      rw [← hadded, h.mem_addedClasses]
      rw [hb] at hne
      exact ⟨hb, hne⟩
    · by_cases ha : after.lookup name = none
      · apply List.not_mem_nil (a := name)
        rw [← hremoved, h.mem_removedClasses]
        exact ⟨hb, ha⟩
      · apply List.not_mem_nil (a := name)
        rw [← hmodified, h.mem_modifiedClasses]
        exact ⟨hb, ha, Ne.symm hne⟩
  · intro hclasses
    have hlookup : ∀ name, after.lookup name = before.lookup name := by
      intro name
      rw [Workspace.lookup, hclasses, Workspace.lookup]
    refine ⟨⟨⟨⟨h.addedClasses.eq_nil ?_, h.removedClasses.eq_nil ?_⟩,
      h.modifiedClasses.eq_nil ?_⟩, h.addedLinks.eq_nil ?_⟩, h.removedLinks.eq_nil ?_⟩
    all_goals simp [hlookup]

/-- Of two workspaces, what the first lacks of the second is added and what it has besides is
removed. -/
theorem Between.apply_eq (h : diff.Between before after) (hbefore : Named before.classes)
    (hafter : Named after.classes) :
  before.inventory.apply diff = after.inventory
  := by
  have hclasses : (before.inventory.apply diff).classes = after.inventory.classes := by
    ext name
    rw [Inventory.apply, Finset.mem_union, Finset.mem_sdiff, List.mem_toFinset,
      List.mem_toFinset, h.mem_addedClasses, h.mem_removedClasses,
      Workspace.mem_inventory_classes, Workspace.mem_inventory_classes]
    tauto
  have hlinks : (before.inventory.apply diff).links = after.inventory.links := by
    ext l
    rw [Inventory.apply, Finset.mem_union, Finset.mem_sdiff, List.mem_toFinset,
      List.mem_toFinset, h.mem_addedLinks, h.mem_removedLinks,
      Workspace.mem_inventory_links hbefore, Workspace.mem_inventory_links hafter]
    tauto
  rw [Inventory.mk.injEq]
  exact ⟨hclasses, hlinks⟩

/-- A diff between two workspaces tells exactly what has changed from one to the other. -/
theorem Between.replays (h : diff.Between before after) (hbefore : Named before.classes)
    (hafter : Named after.classes) :
  diff.Replays before after
  where
  removed := by
    constructor
    · intro name hin
      apply Workspace.mem_inventory_classes.mpr
      apply (h.mem_removedClasses.mp hin).1
    · intro l hin
      apply (Workspace.mem_inventory_links hbefore).mpr
      apply (h.mem_removedLinks.mp hin).1
  added := by
    constructor
    · intro name hin hname
      apply Workspace.mem_inventory_classes.mp hname
      apply (h.mem_addedClasses.mp hin).1
    · intro l hin hl
      apply (h.mem_addedLinks.mp hin).2
      apply (Workspace.mem_inventory_links hbefore).mp hl
  nodup := ⟨h.addedClasses.1, h.removedClasses.1, h.modifiedClasses.1, h.addedLinks.1,
    h.removedLinks.1⟩
  apply_eq := h.apply_eq hbefore hafter
  mem_modifiedClasses name := by
    rw [h.mem_modifiedClasses]
    cases before.lookup name <;> cases after.lookup name <;> simp
  isEmpty_iff := h.isEmpty_iff

end Diff

namespace Session

/-- The diff of an operation, if it is an edit that succeeds. -/
def diff? (s : Session) : Operation → Option Diff
  | .edit e =>
      match s.edit e with
      | .ok (diff, _) => some diff
      | .error _ => none
  | _ => none

/-- The diffs of the operations of a list, done one after the other. -/
def diffs (s : Session) : List Operation → List Diff
  | [] => []
  | operation :: rest => (s.diff? operation).toList ++ (s.after operation).diffs rest

variable {s t : Session} {diff : Diff} {d : Descriptor} {old new : String}

/-! ### The diff of one edit -/

/-- A class that is entered under its name, unchanged so far, is entered in the diff. -/
theorem between_insert {v w : Workspace} (hv : Named v.classes) (h : diff.Between v w)
    (hname : w.lookup d.name = v.lookup d.name) :
  (diff.record (v.lookup d.name) (some d)).Between v (w.insert d)
  := by
  apply h.record hv hname
  · rintro e he
    rw [Option.some.inj he]
  · intro a
    apply Workspace.lookup_insert

/-- A class that is taken out, unchanged so far, is entered in the diff. -/
theorem between_erase {v w : Workspace} {name : String} (hv : Named v.classes)
    (h : diff.Between v w) (hname : w.lookup name = v.lookup name) :
  (diff.record (v.lookup name) none).Between v (w.erase name)
  := by
  apply h.record hv hname
  · intro e he
    exact absurd he (Option.some_ne_none e).symm
  · intro a
    apply Workspace.lookup_erase

theorem between_of_put (hs : s.Sound) (h : s.put d = .ok (diff, t)) :
  diff.Between s.workspace t.workspace
  := by
  obtain ⟨-, rfl, rfl⟩ := put_eq_ok_iff.mp h
  apply between_insert hs.workspace.named (Diff.between_ofSequence _ _) rfl

theorem between_of_remove {name : String} (hs : s.Sound) (h : s.remove name = .ok (diff, t)) :
  diff.Between s.workspace t.workspace
  := by
  obtain ⟨d, hd, rfl, rfl⟩ := remove_eq_ok_iff.mp h
  rw [← hd, workspace, workspace, hierarchy_release]
  apply between_erase hs.workspace.named (Diff.between_ofSequence _ _) rfl

/-- A class that goes over to a new name is entered as removed and added. -/
theorem between_moved (hs : s.Sound) (hd : s.workspace.lookup old = some d)
    (hnew : s.workspace.lookup new = none) (sequence : UInt64) :
  ((Diff.ofSequence sequence).record (some d) (some (d.rename old new))).Between s.workspace
    ((s.workspace.erase old).insert (d.rename old new))
  := by
  have hname : d.name = old := hs.workspace.named hd
  have hname' : (d.rename old new).name = new := by
    rw [Descriptor.name_rename, hname, Descriptor.substitute_self]
  have hne : old ≠ new := by
    rintro rfl
    rw [hd] at hnew
    exact absurd hnew (Option.some_ne_none d)
  have hnone : (s.workspace.erase old).lookup new = s.workspace.lookup new := by
    rw [Workspace.lookup_erase, if_neg (Ne.symm hne)]
  have herased : ((Diff.ofSequence sequence).record (s.workspace.lookup old) none).Between
      s.workspace (s.workspace.erase old) :=
    between_erase hs.workspace.named (Diff.between_ofSequence _ _) rfl
  have hinserted := between_insert (d := d.rename old new) hs.workspace.named herased
    (by rw [hname', hnone])
  rw [hd, hname', hnew, ← Diff.record_of_name_ne] at hinserted
  · apply hinserted
  · rw [hname, hname']
    apply hne

theorem redirect_of_none {state : Diff × Session} {name : String}
    (h : state.2.workspace.lookup name = none) :
  redirect old new state name = state
  := by
  rw [redirect, h]

theorem redirect_of_some {state : Diff × Session} {name : String}
    (h : state.2.workspace.lookup name = some d) :
  redirect old new state name
    = (state.1.record (some d) (some (d.rename old new)), state.2.define (d.rename old new))
  := by
  rw [redirect, h]

/-- Classes that are redirected one after the other, each once and unchanged so far, are
entered in the diff. -/
theorem between_foldl_redirect {v : Workspace} (hv : Named v.classes) {names : List String}
    (hnodup : names.Nodup) (hold : old ∉ names) (new : String) {state : Diff × Session}
    (h : state.1.Between v state.2.workspace)
    (hnames : ∀ name ∈ names, state.2.workspace.lookup name = v.lookup name) :
  (names.foldl (redirect old new) state).1.Between v
    (names.foldl (redirect old new) state).2.workspace
  := by
  induction names generalizing state with
  | nil => apply h
  | cons head tail ih =>
    obtain ⟨hhead, htail⟩ := List.nodup_cons.mp hnodup
    have hold' : old ∉ tail := fun hin => hold (List.mem_cons_of_mem _ hin)
    have hsame := hnames head List.mem_cons_self
    rw [List.foldl_cons]
    cases hd : state.2.workspace.lookup head with
    | none =>
      rw [redirect_of_none hd]
      apply ih htail hold' h
      intro name hin
      apply hnames name (List.mem_cons_of_mem _ hin)
    | some d =>
      have hname : (d.rename old new).name = head := by
        rw [hd] at hsame
        rw [Descriptor.name_rename, hv hsame.symm, Descriptor.substitute_of_ne]
        rintro rfl
        exact hold List.mem_cons_self
      rw [redirect_of_some hd]
      apply ih htail hold'
      · rw [← hd, hsame, ← hname]
        apply between_insert hv h
        rw [hname, hsame]
      · intro name hin
        rw [workspace_define, Workspace.lookup_insert, hname, if_neg]
        · apply hnames name (List.mem_cons_of_mem _ hin)
        · rintro rfl
          exact hhead hin

theorem between_of_rename (hs : s.Sound) (h : s.rename old new = .ok (diff, t)) :
  diff.Between s.workspace t.workspace
  := by
  obtain ⟨d, hd, hnew, ht⟩ := rename_eq_ok_iff.mp h
  obtain ⟨rfl, rfl⟩ := Prod.mk.inj ht
  apply between_foldl_redirect hs.workspace.named (s.mentioning old).nodup
    (not_mem_mentioning_self hs.workspace)
  · rw [workspace_moved]
    apply between_moved hs hd hnew
  · intro name hin
    -- what mentions the class is another class, and not the one of the new name
    have hne : name ≠ old := ((mem_mentioning hs.workspace).mp hin).2
    have hne' : name ≠ new := by
      rintro rfl
      exact not_mem_mentioning_of_none hs.workspace hnew hin
    apply Eq.trans (lookup_moved (hs.workspace.named hd))
    rw [if_neg hne', if_neg hne]
    rfl

/-- The diff of an edit is between the workspaces before and after it. -/
theorem Sound.between_of_edit (hs : s.Sound) {e : Edit} (h : s.edit e = .ok (diff, t)) :
  diff.Between s.workspace t.workspace
  := by
  cases e with
  | put d => apply between_of_put hs h
  | remove name => apply between_of_remove hs h
  | rename old new => apply between_of_rename hs h

theorem Sound.replays_of_edit (hs : s.Sound) {e : Edit} (h : s.edit e = .ok (diff, t)) :
  diff.Replays s.workspace t.workspace
  := (hs.between_of_edit h).replays hs.workspace.named (hs.edit h).workspace.named

/-! ### The diffs of a run -/

/-- One operation changes the inventory as its diff tells, and not at all if it has none. -/
theorem Sound.foldl_apply_diff? (hs : s.Sound) (operation : Operation) :
  (s.diff? operation).toList.foldl Inventory.apply s.workspace.inventory
    = (s.after operation).workspace.inventory
  := by
  cases operation with
  | edit e =>
    rcases s.after_edit_cases e with ⟨diff, t, he, ht⟩ | ⟨⟨error, he⟩, ht⟩
    · rw [ht, diff?, he]
      apply (hs.replays_of_edit he).apply_eq
    · rw [ht, diff?, he]
      rfl
  | register name =>
    rw [Session.workspace, Session.workspace, hierarchy_after rfl]
    rfl
  | untracked d => rfl
  | setData id d =>
    rw [Session.workspace, Session.workspace, hierarchy_after rfl]
    rfl

/-- A run changes the inventory as its diffs tell, one after the other. -/
theorem Sound.foldl_apply_diffs (hs : s.Sound) (operations : List Operation) :
  (s.diffs operations).foldl Inventory.apply s.workspace.inventory
    = (s.run operations).workspace.inventory
  := by
  induction operations generalizing s with
  | nil => rfl
  | cons operation rest ih =>
    rw [diffs, List.foldl_append, hs.foldl_apply_diff?, ih (hs.after operation)]
    rfl

/-- In every session that can come about, the diff of an edit that succeeds tells exactly what
has changed, and the diffs of a run, applied one after the other to the inventory at its
beginning, give the inventory at its end. -/
theorem diffs_replay (hs : s.Reachable) :
  (∀ e diff t, s.edit e = .ok (diff, t) → diff.Replays s.workspace t.workspace)
    ∧ ∀ operations, (s.diffs operations).foldl Inventory.apply s.workspace.inventory
        = (s.run operations).workspace.inventory
  := by
  constructor
  · intro e diff t h
    apply hs.sound.replays_of_edit h
  · intro operations
    apply hs.sound.foldl_apply_diffs

/-- A class that lists itself is renamed to a name that a subclass mentions beside the old
one, entered again under the old name, and removed. -/
theorem diffs_replay_renamed_together :
  let s := start (Workspace.ofDescriptors [⟨"A", some "A", []⟩, ⟨"C", some "A", ["B"]⟩])
    (ClassPath.ofDescriptors []) Options.default
  let operations : List Operation := [.edit (.rename "A" "B"), .register "C",
    .edit (.put ⟨"A", some "B", ["I", "B"]⟩), .edit (.rename "C" "A"), .edit (.remove "B")]
  s.diffs operations = [
      ⟨1, ["B"], ["A"], ["C"], [⟨"B", "B"⟩], [⟨"A", "A"⟩, ⟨"A", "C"⟩]⟩,
      ⟨2, ["A"], [], [], [⟨"B", "A"⟩, ⟨"I", "A"⟩], []⟩,
      ⟨3, [], ["B"], [], [], [⟨"B", "B"⟩]⟩]
    ∧ (s.diffs operations).foldl Inventory.apply s.workspace.inventory
      = (s.run operations).workspace.inventory
  := by
  intro s operations
  have hopened : s.Opened := .start (Workspace.made_ofDescriptors _) _ _
  constructor
  · decide
  · apply (diffs_replay (.opened hopened)).2

end Session

end Lineage
