import Lineage.Proofs.Session.Renaming
import Lineage.Proofs.Session.Vertices

/-!
# The registry is in order

The registry is kept beside the two sources of classes, and every operation that changes a
source has to see to it.  A session is `Orderly` when the vertices hold definitions of their
own classes and every name with a registered vertex resolves.  An edit may take a class away
from under its vertex, but then either the class path has another one of the name or the
vertex leaves the registry (`Sound.resolves_of_edit`), so every session that can come about
is orderly.
-/

namespace Lineage.Session

/-- The registered vertices bear the names they are registered for, all vertices hold
definitions of their classes, and the names with a registered vertex resolve. -/
structure Orderly (s : Session) : Prop where
  sound : s.Sound
  faithful : s.vertices.Faithful
  resolves : ∀ name id, s.vertex? name = some id → s.hierarchy.resolves name

variable {s t : Session} {diff : Diff} {id : VertexId} {name a : String}

/-! ### Names that resolve -/

/-- A name resolves when one of the sources defines it. -/
theorem resolves_iff (s : Session) (name : String) :
  s.hierarchy.resolves name
    ↔ (s.workspace.lookup name).isSome ∨ (s.classPath.lookup name).isSome
  := by
  rw [Hierarchy.resolves, Hierarchy.resolve, Option.isSome_or, Bool.or_eq_true]
  rfl

theorem classPath_of_edit {e : Edit} (h : s.edit e = .ok (diff, t)) :
  t.classPath = s.classPath
  := by
  cases e with
  | put d =>
    obtain ⟨-, -, rfl⟩ := put_eq_ok_iff.mp h
    rfl
  | remove name =>
    obtain ⟨d, -, -, rfl⟩ := remove_eq_ok_iff.mp h
    rw [classPath, hierarchy_release]
    rfl
  | rename old new => apply (sameGround_of_rename h).1

/-- A class of the workspace is there after an edit, unless the edit takes it out. -/
theorem Sound.isSome_lookup_of_edit (hs : s.Sound) {e : Edit} (h : s.edit e = .ok (diff, t))
    (ha : (s.workspace.lookup a).isSome) (hkept : e.vacated? ≠ some a) :
  (t.workspace.lookup a).isSome
  := by
  cases e with
  | put d =>
    obtain ⟨-, -, rfl⟩ := put_eq_ok_iff.mp h
    rw [workspace_define, Workspace.lookup_insert]
    split
    · rfl
    · apply ha
  | remove name =>
    obtain ⟨d, -, -, rfl⟩ := remove_eq_ok_iff.mp h
    rw [Session.workspace, hierarchy_release]
    change ((s.workspace.erase name).lookup a).isSome
    rw [Workspace.lookup_erase, if_neg]
    · apply ha
    · rintro rfl
      exact hkept rfl
  | rename old new =>
    obtain ⟨d, hd, -⟩ := of_rename_eq_ok h
    rw [lookup_of_rename hs.workspace h]
    split
    · rw [hd]
      rfl
    · rw [if_neg, Option.isSome_map]
      · apply ha
      · rintro rfl
        exact hkept rfl

/-- A name that resolves still does so after an edit, unless the edit takes its class out of
the workspace and the class path has none. -/
theorem Sound.resolves_of_edit (hs : s.Sound) {e : Edit} (h : s.edit e = .ok (diff, t))
    (ha : s.hierarchy.resolves a)
    (hkept : ¬ (e.vacated? = some a ∧ s.classPath.lookup a = none)) :
  t.hierarchy.resolves a
  := by
  rw [resolves_iff] at ha ⊢
  rw [classPath_of_edit h]
  by_cases hpath : (s.classPath.lookup a).isSome
  · apply Or.inr hpath
  · apply Or.inl
    apply hs.isSome_lookup_of_edit h
    · apply ha.resolve_right hpath
    · intro hvacated
      apply hkept
      exact ⟨hvacated, Option.not_isSome_iff_eq_none.mp hpath⟩

/-! ### Orderly sessions -/

theorem Orderly.edit (hs : s.Orderly) {e : Edit} (h : s.edit e = .ok (diff, t)) :
  t.Orderly
  where
  sound := hs.sound.edit h
  faithful := (hs.sound.evolves_edit h).faithful hs.faithful
  resolves a id ha := by
    rw [vertex?_of_edit h] at ha
    split at ha
    · exact absurd ha (Option.some_ne_none id).symm
    · rename_i hkept
      apply hs.sound.resolves_of_edit h (hs.resolves a id ha) hkept

theorem Orderly.register (hs : s.Orderly) (name : String) :
  (s.after (.register name)).Orderly
  where
  sound := hs.sound.register name
  faithful := (hs.sound.evolves_after _).faithful hs.faithful
  resolves a id ha := by
    rw [hierarchy_after rfl]
    rcases s.after_register_cases name with ⟨d, -, hd, h⟩ | h
    · rw [h] at ha
      change (s.registry.vertices.insert name s.vertices.next).get? a = some id at ha
      rw [NameMap.get?_insert] at ha
      split at ha
      · rename_i hname
        rw [hname, Hierarchy.resolves, hd]
        rfl
      · apply hs.resolves a id ha
    · rw [h] at ha
      apply hs.resolves a id ha

/-- Every operation on an orderly session leads to an orderly session. -/
theorem Orderly.after (hs : s.Orderly) (operation : Operation) :
  (s.after operation).Orderly
  := by
  have hsound := hs.sound.after operation
  have hfaithful := (hs.sound.evolves_after operation).faithful hs.faithful
  cases operation with
  | edit e =>
    rcases s.after_edit_cases e with ⟨diff, t, he, h⟩ | ⟨-, h⟩
    · rw [h]
      apply hs.edit he
    · rw [h]
      apply hs
  | register name => apply hs.register
  | untracked d => exact ⟨hsound, hfaithful, hs.resolves⟩
  | setData id d =>
    refine ⟨hsound, hfaithful, ?_⟩
    rcases s.after_setData_cases id d with h | h
    · rw [h]
      apply hs.resolves
    · rw [h]
      apply hs.resolves

theorem Opened.orderly (h : s.Opened) :
  s.Orderly
  := by
  have hsound := h.sound
  cases h with
  | start hw descriptors options =>
    refine ⟨hsound, VertexTable.faithful_empty, ?_⟩
    intro name id h
    exact absurd h (Option.some_ne_none id).symm

/-- Every session that can come about is orderly. -/
theorem Reachable.orderly (h : s.Reachable) :
  s.Orderly
  := by
  induction h with
  | opened h => apply h.orderly
  | after _ operation ih => apply ih.after

/-- In every session that can come about, each name of the registry has a vertex that bears
the name and holds a definition of that name, and the name resolves. -/
theorem registry_in_order (hs : s.Reachable) :
  ∀ name ∈ s.tracked, ∃ id v, s.vertex? name = some id ∧ s.vertices.get? id = some v
    ∧ v.name = name ∧ v.data.name = name ∧ (s.hierarchy.resolve name).isSome
  := by
  have hordered := hs.orderly
  intro name hin
  obtain ⟨id, hid⟩ := NameMap.contains_iff.mp (NameMap.mem_keys.mp hin)
  obtain ⟨v, hv, hname⟩ := hordered.sound.exists_vertex hid
  refine ⟨id, v, hid, hv, hname, ?_, hordered.resolves name id hid⟩
  rw [hordered.faithful id v hv, hname]

/-- A class that shadows one of the class path is removed, and another class gets its name.
The vertex of the name stays, with whatever definitions of that name are put into it, and
that of the renamed class, which refuses such a definition, leaves the registry. -/
theorem registry_in_order_renamed :
  let s := (start (Workspace.ofDescriptors [⟨"A", none, []⟩, ⟨"R", some "A", []⟩])
      (ClassPath.ofDescriptors [⟨"R", none, []⟩]) Options.default).run
    [.register "A", .register "R", .setData ⟨1⟩ ⟨"R", some "X", []⟩, .edit (.remove "R"),
      .setData ⟨0⟩ ⟨"R", none, []⟩, .edit (.rename "A" "R"), .setData ⟨1⟩ ⟨"R", some "Y", []⟩]
  s.Reachable ∧ "R" ∈ s.tracked ∧ "A" ∉ s.tracked
    ∧ ∃ id v, s.vertex? "R" = some id ∧ s.vertices.get? id = some v ∧ v.name = "R"
      ∧ v.data.name = "R" ∧ (s.hierarchy.resolve "R").isSome
  := by
  intro s
  have hs : s.Reachable := (Reachable.opened (.start (Workspace.made_ofDescriptors _) _ _)).run _
  exact ⟨hs, by decide, by decide, registry_in_order hs "R" (by decide)⟩

end Lineage.Session
