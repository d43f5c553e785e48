import Lineage.Proofs.Hierarchy.Ancestry
import Lineage.Proofs.Session.Edits

/-!
# What holds of every session

In every session that can come about both sources of the hierarchy are consistent, and a
registered vertex is one of the session's vertices and bears the name it is registered for
(`Reachable.sound`).  So no two names have the same registered vertex, and an edit that
refreshes the vertex of one class leaves those of the others alone.
-/

namespace Lineage.Session

/-- The sources are consistent and the registered vertices bear the names they are
registered for. -/
structure Sound (s : Session) : Prop where
  consistent : s.hierarchy.Consistent
  registered : ∀ {name id}, s.vertex? name = some id →
    (s.vertices.get? id).map Vertex.name = some name

variable {s t : Session} {d : Descriptor} {name : String} {id : VertexId}

theorem Sound.workspace (hs : s.Sound) :
  s.workspace.Consistent
  := hs.consistent.workspace

theorem Sound.exists_vertex (hs : s.Sound) (h : s.vertex? name = some id) :
  ∃ v, s.vertices.get? id = some v ∧ v.name = name
  := Option.map_eq_some_iff.mp (hs.registered h)

/-- Different names have different registered vertices. -/
theorem Sound.vertex_ne (hs : s.Sound) {a : String} {i : VertexId}
    (h : s.vertex? name = some id) (ha : s.vertex? a = some i) (hne : a ≠ name) :
  i ≠ id
  := by
  rintro rfl
  have hname := hs.registered h
  rw [hs.registered ha] at hname
  exact hne (Option.some.inj hname)

/-! ### Refreshed vertices -/

theorem map_name_refreshed :
  ((s.refreshed name d).get? id).map Vertex.name = (s.vertices.get? id).map Vertex.name
  := by
  rw [refreshed]
  split
  · rfl
  · apply VertexTable.map_name_hold

theorem Sound.data?_refreshed_self (hs : s.Sound) (h : s.vertex? name = some id) :
  (s.refreshed name d).data? id = some d
  := by
  obtain ⟨v, hv, -⟩ := hs.exists_vertex h
  rw [refreshed, h]
  apply VertexTable.data?_hold_self hv

theorem Sound.data?_refreshed_of_ne (hs : s.Sound) {a : String} {i : VertexId}
    (ha : s.vertex? a = some i) (hne : a ≠ name) :
  (s.refreshed name d).data? i = s.vertices.data? i
  := by
  rw [refreshed]
  cases h : s.vertex? name with
  | none => rfl
  | some id => apply VertexTable.data?_hold_of_ne (hs.vertex_ne h ha hne)

/-! ### Parts of edits -/

theorem Sound.advance (hs : s.Sound) :
  s.advance.2.Sound
  := ⟨hs.consistent, hs.registered⟩

theorem Sound.withWorkspace (hs : s.Sound) {w : Workspace} (hw : w.Consistent) :
  (s.withWorkspace w).Sound
  := ⟨⟨hw, hs.consistent.classPath⟩, hs.registered⟩

theorem Sound.define (hs : s.Sound) (d : Descriptor) :
  (s.define d).Sound
  where
  consistent := ⟨hs.consistent.workspace.insert d, hs.consistent.classPath⟩
  registered {name id} h := by
    apply Eq.trans map_name_refreshed
    apply hs.registered h

/-- The registered vertices once a name has left the workspace. -/
theorem vertex?_release (s : Session) (name a : String) :
  (s.release name).vertex? a
    = if a = name ∧ s.classPath.lookup name = none then none else s.vertex? a
  := by
  rw [release]
  cases s.classPath.lookup name with
  | some d => simp [vertex?]
  | none => simp [vertex?, Registry.get?_remove]

theorem vertices_release_of_none (h : s.classPath.lookup name = none) :
  (s.release name).vertices = s.vertices
  := by
  rw [release, h]

theorem vertices_release_of_some (h : s.classPath.lookup name = some d) :
  (s.release name).vertices = s.refreshed name d
  := by
  rw [release, h]

theorem Sound.release (hs : s.Sound) (name : String) :
  (s.release name).Sound
  where
  consistent := by
    rw [hierarchy_release]
    apply hs.consistent
  registered {a id} h := by
    rw [vertex?_release] at h
    split at h
    · exact absurd h (Option.some_ne_none id).symm
    · cases e : s.classPath.lookup name with
      | none =>
        rw [vertices_release_of_none e]
        apply hs.registered h
      | some d =>
        rw [vertices_release_of_some e, map_name_refreshed]
        apply hs.registered h

theorem Sound.moved (hs : s.Sound) (old new : String) (d : Descriptor) :
  (s.moved old new d).Sound
  := (hs.withWorkspace ((hs.workspace.erase old).insert _)).release old

theorem Sound.rewrite (hs : s.Sound) (old new name : String) :
  (s.rewrite old new name).Sound
  := by
  rw [Session.rewrite]
  split
  · apply hs
  · apply hs.define

theorem Sound.foldl_rewrite (hs : s.Sound) (old new : String) (names : List String) :
  (names.foldl (Session.rewrite old new) s).Sound
  := List.foldlRecOn _ _ hs fun _ hs name _ => hs.rewrite old new name

/-- A vertex made for a definition comes beside those that are there. -/
theorem Sound.add (hs : s.Sound) (d : Descriptor) :
  ({ s with vertices := s.vertices.add d } : Session).Sound
  where
  consistent := hs.consistent
  registered {name id} h := by
    obtain ⟨v, hv, hname⟩ := hs.exists_vertex h
    rw [VertexTable.get?_add_of_some hv, Option.map_some, hname]

/-! ### Operations -/

theorem Sound.edit (hs : s.Sound) {e : Edit} {diff : Diff} (h : s.edit e = .ok (diff, t)) :
  t.Sound
  := by
  cases e with
  | put d =>
    obtain ⟨-, -, rfl⟩ := put_eq_ok_iff.mp h
    apply hs.advance.define
  | remove name =>
    obtain ⟨d, -, -, rfl⟩ := remove_eq_ok_iff.mp h
    apply (hs.advance.withWorkspace (hs.workspace.erase name)).release
  | rename old new =>
    obtain ⟨d, -, -, rfl⟩ := of_rename_eq_ok h
    apply (hs.advance.moved old new d).foldl_rewrite

theorem Sound.register (hs : s.Sound) (name : String) :
  (s.after (.register name)).Sound
  := by
  rcases s.after_register_cases name with ⟨d, -, hd, h⟩ | h
  · rw [h]
    constructor
    · apply hs.consistent
    · intro a id ha
      change (s.registry.vertices.insert name s.vertices.next).get? a = some id at ha
      rw [NameMap.get?_insert] at ha
      split at ha
      · rename_i hname
        rw [← Option.some.inj ha, VertexTable.get?_add, if_pos rfl, hname]
        exact congrArg some (hs.consistent.name_of_resolve hd)
      · apply (hs.add d).registered ha
  · rw [h]
    apply hs

/-- Every operation on a sound session leads to a sound session. -/
theorem Sound.after (hs : s.Sound) (operation : Operation) :
  (s.after operation).Sound
  := by
  cases operation with
  | edit e =>
    rcases s.after_edit_cases e with ⟨diff, t, he, h⟩ | ⟨-, h⟩
    · rw [h]
      apply hs.edit he
    · rw [h]
      apply hs
  | register name => apply hs.register
  | untracked d => apply hs.add
  | setData id d =>
    rcases s.after_setData_cases id d with h | h
    · rw [h]
      constructor
      · apply hs.consistent
      · intro name a ha
        apply Eq.trans VertexTable.map_name_hold
        apply hs.registered ha
    · rw [h]
      apply hs

/-- A session that begins with consistent sources is sound, as nothing is registered. -/
theorem sound_start {workspace : Workspace} {classPath : ClassPath} {options : Options}
    (hw : workspace.Consistent) (hp : classPath.Consistent) :
  (start workspace classPath options).Sound
  where
  consistent := ⟨hw, hp⟩
  registered {_ id} h := absurd h (Option.some_ne_none id).symm

theorem Opened.sound (h : s.Opened) :
  s.Sound
  := by
  cases h with
  | start hw descriptors options =>
    apply sound_start hw.consistent (ClassPath.consistent_ofDescriptors descriptors)

theorem Sound.run (hs : s.Sound) (operations : List Operation) :
  (s.run operations).Sound
  := List.foldlRecOn _ _ hs fun _ hs operation _ => hs.after operation

/-- Every session that can come about is sound. -/
theorem Reachable.sound (h : s.Reachable) :
  s.Sound
  := by
  induction h with
  | opened h => apply h.sound
  | after _ operation ih => apply ih.after

end Lineage.Session
