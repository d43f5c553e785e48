import Lineage.Proofs.Session.Soundness

/-!
# What operations do to vertices

No operation takes a vertex away or gives it another name.  An operation makes vertices, and
has some that are there hold other definitions of their classes (`Sound.evolves_after`), so
a vertex bears its name for good and holds a definition of its class at all times.

Beside the vertices themselves an operation changes which of them are registered.  What is
registered for a name changes in two ways only: a vertex that is just made is registered
where there was none, and an edit that takes the class out of the workspace takes its vertex
out of the registry, unless the class path has a class of that name.
-/

namespace Lineage

namespace VertexTable

/-- One change of the vertices: one is made, or one that is there holds another definition of
its class. -/
inductive Change (t : VertexTable) : VertexTable → Prop where
  | add (d : Descriptor) : Change t (t.add d)
  | hold {id : VertexId} {d : Descriptor} (h : (t.get? id).map Vertex.name = some d.name) :
      Change t (t.hold id d)

/-- Any number of changes of the vertices, one after the other. -/
def Evolves : VertexTable → VertexTable → Prop := Relation.ReflTransGen Change

/-- Every vertex holds a definition of its class. -/
def Faithful (t : VertexTable) : Prop := ∀ id v, t.get? id = some v → v.data.name = v.name

variable {t u : VertexTable} {d : Descriptor} {id : VertexId} {name : String}

/-- The place of the next vertex has none yet. -/
theorem get?_next (t : VertexTable) :
  t.get? t.next = none
  := List.getElem?_eq_none (Nat.le_refl _)

theorem Change.map_name (h : t.Change u) (hid : (t.get? id).map Vertex.name = some name) :
  (u.get? id).map Vertex.name = some name
  := by
  cases h with
  | add d =>
    obtain ⟨v, hv, hname⟩ := Option.map_eq_some_iff.mp hid
    rw [get?_add_of_some hv, Option.map_some, hname]
  | hold =>
    rw [map_name_hold]
    apply hid

/-- A vertex bears its name for good. -/
theorem Evolves.map_name (h : t.Evolves u) (hid : (t.get? id).map Vertex.name = some name) :
  (u.get? id).map Vertex.name = some name
  := by
  induction h with
  | refl => apply hid
  | tail _ hchange ih => apply hchange.map_name ih

theorem faithful_empty :
  (∅ : VertexTable).Faithful
  := by
  intro id v h
  exact absurd h (Option.some_ne_none v).symm

theorem Change.faithful (h : t.Change u) (ht : t.Faithful) :
  u.Faithful
  := by
  intro a v hv
  cases h with
  | add d =>
    rw [get?_add] at hv
    split at hv
    · rw [← Option.some.inj hv]
      rfl
    · apply ht a v hv
  | @hold id d hname =>
    rw [get?_hold] at hv
    split at hv
    · obtain ⟨w, hw, rfl⟩ := Option.map_eq_some_iff.mp hv
      rw [hw] at hname
      exact (Option.some.inj hname).symm
    · apply ht a v hv

theorem Evolves.faithful (h : t.Evolves u) (ht : t.Faithful) :
  u.Faithful
  := by
  induction h with
  | refl => apply ht
  | tail _ hchange ih => apply hchange.faithful ih

end VertexTable

/-- The name whose class an edit takes out of the workspace. -/
def Edit.vacated? : Edit → Option String
  | .put _ => none
  | .remove name => some name
  | .rename old _ => some old

namespace Session

open VertexTable (Change Evolves)

variable {s t : Session} {diff : Diff} {d : Descriptor} {id : VertexId}
variable {old new name a : String}

/-! ### The vertices after an operation -/

theorem Sound.evolves_refreshed (hs : s.Sound) (hname : d.name = name) :
  s.vertices.Evolves (s.refreshed name d)
  := by
  rw [refreshed]
  cases h : s.vertex? name with
  | none => apply Relation.ReflTransGen.refl
  | some id =>
    apply Relation.ReflTransGen.single (Change.hold _)
    rw [hs.registered h, hname]

theorem Sound.evolves_release (hs : s.Sound) (name : String) :
  s.vertices.Evolves (s.release name).vertices
  := by
  cases h : s.classPath.lookup name with
  | none =>
    rw [vertices_release_of_none h]
    apply Relation.ReflTransGen.refl
  | some d =>
    rw [vertices_release_of_some h]
    apply hs.evolves_refreshed (hs.consistent.classPath.named h)

theorem Sound.evolves_moved (hs : s.Sound) (old new : String) (d : Descriptor) :
  s.vertices.Evolves (s.moved old new d).vertices
  := (hs.withWorkspace ((hs.workspace.erase old).insert _)).evolves_release old

theorem Sound.evolves_rewrite (hs : s.Sound) (old new name : String) :
  s.vertices.Evolves (s.rewrite old new name).vertices
  := by
  cases h : s.workspace.lookup name with
  | none =>
    rw [rewrite_of_none h]
    apply Relation.ReflTransGen.refl
  | some d =>
    rw [rewrite_of_some h]
    apply hs.evolves_refreshed rfl

theorem Sound.evolves_foldl_rewrite (hs : s.Sound) (old new : String) (names : List String) :
  s.vertices.Evolves (names.foldl (Session.rewrite old new) s).vertices
  := by
  induction names generalizing s with
  | nil => apply Relation.ReflTransGen.refl
  | cons head tail ih =>
    apply (hs.evolves_rewrite old new head).trans
    apply ih (hs.rewrite old new head)

theorem Sound.evolves_edit (hs : s.Sound) {e : Edit} (h : s.edit e = .ok (diff, t)) :
  s.vertices.Evolves t.vertices
  := by
  cases e with
  | put d =>
    obtain ⟨-, -, rfl⟩ := put_eq_ok_iff.mp h
    apply hs.evolves_refreshed rfl
  | remove name =>
    obtain ⟨d, -, -, rfl⟩ := remove_eq_ok_iff.mp h
    apply (hs.advance.withWorkspace (hs.workspace.erase name)).evolves_release
  | rename old new =>
    obtain ⟨d, -, -, rfl⟩ := of_rename_eq_ok h
    apply (hs.advance.evolves_moved old new d).trans
    apply (hs.advance.moved old new d).evolves_foldl_rewrite

theorem evolves_after_setData (s : Session) (id : VertexId) (d : Descriptor) :
  s.vertices.Evolves (s.after (.setData id d)).vertices
  := by
  rw [after, setData, VertexTable.setData]
  cases hv : s.vertices.get? id with
  | none => apply Relation.ReflTransGen.refl
  | some v =>
    by_cases hname : d.name = v.name
    · simp only [if_pos hname]
      apply Relation.ReflTransGen.single (Change.hold _)
      rw [hv, Option.map_some, hname]
    · simp only [if_neg hname]
      apply Relation.ReflTransGen.refl

/-- An operation makes vertices and has some hold other definitions of their classes, and does
nothing else to them. -/
theorem Sound.evolves_after (hs : s.Sound) (operation : Operation) :
  s.vertices.Evolves (s.after operation).vertices
  := by
  cases operation with
  | edit e =>
    rcases s.after_edit_cases e with ⟨diff, t, he, h⟩ | ⟨-, h⟩
    · rw [h]
      apply hs.evolves_edit he
    · rw [h]
      apply Relation.ReflTransGen.refl
  | register name =>
    rcases s.after_register_cases name with ⟨d, -, -, h⟩ | h
    · rw [h]
      apply Relation.ReflTransGen.single (Change.add d)
    · rw [h]
      apply Relation.ReflTransGen.refl
  | untracked d => apply Relation.ReflTransGen.single (Change.add d)
  | setData id d => apply evolves_after_setData

theorem Sound.evolves_run (hs : s.Sound) (operations : List Operation) :
  s.vertices.Evolves (s.run operations).vertices
  := by
  induction operations generalizing s with
  | nil => apply Relation.ReflTransGen.refl
  | cons operation rest ih =>
    apply (hs.evolves_after operation).trans
    apply ih (hs.after operation)

/-! ### The registered vertices after an operation -/

theorem vertex?_rewrite (s : Session) (old new name a : String) :
  (s.rewrite old new name).vertex? a = s.vertex? a
  := by
  rw [rewrite]
  split <;> rfl

theorem vertex?_foldl_rewrite (s : Session) (old new : String) (names : List String) (a : String) :
  (names.foldl (rewrite old new) s).vertex? a = s.vertex? a
  := by
  apply List.foldlRecOn (motive := fun t : Session => t.vertex? a = s.vertex? a)
  · rfl
  · intro t ht name _
    rw [vertex?_rewrite, ht]

/-- A name that leaves the workspace has no vertex any more, unless the class path has a class
of that name; the vertices of other names stay. -/
theorem vertex?_release_eq (s : Session) (name a : String) :
  (s.release name).vertex? a
    = if some name = some a ∧ s.classPath.lookup a = none then none else s.vertex? a
  := by
  rw [vertex?_release]
  by_cases ha : a = name
  · simp [ha]
  · simp [ha, Ne.symm ha]

/-- An edit that succeeds takes out of the registry the vertex of the class that it takes out
of the workspace, unless the class path has a class of that name, and no other. -/
theorem vertex?_of_edit {e : Edit} (h : s.edit e = .ok (diff, t)) (a : String) :
  t.vertex? a
    = if e.vacated? = some a ∧ s.classPath.lookup a = none then none else s.vertex? a
  := by
  cases e with
  | put d =>
    obtain ⟨-, -, rfl⟩ := put_eq_ok_iff.mp h
    rfl
  | remove name =>
    obtain ⟨d, -, -, rfl⟩ := remove_eq_ok_iff.mp h
    apply vertex?_release_eq
  | rename old new =>
    obtain ⟨d, -, -, rfl⟩ := of_rename_eq_ok h
    rw [vertex?_foldl_rewrite]
    apply vertex?_release_eq

end Session

end Lineage
