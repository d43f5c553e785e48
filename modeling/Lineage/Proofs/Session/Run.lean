import Lineage.Proofs.Consistency
import Lineage.Session.Edits

/-!
# Runs of a session

A session is changed by edits and by what is done with its vertices.  Such an `Operation`
takes every session to another one, which is the same session where the operation is refused
or finds nothing, and a run is any finite list of them.  The `Reachable` sessions are those
that a run leads to from an `Opened` one.
-/

namespace Lineage

/-- An edit of the workspace. -/
inductive Edit where
  | put (d : Descriptor)
  | remove (name : String)
  | rename (old new : String)
deriving DecidableEq, Inhabited

/-- An operation on a session. -/
inductive Operation where
  | edit (e : Edit)
  | register (name : String)
  | untracked (d : Descriptor)
  | setData (id : VertexId) (d : Descriptor)
deriving DecidableEq, Inhabited

/-- Whether an operation edits the workspace. -/
def Operation.isEdit : Operation → Bool
  | .edit _ => true
  | _ => false

/-- Whether an operation puts a definition into a vertex. -/
def Operation.isSetData : Operation → Bool
  | .setData _ _ => true
  | _ => false

namespace Session

/-- What comes of an edit. -/
def edit (s : Session) : Edit → Except EditError (Diff × Session)
  | .put d => s.put d
  | .remove name => s.remove name
  | .rename old new => s.rename old new

/-- The session after an operation. -/
def after (s : Session) : Operation → Session
  | .edit e =>
      match s.edit e with
      | .ok (_, t) => t
      | .error _ => s
  | .register name =>
      match s.register name with
      | some (_, t) => t
      | none => s
  | .untracked d => (s.untracked d).2
  | .setData id d =>
      match s.setData id d with
      | .ok t => t
      | .error _ => s

/-- The session after the operations of a list, one after the other. -/
def run (s : Session) (operations : List Operation) : Session :=
  operations.foldl after s

/-- The sessions before any operation, opened on a workspace and a class path. -/
inductive Opened : Session → Prop where
  | start {workspace : Workspace} (h : workspace.Made) (descriptors : List Descriptor)
      (options : Options) :
      Opened (Session.start workspace (ClassPath.ofDescriptors descriptors) options)

/-- The sessions that can come about. -/
inductive Reachable : Session → Prop where
  | opened {s : Session} (h : s.Opened) : Reachable s
  | after {s : Session} (h : Reachable s) (operation : Operation) :
      Reachable (s.after operation)

variable {s t : Session}

/-! ### Single steps -/

theorem after_edit_of_ok {e : Edit} {diff : Diff} (h : s.edit e = .ok (diff, t)) :
  s.after (.edit e) = t
  := by
  rw [after, h]

/-- An edit leads to the session it makes, or is refused and leads nowhere. -/
theorem after_edit_cases (s : Session) (e : Edit) :
  (∃ diff t, s.edit e = .ok (diff, t) ∧ s.after (.edit e) = t)
    ∨ (∃ error, s.edit e = .error error) ∧ s.after (.edit e) = s
  := by
  rw [after]
  cases s.edit e with
  | ok result => exact Or.inl ⟨result.1, result.2, rfl, rfl⟩
  | error error => exact Or.inr ⟨⟨error, rfl⟩, rfl⟩

/-- Asking for a vertex makes one exactly for a name that resolves and has none. -/
theorem after_register_cases (s : Session) (name : String) :
  (∃ d, s.vertex? name = none ∧ s.hierarchy.resolve name = some d
      ∧ s.after (.register name)
        = { s with
            registry := ⟨s.registry.vertices.insert name s.vertices.next⟩
            vertices := s.vertices.add d })
    ∨ s.after (.register name) = s
  := by
  rw [after, register]
  cases e : s.vertex? name with
  | some id => exact Or.inr rfl
  | none =>
    cases hd : s.hierarchy.resolve name with
    | none => exact Or.inr rfl
    | some d =>
      refine Or.inl ⟨d, rfl, rfl, ?_⟩
      rw [Option.map_some, Registry.obtain_of_none e]

/-- Putting a definition into a vertex leads to the session that holds it there, or nowhere. -/
theorem after_setData_cases (s : Session) (id : VertexId) (d : Descriptor) :
  s.after (.setData id d) = { s with vertices := s.vertices.hold id d }
    ∨ s.after (.setData id d) = s
  := by
  rw [after, setData, VertexTable.setData]
  cases s.vertices.get? id with
  | none => exact Or.inr rfl
  | some v =>
    by_cases h : d.name = v.name
    · apply Or.inl
      simp only [if_pos h]
      rfl
    · apply Or.inr
      simp only [if_neg h]
      rfl

/-- Only edits change the hierarchy. -/
theorem hierarchy_after {operation : Operation} (h : operation.isEdit = false) :
  (s.after operation).hierarchy = s.hierarchy
  := by
  cases operation with
  | edit e => exact absurd h Bool.true_eq_false.mp
  | register name =>
    rcases s.after_register_cases name with ⟨d, -, -, h⟩ | h
    · rw [h]
    · rw [h]
  | untracked d => rfl
  | setData id d =>
    rcases s.after_setData_cases id d with h | h
    · rw [h]
    · rw [h]

/-! ### Runs -/

theorem run_append (s : Session) (operations more : List Operation) :
  s.run (operations ++ more) = (s.run operations).run more
  := List.foldl_append

/-- The first operations of a list and the next one. -/
theorem run_take_succ (s : Session) {operations : List Operation} {k : Nat}
    {operation : Operation} (h : operations[k]? = some operation) :
  s.run (operations.take (k + 1)) = (s.run (operations.take k)).after operation
  := by
  rw [List.take_add_one, h, run_append]
  rfl

/-- All operations of a list have been done once there is no next one. -/
theorem run_take_succ_of_none (s : Session) {operations : List Operation} {k : Nat}
    (h : operations[k]? = none) :
  s.run (operations.take (k + 1)) = s.run (operations.take k)
  := by
  rw [List.take_add_one, h]
  simp

theorem Reachable.run (h : s.Reachable) (operations : List Operation) :
  (s.run operations).Reachable
  := List.foldlRecOn _ _ h fun _ h operation _ => h.after operation

theorem hierarchy_run {operations : List Operation}
    (h : ∀ operation ∈ operations, operation.isEdit = false) :
  (s.run operations).hierarchy = s.hierarchy
  := by
  apply List.foldlRecOn (motive := fun t : Session => t.hierarchy = s.hierarchy)
  · rfl
  · intro t ht operation hin
    rw [hierarchy_after (h operation hin)]
    apply ht

end Session

end Lineage
