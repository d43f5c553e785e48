import Lineage.Session.Basic

/-!
# Edits

The three edits of a session define a class, remove one and rename one.  An edit that is
refused changes nothing.  One that succeeds takes the next sequence number, tells in a diff
what it changed, and passes the new definitions on to the registered vertices of the classes
it wrote.
-/

namespace Lineage.Session

/-- The session with another workspace. -/
def withWorkspace (s : Session) (workspace : Workspace) : Session :=
  { s with hierarchy := { s.hierarchy with workspace } }

/-- The vertices once the registered one of `name`, if there is one, holds `d`. -/
def refreshed (s : Session) (name : String) (d : Descriptor) : VertexTable :=
  match s.vertex? name with
  | none => s.vertices
  | some id => s.vertices.hold id d

/-- The session in which the workspace and the registered vertex of the class have `d`. -/
def define (s : Session) (d : Descriptor) : Session :=
  { s.withWorkspace (s.workspace.insert d) with vertices := s.refreshed d.name d }

/-- The session after `name` has left the workspace: its registered vertex turns to the
class of that name on the class path, or is no longer registered if there is none. -/
def release (s : Session) (name : String) : Session :=
  match s.classPath.lookup name with
  | some d => { s with vertices := s.refreshed name d }
  | none => { s with registry := s.registry.remove name }

/-- The session with the next sequence number, and the diff that will have it. -/
def advance (s : Session) : Diff × Session :=
  (Diff.ofSequence (s.sequence + 1), { s with sequence := s.sequence + 1 })

/-- Put a class into the workspace, in the place of its present definition. -/
def put (s : Session) (d : Descriptor) : Except EditError (Diff × Session) :=
  if d.declares d.name then .error (.selfInheritance d.name)
  else
    let (diff, s) := s.advance
    .ok (diff.record (s.workspace.lookup d.name) (some d), s.define d)

/-- Remove a class from the workspace. -/
def remove (s : Session) (name : String) : Except EditError (Diff × Session) :=
  match s.workspace.lookup name with
  | none => .error (.classNotFound name)
  | some d =>
      let (diff, s) := s.advance
      .ok (diff.record (some d) none, (s.withWorkspace (s.workspace.erase name)).release name)

/-- One class that declares `old` made to declare `new` instead, and the change entered. -/
def redirect (old new : String) (state : Diff × Session) (name : String) : Diff × Session :=
  match state.2.workspace.lookup name with
  | none => state
  | some d =>
      (state.1.record (some d) (some (d.rename old new)), state.2.define (d.rename old new))

/-- Rename a class of the workspace and every mention of it there. -/
def rename (s : Session) (old new : String) : Except EditError (Diff × Session) :=
  match s.workspace.lookup old with
  | none => .error (.classNotFound old)
  | some d =>
      if s.workspace.contains new then .error (.classExists new)
      else
        let mentioning := (s.workspace.subtypes old).erase old
        let (diff, s) := s.advance
        let moved := (s.workspace.erase old).insert (d.rename old new)
        .ok (mentioning.toList.foldl (redirect old new)
          (diff.record (some d) (some (d.rename old new)),
            (s.withWorkspace moved).release old))

end Lineage.Session
