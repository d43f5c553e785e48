import Lineage.Session.Edits

/-!
# The end of a session

Vertices outlive their session.  Once it is closed they still have their names and hold
definitions that can be exchanged, but none is registered any more and none has an edge.
-/

namespace Lineage

/-- A session while it is open, and what is left when it is closed. -/
inductive Lifetime where
  | opened (session : Session)
  | closed (vertices : VertexTable)
deriving DecidableEq

namespace Lifetime

/-- The vertices made in the session. -/
def vertices : Lifetime → VertexTable
  | .opened s => s.vertices
  | .closed t => t

/-- The session if it is still open. -/
def session? : Lifetime → Option Session
  | .opened s => some s
  | .closed _ => none

/-- The session brought to its end. -/
def close (l : Lifetime) : Lifetime := .closed l.vertices

/-- Whether `id` is the registered vertex of its class. -/
def isTracked : Lifetime → VertexId → Bool
  | .opened s, id => s.isTracked id
  | .closed _, _ => false

/-- A vertex written out. -/
def vertexText (l : Lifetime) (id : VertexId) : Option String :=
  (l.vertices.get? id).map fun v => v.text (l.isTracked id)

/-- The vertices with `d` put into one of them, unless it defines another class. -/
def setData (l : Lifetime) (id : VertexId) (d : Descriptor) : Except EditError Lifetime :=
  match l with
  | .opened s => (s.setData id d).map .opened
  | .closed t => (t.setData id d).map .closed

/-- The edges at a vertex. -/
def edges : Lifetime → VertexId → List (Edge Endpoint)
  | .opened s, id => s.edges id
  | .closed _, _ => []

/-- The edges at a vertex by the names of their ends. -/
def edgeNames : Lifetime → VertexId → List (Edge String)
  | .opened s, id => s.edgeNames id
  | .closed _, _ => []

/-- All that can be reached from a vertex along edges. -/
def network (l : Lifetime) (id : VertexId) : Option Network :=
  match l with
  | .opened s => s.network id
  | .closed t => (t.get? id).map fun v => Network.single v.name

end Lifetime

end Lineage
