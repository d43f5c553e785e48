import Lineage.Diff
import Lineage.Graph
import Lineage.Registry
import Lineage.Vertex

/-!
# Sessions

A session is a hierarchy under edit together with the vertices that were given out for its
classes.  At most one vertex of each class is registered; registered vertices take part in
edits, all others keep what they hold.  The edges at a vertex depend on its name and the
hierarchy only: the far end is the registered vertex of the class there, or else a vertex
made for the occasion.
-/

namespace Lineage

/-- A hierarchy under edit and the vertices of its classes. -/
structure Session where
  hierarchy : Hierarchy
  /-- The number of edits so far. -/
  sequence : UInt64
  /-- The registered vertices. -/
  registry : Registry VertexId
  /-- All vertices, registered or not. -/
  vertices : VertexTable
deriving DecidableEq

/-- One end of an edge. -/
inductive Endpoint where
  /-- A vertex of the session. -/
  | held (id : VertexId)
  /-- A vertex that no one else has, made for a definition. -/
  | fresh (data : Descriptor)
deriving DecidableEq, Inhabited

namespace Session

/-- The session before any edit. -/
def start (workspace : Workspace) (classPath : ClassPath) (options : Options) : Session :=
  ⟨⟨workspace, classPath, options⟩, 0, ∅, ∅⟩

/-- The classes under edit. -/
def workspace (s : Session) : Workspace := s.hierarchy.workspace

/-- The classes available for reference. -/
def classPath (s : Session) : ClassPath := s.hierarchy.classPath

/-- The counts of the session written out. -/
def text (s : Session) : String :=
  Text.record "HierarchyIndex" [
    ("workspace_classes", toString s.workspace.size),
    ("runtime_classes", toString s.classPath.size),
    ("tracked_vertices", toString s.registry.size),
    ("sequence", toString s.sequence.toNat)]

/-! ### Vertices -/

/-- The registered vertex of `name`. -/
def vertex? (s : Session) (name : String) : Option VertexId := s.registry.get? name

/-- The registered vertex of `name`, made and registered if need be, and the session that
has it; none if `name` does not resolve. -/
def register (s : Session) (name : String) : Option (VertexId × Session) :=
  match s.vertex? name with
  | some id => some (id, s)
  | none => (s.hierarchy.resolve name).map fun d =>
      let obtained := s.registry.obtain name fun _ => s.vertices.next
      (obtained.vertex,
        { s with registry := obtained.registry, vertices := s.vertices.add d })

/-- A vertex made for `d` without being registered, and the session that has it. -/
def untracked (s : Session) (d : Descriptor) : VertexId × Session :=
  (s.vertices.next, { s with vertices := s.vertices.add d })

/-- Whether `id` is the registered vertex of its class. -/
def isTracked (s : Session) (id : VertexId) : Bool :=
  match s.vertices.get? id with
  | none => false
  | some v => s.vertex? v.name = some id

/-- The names that have a registered vertex. -/
def tracked (s : Session) : NameSet := s.registry.names

/-- The definitions that the registered vertices hold, by name. -/
def trackedData (s : Session) : List Descriptor :=
  s.registry.vertices.values.filterMap s.vertices.data?

/-- The session with `d` put into a vertex, unless it defines another class. -/
def setData (s : Session) (id : VertexId) (d : Descriptor) : Except EditError Session :=
  (s.vertices.setData id d).map fun vertices => { s with vertices }

/-! ### Edges -/

/-- The end of an edge at the class that `d` defines. -/
def endpoint (s : Session) (d : Descriptor) : Endpoint :=
  match s.vertex? d.name with
  | some id => .held id
  | none => .fresh d

/-- The name of an end. -/
def endName (s : Session) : Endpoint → String
  | .held id => ((s.vertices.get? id).map Vertex.name).getD ""
  | .fresh d => d.name

/-- The definition that an end holds. -/
def endData? (s : Session) : Endpoint → Option Descriptor
  | .held id => s.vertices.data? id
  | .fresh d => some d

/-- Whether an end is the registered vertex of its class. -/
def endTracked (s : Session) : Endpoint → Bool
  | .held id => s.isTracked id
  | .fresh _ => false

/-- The edges at a vertex: from its supertypes that resolve, and to its descendants. -/
def edges (s : Session) (id : VertexId) : List (Edge Endpoint) :=
  match s.vertices.get? id with
  | none => []
  | some v =>
      let h := s.hierarchy
      ((h.supertypes v.name).filterMap h.resolve).map
          (fun d => ⟨s.endpoint d, .held id⟩) ++
        ((h.descendants v.name).toList.filterMap h.resolve).map
          fun d => ⟨.held id, s.endpoint d⟩

/-- The edges at a vertex by the names of their ends. -/
def edgeNames (s : Session) (id : VertexId) : List (Edge String) :=
  (s.edges id).map (Edge.map s.endName)

/-- All that can be reached from a vertex along edges, as it is put together. -/
def network (s : Session) (id : VertexId) : Option Network :=
  (s.vertices.get? id).map fun v => Network.walk s.hierarchy v.name

/-- All that can be reached from a vertex along edges. -/
def walk (s : Session) (id : VertexId) : Option Graph := (s.network id).map Network.graph

end Session

end Lineage
