import Lineage.Edge
import Lineage.Hierarchy.Ancestry

/-!
# Networks

A network is a graph as it is put together: a list of nodes, each with the places of the nodes that
it has an edge to, and an index with the place of the node of each class.  Nothing in this keeps a
class from having two nodes, or two nodes from having the same edge twice.  It is for `enter` to
look for the node of a class before it makes one, and for `ensureEdge` to look for an edge before it
puts one.  Names are collected as they are kept, in no order, and sorted afterwards.

`Network.walk` collects all that can be reached from a class along edges: the edges at a class
come from its supertypes that resolve and go to its descendants.  A network is a snapshot, and
later edits do not change it.
-/

namespace Lineage

/-- The edges at `name`: from each supertype that resolves, and to each descendant. -/
def Hierarchy.edges (h : Hierarchy) (name : String) : List (Edge String) :=
  (h.knownSupertypes name).map (fun parent => ⟨parent, name⟩) ++
    ((h.descendants name).toList.filter h.resolves).map fun child => ⟨name, child⟩

/-- The node of a class. -/
structure Node where
  name : String
  /-- The places of the nodes that it has an edge to, the latest edge first. -/
  targets : List Nat
deriving DecidableEq

/-- A graph of classes with the places of its nodes. -/
structure Network where
  /-- The nodes, by place. -/
  nodes : List Node
  /-- The place of the node of each class, the latest first. -/
  places : List (String × Nat)
deriving DecidableEq

namespace Network

/-- The network without nodes. -/
def empty : Network := ⟨[], []⟩

instance : EmptyCollection Network := ⟨empty⟩

/-- The place of the node of a class. -/
def place? (g : Network) (name : String) : Option Nat := NameMap.find name g.places

/-- The class of the node at a place. -/
def name? (g : Network) (place : Nat) : Option String := (g.nodes[place]?).map Node.name

/-- The edges between the nodes at two places. -/
def edges (g : Network) : List (Edge Nat) :=
  g.nodes.zipIdx.flatMap fun (node, place) => node.targets.map (Edge.mk place)

/-- Whether there is an edge between the nodes at two places. -/
def hasEdge (g : Network) (source target : Nat) : Bool :=
  (g.nodes[source]?).any fun node => node.targets.contains target

/-- The network with one more node, which has the last place. -/
def addNode (g : Network) (name : String) : Network :=
  ⟨g.nodes ++ [⟨name, []⟩], (name, g.nodes.length) :: g.places⟩

/-- The network with one more edge between the nodes at two places. -/
def addEdge (g : Network) (source target : Nat) : Network :=
  { g with nodes := g.nodes.modify source fun node =>
      { node with targets := target :: node.targets } }

/-- The place of the node of a class, which is made if there is none, and the network that
has it. -/
def enter (g : Network) (name : String) : Nat × Network :=
  match g.place? name with
  | some place => (place, g)
  | none => (g.nodes.length, g.addNode name)

/-- The network with an edge between the nodes at two places, which is put unless it is there. -/
def ensureEdge (g : Network) (source target : Nat) : Network :=
  if g.hasEdge source target then g else g.addEdge source target

/-- The network with an edge between the nodes of two classes. -/
def connect (g : Network) (e : Edge String) : Network :=
  let source := g.enter e.source
  let target := source.2.enter e.target
  target.2.ensureEdge source.1 target.1

/-- The network with one class and no edge. -/
def single (name : String) : Network := ((∅ : Network).enter name).2

/-- All that can be reached from `start` along the edges of the hierarchy. -/
def walk (h : Hierarchy) (start : String) : Network :=
  (h.neighbourhood.visits start).foldl (fun g name => (h.edges name).foldl connect g)
    (single start)

/-! ### Queries -/

/-- Names in ascending order. -/
def sorted (names : List String) : List String := names.mergeSort (· ≤ ·)

/-- The number of classes. -/
def nodeCount (g : Network) : Nat := g.nodes.length

/-- The number of edges. -/
def edgeCount (g : Network) : Nat := g.edges.length

/-- Whether `name` is one of the classes. -/
def contains (g : Network) (name : String) : Bool := (g.place? name).isSome

/-- The classes, sorted. -/
def names (g : Network) : List String := sorted (g.places.map Prod.fst)

/-- The classes at the far ends of the edges at a class, sorted. -/
def neighbours (g : Network) (side : Edge.Side) (name : String) : List String :=
  match g.place? name with
  | none => []
  | some place =>
      sorted ((g.edges.filter (side.near · = place)).filterMap fun e => g.name? (side.far e))

/-- The classes that have an edge to `name`, sorted. -/
def supertypes (g : Network) (name : String) : List String := g.neighbours .source name

/-- The classes that `name` has an edge to, sorted. -/
def subtypes (g : Network) (name : String) : List String := g.neighbours .target name

/-- The sizes of the network written out. -/
def text (g : Network) : String :=
  Text.record "HierarchyGraph" [
    ("node_count", toString g.nodeCount), ("edge_count", toString g.edgeCount)]

end Network

end Lineage
