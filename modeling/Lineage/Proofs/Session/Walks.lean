import Lineage.Proofs.Hierarchy.Components
import Lineage.Proofs.Hierarchy.Extent
import Lineage.Proofs.Session.WalksInPlace
import Mathlib.Data.List.Permutation

/-!
# Walks from the vertices of a session

A walk depends on the name of the vertex where it starts and on the hierarchy only, and puts a
network together that is exactly what can be walked from that name (`walk_exact`).  If it starts
at a class of the workspace, or at any class while classes of the class path are reported, the
same graph is walked from every vertex of every class in it (`walk_independent_of_start`).
-/

namespace Lineage.Session

variable {s : Session}

theorem network_of_get? {id : VertexId} {v : Vertex} (h : s.vertices.get? id = some v) :
  s.network id = some (Network.walk s.hierarchy v.name)
  := by
  rw [network, h, Option.map_some]

theorem walk_of_get? {id : VertexId} {v : Vertex} (h : s.vertices.get? id = some v) :
  s.walk id = some (Graph.walk s.hierarchy v.name)
  := by
  rw [walk, network_of_get? h, Option.map_some, Network.graph_walk]

/-- In every session that can come about, the walk from any vertex puts a network together, and
this is exactly what can be walked from the name of the vertex, whether that resolves or not.
Asking vertex by vertex for the edges, in whatever order these come, ends with such a network and
with the same graph, also if the vertices that are asked are made on the way. -/
theorem walk_exact (hs : s.Reachable) {id : VertexId} {v : Vertex}
    (hv : s.vertices.get? id = some v) :
  ∃ g, s.network id = some g ∧ g.Charts s.hierarchy v.name
    ∧ (s.walkLoop.Ends (s.begun (.held id)) fun w =>
      w.network.Charts s.hierarchy v.name ∧ w.graph = g.graph)
    ∧ walkInPlace.Ends (s, s.begun (.held id)) fun w =>
      w.2.network.Charts s.hierarchy v.name ∧ w.2.graph = g.graph
  := by
  have hconsistent := hs.sound.consistent
  have hid : s.Has id := ⟨v, hv⟩
  refine ⟨Network.walk s.hierarchy v.name, network_of_get? hv, ?_, ?_, ?_⟩
  · apply hconsistent.charts (Network.indexed_walk _ _) Network.graph_walk
  · apply (hs.sound.ends_walkLoop hid.known).imp
    rintro w ⟨hindexed, hgraph⟩
    rw [endName_held hv] at hgraph
    exact ⟨hconsistent.charts hindexed hgraph, hgraph.trans Network.graph_walk.symm⟩
  · apply (hs.sound.ends_walkInPlace hv).imp
    rintro w ⟨hindexed, hgraph⟩
    exact ⟨hconsistent.charts hindexed hgraph, hgraph.trans Network.graph_walk.symm⟩

/-- The vertex of a class that has been removed, under which two classes declare each other:
the links between these are there once, though each is met from both ends. -/
theorem walk_exact_removed :
  let s := (start (Workspace.ofDescriptors
      [⟨"A", some "X", ["B"]⟩, ⟨"B", some "A", []⟩, ⟨"X", none, []⟩])
      (ClassPath.ofDescriptors []) Options.default).run [.register "X", .edit (.remove "X")]
  s.hierarchy.resolves "X" = false
    ∧ ∃ g, s.network ⟨0⟩ = some g ∧ g.Charts s.hierarchy "X"
      ∧ (s.walkLoop.Ends (s.begun (.held ⟨0⟩)) fun w =>
        w.network.Charts s.hierarchy "X" ∧ w.graph = g.graph)
      ∧ (walkInPlace.Ends (s, s.begun (.held ⟨0⟩)) fun w =>
        w.2.network.Charts s.hierarchy "X" ∧ w.2.graph = g.graph)
      ∧ g.names = ["A", "B", "X"] ∧ g.nodeCount = 3
      ∧ g.edges = [⟨0, 2⟩, ⟨0, 1⟩, ⟨1, 2⟩, ⟨2, 1⟩] ∧ g.edgeCount = 4
      ∧ g.subtypes "X" = ["A", "B"] ∧ g.supertypes "A" = ["B", "X"]
  := by
  intro s
  have hs : s.Reachable := (Reachable.opened (.start (Workspace.made_ofDescriptors _) _ _)).run _
  have hv : s.vertices.get? ⟨0⟩ = some ⟨"X", ⟨"X", none, []⟩⟩ := by decide
  have hhierarchy : s.hierarchy = ⟨Workspace.ofDescriptors
      [⟨"A", some "X", ["B"]⟩, ⟨"B", some "A", []⟩], ClassPath.ofDescriptors [],
      Options.default⟩ := by
    decide
  obtain ⟨g, hg, hcharts, hends, hendsInPlace⟩ := walk_exact hs hv
  have hwalk : (g.names, g.nodeCount, g.edges, g.edgeCount, g.subtypes "X", g.supertypes "A")
      = (["A", "B", "X"], 3, [⟨0, 2⟩, ⟨0, 1⟩, ⟨1, 2⟩, ⟨2, 1⟩], 4, ["A", "B"], ["B", "X"]) := by
    rw [network_of_get? hv, hhierarchy] at hg
    rw [← Option.some.inj hg]
    cbv
  simp only [Prod.mk.injEq] at hwalk
  exact ⟨by decide, g, hg, hcharts, hends, hendsInPlace, hwalk⟩

/-- In every session that can come about, take a vertex of a class that is in the workspace,
or that resolves while classes of the class path are reported.  The walk from it gives a
graph, in which its class is, and the walk from any vertex of a class in this graph gives the same
graph, also if that vertex is yet to be made. -/
theorem walk_independent_of_start (hs : s.Reachable) {id : VertexId} {v : Vertex}
    (hv : s.vertices.get? id = some v)
    (hstart : s.workspace.contains v.name
      ∨ (s.hierarchy.resolves v.name ∧ s.hierarchy.options.runtimeDescendants)) :
  ∃ g, s.walk id = some g ∧ v.name ∈ g.names
    ∧ ∀ operations : List Operation, (∀ operation ∈ operations, operation.isEdit = false) →
      let t := s.run operations
      ∀ id' v', t.vertices.get? id' = some v' → v'.name ∈ g.names → t.walk id' = some g
  := by
  have hresolves : s.hierarchy.resolves v.name ∧ s.hierarchy.isReported v.name := by
    rw [Hierarchy.isReported, Bool.or_eq_true]
    rcases hstart with hin | ⟨hresolves, hoptions⟩
    · obtain ⟨d, hd⟩ := NameMap.contains_iff.mp hin
      have hd := Hierarchy.resolve_of_lookup hd
      rw [Hierarchy.resolves, hd]
      exact ⟨rfl, Or.inr hin⟩
    · exact ⟨hresolves, Or.inl hoptions⟩
  refine ⟨Graph.walk s.hierarchy v.name, walk_of_get? hv, ?_, ?_⟩
  · rw [Graph.mem_names_walk, Adjacency.mem_reach_iff]
  · intro operations hedits t id' v' hv' hname
    rw [walk_of_get? hv', hierarchy_run hedits]
    apply congrArg some
    apply hs.sound.consistent.walk_eq_of_mem hresolves.1 hresolves.2 hname

/-- A class that extends one of the class path, which is in a cycle with another one there:
the walk from the far end of the cycle has to find its way back down. -/
theorem walk_independent_of_start_cycle :
  let s := (start (Workspace.ofDescriptors [⟨"A", some "R", ["U"]⟩])
      (ClassPath.ofDescriptors [⟨"R", some "S", []⟩, ⟨"S", none, ["R"]⟩]) Options.default).run
    [.register "A"]
  ∃ g, s.walk ⟨0⟩ = some g ∧ "A" ∈ g.names ∧ (s.run [.register "S"]).walk ⟨1⟩ = some g
  := by
  intro s
  have hs : s.Reachable := (Reachable.opened (.start (Workspace.made_ofDescriptors _) _ _)).run _
  have hv : s.vertices.get? ⟨0⟩ = some ⟨"A", ⟨"A", some "R", ["U"]⟩⟩ := by decide
  obtain ⟨g, hg, hstart, hsame⟩ := walk_independent_of_start hs hv (Or.inl (by decide))
  use g, hg, hstart
  apply hsame [.register "S"] (by decide) ⟨1⟩ ⟨"S", ⟨"S", none, ["R"]⟩⟩ (by decide)
  have hup : s.hierarchy.Declares "A" "R" := ⟨⟨"A", some "R", ["U"]⟩, by decide⟩
  have hup' : s.hierarchy.Declares "R" "S" := ⟨⟨"R", some "S", []⟩, by decide⟩
  rw [walk_of_get? hv] at hg
  rw [← Option.some.inj hg, Graph.mem_names_walk, Adjacency.mem_reach_iff]
  apply hs.sound.consistent.walks_up (by decide)
  apply (Relation.ReflTransGen.single hup).tail hup'

end Lineage.Session
