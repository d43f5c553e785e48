import Lineage.Proofs.Graph
import Lineage.Proofs.Network

/-!
# The graph of a network

`enter` and `connect` do to the graph of an indexed network what entering a name or an edge does
to a graph (`Indexed.graph_enter`, `Indexed.graph_connect`).  So the network that a walk puts
together has the graph that is walked (`graph_walk`), in whatever order its nodes are.
-/

namespace Lineage

/-- Values put under some names in turn are found there. -/
theorem NameMap.get?_foldl_insert {V : Type} {f : String → V} {names : List String}
    {m : NameMap V} {a : String} :
  (names.foldl (fun m name => m.insert name (f name)) m).get? a
    = if a ∈ names then some (f a) else m.get? a
  := by
  induction names generalizing m with
  | nil => rfl
  | cons head tail ih =>
    rw [List.foldl_cons, ih, NameMap.get?_insert]
    by_cases hhead : a = head <;> by_cases htail : a ∈ tail <;> simp [hhead, htail]

namespace Network

variable {g : Network} {name a b : String}

theorem get?_targets_graph :
  g.graph.targets.get? a = if g.contains a then some (NameSet.ofList (g.subtypes a)) else none
  := by
  rw [graph, NameMap.get?_foldl_insert, NameMap.get?_empty]
  simp only [mem_names]

theorem contains_graph :
  g.graph.contains a = g.contains a
  := by
  rw [Graph.contains, NameMap.contains, get?_targets_graph]
  cases g.contains a <;> rfl

theorem Indexed.mem_subtypes_graph (h : g.Indexed) :
  b ∈ g.graph.subtypes a ↔ g.Link a b
  := by
  rw [Graph.subtypes, get?_targets_graph, ← h.mem_subtypes]
  split
  · rw [Option.getD_some, NameSet.mem_ofList]
  · rename_i hout
    have hnone : g.place? a = none := by
      rw [contains, Bool.not_eq_true, Option.isSome_eq_false_iff] at hout
      apply Option.isNone_iff_eq_none.mp hout
    rw [subtypes, neighbours, hnone]
    simp

theorem Indexed.graph_enter (h : g.Indexed) :
  (g.enter name).2.graph = g.graph.addName name
  := by
  apply Graph.ext
  · intro a
    rw [Bool.eq_iff_iff, contains_graph, contains_enter, Graph.contains_addName, contains_graph]
  · intro a
    ext b
    rw [(h.enter name).mem_subtypes_graph, h.link_enter, Graph.subtypes_addName,
      h.mem_subtypes_graph]

theorem Indexed.graph_connect (h : g.Indexed) {e : Edge String} :
  (g.connect e).graph = g.graph.addEdge e
  := by
  apply Graph.ext
  · intro a
    rw [Bool.eq_iff_iff, contains_graph, contains_connect, Graph.contains_addEdge, contains_graph]
  · intro a
    ext b
    rw [(h.connect e).mem_subtypes_graph, h.link_connect, Graph.mem_subtypes_addEdge,
      h.mem_subtypes_graph]

/-! ### Walks -/

theorem indexed_empty : (∅ : Network).Indexed
  where
  place?_iff := by
    intro name place
    simp [place?, NameMap.find, name?, EmptyCollection.emptyCollection, empty]
  nodup_places := List.nodup_nil
  nodup_targets hnode := by
    cases hnode
  lt_of_mem_targets hnode := by
    cases hnode

theorem indexed_single (name : String) :
  (single name).Indexed
  := indexed_empty.enter name

theorem graph_single :
  (single name).graph = Graph.single name
  := by
  have hempty : (∅ : Network).graph = ⟨∅⟩ := by
    rw [graph, names]
    simp [sorted, EmptyCollection.emptyCollection, empty]
  rw [single, indexed_empty.graph_enter, hempty]
  rfl

/-- Connecting classes puts their edges into the graph. -/
theorem Indexed.foldl_connect (h : g.Indexed) (edges : List (Edge String)) :
  (edges.foldl Network.connect g).Indexed
    ∧ (edges.foldl Network.connect g).graph = edges.foldl Graph.addEdge g.graph
  := by
  induction edges generalizing g with
  | nil => exact ⟨h, rfl⟩
  | cons e edges ih =>
    rw [List.foldl_cons, List.foldl_cons, ← h.graph_connect]
    apply ih (h.connect e)

variable {h : Hierarchy} {start : String}

theorem walk_eq_foldl :
  walk h start = ((h.neighbourhood.visits start).flatMap h.edges).foldl connect (single start)
  := by
  rw [walk, List.foldl_flatMap]

theorem indexed_walk (h : Hierarchy) (start : String) :
  (walk h start).Indexed
  := by
  rw [walk_eq_foldl]
  apply ((indexed_single start).foldl_connect _).1

/-- A walk puts a network together that has the graph that is walked. -/
theorem graph_walk :
  (walk h start).graph = Graph.walk h start
  := by
  rw [walk_eq_foldl, Graph.walk_eq_foldl, ← graph_single]
  apply ((indexed_single start).foldl_connect _).2

end Network

end Lineage
