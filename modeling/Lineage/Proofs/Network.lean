import Lineage.Network
import Mathlib.Data.List.Sort
import Mathlib.Data.Set.Card

/-!
# What a network holds

A network that is put together with `enter` and `connect` is `Indexed`: each class has one node,
which is where the index says, and no edge is there twice.  `enter` adds no more than the class
(`contains_enter`, `Indexed.link_enter`), and `connect` no more than the edge and its ends
(`contains_connect`, `Indexed.link_connect`).  What an indexed network lists is in strictly
ascending order, and it has as many nodes and edges as there are classes and links between them
(`Indexed.encard_names`, `Indexed.encard_links`).
-/

namespace Lineage

/-- The entries of a list without repetition are as many as the list is long. -/
theorem encard_setOf_mem {α : Type} {list : List α} (h : list.Nodup) :
  {a | a ∈ list}.encard = list.length
  := by
  classical
  rw [← List.toFinset_card_of_nodup h, ← Set.encard_coe_eq_coe_finsetCard, List.coe_toFinset]

namespace Network

/-- The edges join the nodes of two classes. -/
def Link (g : Network) (source target : String) : Prop :=
  ∃ e ∈ g.edges, g.name? e.source = some source ∧ g.name? e.target = some target

/-- A network has one node for each class, and each edge once. -/
structure Indexed (g : Network) : Prop where
  /-- The node of a class is at its place, and no other node is one of that class. -/
  place?_iff : ∀ {name : String} {place : Nat},
    g.place? name = some place ↔ g.name? place = some name
  nodup_places : (g.places.map Prod.fst).Nodup
  nodup_targets : ∀ {place : Nat} {node : Node},
    g.nodes[place]? = some node → node.targets.Nodup
  lt_of_mem_targets : ∀ {place : Nat} {node : Node}, g.nodes[place]? = some node →
    ∀ target ∈ node.targets, target < g.nodes.length

variable {g : Network} {name other a b : String} {place source target : Nat} {node : Node}
  {side : Edge.Side}

/-! ### Sorting -/

@[simp]
theorem mem_sorted {names : List String} :
  name ∈ sorted names ↔ name ∈ names
  := List.mem_mergeSort

/-- Names without repetition are put into strictly ascending order. -/
theorem ascending_sorted {names : List String} (h : names.Nodup) :
  (sorted names).Pairwise (· < ·)
  := by
  have hnodup : (sorted names).Nodup := (List.mergeSort_perm names _).nodup_iff.mpr h
  apply ((List.pairwise_mergeSort' (· ≤ ·) names).and hnodup).imp
  rintro a b ⟨hle, hne⟩
  by_contra hlt
  exact hne (String.le_antisymm hle (String.not_lt.mp hlt))

/-! ### Places and edges -/

theorem contains_iff :
  g.contains name ↔ ∃ place, g.place? name = some place
  := Option.isSome_iff_exists

/-- The names in the index are those that have a place. -/
theorem mem_names :
  name ∈ g.names ↔ g.contains name
  := by
  rw [names, mem_sorted]
  apply NameMap.find_isSome.symm

theorem lt_of_name?_eq_some (h : g.name? place = some name) :
  place < g.nodes.length
  := by
  obtain ⟨node, hnode, -⟩ := Option.map_eq_some_iff.mp h
  apply (List.getElem?_eq_some_iff.mp hnode).1

theorem mem_edges {e : Edge Nat} :
  e ∈ g.edges ↔ ∃ node, g.nodes[e.source]? = some node ∧ e.target ∈ node.targets
  := by
  rw [edges, List.mem_flatMap]
  constructor
  · rintro ⟨⟨node, place⟩, hnode, he⟩
    obtain ⟨target, htarget, rfl⟩ := List.mem_map.mp he
    exact ⟨node, List.mk_mem_zipIdx_iff_getElem?.mp hnode, htarget⟩
  · rintro ⟨node, hnode, htarget⟩
    use (node, e.source), List.mk_mem_zipIdx_iff_getElem?.mpr hnode
    apply List.mem_map.mpr
    use e.target, htarget

theorem hasEdge_iff :
  g.hasEdge source target ↔ ⟨source, target⟩ ∈ g.edges
  := by
  rw [mem_edges, hasEdge, Option.any_eq_true]
  simp

theorem name?_eq_none : g.name? g.nodes.length = none
  := by
  rw [name?, List.getElem?_eq_none (Nat.le_refl _), Option.map_none]

/-! ### One more node -/

theorem getElem?_addNode :
  (g.addNode name).nodes[place]?
    = if place = g.nodes.length then some ⟨name, []⟩ else g.nodes[place]?
  := by
  rw [addNode]
  split
  · rename_i h
    rw [h]
    apply List.getElem?_concat_length
  · rename_i h
    rw [List.getElem?_append]
    split
    · rfl
    · rw [List.getElem?_eq_none (by rw [List.length_singleton]; omega),
        List.getElem?_eq_none (by omega)]

theorem name?_addNode :
  (g.addNode name).name? place
    = if place = g.nodes.length then some name else g.name? place
  := by
  rw [name?, getElem?_addNode]
  split <;> rfl

theorem place?_addNode :
  (g.addNode name).place? a = if a = name then some g.nodes.length else g.place? a
  := by
  rw [place?, addNode, NameMap.find]
  by_cases h : a = name
  · rw [if_pos h, if_pos h.symm]
  · rw [if_neg h, if_neg (Ne.symm h), place?]

theorem mem_edges_addNode {e : Edge Nat} :
  e ∈ (g.addNode name).edges ↔ e ∈ g.edges
  := by
  rw [mem_edges, mem_edges, getElem?_addNode]
  split
  · rename_i h
    simp [h]
  · rfl

theorem Indexed.addNode (h : g.Indexed) (hname : g.place? name = none) :
  (g.addNode name).Indexed
  where
  place?_iff {a place} := by
    rw [place?_addNode, name?_addNode]
    by_cases ha : a = name
    · rw [if_pos ha, ha, Option.some.injEq, eq_comm]
      split
      · simp [*]
      · rename_i hplace
        rw [← h.place?_iff, hname]
        simp [hplace]
    · rw [if_neg ha, h.place?_iff]
      split
      · rename_i hplace
        rw [hplace, name?_eq_none]
        simp [Ne.symm ha]
      · rfl
  nodup_places := by
    rw [Network.addNode, List.map_cons, List.nodup_cons]
    refine ⟨?_, h.nodup_places⟩
    intro hin
    have hcontains : g.contains name := mem_names.mp (mem_sorted.mpr hin)
    rw [contains, hname] at hcontains
    exact Bool.false_ne_true hcontains
  nodup_targets {place node} hnode := by
    rw [getElem?_addNode] at hnode
    split at hnode
    · obtain rfl := Option.some.inj hnode
      apply List.nodup_nil
    · apply h.nodup_targets hnode
  lt_of_mem_targets {place node} hnode target htarget := by
    rw [getElem?_addNode] at hnode
    split at hnode
    · obtain rfl := Option.some.inj hnode
      exact absurd htarget List.not_mem_nil
    · have hlt := h.lt_of_mem_targets hnode target htarget
      rw [Network.addNode, List.length_append]
      apply Nat.lt_add_right _ hlt

/-! ### One more edge -/

theorem getElem?_addEdge :
  (g.addEdge source target).nodes[place]?
    = (g.nodes[place]?).map fun node =>
        if place = source then { node with targets := target :: node.targets } else node
  := by
  rw [addEdge, List.getElem?_modify]
  by_cases h : place = source
  · simp [h]
  · simp [h, Ne.symm h]

theorem name?_addEdge :
  (g.addEdge source target).name? place = g.name? place
  := by
  rw [name?, getElem?_addEdge, Option.map_map, name?]
  congr 1
  funext node
  rw [Function.comp]
  split <;> rfl

theorem mem_edges_addEdge (hsource : source < g.nodes.length) {e : Edge Nat} :
  e ∈ (g.addEdge source target).edges ↔ e = ⟨source, target⟩ ∨ e ∈ g.edges
  := by
  obtain ⟨i, j⟩ := e
  rw [mem_edges, mem_edges, getElem?_addEdge, Edge.mk.injEq]
  by_cases hi : i = source
  · rw [hi, List.getElem?_eq_getElem hsource]
    simp
  · simp [hi]

theorem length_nodes_addEdge :
  (g.addEdge source target).nodes.length = g.nodes.length
  := List.length_modify ..

theorem Indexed.addEdge (h : g.Indexed) (htarget : target < g.nodes.length)
    (hnew : ¬ g.hasEdge source target) :
  (g.addEdge source target).Indexed
  where
  place?_iff {name place} := by
    rw [name?_addEdge]
    apply h.place?_iff
  nodup_places := h.nodup_places
  nodup_targets {place node} hnode := by
    rw [getElem?_addEdge] at hnode
    obtain ⟨before, hbefore, rfl⟩ := Option.map_eq_some_iff.mp hnode
    split
    · rename_i hplace
      rw [hplace] at hbefore
      apply List.nodup_cons.mpr
      refine ⟨?_, h.nodup_targets hbefore⟩
      intro hin
      exact hnew (hasEdge_iff.mpr (mem_edges.mpr ⟨before, hbefore, hin⟩))
    · apply h.nodup_targets hbefore
  lt_of_mem_targets {place node} hnode a ha := by
    rw [getElem?_addEdge] at hnode
    obtain ⟨before, hbefore, rfl⟩ := Option.map_eq_some_iff.mp hnode
    rw [length_nodes_addEdge]
    split at ha
    · rcases List.mem_cons.mp ha with rfl | ha
      · apply htarget
      · apply h.lt_of_mem_targets hbefore a ha
    · apply h.lt_of_mem_targets hbefore a ha

/-! ### Links -/

/-- Both ends of an edge are nodes. -/
theorem Indexed.exists_names (h : g.Indexed) {e : Edge Nat} (he : e ∈ g.edges) :
  ∃ a b, g.name? e.source = some a ∧ g.name? e.target = some b
  := by
  obtain ⟨node, hnode, htarget⟩ := mem_edges.mp he
  have hlt := h.lt_of_mem_targets hnode e.target htarget
  refine ⟨node.name, g.nodes[e.target].name, ?_, ?_⟩
  · rw [name?, hnode, Option.map_some]
  · rw [name?, List.getElem?_eq_getElem hlt, Option.map_some]

theorem Indexed.link_addNode (h : g.Indexed) :
  (g.addNode name).Link a b ↔ g.Link a b
  := by
  have hname : ∀ {place c}, g.name? place = some c → (g.addNode name).name? place = some c := by
    intro place c hc
    rw [name?_addNode, if_neg (Nat.ne_of_lt (lt_of_name?_eq_some hc)), hc]
  constructor
  · rintro ⟨e, he, hsource, htarget⟩
    rw [mem_edges_addNode] at he
    obtain ⟨a', b', ha, hb⟩ := h.exists_names he
    rw [hname ha, ← ha] at hsource
    rw [hname hb, ← hb] at htarget
    exact ⟨e, he, hsource, htarget⟩
  · rintro ⟨e, he, hsource, htarget⟩
    exact ⟨e, mem_edges_addNode.mpr he, hname hsource, hname htarget⟩

/-- The edge that is put links the classes of its ends. -/
theorem Indexed.link_ensureEdge (h : g.Indexed) (hsource : g.place? name = some source)
    (htarget : g.place? other = some target) :
  (g.ensureEdge source target).Link a b ↔ (a = name ∧ b = other) ∨ g.Link a b
  := by
  have hname := h.place?_iff.mp hsource
  have hother := h.place?_iff.mp htarget
  rw [ensureEdge]
  split
  · rename_i hedge
    symm
    apply or_iff_right_of_imp
    rintro ⟨rfl, rfl⟩
    exact ⟨_, hasEdge_iff.mp hedge, hname, hother⟩
  · simp only [Link, mem_edges_addEdge (lt_of_name?_eq_some hname), name?_addEdge]
    constructor
    · rintro ⟨e, rfl | he, ha, hb⟩
      · exact Or.inl ⟨Option.some.inj (ha.symm.trans hname), Option.some.inj (hb.symm.trans hother)⟩
      · exact Or.inr ⟨e, he, ha, hb⟩
    · rintro (⟨rfl, rfl⟩ | ⟨e, he, ha, hb⟩)
      · exact ⟨_, Or.inl rfl, hname, hother⟩
      · exact ⟨e, Or.inr he, ha, hb⟩

/-! ### Entering a class -/

theorem Indexed.enter (h : g.Indexed) (name : String) :
  (g.enter name).2.Indexed
  := by
  rw [Network.enter]
  split
  · apply h
  · rename_i hnone
    apply h.addNode hnone

/-- The place that is given out is that of the class. -/
theorem place?_enter_self :
  (g.enter name).2.place? name = some (g.enter name).1
  := by
  rw [enter]
  split
  · assumption
  · rw [place?_addNode, if_pos rfl]

/-- No class loses its place. -/
theorem place?_enter_of_some (ha : g.place? a = some place) :
  (g.enter name).2.place? a = some place
  := by
  rw [enter]
  split
  · apply ha
  · rename_i hnone
    rw [place?_addNode, if_neg, ha]
    rintro rfl
    cases ha.symm.trans hnone

theorem contains_enter :
  (g.enter name).2.contains a ↔ a = name ∨ g.contains a
  := by
  rw [enter]
  split
  · rename_i place hplace
    symm
    apply or_iff_right_of_imp
    rintro rfl
    exact contains_iff.mpr ⟨place, hplace⟩
  · rw [contains, place?_addNode]
    split
    · simp [*]
    · simp [*, contains]

theorem Indexed.link_enter (h : g.Indexed) :
  (g.enter name).2.Link a b ↔ g.Link a b
  := by
  rw [Network.enter]
  split
  · rfl
  · apply h.link_addNode

/-! ### Connecting two classes -/

theorem Indexed.ensureEdge (h : g.Indexed) (htarget : target < g.nodes.length) :
  (g.ensureEdge source target).Indexed
  := by
  rw [Network.ensureEdge]
  split
  · apply h
  · rename_i hnew
    apply h.addEdge htarget hnew

theorem contains_ensureEdge :
  (g.ensureEdge source target).contains a = g.contains a
  := by
  rw [ensureEdge]
  split <;> rfl

theorem Indexed.connect (h : g.Indexed) (e : Edge String) :
  (g.connect e).Indexed
  := by
  have hmet := (h.enter e.source).enter e.target
  apply hmet.ensureEdge
  apply lt_of_name?_eq_some (hmet.place?_iff.mp place?_enter_self)

/-- An edge brings its ends with it. -/
theorem contains_connect {e : Edge String} :
  (g.connect e).contains a ↔ a = e.source ∨ a = e.target ∨ g.contains a
  := by
  rw [connect, contains_ensureEdge, contains_enter, contains_enter]
  apply or_left_comm

theorem Indexed.link_connect (h : g.Indexed) {e : Edge String} :
  (g.connect e).Link a b ↔ (a = e.source ∧ b = e.target) ∨ g.Link a b
  := by
  have hsource := h.enter e.source
  rw [Network.connect, (hsource.enter e.target).link_ensureEdge
    (place?_enter_of_some place?_enter_self) place?_enter_self, hsource.link_enter, h.link_enter]

/-! ### Lists -/

/-- The neighbours of a class on one side are at the far ends of its links. -/
theorem Indexed.mem_neighbours (h : g.Indexed) :
  a ∈ g.neighbours side b ↔ g.Link (side.join a b).source (side.join a b).target
  := by
  -- the ends of an edge by their sides, in place of source and target
  have hlink : g.Link (side.join a b).source (side.join a b).target
      ↔ ∃ e ∈ g.edges, g.name? (side.far e) = some a ∧ g.name? (side.near e) = some b := by
    cases side with
    | source => rfl
    | target => simp only [Link, Edge.Side.join, Edge.Side.far, Edge.Side.near, and_comm]
  rw [hlink, neighbours]
  cases hplace : g.place? b with
  | none =>
    simp only [List.not_mem_nil, false_iff, not_exists, not_and]
    intro e _ _ hb
    rw [← h.place?_iff, hplace] at hb
    cases hb
  | some place =>
    have hnear : ∀ e : Edge Nat, g.name? (side.near e) = some b ↔ side.near e = place := by
      intro e
      rw [← h.place?_iff, hplace, Option.some.injEq, eq_comm]
    simp only [mem_sorted, List.mem_filterMap, List.mem_filter, decide_eq_true_eq, hnear,
      and_right_comm, and_assoc]

theorem Indexed.mem_supertypes (h : g.Indexed) :
  a ∈ g.supertypes b ↔ g.Link a b
  := h.mem_neighbours

theorem Indexed.mem_subtypes (h : g.Indexed) :
  b ∈ g.subtypes a ↔ g.Link a b
  := h.mem_neighbours

/-- No edge is there twice. -/
theorem Indexed.nodup_edges (h : g.Indexed) :
  g.edges.Nodup
  := by
  apply List.nodup_flatMap.mpr
  constructor
  · rintro ⟨node, place⟩ hnode
    apply (h.nodup_targets (List.mk_mem_zipIdx_iff_getElem?.mp hnode)).map
    intro i j hij
    exact (Edge.mk.inj hij).2
  · have hplaces : (g.nodes.zipIdx.map Prod.snd).Nodup := by
      rw [List.zipIdx_map_snd]
      exact List.nodup_range'
    apply (List.pairwise_map.mp hplaces).imp
    rintro ⟨node, i⟩ ⟨node', j⟩ hne e he he'
    obtain ⟨target, -, rfl⟩ := List.mem_map.mp he
    obtain ⟨target', -, heq⟩ := List.mem_map.mp he'
    exact hne (Edge.mk.inj heq).1.symm

/-- An edge between two classes that is met again is not put again, nor are its ends. -/
example :
  [⟨"A", "B"⟩, ⟨"B", "B"⟩, ⟨"A", "B"⟩].foldl connect (single "B")
    = ⟨[⟨"B", [0]⟩, ⟨"A", [0]⟩], [("A", 1), ("B", 0)]⟩
  := by decide

/-- Two nodes of one class are the same. -/
theorem Indexed.place_unique (h : g.Indexed) (hsource : g.name? source = some a)
    (htarget : g.name? target = some a) :
  source = target
  := by
  rw [← h.place?_iff] at hsource htarget
  exact Option.some.inj (hsource.symm.trans htarget)

/-- The neighbours of a class are listed in strictly ascending order: no two of its edges have
far ends of one name. -/
theorem Indexed.ascending_neighbours (h : g.Indexed) (side : Edge.Side) (name : String) :
  (g.neighbours side name).Pairwise (· < ·)
  := by
  rw [neighbours]
  split
  · apply List.Pairwise.nil
  · rename_i place _
    apply ascending_sorted
    rw [List.filterMap_filter]
    apply h.nodup_edges.filterMap
    intro e f a he hf
    simp only [Option.mem_def, Option.ite_none_right_eq_some, decide_eq_true_eq] at he hf
    have hfar := h.place_unique he.2 hf.2
    have hnear := he.1.trans hf.1.symm
    cases e
    cases f
    cases side <;> grind [Edge.Side.far, Edge.Side.near]

theorem Indexed.ascending_names (h : g.Indexed) :
  g.names.Pairwise (· < ·)
  := ascending_sorted h.nodup_places

/-! ### Sizes -/

theorem getElem?_map_name :
  (g.nodes.map Node.name)[place]? = g.name? place
  := List.getElem?_map

/-- No class has two nodes. -/
theorem Indexed.nodup_nodes (h : g.Indexed) :
  (g.nodes.map Node.name).Nodup
  := by
  apply List.nodup_iff_getElem?_ne_getElem?.mpr
  intro i j hij hj heq
  rw [List.getElem?_eq_getElem hj, getElem?_map_name] at heq
  apply Nat.ne_of_lt hij
  apply h.place_unique heq
  rw [← getElem?_map_name, List.getElem?_eq_getElem hj]

/-- The nodes are as many as the classes. -/
theorem Indexed.encard_names (h : g.Indexed) :
  {name | name ∈ g.names}.encard = g.nodeCount
  := by
  have hmem : ∀ {name}, name ∈ g.names ↔ name ∈ g.nodes.map Node.name := by
    intro name
    rw [mem_names, contains_iff, List.mem_iff_getElem?]
    simp only [getElem?_map_name, h.place?_iff]
  simp only [hmem]
  rw [encard_setOf_mem h.nodup_nodes, List.length_map, nodeCount]

/-- The edges are as many as the links. -/
theorem Indexed.encard_links (h : g.Indexed) :
  {e : Edge String | g.Link e.source e.target}.encard = g.edgeCount
  := by
  have hlinks : {e : Edge String | g.Link e.source e.target}
      = Edge.map (fun place => (g.name? place).getD "") '' {e | e ∈ g.edges} := by
    ext e
    constructor
    · rintro ⟨f, hf, hsource, htarget⟩
      use f, hf
      rw [Edge.map, hsource, htarget]
      rfl
    · rintro ⟨f, hf, rfl⟩
      obtain ⟨a, b, ha, hb⟩ := h.exists_names hf
      use f, hf
      simp only [Edge.map, ha, hb, Option.getD_some, and_self]
  have hinjective : Set.InjOn (Edge.map fun place => (g.name? place).getD "")
      {e | e ∈ g.edges} := by
    intro e he f hf hef
    obtain ⟨a, b, ha, hb⟩ := h.exists_names he
    obtain ⟨a', b', ha', hb'⟩ := h.exists_names hf
    simp only [Edge.map, ha, hb, ha', hb', Option.getD_some, Edge.mk.injEq] at hef
    obtain ⟨rfl, rfl⟩ := hef
    have hsource := h.place_unique ha ha'
    have htarget := h.place_unique hb hb'
    cases e
    cases f
    simp_all only
  rw [hlinks, hinjective.encard_image, encard_setOf_mem h.nodup_edges, edgeCount]

end Network

end Lineage
