import Lineage.Proofs.Network.Graph
import Lineage.Proofs.Queueing
import Lineage.Proofs.Session.History
import Mathlib.Data.List.Perm.Subperm

/-!
# Walking vertex by vertex

A walk asks one vertex after the other for its edges.  It keeps the network so far and a queue
of the vertices it has still to ask; a vertex enters both together, as soon as it is met under
a name that the network does not have, and each edge is put after its ends.  The edges of
a vertex come in no particular order, and of equal ones only one need come.

Still every such walk ends, with the graph that is walked from the name of its start
(`Sound.ends_walkLoop`).  At every moment the network is indexed, its names are those asked so far
and those in the queue, each once, and its edges are the edges at the names asked so far
(`Halfway`).  So there are as many turns as names, and when the queue is empty, no name that
can be reached is left out.
-/

namespace Lineage

namespace Graph

variable {g : Graph} {name : String}

/-- A class that is there already need not be put. -/
theorem addName_of_contains (h : g.contains name) :
  g.addName name = g
  := by
  apply ext
  · intro a
    rw [Bool.eq_iff_iff, contains_addName]
    apply or_iff_right_of_imp
    rintro rfl
    apply h
  · intro a
    apply subtypes_addName

/-- The ends of an edge may be put beforehand. -/
theorem addEdge_addName (e : Edge String) :
  ((g.addName e.source).addName e.target).addEdge e = g.addEdge e
  := by
  apply ext
  · intro a
    rw [Bool.eq_iff_iff, contains_addEdge, contains_addEdge, contains_addName, contains_addName]
    tauto
  · intro a
    ext b
    rw [mem_subtypes_addEdge, mem_subtypes_addEdge, subtypes_addName, subtypes_addName]

end Graph

/-- A walk under way. -/
structure Worklist where
  /-- The network collected so far. -/
  network : Network
  /-- The vertices that are still to be asked for their edges, in order. -/
  queue : List Endpoint

/-- The graph collected so far. -/
def Worklist.graph (w : Worklist) : Graph := w.network.graph

namespace Session

/-- The edges at a vertex, which may be one that no one else has. -/
def edgesAt (s : Session) : Endpoint → List (Edge Endpoint)
  | .held id => s.edges id
  | .fresh d => s.edgesFrom (.fresh d) d.name

/-- Some edges are the set of the edges at a vertex, in any order. -/
structure Iterates (s : Session) (current : Endpoint) (edges : List (Edge Endpoint)) : Prop where
  subset : ∀ e ∈ edges, e ∈ s.edgesAt current
  /-- Every edge is there, or one between vertices of the same names. -/
  complete : ∀ e ∈ s.edgesAt current, ∃ f ∈ edges, f.map s.endName = e.map s.endName

/-- The walk begun with one vertex. -/
def begun (s : Session) (start : Endpoint) : Worklist :=
  ⟨Network.single (s.endName start), [start]⟩

/-- A vertex put into the network and the queue, unless one of its name has been. -/
def meet (s : Session) (w : Worklist) (e : Endpoint) : Worklist :=
  if w.network.contains (s.endName e) then w
  else ⟨(w.network.enter (s.endName e)).2, w.queue ++ [e]⟩

/-- An edge put into the network, both its ends being met first. -/
def follow (s : Session) (w : Worklist) (e : Edge Endpoint) : Worklist :=
  let met := s.meet (s.meet w e.source) e.target
  ⟨met.network.connect (e.map s.endName), met.queue⟩

/-- Following edges leaves the vertices in the queue where they are. -/
theorem prefix_queue_foldl_follow (s : Session) (edges : List (Edge Endpoint)) (w : Worklist) :
  w.queue <+: (edges.foldl s.follow w).queue
  := by
  have hmeet : ∀ (w : Worklist) e, w.queue <+: (s.meet w e).queue := by
    intro w e
    rw [meet]
    split
    · apply List.prefix_rfl
    · apply List.prefix_append
  apply List.foldlRecOn (motive := fun v : Worklist => w.queue <+: v.queue)
  · apply List.prefix_rfl
  · intro v hv e _
    apply (hv.trans (hmeet v e.source)).trans (hmeet _ e.target)

/-- The loop of a walk: the first vertex in the queue is asked for its edges, which come in any
order, and these are followed. -/
def walkLoop (s : Session) : QueueLoop Worklist Endpoint where
  queue := Worklist.queue
  name _ := s.endName
  Turn w next := ∃ current rest edges, w.queue = current :: rest ∧ s.Iterates current edges
    ∧ next = edges.foldl s.follow ⟨w.network, rest⟩
  queue_of_turn := by
    rintro w _ ⟨current, rest, edges, hqueue, -, rfl⟩
    obtain ⟨added, hadded⟩ := s.prefix_queue_foldl_follow edges ⟨w.network, rest⟩
    exact ⟨current, rest, added, hqueue, hadded.symm⟩

variable {s : Session} {w : Worklist} {g : Network} {current : Endpoint} {queue : List Endpoint}
  {asked : List String} {edges : List (Edge Endpoint)} {start name : String}

/-! ### The edges at a vertex -/

/-- An end that is a vertex is one of the vertices of the session. -/
def Known (s : Session) (e : Endpoint) : Prop :=
  ∀ id, e = .held id → ∃ v, s.vertices.get? id = some v

theorem Sound.known_endpoint (hs : s.Sound) (d : Descriptor) :
  s.Known (s.endpoint d)
  := by
  intro id hid
  rw [endpoint] at hid
  cases h : s.vertex? d.name with
  | none =>
    rw [h] at hid
    exact absurd hid (by simp)
  | some i =>
    rw [h] at hid
    obtain rfl := Endpoint.held.inj hid
    obtain ⟨v, hv, -⟩ := hs.exists_vertex h
    use v

theorem Known.edgesAt_eq (hcurrent : s.Known current) :
  s.edgesAt current = s.edgesFrom current (s.endName current)
  := by
  cases current with
  | held id =>
    obtain ⟨v, hv⟩ := hcurrent id rfl
    rw [endName_held hv]
    apply edges_of_get? hv
  | fresh d => rfl

theorem Sound.known_of_mem_edgesAt (hs : s.Sound) (hcurrent : s.Known current)
    {e : Edge Endpoint} (he : e ∈ s.edgesAt current) :
  s.Known e.source ∧ s.Known e.target
  := by
  rw [hcurrent.edgesAt_eq] at he
  rcases List.mem_append.mp he with he | he
  · obtain ⟨d, -, rfl⟩ := List.mem_map.mp he
    exact ⟨hs.known_endpoint d, hcurrent⟩
  · obtain ⟨d, -, rfl⟩ := List.mem_map.mp he
    exact ⟨hcurrent, hs.known_endpoint d⟩

/-- By their names, the edges that come are those of the hierarchy. -/
theorem Iterates.mem_map_endName (h : s.Iterates current edges) (hs : s.Sound)
    (hcurrent : s.Known current) {e : Edge String} :
  e ∈ edges.map (Edge.map s.endName) ↔ e ∈ s.hierarchy.edges (s.endName current)
  := by
  rw [← hs.map_endName_edgesFrom rfl, ← hcurrent.edgesAt_eq, List.mem_map, List.mem_map]
  constructor
  · rintro ⟨f, hf, rfl⟩
    exact ⟨f, h.subset f hf, rfl⟩
  · rintro ⟨f, hf, rfl⟩
    obtain ⟨f', hf', hnames⟩ := h.complete f hf
    exact ⟨f', hf', hnames⟩

theorem iterates_edgesAt (s : Session) (current : Endpoint) :
  s.Iterates current (s.edgesAt current)
  := ⟨fun _ he => he, fun e he => ⟨e, he, rfl⟩⟩

/-! ### One turn -/

theorem indexed_meet (hw : w.network.Indexed) (e : Endpoint) :
  (s.meet w e).network.Indexed
  := by
  rw [meet]
  split
  · apply hw
  · apply hw.enter

theorem graph_meet (hw : w.network.Indexed) (e : Endpoint) :
  (s.meet w e).graph = w.graph.addName (s.endName e)
  := by
  rw [meet]
  split
  · rename_i h
    rw [← Network.contains_graph] at h
    apply (Graph.addName_of_contains h).symm
  · apply hw.graph_enter

theorem indexed_follow (hw : w.network.Indexed) (e : Edge Endpoint) :
  (s.follow w e).network.Indexed
  := (indexed_meet (indexed_meet hw e.source) e.target).connect _

theorem graph_follow (hw : w.network.Indexed) (e : Edge Endpoint) :
  (s.follow w e).graph = w.graph.addEdge (e.map s.endName)
  := by
  have hsource : (s.meet w e.source).network.Indexed := indexed_meet hw e.source
  calc (s.follow w e).graph
      = (s.meet (s.meet w e.source) e.target).graph.addEdge (e.map s.endName) :=
        (indexed_meet hsource e.target).graph_connect
    _ = w.graph.addEdge (e.map s.endName) := by
        rw [graph_meet hsource, graph_meet hw]
        apply Graph.addEdge_addName (e.map s.endName)

/-- Following edges puts them into the graph. -/
theorem graph_foldl_follow (hw : w.network.Indexed) (edges : List (Edge Endpoint)) :
  (edges.foldl s.follow w).graph
    = (edges.map (Edge.map s.endName)).foldl Graph.addEdge w.graph
  := by
  induction edges generalizing w with
  | nil => rfl
  | cons e edges ih =>
    rw [List.foldl_cons, ih (indexed_follow hw e), graph_follow hw]
    rfl

/-- The names in the graph are those asked and those of the vertices in the queue, each once. -/
structure Marked (s : Session) (asked : List String) (w : Worklist) : Prop where
  indexed : w.network.Indexed
  nodup : (asked ++ w.queue.map s.endName).Nodup
  contains_iff : ∀ {name}, w.graph.contains name ↔ name ∈ asked ++ w.queue.map s.endName
  known : ∀ e ∈ w.queue, s.Known e

theorem Marked.contains_current (h : s.Marked asked ⟨g, current :: queue⟩) :
  g.graph.contains (s.endName current)
  := by
  apply h.contains_iff.mpr
  apply List.mem_append_right _ List.mem_cons_self

theorem Marked.meet (h : s.Marked asked w) {e : Endpoint} (he : s.Known e) :
  s.Marked asked (s.meet w e)
  := by
  rw [Session.meet]
  split
  · apply h
  · rename_i hout
    have happend : asked ++ (w.queue ++ [e]).map s.endName
        = (asked ++ w.queue.map s.endName) ++ [s.endName e] := by
      rw [List.map_append, List.append_assoc, List.map_singleton]
    have hgraph : (s.meet w e).graph = w.graph.addName (s.endName e) := graph_meet h.indexed e
    rw [Session.meet, if_neg hout] at hgraph
    constructor
    case indexed => exact h.indexed.enter _
    case nodup =>
      rw [happend, List.nodup_append_comm, List.singleton_append, List.nodup_cons]
      rw [← Network.contains_graph] at hout
      exact ⟨mt h.contains_iff.mpr hout, h.nodup⟩
    case contains_iff =>
      intro name
      rw [hgraph, happend, List.mem_append, List.mem_singleton, Graph.contains_addName,
        h.contains_iff, or_comm]
    case known =>
      intro f hf
      rcases List.mem_append.mp hf with hf | hf
      · apply h.known f hf
      · rw [List.mem_singleton.mp hf]
        apply he

theorem Marked.follow (h : s.Marked asked w) {e : Edge Endpoint} (hsource : s.Known e.source)
    (htarget : s.Known e.target) :
  s.Marked asked (s.follow w e)
  := by
  have hmet := (h.meet hsource).meet htarget
  refine ⟨indexed_follow h.indexed e, hmet.nodup, ?_, hmet.known⟩
  intro name
  -- the edge itself brings no other names than its ends, which have been met
  have hends : (s.follow w e).graph.contains name
      ↔ (s.meet (s.meet w e.source) e.target).graph.contains name := by
    rw [graph_follow h.indexed, graph_meet (h.meet hsource).indexed, graph_meet h.indexed,
      Graph.contains_addEdge, Graph.contains_addName, Graph.contains_addName]
    apply or_left_comm
  rw [hends]
  apply hmet.contains_iff

theorem Marked.foldl_follow (h : s.Marked asked w)
    (hedges : ∀ e ∈ edges, s.Known e.source ∧ s.Known e.target) :
  s.Marked asked (edges.foldl s.follow w)
  := by
  apply List.foldlRecOn (motive := s.Marked asked) edges _ h
  intro w hw e he
  apply hw.follow (hedges e he).1 (hedges e he).2

/-- A walk from `start` that has asked some names so far. -/
structure Halfway (s : Session) (start : String) (asked : List String) (w : Worklist) : Prop
    extends s.Marked asked w where
  contains_start : w.graph.contains start
  /-- The names in the graph can be reached. -/
  reached : ∀ {name}, w.graph.contains name →
    Relation.ReflTransGen s.hierarchy.neighbourhood.Step start name
  /-- The edges in the graph are those at the names asked. -/
  mem_subtypes : ∀ {source target}, target ∈ w.graph.subtypes source
    ↔ ∃ name ∈ asked, ⟨source, target⟩ ∈ s.hierarchy.edges name
  /-- The neighbours of the names asked are in the graph. -/
  closed : ∀ name ∈ asked, ∀ {target}, s.hierarchy.neighbourhood.Step name target →
    w.graph.contains target

theorem graph_begun {start : Endpoint} :
  (s.begun start).graph = Graph.single (s.endName start)
  := Network.graph_single

theorem halfway_begun {start : Endpoint} (hstart : s.Known start) :
  s.Halfway (s.endName start) [] (s.begun start)
  where
  indexed := Network.indexed_single _
  nodup := List.nodup_singleton _
  contains_iff := by
    intro name
    rw [graph_begun]
    apply Graph.contains_single.trans List.mem_singleton.symm
  known e he := by
    rw [List.mem_singleton.mp he]
    apply hstart
  contains_start := by
    rw [graph_begun]
    apply Graph.contains_single.mpr rfl
  reached h := by
    rw [graph_begun] at h
    rw [Graph.contains_single.mp h]
  mem_subtypes := by
    intro source target
    rw [graph_begun, Graph.subtypes_single]
    simp
  closed name hname := absurd hname List.not_mem_nil

/-- Following the edges at a name brings its neighbours into the graph. -/
theorem Halfway.contains_foldl_follow (hs : s.Sound)
    (h : s.Halfway start asked ⟨g, current :: queue⟩) (hedges : s.Iterates current edges) :
  (edges.foldl s.follow ⟨g, queue⟩).graph.contains name
    ↔ g.graph.contains name ∨ s.hierarchy.neighbourhood.Step (s.endName current) name
  := by
  have hcurrent : s.Known current := h.known current List.mem_cons_self
  have hindexed : (⟨g, queue⟩ : Worklist).network.Indexed := h.indexed
  rw [graph_foldl_follow hindexed, Graph.contains_foldl_addEdge]
  simp only [hedges.mem_map_endName hs hcurrent]
  constructor
  · rintro (hname | ⟨⟨source, target⟩, he, hend⟩)
    · exact Or.inl hname
    · rcases Hierarchy.ends_of_mem_edges he with ⟨rfl, hstep⟩ | ⟨rfl, hstep⟩
      · rcases hend with rfl | rfl
        · exact Or.inl h.contains_current
        · exact Or.inr hstep
      · rcases hend with rfl | rfl
        · exact Or.inr hstep
        · exact Or.inl h.contains_current
  · rintro (hname | hstep)
    · exact Or.inl hname
    · rcases Hierarchy.step_neighbourhood_iff_edges.mp hstep with he | he
      · exact Or.inr ⟨_, he, Or.inl rfl⟩
      · exact Or.inr ⟨_, he, Or.inr rfl⟩

/-- After a turn, the vertex that was first in the queue has been asked. -/
theorem Halfway.turn (hs : s.Sound) (h : s.Halfway start asked ⟨g, current :: queue⟩)
    (hedges : s.Iterates current edges) :
  s.Halfway start (asked ++ [s.endName current]) (edges.foldl s.follow ⟨g, queue⟩)
  := by
  have hcurrent : s.Known current := h.known current List.mem_cons_self
  have hcontains : ∀ {name}, (edges.foldl s.follow ⟨g, queue⟩).graph.contains name
      ↔ g.graph.contains name ∨ s.hierarchy.neighbourhood.Step (s.endName current) name :=
    h.contains_foldl_follow hs hedges
  have hcons : asked ++ (current :: queue).map s.endName
      = (asked ++ [s.endName current]) ++ queue.map s.endName := by
    rw [List.map_cons, List.append_assoc, List.singleton_append]
  have hmarked : s.Marked (asked ++ [s.endName current]) ⟨g, queue⟩ := by
    constructor
    case indexed => exact h.indexed
    case nodup => exact hcons ▸ h.nodup
    case contains_iff =>
      intro name
      rw [← hcons]
      apply h.contains_iff
    case known =>
      intro e he
      apply h.known e (List.mem_cons_of_mem _ he)
  constructor
  case toMarked =>
    apply hmarked.foldl_follow
    intro e he
    apply hs.known_of_mem_edgesAt hcurrent (hedges.subset e he)
  case contains_start => exact hcontains.mpr (Or.inl h.contains_start)
  case reached =>
    intro name hname
    rcases hcontains.mp hname with hname | hstep
    · apply h.reached hname
    · apply (h.reached h.contains_current).tail hstep
  case mem_subtypes =>
    intro source target
    rw [graph_foldl_follow hmarked.indexed, Graph.mem_subtypes_foldl_addEdge]
    change target ∈ (Worklist.graph ⟨g, current :: queue⟩).subtypes source ∨ _ ↔ _
    rw [h.mem_subtypes, hedges.mem_map_endName hs hcurrent]
    simp only [List.mem_append, List.mem_singleton, or_and_right, exists_or, exists_eq_left]
  case closed =>
    intro name hname target hstep
    apply hcontains.mpr
    rcases List.mem_append.mp hname with hname | hname
    · exact Or.inl (h.closed name hname hstep)
    · rw [List.mem_singleton.mp hname] at hstep
      exact Or.inr hstep

/-! ### The end of a walk -/

theorem Halfway.nodup_asked (h : s.Halfway start asked w) :
  asked.Nodup
  := (List.nodup_append.mp h.nodup).1

/-- The names asked are names of the walk. -/
theorem Halfway.mem_names_walk (h : s.Halfway start asked w) (hname : name ∈ asked) :
  name ∈ (Graph.walk s.hierarchy start).names
  := by
  apply Graph.mem_names_walk.mpr
  apply Adjacency.mem_reach_iff.mpr
  apply h.reached (h.contains_iff.mpr (List.mem_append_left _ hname))

/-- No more names have been asked than the walk has. -/
theorem Halfway.length_asked_le (h : s.Halfway start asked w) :
  asked.length ≤ (Graph.walk s.hierarchy start).names.size
  := by
  have hsubset : asked ⊆ (Graph.walk s.hierarchy start).names.toList := by
    intro name hname
    apply h.mem_names_walk hname
  apply (h.nodup_asked.subperm hsubset).length_le

theorem Marked.contains_iff_mem_asked (h : s.Marked asked ⟨g, []⟩) :
  g.graph.contains name ↔ name ∈ asked
  := by
  apply h.contains_iff.trans
  rw [List.map_nil, List.append_nil]

/-- When the queue is empty, the names of the walk have all been asked. -/
theorem Halfway.mem_asked_iff (h : s.Halfway start asked ⟨g, []⟩) :
  name ∈ asked ↔ name ∈ s.hierarchy.neighbourhood.reach start
  := by
  rw [Adjacency.mem_reach_iff]
  constructor
  · intro hname
    apply h.reached (h.contains_iff_mem_asked.mpr hname)
  · intro hchain
    induction hchain with
    | refl => apply h.contains_iff_mem_asked.mp h.contains_start
    | tail _ hstep ih => apply h.contains_iff_mem_asked.mp (h.closed _ ih hstep)

/-- When the queue is empty, the graph has been walked. -/
theorem Halfway.graph_eq_walk (h : s.Halfway start asked ⟨g, []⟩) :
  g.graph = Graph.walk s.hierarchy start
  := by
  apply Graph.ext
  · intro name
    rw [Bool.eq_iff_iff, h.contains_iff_mem_asked, h.mem_asked_iff, ← Graph.mem_names_walk,
      Graph.mem_names]
  · intro source
    ext target
    rw [Graph.mem_subtypes_walk]
    apply h.mem_subtypes.trans
    simp only [h.mem_asked_iff]

/-- A walk asks one more name in each turn, of those that have been in the queue. -/
theorem Sound.invariant_walkLoop (hs : s.Sound) {start : Endpoint} (hstart : s.Known start) :
  s.walkLoop.Invariant (s.begun start)
    (fun w => w.network.Indexed ∧ w.graph = Graph.walk s.hierarchy (s.endName start))
    (Graph.walk s.hierarchy (s.endName start)).names.size
    fun n entered w => ∃ asked, asked.length = n
      ∧ entered.map s.endName = asked ++ w.queue.map s.endName
      ∧ s.Halfway (s.endName start) asked w
  where
  begin := ⟨[], rfl, rfl, halfway_begun hstart⟩
  turn := by
    rintro n entered added rest current ⟨g, queue⟩ next ⟨asked, hlength, hentered, hasked⟩ hcons
      ⟨current', rest', edges, hcons', hedges, rfl⟩ hadded
    obtain ⟨rfl, rfl⟩ := List.cons.inj (hcons'.symm.trans hcons)
    obtain rfl : queue = current' :: rest' := hcons
    refine ⟨asked ++ [s.endName current'], ?_, ?_, hasked.turn hs hedges⟩
    · rw [List.length_append, hlength, List.length_singleton]
    · change (List.foldl s.follow ⟨g, rest'⟩ edges).queue = rest' ++ added at hadded
      rw [List.map_append, hentered, hadded]
      simp
  goes_on := by
    rintro n entered rest current w - hcons
    exact ⟨_, current, rest, _, hcons, s.iterates_edgesAt current, rfl⟩
  bounded := by
    rintro n entered w ⟨asked, rfl, -, hasked⟩
    apply hasked.length_asked_le
  once := by
    rintro n entered w ⟨asked, -, hentered, hasked⟩
    change (entered.map s.endName).Nodup
    rw [hentered]
    apply hasked.nodup
  done := by
    rintro n entered ⟨g, queue⟩ ⟨asked, -, -, hasked⟩ hempty
    obtain rfl : queue = [] := hempty
    exact ⟨hasked.indexed, hasked.graph_eq_walk⟩

/-- Every walk ends, with an indexed network and the graph walked from the name of its start. -/
theorem Sound.ends_walkLoop (hs : s.Sound) {start : Endpoint} (hstart : s.Known start) :
  s.walkLoop.Ends (s.begun start) fun w =>
    w.network.Indexed ∧ w.graph = Graph.walk s.hierarchy (s.endName start)
  := (hs.invariant_walkLoop hstart).ends

end Session

end Lineage
