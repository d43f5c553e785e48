import Lineage.Proofs.Session.Asking
import Mathlib.Data.List.Perm.Basic

/-!
# Walking in place

A walk in place asks one vertex after the other, each in the session that the one before has
left, where there may be more vertices.  It takes the turns of a walk in the session as it was, with
vertices of the same names in the queue (`Mirrors`): what a turn makes of the network and of the
names in the queue depends on the names of the edges only (`outline_foldl_follow`).  So it ends,
with the same network, and leaves all it has found as it was (`Sound.ends_walkInPlace`,
`Sound.endsInPlace_walk`).
-/

namespace Lineage.Session

/-- In a turn of a walk in place, the first vertex in the queue is asked for its edges, in the
session as it is then, and these are followed in any order. -/
inductive TurnInPlace : Session × Worklist → Session × Worklist → Prop where
  | turn {t u : Session} {g : Network} {current : VertexId} {rest : List Endpoint}
      {edges order : List (Edge VertexId)}
      (h : (Action.edges current).perform t = (.ok edges, u)) (horder : order.Perm edges) :
      TurnInPlace (t, ⟨g, .held current :: rest⟩)
        (u, (order.map (Edge.map .held)).foldl u.follow ⟨g, rest⟩)

/-- The loop of a walk in place. -/
def walkInPlace : QueueLoop (Session × Worklist) Endpoint where
  queue w := w.2.queue
  name w := w.1.endName
  Turn := TurnInPlace
  queue_of_turn := by
    rintro _ _ @⟨t, u, g, current, rest, edges, order, -, -⟩
    obtain ⟨added, hadded⟩ := u.prefix_queue_foldl_follow (order.map (Edge.map .held)) ⟨g, rest⟩
    exact ⟨.held current, rest, added, rfl, hadded.symm⟩

/-- Every walk in place from a vertex ends with the same graph, and leaves all it has found as it
was. -/
structure EndsInPlace (s : Session) (start : VertexId) (g : Graph) : Prop where
  extends_start : ∀ {n entered w},
    walkInPlace.Course (s, s.begun (.held start)) n entered w → w.1.Extends s
  /-- There are no more turns than classes in the graph. -/
  bounded : ∀ {n entered w},
    walkInPlace.Course (s, s.begun (.held start)) n entered w → n ≤ g.names.size
  /-- It comes to an empty queue, and when the queue is empty, the graph has been collected. -/
  ends : walkInPlace.Ends (s, s.begun (.held start)) fun w => w.2.graph = g

variable {s t : Session} {v : Vertex} {id start : VertexId} {edges : List (Edge VertexId)}
  {names : List (Edge String)} {entries : List Endpoint} {w : Worklist} {n : Nat}

/-! ### Following names -/

/-- A walk under way by its names: the network so far, and the names of the vertices that are
still to be asked, in order. -/
def outline (s : Session) (w : Worklist) : Network × List String :=
  (w.network, w.queue.map s.endName)

/-- What meeting a vertex of a name makes of an outline. -/
def meetName (outline : Network × List String) (name : String) : Network × List String :=
  if outline.1.contains name then outline else ((outline.1.enter name).2, outline.2 ++ [name])

/-- What following an edge of these names makes of an outline. -/
def followNames (outline : Network × List String) (e : Edge String) : Network × List String :=
  let met := meetName (meetName outline e.source) e.target
  (met.1.connect e, met.2)

theorem outline_meet (w : Worklist) (e : Endpoint) :
  s.outline (s.meet w e) = meetName (s.outline w) (s.endName e)
  := by
  rw [meet, meetName]
  by_cases h : w.network.contains (s.endName e)
  · rw [if_pos h]
    symm
    apply if_pos h
  · rw [if_neg h, outline, List.map_append]
    symm
    apply if_neg h

theorem outline_follow (w : Worklist) (e : Edge Endpoint) :
  s.outline (s.follow w e) = followNames (s.outline w) (e.map s.endName)
  := by
  simp only [followNames, Edge.map, ← outline_meet]
  rfl

/-- What following edges makes of a walk depends on the names of their ends only. -/
theorem outline_foldl_follow (edges : List (Edge Endpoint)) (w : Worklist) :
  s.outline (edges.foldl s.follow w)
    = (edges.map (Edge.map s.endName)).foldl followNames (s.outline w)
  := by
  rw [List.foldl_map]
  symm
  apply List.foldl_hom s.outline
  intro w e
  apply (outline_follow w e).symm

/-- Walks that have the same outline before a turn and after it have come upon vertices of the
same names. -/
theorem map_endName_added {u : Session} {w w' next next' : Worklist} {current current' : Endpoint}
    {rest rest' added added' : List Endpoint} (hbefore : s.outline w' = t.outline w)
    (hafter : s.outline next' = u.outline next) (hqueue : w.queue = current :: rest)
    (hqueue' : w'.queue = current' :: rest') (hadded : next.queue = rest ++ added)
    (hadded' : next'.queue = rest' ++ added') (hrest : rest.map u.endName = rest.map t.endName) :
  added'.map s.endName = added.map u.endName
  := by
  have hbefore := congrArg Prod.snd hbefore
  have hafter := congrArg Prod.snd hafter
  simp only [outline, hqueue, hqueue', List.map_cons, List.cons.injEq] at hbefore
  simp only [outline, hadded, hadded', List.map_append, hbefore.2, hrest] at hafter
  apply List.append_cancel_left hafter

/-! ### Vertices in the queue -/

/-- Some entries of a queue are vertices of the session. -/
def Holds (s : Session) (entries : List Endpoint) : Prop :=
  ∀ e ∈ entries, ∃ id, e = .held id ∧ s.Has id

theorem Holds.tail {e : Endpoint} (h : s.Holds (e :: entries)) :
  s.Holds entries
  := fun f hf => h f (List.mem_cons_of_mem e hf)

theorem Holds.of_extends (h : s.Holds entries) (ht : t.Extends s) :
  t.Holds entries
  := by
  intro e he
  obtain ⟨id, hid, hhas⟩ := h e he
  exact ⟨id, hid, ht.has hhas⟩

theorem Holds.map_endName (h : s.Holds entries) (ht : t.Extends s) :
  entries.map t.endName = entries.map s.endName
  := by
  apply List.map_congr_left
  intro e he
  obtain ⟨id, rfl, hid⟩ := h e he
  apply ht.endName_held hid

theorem Holds.meet (h : s.Holds w.queue) (hid : s.Has id) :
  s.Holds (s.meet w (.held id)).queue
  := by
  rw [Session.meet]
  split
  · apply h
  · intro e he
    rcases List.mem_append.mp he with he | he
    · apply h e he
    · exact ⟨id, List.mem_singleton.mp he, hid⟩

theorem Holds.foldl_follow (h : s.Holds w.queue)
    (hedges : ∀ e ∈ edges, s.Has e.source ∧ s.Has e.target) :
  s.Holds ((edges.map (Edge.map .held)).foldl s.follow w).queue
  := by
  rw [List.foldl_map]
  apply List.foldlRecOn (motive := fun w : Worklist => s.Holds w.queue) edges _ h
  intro w hw e he
  obtain ⟨hsource, htarget⟩ := hedges e he
  apply (hw.meet hsource).meet htarget

/-- In whatever order the edges at a vertex are named, they may come in that order. -/
theorem Sound.exists_iterates (hs : s.Sound) {current : Endpoint} (hcurrent : s.Known current)
    (hnames : names.Perm (s.hierarchy.edges (s.endName current))) :
  ∃ edges, s.Iterates current edges ∧ edges.map (Edge.map s.endName) = names
  := by
  rw [← hs.map_endName_edgesFrom rfl, ← hcurrent.edgesAt_eq] at hnames
  obtain ⟨edges, hedges, hperm⟩ :
      Relation.Comp (· = List.map (Edge.map s.endName) ·) List.Perm names
        (s.edgesAt current) := by
    rw [List.eq_map_comp_perm]
    apply hnames
  refine ⟨edges, ⟨?_, ?_⟩, hedges.symm⟩
  · intro e he
    apply hperm.mem_iff.mp he
  · intro e he
    exact ⟨e, hperm.mem_iff.mpr he, rfl⟩

/-! ### Turns in place -/

/-- A turn in place is mirrored by a turn at a vertex of the same name, whose edges come in the
order in which they are followed here. -/
theorem TurnInPlace.exists_turn {current : VertexId} {rest : List Endpoint} {w' : Worklist}
    {next : Session × Worklist} {g : Network}
    (h : TurnInPlace (t, ⟨g, .held current :: rest⟩) next) (hs : s.Sound) (ht : t.Extends s)
    (hholds : t.Holds (.held current :: rest)) (hknown : ∀ e ∈ w'.queue, s.Known e)
    (houtline : s.outline w' = t.outline ⟨g, .held current :: rest⟩) :
  next.1.Extends t ∧ next.1.Holds next.2.queue
    ∧ ∃ next', s.walkLoop.Turn w' next' ∧ s.outline next' = next.1.outline next.2
  := by
  obtain @⟨_, u, _, _, _, edges, order, hperform, horder⟩ := h
  obtain ⟨_, hid, v, hv⟩ := hholds (.held current) List.mem_cons_self
  obtain rfl := Endpoint.held.inj hid
  obtain ⟨edges, u, hperform', hextends, hbear⟩ := (ht.sound hs).perform_edges hv
  rw [hperform] at hperform'
  obtain ⟨hedges, rfl⟩ := Prod.mk.inj hperform'
  obtain rfl := Except.ok.inj hedges
  refine ⟨hextends, ?_, ?_⟩
  · apply (hholds.tail.of_extends hextends).foldl_follow
    intro e he
    apply hbear.has e (horder.mem_iff.mp he)
  · -- the vertex that is first in the other queue has the name of the one that is asked
    obtain ⟨g', queue'⟩ := w'
    obtain ⟨rfl, hnames⟩ := Prod.mk.inj houtline
    obtain ⟨current', rest', rfl, hcurrent, hrest'⟩ := List.map_eq_cons_iff.mp hnames
    have horder' : (order.map u.edgeName).Perm (s.hierarchy.edges (s.endName current')) := by
      rw [hcurrent, endName_held hv, ← ht.hierarchy, ← hbear.map_edgeName]
      apply horder.map
    obtain ⟨edges', hiterates, hnames'⟩ :=
      hs.exists_iterates (hknown current' List.mem_cons_self) horder'
    have hbegun : s.outline ⟨g', rest'⟩ = u.outline ⟨g', rest⟩ := by
      rw [outline, outline, hrest', hholds.tail.map_endName hextends]
    refine ⟨_, ⟨current', rest', edges', rfl, hiterates, rfl⟩, ?_⟩
    rw [outline_foldl_follow, outline_foldl_follow, hnames', hbegun, List.map_map]
    rfl

/-- A walk in place has come as far as one in the session as it was, in as many turns and with
vertices of the same names. -/
structure Mirrors (s : Session) (start : VertexId) (n : Nat) (entered : List Endpoint)
    (w : Session × Worklist) : Prop where
  extends_start : w.1.Extends s
  holds : w.1.Holds entered
  queue_subset : w.2.queue ⊆ entered
  course : ∃ entered' w', s.walkLoop.Course (s.begun (.held start)) n entered' w'
    ∧ s.outline w' = w.1.outline w.2
    ∧ entered'.map s.endName = entered.map w.1.endName

theorem mirrors_begun (hstart : s.Has start) :
  s.Mirrors start 0 [.held start] (s, s.begun (.held start))
  where
  extends_start := Extends.refl s
  holds _ he := ⟨start, List.mem_singleton.mp he, hstart⟩
  queue_subset := List.Subset.refl _
  course := ⟨_, _, .begin, rfl, rfl⟩

theorem Mirrors.turn {entered added rest : List Endpoint} {current : Endpoint}
    {w next : Session × Worklist} (h : s.Mirrors start n entered w) (hs : s.Sound)
    (hstart : s.Has start) (hqueue : w.2.queue = current :: rest) (hturn : TurnInPlace w next)
    (hadded : next.2.queue = rest ++ added) :
  s.Mirrors start (n + 1) (entered ++ added) next
  := by
  obtain ⟨t, g, queue⟩ := w
  obtain rfl : queue = current :: rest := hqueue
  have hholds : t.Holds (current :: rest) := fun e he => h.holds e (h.queue_subset he)
  obtain ⟨id, rfl, -⟩ := hholds current List.mem_cons_self
  obtain ⟨entered', w', hcourse, houtline, hentered⟩ := h.course
  have hknown : ∀ e ∈ w'.queue, s.Known e := by
    obtain ⟨asked, -, -, hhalfway⟩ := (hs.invariant_walkLoop hstart.known).holds hcourse
    apply hhalfway.known
  obtain ⟨hextends, hnext, next', hturn', houtline'⟩ :=
    hturn.exists_turn hs h.extends_start hholds hknown houtline
  obtain ⟨current', rest', added', hqueue', hadded'⟩ := s.walkLoop.queue_of_turn hturn'
  change w'.queue = current' :: rest' at hqueue'
  change next'.queue = rest' ++ added' at hadded'
  have hnames : added'.map s.endName = added.map next.1.endName :=
    map_endName_added houtline houtline' rfl hqueue' hadded hadded'
      (hholds.tail.map_endName hextends)
  constructor
  case extends_start => exact hextends.trans h.extends_start
  case holds =>
    intro e he
    rcases List.mem_append.mp he with he | he
    · apply h.holds.of_extends hextends e he
    · apply hnext e (hadded ▸ List.mem_append_right rest he)
  case queue_subset =>
    rw [hadded]
    apply List.append_subset.mpr
    constructor
    · intro e he
      apply List.mem_append_left added (h.queue_subset (List.mem_cons_of_mem _ he))
    · apply List.subset_append_right
  case course =>
    refine ⟨_, next', hcourse.turn hqueue' hturn' hadded', houtline', ?_⟩
    rw [List.map_append, List.map_append, hentered, hnames, h.holds.map_endName hextends]

/-! ### The end of a walk in place -/

/-- A walk in place mirrors one in the session as it was, and so has what that has by its end. -/
theorem Sound.invariant_walkInPlace (hs : s.Sound) (hv : s.vertices.get? id = some v) :
  walkInPlace.Invariant (s, s.begun (.held id))
    (fun w => w.2.network.Indexed ∧ w.2.graph = Graph.walk s.hierarchy v.name)
    (Graph.walk s.hierarchy v.name).names.size (s.Mirrors id)
  := by
  have hid : s.Has id := ⟨v, hv⟩
  have hinvariant := hs.invariant_walkLoop hid.known
  have hends := hinvariant.ends
  rw [endName_held hv] at hinvariant hends
  constructor
  case begin => exact mirrors_begun hid
  case turn =>
    intro n entered added rest current w next h hqueue hturn hadded
    apply h.turn hs hid hqueue hturn hadded
  case goes_on =>
    rintro n entered rest current ⟨t, g, queue⟩ h hqueue
    obtain rfl : queue = current :: rest := hqueue
    obtain ⟨i, rfl, u, hu⟩ := h.holds current (h.queue_subset List.mem_cons_self)
    obtain ⟨edges, u, hperform, -, -⟩ := (h.extends_start.sound hs).perform_edges hu
    exact ⟨_, .turn hperform (List.Perm.refl edges)⟩
  case bounded =>
    intro n entered w h
    obtain ⟨_, _, hcourse, -, -⟩ := h.course
    apply hinvariant.bounded (hinvariant.holds hcourse)
  case once =>
    intro n entered w h
    obtain ⟨_, _, hcourse, -, hentered⟩ := h.course
    change (entered.map w.1.endName).Nodup
    rw [← hentered]
    apply hends.once hcourse
  case done =>
    rintro n entered ⟨t, g, queue⟩ h hqueue
    obtain rfl : queue = [] := hqueue
    obtain ⟨_, ⟨g', queue'⟩, hcourse, houtline, -⟩ := h.course
    obtain ⟨rfl, hnames⟩ := Prod.mk.inj houtline
    apply hends.done hcourse (List.map_eq_nil_iff.mp hnames)

/-- Every walk in place ends, with an indexed network and the graph walked from the name of its
start. -/
theorem Sound.ends_walkInPlace (hs : s.Sound) (hv : s.vertices.get? id = some v) :
  walkInPlace.Ends (s, s.begun (.held id)) fun w =>
    w.2.network.Indexed ∧ w.2.graph = Graph.walk s.hierarchy v.name
  := (hs.invariant_walkInPlace hv).ends

theorem Sound.endsInPlace_walk (hs : s.Sound) (hv : s.vertices.get? id = some v) :
  s.EndsInPlace id (Graph.walk s.hierarchy v.name)
  where
  extends_start h := ((hs.invariant_walkInPlace hv).holds h).extends_start
  bounded h := (hs.invariant_walkInPlace hv).bounded ((hs.invariant_walkInPlace hv).holds h)
  ends := (hs.ends_walkInPlace hv).imp fun _ hw => hw.2

end Lineage.Session
