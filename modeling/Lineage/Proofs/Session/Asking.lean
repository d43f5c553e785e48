import Lineage.Proofs.Hierarchy.Edges
import Lineage.Proofs.Session.InPlace
import Lineage.Proofs.Session.Vertices
import Lineage.Proofs.Session.Worklist
import Mathlib.Data.List.Perm.Basic

/-!
# Asking in place

The far end of an edge at a vertex is the registered vertex of its class, or else one that is made
for the occasion and not registered.  Written out as an `Action`, asking a vertex for its edges
goes through the classes at their far ends one after the other, and puts each edge into a set
unless it has an equal one already.  All that was in the session is there afterwards as it was
(`Extends`).  No edge meets an equal one, and by their names the edges are those at the vertex
(`perform_edges`).
-/

namespace Lineage

theorem Edge.Side.map_join {V W : Type} (f : V → W) (side : Edge.Side) (far near : V) :
  (side.join far near).map f = side.join (f far) (f near)
  := by
  cases side <;> rfl

namespace Session

/-- A session has all that another one has as it was there, and perhaps more vertices, which are
not registered. -/
structure Extends (t s : Session) : Prop where
  hierarchy : t.hierarchy = s.hierarchy
  sequence : t.sequence = s.sequence
  registry : t.registry = s.registry
  vertices : ∀ {id v}, s.vertices.get? id = some v → t.vertices.get? id = some v

/-- There is a vertex at a place. -/
def Has (s : Session) (id : VertexId) : Prop := ∃ v, s.vertices.get? id = some v

/-- An edge by the names of its ends. -/
def edgeName (s : Session) (e : Edge VertexId) : Edge String :=
  (e.map Endpoint.held).map s.endName

end Session

namespace Action

/-- Give out the vertex of a class: the registered one, or else one made for the occasion. -/
def neighbour (d : Descriptor) : Action VertexId := do
  match (← get).vertex? d.name with
  | some id => return id
  | none => modifyGet (·.untracked d)

/-- Put an edge into a set of edges, unless an equal one is there. -/
def collect (edges : List (Edge VertexId)) (e : Edge VertexId) :
    Action (List (Edge VertexId)) := do
  let vertices := (← get).vertices
  if edges.any fun f => vertices.equal f.source e.source && vertices.equal f.target e.target then
    return edges
  else return edges ++ [e]

/-- Put the edge between the vertex of a class and the one that is asked into a set of edges. -/
def link (side : Edge.Side) (near : VertexId) (edges : List (Edge VertexId)) (d : Descriptor) :
    Action (List (Edge VertexId)) := do
  let far ← neighbour d
  collect edges (side.join far near)

/-- Ask a vertex for its edges: from its supertypes that resolve, and to its descendants. -/
def edges (id : VertexId) : Action (List (Edge VertexId)) := do
  let s ← get
  match s.vertices.get? id with
  | none => return []
  | some v =>
      let parents := (s.hierarchy.supertypes v.name).filterMap s.hierarchy.resolve
      let children := (s.hierarchy.descendants v.name).toList.filterMap s.hierarchy.resolve
      let edges ← parents.foldlM (link .source id) []
      children.foldlM (link .target id) edges

end Action

namespace Session

/-- The vertex that has been given out for the class of a definition when `s` has become `t`. -/
inductive Gives (s t : Session) (d : Descriptor) : VertexId → Prop where
  | registered {id : VertexId} (h : s.vertex? d.name = some id) : Gives s t d id
  | made {id : VertexId} (h : s.vertex? d.name = none) (hbefore : s.vertices.get? id = none)
      (hafter : t.vertices.get? id = some (Vertex.ofDescriptor d)) : Gives s t d id

variable {s t u : Session} {v : Vertex} {id : VertexId} {d : Descriptor} {near : VertexId}
  {edges : List (Edge VertexId)} {names : List (Edge String)}

/-! ### Sessions with more vertices -/

theorem Extends.refl (s : Session) :
  s.Extends s
  := ⟨rfl, rfl, rfl, fun h => h⟩

theorem Extends.trans (h : u.Extends t) (h' : t.Extends s) :
  u.Extends s
  where
  hierarchy := h.hierarchy.trans h'.hierarchy
  sequence := h.sequence.trans h'.sequence
  registry := h.registry.trans h'.registry
  vertices hv := h.vertices (h'.vertices hv)

theorem extends_untracked (s : Session) (d : Descriptor) :
  (s.untracked d).2.Extends s
  := ⟨rfl, rfl, rfl, VertexTable.get?_add_of_some⟩

theorem Extends.sound (h : t.Extends s) (hs : s.Sound) :
  t.Sound
  where
  consistent := by
    rw [h.hierarchy]
    apply hs.consistent
  registered {name id} hid := by
    rw [vertex?, h.registry] at hid
    obtain ⟨v, hv, hname⟩ := hs.exists_vertex hid
    rw [h.vertices hv, Option.map_some, hname]

theorem Extends.has (h : t.Extends s) (hid : s.Has id) :
  t.Has id
  := by
  obtain ⟨v, hv⟩ := hid
  exact ⟨v, h.vertices hv⟩

theorem Extends.endName_held (h : t.Extends s) (hid : s.Has id) :
  t.endName (.held id) = s.endName (.held id)
  := by
  obtain ⟨v, hv⟩ := hid
  rw [Session.endName_held hv, Session.endName_held (h.vertices hv)]

theorem Has.known (hid : s.Has id) :
  s.Known (.held id)
  := by
  intro i hi
  obtain rfl := Endpoint.held.inj hi
  apply hid

/-! ### Sets of edges -/

/-- Some edges are between vertices of a session and have these names, in this order. -/
structure Bear (s : Session) (edges : List (Edge VertexId)) (names : List (Edge String)) :
    Prop where
  has : ∀ e ∈ edges, s.Has e.source ∧ s.Has e.target
  map_edgeName : edges.map s.edgeName = names

theorem Bear.of_extends (hb : s.Bear edges names) (h : t.Extends s) :
  t.Bear edges names
  where
  has e he := (hb.has e he).imp h.has h.has
  map_edgeName := by
    rw [← hb.map_edgeName]
    apply List.map_congr_left
    intro e he
    obtain ⟨hsource, htarget⟩ := hb.has e he
    simp only [edgeName, Edge.map, h.endName_held hsource, h.endName_held htarget]

theorem Bear.concat (hb : s.Bear edges names) {e : Edge VertexId} (hsource : s.Has e.source)
    (htarget : s.Has e.target) :
  s.Bear (edges ++ [e]) (names ++ [s.edgeName e])
  where
  has f hf := by
    rcases List.mem_append.mp hf with hf | hf
    · apply hb.has f hf
    · rw [List.mem_singleton.mp hf]
      exact ⟨hsource, htarget⟩
  map_edgeName := by
    rw [List.map_append, hb.map_edgeName, List.map_singleton]

/-- Equal edges have the same names. -/
theorem edgeName_eq_of_equal {e f : Edge VertexId}
    (h : s.vertices.equal f.source e.source && s.vertices.equal f.target e.target) :
  s.edgeName f = s.edgeName e
  := by
  rw [Bool.and_eq_true, VertexTable.equal, VertexTable.equal, decide_eq_true_eq,
    decide_eq_true_eq] at h
  simp only [edgeName, Edge.map, endName, h.1, h.2]

/-! ### Asking one vertex -/

/-- An edge of other names than those in the set is put into it. -/
theorem perform_collect {e : Edge VertexId} (he : s.edgeName e ∉ edges.map s.edgeName) :
  (Action.collect edges e).perform s = (.ok (edges ++ [e]), s)
  := by
  have hnew : (edges.any fun f =>
      s.vertices.equal f.source e.source && s.vertices.equal f.target e.target) = false := by
    apply List.any_eq_false.mpr
    intro f hf hequal
    apply he
    rw [← edgeName_eq_of_equal hequal]
    apply List.mem_map_of_mem hf
  simp only [Action.collect, Action.perform_bind, Action.perform_get, hnew, Bool.false_eq_true,
    if_false, Action.perform_pure]

/-- A vertex is given out for every class, whether or not it has one already. -/
theorem exists_gives (s : Session) (d : Descriptor) :
  ∃ far t, (Action.neighbour d).perform s = (.ok far, t) ∧ t.Extends s
    ∧ (s.Reachable → t.Reachable) ∧ s.Gives t d far
  := by
  cases hid : s.vertex? d.name with
  | some id =>
    refine ⟨id, s, ?_, Extends.refl s, fun hs => hs, Gives.registered hid⟩
    simp only [Action.neighbour, Action.perform_bind, Action.perform_get, hid, Action.perform_pure]
  | none =>
    have hafter : (s.untracked d).2.vertices.get? s.vertices.next
        = some (Vertex.ofDescriptor d) := VertexTable.get?_add.trans (if_pos rfl)
    refine ⟨s.vertices.next, (s.untracked d).2, ?_, extends_untracked s d,
      fun hs => hs.after (.untracked d), Gives.made hid (VertexTable.get?_next _) hafter⟩
    simp only [Action.neighbour, Action.perform_bind, Action.perform_get, hid,
      Action.perform_modifyGet]
    rfl

/-- The vertex given out for a class bears its name. -/
theorem Sound.perform_neighbour (hs : s.Sound) (d : Descriptor) :
  ∃ far t, (Action.neighbour d).perform s = (.ok far, t) ∧ t.Extends s
    ∧ t.Has far ∧ t.endName (.held far) = d.name
  := by
  obtain ⟨far, t, hperform, hextends, -, hgives⟩ := s.exists_gives d
  have hfar : ∃ v, t.vertices.get? far = some v ∧ v.name = d.name := by
    cases hgives with
    | registered hid =>
      obtain ⟨v, hv, hname⟩ := hs.exists_vertex hid
      exact ⟨v, hextends.vertices hv, hname⟩
    | made _ _ hafter => exact ⟨_, hafter, rfl⟩
  obtain ⟨v, hv, hname⟩ := hfar
  refine ⟨far, t, hperform, hextends, ⟨v, hv⟩, ?_⟩
  rw [Session.endName_held hv, hname]

/-- An edge to be put into a set that has none of its names is put there, whether its far end is
there or has to be made. -/
theorem Sound.perform_link (hs : s.Sound) (side : Edge.Side) (hnear : s.Has near)
    (hb : s.Bear edges names) (hnew : side.join d.name (s.endName (.held near)) ∉ names) :
  ∃ edges' t, (Action.link side near edges d).perform s = (.ok edges', t) ∧ t.Extends s
    ∧ t.Bear edges' (names ++ [side.join d.name (s.endName (.held near))])
  := by
  obtain ⟨far, t, hperform, hextends, hfar, hname⟩ := hs.perform_neighbour d
  have hb := hb.of_extends hextends
  have hedge : t.edgeName (side.join far near) = side.join d.name (s.endName (.held near)) := by
    rw [edgeName, Edge.Side.map_join, Edge.Side.map_join, hname, hextends.endName_held hnear]
  have hcollect : (Action.collect edges (side.join far near)).perform t
      = (.ok (edges ++ [side.join far near]), t) := by
    apply perform_collect
    rw [hedge, hb.map_edgeName]
    apply hnew
  refine ⟨edges ++ [side.join far near], t, ?_, hextends, ?_⟩
  · simp only [Action.link, Action.perform_bind, hperform, hcollect]
  · rw [← hedge]
    cases side with
    | source => apply hb.concat hfar (hextends.has hnear)
    | target => apply hb.concat (hextends.has hnear) hfar

/-- Edges of different names are all put into the set. -/
theorem Sound.perform_foldlM_link (hs : s.Sound) (side : Edge.Side) (hnear : s.Has near)
    (ds : List Descriptor) (hb : s.Bear edges names)
    (hnodup : (names ++ ds.map fun d => side.join d.name (s.endName (.held near))).Nodup) :
  ∃ edges' t, Action.perform (ds.foldlM (Action.link side near) edges) s = (.ok edges', t)
    ∧ t.Extends s
    ∧ t.Bear edges' (names ++ ds.map fun d => side.join d.name (s.endName (.held near)))
  := by
  -- each class is linked in the session that the one before it has left
  induction ds generalizing s edges names with
  | nil =>
    refine ⟨edges, s, ?_, Extends.refl s, ?_⟩
    · rw [List.foldlM_nil, Action.perform_pure]
    · rw [List.map_nil, List.append_nil]
      apply hb
  | cons d ds ih =>
    rw [List.map_cons, List.append_cons] at hnodup ⊢
    have hnew : side.join d.name (s.endName (.held near)) ∉ names := by
      have hfirst := (List.nodup_append.mp hnodup).1
      rw [List.nodup_append_comm] at hfirst
      apply (List.nodup_cons.mp hfirst).1
    obtain ⟨edges₁, t₁, hfirst, hextends₁, hb₁⟩ := hs.perform_link side hnear hb hnew
    rw [← hextends₁.endName_held hnear] at hnodup hb₁ ⊢
    obtain ⟨edges₂, t₂, hrest, hextends₂, hb₂⟩ :=
      ih (hextends₁.sound hs) (hextends₁.has hnear) hb₁ hnodup
    refine ⟨edges₂, t₂, ?_, hextends₂.trans hextends₁, hb₂⟩
    rw [List.foldlM_cons, Action.perform_bind, hfirst]
    apply hrest

/-- By their names, the edges for which a vertex is asked are those of the hierarchy at its
name. -/
theorem Sound.perform_edges (hs : s.Sound) (hv : s.vertices.get? id = some v) :
  ∃ edges t, (Action.edges id).perform s = (.ok edges, t) ∧ t.Extends s
    ∧ t.Bear edges (s.hierarchy.edges v.name)
  := by
  have hid : s.Has id := ⟨v, hv⟩
  have hname : s.endName (.held id) = v.name := Session.endName_held hv
  have hedges : ((s.hierarchy.supertypes v.name).filterMap s.hierarchy.resolve).map
        (fun d => Edge.Side.source.join d.name (s.endName (.held id)))
      ++ ((s.hierarchy.descendants v.name).toList.filterMap s.hierarchy.resolve).map
        (fun d => Edge.Side.target.join d.name (s.endName (.held id)))
      = s.hierarchy.edges v.name := by
    rw [Hierarchy.edges, Hierarchy.knownSupertypes, ← hs.map_name_filterMap_resolve,
      ← hs.map_name_filterMap_resolve, List.map_map, List.map_map, hname]
    rfl
  have hnodup := s.hierarchy.nodup_edges v.name
  rw [← hedges] at hnodup ⊢
  have hnone : s.Bear [] [] := ⟨fun e he => absurd he List.not_mem_nil, rfl⟩
  obtain ⟨edges₁, t₁, hparents, hextends₁, hb₁⟩ :=
    hs.perform_foldlM_link .source hid _ hnone (List.nodup_append.mp hnodup).1
  rw [← hextends₁.endName_held hid] at hnodup hb₁ ⊢
  obtain ⟨edges₂, t₂, hchildren, hextends₂, hb₂⟩ :=
    (hextends₁.sound hs).perform_foldlM_link .target (hextends₁.has hid) _ hb₁ hnodup
  refine ⟨edges₂, t₂, ?_, hextends₂.trans hextends₁, hb₂⟩
  simp only [Action.edges, Action.perform_bind, Action.perform_get, hv, hparents, hchildren]

end Session

end Lineage
