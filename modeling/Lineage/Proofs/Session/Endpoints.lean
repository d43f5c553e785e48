import Lineage.Proofs.Session.Asking
import Mathlib.Data.List.Permutation

/-!
# The ends of edges

An edge at a vertex has this very vertex at its near end, whether or not it is registered.  Its far
end is a vertex of another class, or of the same one if a class declares itself, and depends on
nothing but the name there: it is the registered vertex of the name, whatever that holds, or else
a vertex made for the occasion, which is not registered and holds what the name resolves to
(`edges_canonical`).

This is so of the edges as the session has them, and of those that a vertex gives when it is asked
in place.  There the classes at the far ends are gone through one after the other, and a vertex
that is made for one of them is at a place where there was none (`Gives`), in the session at the
beginning just as in the one that has come about in the meantime (`Gathers.trans`).
-/

namespace Lineage

/-- An edge at a vertex of the class `name`, which is its near end.  The far end represents a
supertype that the class declares, and is the source, or a descendant, and is the target. -/
inductive EdgeAt {V : Type} (h : Hierarchy) (name : String) (near : V)
    (Represents : String → V → Prop) : Edge V → Prop where
  | parent {far : V} {parent : String} (hparent : parent ∈ h.supertypes name)
      (hfar : Represents parent far) : EdgeAt h name near Represents ⟨far, near⟩
  | child {far : V} {child : String} (hchild : child ∈ h.descendants name)
      (hfar : Represents child far) : EdgeAt h name near Represents ⟨near, far⟩

namespace Session

/-- An end of an edge represents the class of a name. -/
structure Represents (s : Session) (name : String) (far : Endpoint) : Prop where
  named : s.endName far = name
  /-- It is the registered vertex of the name, if there is one. -/
  registered : ∀ id, s.vertex? name = some id → far = .held id
  /-- Otherwise it is a vertex that no one else has and holds what the name resolves to. -/
  made : s.vertex? name = none → ∃ d, s.hierarchy.resolve name = some d ∧ far = .fresh d

/-- A vertex that is there when `s` has become `t` represents the class of a name. -/
structure RepresentsInPlace (s t : Session) (name : String) (far : VertexId) : Prop where
  named : (t.vertices.get? far).map Vertex.name = some name
  /-- It is the registered vertex of the name, if there is one. -/
  registered : ∀ id, s.vertex? name = some id → far = id
  /-- Otherwise it was not there before, is not registered, and holds what the name resolves
  to. -/
  made : s.vertex? name = none → s.vertices.get? far = none ∧ t.isTracked far = false
    ∧ ∃ d, s.hierarchy.resolve name = some d ∧ t.vertices.data? far = some d

/-- When `s` has become `t`, some edges have been put into a set.  They are between the vertex
`near` and vertices given out for some classes, which are on one side. -/
structure Gathers (s t : Session) (side : Edge.Side) (near : VertexId) (ds : List Descriptor)
    (edges edges' : List (Edge VertexId)) : Prop where
  grown : t.Extends s
  reachable : s.Reachable → t.Reachable
  mem : ∀ e ∈ edges', e ∈ edges ∨ ∃ d ∈ ds, ∃ far, s.Gives t d far ∧ e = side.join far near

variable {s t u : Session} {v : Vertex} {id far near : VertexId} {name : String} {d : Descriptor}
  {side : Edge.Side} {ds ds' : List Descriptor} {edges edges' edges'' : List (Edge VertexId)}

/-! ### The ends as the session has them -/

theorem Sound.represents_endpoint (hs : s.Sound) (hd : s.hierarchy.resolve name = some d) :
  s.Represents name (s.endpoint d)
  where
  named := by
    rw [hs.endName_endpoint, hs.consistent.name_of_resolve hd]
  registered id hid := by
    rw [endpoint, hs.consistent.name_of_resolve hd, hid]
  made hnone := by
    refine ⟨d, hd, ?_⟩
    rw [endpoint, hs.consistent.name_of_resolve hd, hnone]

theorem Sound.edgeAt_of_mem_edges (hs : s.Sound) (hv : s.vertices.get? id = some v)
    {e : Edge Endpoint} (he : e ∈ s.edges id) :
  EdgeAt s.hierarchy v.name (.held id) s.Represents e
  := by
  rw [edges_of_get? hv, edgesFrom] at he
  rcases List.mem_append.mp he with he | he
  · obtain ⟨d, hd, rfl⟩ := List.mem_map.mp he
    obtain ⟨parent, hparent, hd⟩ := List.mem_filterMap.mp hd
    apply EdgeAt.parent hparent (hs.represents_endpoint hd)
  · obtain ⟨d, hd, rfl⟩ := List.mem_map.mp he
    obtain ⟨child, hchild, hd⟩ := List.mem_filterMap.mp hd
    apply EdgeAt.child hchild (hs.represents_endpoint hd)

/-! ### Vertices given out -/

theorem Extends.vertex?_eq (h : t.Extends s) (name : String) :
  t.vertex? name = s.vertex? name
  := by
  rw [vertex?, h.registry, vertex?]

/-- Where there is no vertex there was none. -/
theorem Extends.get?_eq_none (h : t.Extends s) (hid : t.vertices.get? id = none) :
  s.vertices.get? id = none
  := by
  cases hv : s.vertices.get? id with
  | none => rfl
  | some v =>
    rw [h.vertices hv] at hid
    exact absurd hid (Option.some_ne_none v)

/-- What is given out later would have been given out before. -/
theorem Gives.of_grown (h : t.Gives u d far) (ht : t.Extends s) :
  s.Gives u d far
  := by
  cases h with
  | registered h =>
    rw [ht.vertex?_eq] at h
    apply Gives.registered h
  | made h hbefore hafter =>
    rw [ht.vertex?_eq] at h
    apply Gives.made h (ht.get?_eq_none hbefore) hafter

/-- What has been given out is there later. -/
theorem Gives.grow (h : s.Gives t d far) (hu : u.Extends t) :
  s.Gives u d far
  := by
  cases h with
  | registered h => apply Gives.registered h
  | made h hbefore hafter => apply Gives.made h hbefore (hu.vertices hafter)

/-- A vertex that is given out for what a name resolves to represents it. -/
theorem Gives.representsInPlace (h : s.Gives t d far) (hs : s.Sound) (ht : t.Extends s)
    (hd : s.hierarchy.resolve name = some d) :
  s.RepresentsInPlace t name far
  := by
  obtain rfl := hs.consistent.name_of_resolve hd
  cases h with
  | registered hid =>
    constructor
    case named =>
      obtain ⟨v, hv, hname⟩ := hs.exists_vertex hid
      rw [ht.vertices hv, Option.map_some, hname]
    case registered =>
      intro id hid'
      rw [hid] at hid'
      apply Option.some.inj hid'
    case made =>
      intro hnone
      rw [hid] at hnone
      exact absurd hnone (Option.some_ne_none far)
  | made hnone hbefore hafter =>
    constructor
    case named =>
      rw [hafter]
      rfl
    case registered =>
      intro id hid
      rw [hnone] at hid
      exact absurd hid (Option.some_ne_none id).symm
    case made =>
      intro _
      refine ⟨hbefore, ?_, d, hd, ?_⟩
      · have hvertex : t.vertex? d.name = none := by
          rw [ht.vertex?_eq, hnone]
        rw [isTracked, hafter]
        simp [Vertex.ofDescriptor, hvertex]
      · rw [VertexTable.data?, hafter]
        rfl

/-! ### Edges gathered in place -/

theorem Gathers.trans (h : s.Gathers t side near ds edges edges')
    (h' : t.Gathers u side near ds' edges' edges'') :
  s.Gathers u side near (ds ++ ds') edges edges''
  where
  grown := h'.grown.trans h.grown
  reachable hs := h'.reachable (h.reachable hs)
  mem e he := by
    rcases h'.mem e he with he | ⟨d, hd, far, hfar, rfl⟩
    · rcases h.mem e he with he | ⟨d, hd, far, hfar, rfl⟩
      · apply Or.inl he
      · exact Or.inr ⟨d, List.mem_append_left _ hd, far, hfar.grow h'.grown, rfl⟩
    · exact Or.inr ⟨d, List.mem_append_right _ hd, far, hfar.of_grown h.grown, rfl⟩

/-- A set that an edge is put into has it and what was there, and nothing else. -/
theorem perform_collect_cases (edges : List (Edge VertexId)) (e : Edge VertexId) (s : Session) :
  ∃ edges', (Action.collect edges e).perform s = (.ok edges', s) ∧ ∀ f ∈ edges', f ∈ edges ∨ f = e
  := by
  simp only [Action.collect, Action.perform_bind, Action.perform_get]
  split
  · exact ⟨edges, rfl, fun _ hf => Or.inl hf⟩
  · refine ⟨edges ++ [e], rfl, ?_⟩
    intro f hf
    apply (List.mem_append.mp hf).imp id List.mem_singleton.mp

theorem exists_gathers_link (s : Session) (side : Edge.Side) (near : VertexId)
    (edges : List (Edge VertexId)) (d : Descriptor) :
  ∃ edges' t, (Action.link side near edges d).perform s = (.ok edges', t)
    ∧ s.Gathers t side near [d] edges edges'
  := by
  obtain ⟨far, t, hneighbour, hgrown, hreachable, hgives⟩ := s.exists_gives d
  obtain ⟨edges', hcollect, hmem⟩ := perform_collect_cases edges (side.join far near) t
  refine ⟨edges', t, ?_, hgrown, hreachable, ?_⟩
  · simp only [Action.link, Action.perform_bind, hneighbour, hcollect]
  · intro e he
    apply (hmem e he).imp_right
    rintro rfl
    exact ⟨d, List.mem_singleton_self d, far, hgives, rfl⟩

theorem exists_gathers_foldlM_link (s : Session) (side : Edge.Side) (near : VertexId)
    (edges : List (Edge VertexId)) (ds : List Descriptor) :
  ∃ edges' t, Action.perform (ds.foldlM (Action.link side near) edges) s = (.ok edges', t)
    ∧ s.Gathers t side near ds edges edges'
  := by
  induction ds generalizing s edges with
  | nil =>
    refine ⟨edges, s, ?_, Extends.refl s, fun hs => hs, fun _ he => Or.inl he⟩
    rw [List.foldlM_nil, Action.perform_pure]
  | cons d ds ih =>
    obtain ⟨edges₁, t₁, hfirst, hgathers₁⟩ := s.exists_gathers_link side near edges d
    obtain ⟨edges₂, t₂, hrest, hgathers₂⟩ := ih t₁ edges₁
    refine ⟨edges₂, t₂, ?_, hgathers₁.trans hgathers₂⟩
    rw [List.foldlM_cons, Action.perform_bind, hfirst]
    apply hrest

/-- The edges for which a vertex is asked in place are gathered from the supertypes that resolve
and then from the descendants. -/
theorem exists_gathers_edges (hv : s.vertices.get? id = some v) :
  ∃ edges edges' t u, (Action.edges id).perform s = (.ok edges', u)
    ∧ s.Gathers t .source id ((s.hierarchy.supertypes v.name).filterMap s.hierarchy.resolve) []
        edges
    ∧ t.Gathers u .target id
        ((s.hierarchy.descendants v.name).toList.filterMap s.hierarchy.resolve) edges edges'
  := by
  obtain ⟨edges, t, hparents, hgathers⟩ := s.exists_gathers_foldlM_link .source id []
    ((s.hierarchy.supertypes v.name).filterMap s.hierarchy.resolve)
  obtain ⟨edges', u, hchildren, hgathers'⟩ := t.exists_gathers_foldlM_link .target id edges
    ((s.hierarchy.descendants v.name).toList.filterMap s.hierarchy.resolve)
  refine ⟨edges, edges', t, u, ?_, hgathers, hgathers'⟩
  simp only [Action.edges, Action.perform_bind, Action.perform_get, hv, hparents, hchildren]

/-- In every session that can come about, take any vertex and any edge at it.  The end on the side
of the vertex is this very vertex: the target of an edge from a supertype, and the source of one to
a descendant.  The other end is the registered vertex of its name if there is one, and otherwise
one that is not registered and holds what the name resolves to.  Asking for the edges in place
makes no other vertices than these, and leads to a session that can come about, where they may be
asked in their turn. -/
theorem edges_canonical (hs : s.Reachable) (hv : s.vertices.get? id = some v) :
  (∀ e ∈ s.edges id, EdgeAt s.hierarchy v.name (.held id) s.Represents e)
    ∧ ∃ edges t, (Action.edges id).perform s = (.ok edges, t) ∧ t.Reachable ∧ t.Extends s
        ∧ edges.map t.edgeName = s.edgeNames id
        ∧ ∀ e ∈ edges, EdgeAt s.hierarchy v.name id (s.RepresentsInPlace t) e
  := by
  have hsound := hs.sound
  refine ⟨fun e he => hsound.edgeAt_of_mem_edges hv he, ?_⟩
  obtain ⟨parents, edges, t, u, hperform, hparents, hchildren⟩ := exists_gathers_edges hv
  obtain ⟨edges', u', hperform', hextends, hbear⟩ := hsound.perform_edges hv
  rw [hperform] at hperform'
  obtain ⟨hedges, rfl⟩ := Prod.mk.inj hperform'
  obtain rfl := Except.ok.inj hedges
  refine ⟨edges, u, hperform, hchildren.reachable (hparents.reachable hs), hextends, ?_, ?_⟩
  · rw [hbear.map_edgeName, hsound.edgeNames_eq hv]
  · intro e he
    rcases hchildren.mem e he with he | ⟨d, hd, far, hfar, rfl⟩
    · rcases hparents.mem e he with he | ⟨d, hd, far, hfar, rfl⟩
      · exact absurd he List.not_mem_nil
      · obtain ⟨parent, hparent, hd⟩ := List.mem_filterMap.mp hd
        apply EdgeAt.parent hparent
        apply (hfar.grow hchildren.grown).representsInPlace hsound hextends hd
    · obtain ⟨child, hchild, hd⟩ := List.mem_filterMap.mp hd
      apply EdgeAt.child hchild
      apply (hfar.of_grown hparents.grown).representsInPlace hsound hextends hd

/-- A second vertex of a class that declares itself.  The edge from the class is between two
vertices of one name, of which the far one is registered.  The supertype on the class path has no
registered vertex, so one is made for it, and the subclass has one. -/
theorem edges_canonical_second :
  let s := (start (Workspace.ofDescriptors [⟨"A", some "R", ["A"]⟩, ⟨"B", some "A", []⟩])
      (ClassPath.ofDescriptors [⟨"R", none, []⟩]) Options.default).run
    [.register "A", .untracked ⟨"A", none, []⟩, .register "B"]
  s.edges ⟨1⟩ = [⟨.fresh ⟨"R", none, []⟩, .held ⟨1⟩⟩, ⟨.held ⟨0⟩, .held ⟨1⟩⟩,
      ⟨.held ⟨1⟩, .held ⟨2⟩⟩]
    ∧ (∀ e ∈ s.edges ⟨1⟩, EdgeAt s.hierarchy "A" (.held ⟨1⟩) s.Represents e)
    ∧ ∃ edges t, (Action.edges ⟨1⟩).perform s = (.ok edges, t) ∧ t.Reachable ∧ t.Extends s
        ∧ edges.map t.edgeName = [⟨"R", "A"⟩, ⟨"A", "A"⟩, ⟨"A", "B"⟩]
        ∧ ∀ e ∈ edges, EdgeAt s.hierarchy "A" ⟨1⟩ (s.RepresentsInPlace t) e
  := by
  intro s
  have hs : s.Reachable := (Reachable.opened (.start (Workspace.made_ofDescriptors _) _ _)).run _
  have hv : s.vertices.get? ⟨1⟩ = some ⟨"A", ⟨"A", none, []⟩⟩ := by decide
  have hdescendants : (s.hierarchy.descendants "A").toList = ["B"] := by
    have hhierarchy : s.hierarchy = ⟨Workspace.ofDescriptors [⟨"A", some "R", ["A"]⟩,
        ⟨"B", some "A", []⟩], ClassPath.ofDescriptors [⟨"R", none, []⟩], Options.default⟩ := by
      decide
    rw [hhierarchy]
    cbv
  have hedges : s.edges ⟨1⟩ = [⟨.fresh ⟨"R", none, []⟩, .held ⟨1⟩⟩, ⟨.held ⟨0⟩, .held ⟨1⟩⟩,
      ⟨.held ⟨1⟩, .held ⟨2⟩⟩] := by
    rw [edges_of_get? hv, edgesFrom, hdescendants]
    decide
  have hnames : s.edgeNames ⟨1⟩ = [⟨"R", "A"⟩, ⟨"A", "A"⟩, ⟨"A", "B"⟩] := by
    rw [edgeNames, hedges]
    decide
  have hcanonical := edges_canonical hs hv
  rw [hnames] at hcanonical
  exact ⟨hedges, hcanonical⟩

end Session

end Lineage
