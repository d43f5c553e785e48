import Lineage.Proofs.Session.Soundness

/-!
# Sessions do not depend on their history

The links of a session are those that its classes declare, whatever edits have led to them.
So a session made anew of the same classes, in any order, gives the same answers, and its
vertices have the same edges (`history_independent`).
-/

namespace Lineage

/-- Two hierarchies answer every query alike. -/
structure Hierarchy.SameAnswers (h k : Hierarchy) : Prop where
  resolve : ∀ name, h.resolve name = k.resolve name
  supertypes : ∀ name, h.supertypes name = k.supertypes name
  descendants : ∀ name, h.descendants name = k.descendants name
  allSupertypes : ∀ name, h.allSupertypes name = k.allSupertypes name
  isSubtype : ∀ child parent, h.isSubtype child parent = k.isSubtype child parent
  family : ∀ name, h.family name = k.family name

namespace Session

/-- The session begun anew with some classes, and with the class path and the settings of
another one. -/
def renewed (s : Session) (descriptors : List Descriptor) : Session :=
  start (Workspace.ofDescriptors descriptors) s.classPath s.hierarchy.options

variable {s t : Session}

/-! ### The edges at a vertex -/

/-- The definitions that names resolve to bear these names. -/
theorem Sound.map_name_filterMap_resolve (hs : s.Sound) (names : List String) :
  (names.filterMap s.hierarchy.resolve).map Descriptor.name
    = names.filter s.hierarchy.resolves
  := by
  induction names with
  | nil => rfl
  | cons name names ih =>
    rw [List.filterMap_cons, List.filter_cons, Hierarchy.resolves]
    cases hd : s.hierarchy.resolve name with
    | none => apply ih
    | some d =>
      rw [Option.isSome_some, if_pos rfl, List.map_cons, ih,
        hs.consistent.name_of_resolve hd]

/-- The end of an edge bears the name of the class there, also if it is a registered vertex. -/
theorem Sound.endName_endpoint (hs : s.Sound) (d : Descriptor) :
  s.endName (s.endpoint d) = d.name
  := by
  rw [endpoint]
  cases h : s.vertex? d.name with
  | none => rfl
  | some id =>
    rw [endName, hs.registered h]
    rfl

/-- The edges that an end has as a vertex of the class `name`. -/
def edgesFrom (s : Session) (e : Endpoint) (name : String) : List (Edge Endpoint) :=
  ((s.hierarchy.supertypes name).filterMap s.hierarchy.resolve).map
      (fun d => ⟨s.endpoint d, e⟩) ++
    ((s.hierarchy.descendants name).toList.filterMap s.hierarchy.resolve).map
      fun d => ⟨e, s.endpoint d⟩

theorem edges_of_get? {id : VertexId} {v : Vertex} (h : s.vertices.get? id = some v) :
  s.edges id = s.edgesFrom (.held id) v.name
  := by
  rw [edges, h]
  rfl

/-- The edges from an end have the names of those of the hierarchy at its name. -/
theorem Sound.map_endName_edgesFrom (hs : s.Sound) {e : Endpoint} {name : String}
    (he : s.endName e = name) :
  (s.edgesFrom e name).map (Edge.map s.endName) = s.hierarchy.edges name
  := by
  rw [edgesFrom, Hierarchy.edges, Hierarchy.knownSupertypes,
    ← hs.map_name_filterMap_resolve, ← hs.map_name_filterMap_resolve]
  simp only [List.map_append, List.map_map]
  congr 1
  · apply List.map_congr_left
    intro d _
    simp only [Function.comp_apply, Edge.map, hs.endName_endpoint, he]
  · apply List.map_congr_left
    intro d _
    simp only [Function.comp_apply, Edge.map, hs.endName_endpoint, he]

theorem endName_held {id : VertexId} {v : Vertex} (h : s.vertices.get? id = some v) :
  s.endName (.held id) = v.name
  := by
  rw [endName, h]
  rfl

/-- The edges at a vertex are those of the hierarchy at its name. -/
theorem Sound.edgeNames_eq (hs : s.Sound) {id : VertexId} {v : Vertex}
    (h : s.vertices.get? id = some v) :
  s.edgeNames id = s.hierarchy.edges v.name
  := by
  rw [edgeNames, edges_of_get? h]
  apply hs.map_endName_edgesFrom (endName_held h)

/-- In sessions whose hierarchies have the same edges, so have vertices of one name. -/
theorem Sound.edgeNames_eq_of_edges (hs : s.Sound) (ht : t.Sound)
    (hedges : t.hierarchy.edges = s.hierarchy.edges) {id id' : VertexId}
    (h : (t.vertices.get? id').map Vertex.name = (s.vertices.get? id).map Vertex.name) :
  t.edgeNames id' = s.edgeNames id
  := by
  cases hv : s.vertices.get? id with
  | none =>
    rw [hv, Option.map_none, Option.map_eq_none_iff] at h
    rw [edgeNames, edgeNames, edges, edges, hv, h]
    rfl
  | some v =>
    rw [hv, Option.map_some] at h
    obtain ⟨w, hw, hname⟩ := Option.map_eq_some_iff.mp h
    rw [hs.edgeNames_eq hv, ht.edgeNames_eq hw, hedges, hname]

/-- In sessions with one hierarchy, vertices of one name have the same edges. -/
theorem Sound.edgeNames_congr (hs : s.Sound) (ht : t.Sound)
    (hhierarchy : t.hierarchy = s.hierarchy) {id id' : VertexId}
    (h : (t.vertices.get? id').map Vertex.name = (s.vertices.get? id).map Vertex.name) :
  t.edgeNames id' = s.edgeNames id
  := hs.edgeNames_eq_of_edges ht (congrArg Hierarchy.edges hhierarchy) h

/-! ### Sessions made anew -/

theorem Sound.renewed (hs : s.Sound) (descriptors : List Descriptor) :
  (s.renewed descriptors).Sound
  := sound_start (Workspace.made_ofDescriptors descriptors).consistent hs.consistent.classPath

/-- Made anew of its classes, in any order, a session has the same hierarchy. -/
theorem Sound.hierarchy_renewed (hs : s.Sound) {descriptors : List Descriptor}
    (h : descriptors.Perm s.workspace.classes.values) :
  (s.renewed descriptors).hierarchy = s.hierarchy
  := by
  rw [Session.renewed, start, hs.workspace.ofDescriptors_of_perm h]
  rfl

/-- In every session that can come about, the subtypes that the workspace has for a name are
the classes declaring it, in strictly ascending order, and every class is kept under its own
name.  So a session made anew of the classes, in any order, answers every query alike, and
whatever vertices are made in it have the same edges as those of the same name. -/
theorem history_independent (hs : s.Reachable) :
  (∀ parent, (s.workspace.subtypes parent).toList.Pairwise (· < ·)
      ∧ ∀ child, child ∈ (s.workspace.subtypes parent).toList
          ↔ ∃ d, s.workspace.lookup child = some d ∧ d.declares parent)
    ∧ (∀ name d, s.workspace.lookup name = some d → d.name = name)
    ∧ ∀ descriptors, descriptors.Perm s.workspace.classes.values →
        (s.renewed descriptors).hierarchy.SameAnswers s.hierarchy
        ∧ ∀ operations : List Operation,
            (∀ operation ∈ operations, operation.isEdit = false) →
            let t := (s.renewed descriptors).run operations
            ∀ id id', (t.vertices.get? id').map Vertex.name
                = (s.vertices.get? id).map Vertex.name →
              t.edgeNames id' = s.edgeNames id
  := by
  have hsound := hs.sound
  refine ⟨?_, ?_, ?_⟩
  · intro parent
    constructor
    · apply (s.workspace.subtypes parent).ascending
    · intro child
      apply hsound.workspace.mem_subtypes
  · intro name d hd
    apply hsound.workspace.named hd
  · intro descriptors hperm
    have hhierarchy := hsound.hierarchy_renewed hperm
    constructor
    · rw [hhierarchy]
      constructor
      all_goals intros; rfl
    · intro operations hedits t id id' hname
      apply hsound.edgeNames_congr ((hsound.renewed descriptors).run operations) _ hname
      rw [hierarchy_run hedits, hhierarchy]

/-- A superclass renamed and its old name given to another class: the session made anew of
the three classes, the last one first, does not differ. -/
theorem history_independent_renamed :
  let s := (start (Workspace.ofDescriptors [⟨"A", some "B", ["I", "I"]⟩, ⟨"B", none, []⟩])
      (ClassPath.ofDescriptors [⟨"I", none, []⟩]) Options.default).run
    [.register "A", .edit (.rename "B" "C"), .edit (.put ⟨"B", some "A", []⟩)]
  let t := s.renewed [⟨"C", none, []⟩, ⟨"B", some "A", []⟩, ⟨"A", some "C", ["I", "I"]⟩]
  t.hierarchy.SameAnswers s.hierarchy
    ∧ (t.run [.register "B", .register "A"]).edgeNames ⟨1⟩ = s.edgeNames ⟨0⟩
  := by
  have hopened : (start (Workspace.ofDescriptors [⟨"A", some "B", ["I", "I"]⟩, ⟨"B", none, []⟩])
      (ClassPath.ofDescriptors [⟨"I", none, []⟩]) Options.default).Opened :=
    .start (Workspace.made_ofDescriptors _) _ _
  intro s t
  have hs : s.Reachable := (Reachable.opened hopened).run _
  obtain ⟨-, -, hanew⟩ := history_independent hs
  obtain ⟨hanswers, hedges⟩ := hanew
    [⟨"C", none, []⟩, ⟨"B", some "A", []⟩, ⟨"A", some "C", ["I", "I"]⟩] (by decide)
  use hanswers
  apply hedges [.register "B", .register "A"]
  · decide
  · decide

end Session

end Lineage
