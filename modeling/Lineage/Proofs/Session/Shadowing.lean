import Lineage.Proofs.Session.History

/-!
# What the workspace shadows does not show

Let two sessions have the same workspace and the same settings, and let their class paths
agree on every name outside the workspace.  What the class paths have for a name of the
workspace, if anything, cannot be found out then by any query, by the edges at any vertex,
or by walking from one (`shadowed_unobservable`).

The links of a class path still contain those of shadowed classes.  They are left out at
every step of a search (`SameUnshadowed.subtypes`), so the two hierarchies have the same
adjacencies, and the searches cannot differ.
-/

namespace Lineage

namespace Hierarchy

/-- Two hierarchies have the same classes, but for shadowed ones. -/
structure SameUnshadowed (h k : Hierarchy) : Prop where
  workspace : h.workspace = k.workspace
  options : h.options = k.options
  lookup : ∀ {name}, h.workspace.lookup name = none →
    h.classPath.lookup name = k.classPath.lookup name

namespace SameUnshadowed

variable {h k : Hierarchy}

/-! ### Definitions and links -/

theorem locate (hu : h.SameUnshadowed k) (name : String) :
  h.locate name = k.locate name
  := by
  rw [Hierarchy.locate, Hierarchy.locate, ← hu.workspace]
  cases hname : h.workspace.lookup name with
  | some d => rfl
  | none => rw [hu.lookup hname]

theorem resolve (hu : h.SameUnshadowed k) (name : String) :
  h.resolve name = k.resolve name
  := by
  cases hname : h.workspace.lookup name with
  | some d =>
    have hname' : k.workspace.lookup name = some d := hu.workspace ▸ hname
    rw [resolve_of_lookup hname, resolve_of_lookup hname']
  | none =>
    have hname' : k.workspace.lookup name = none := hu.workspace ▸ hname
    rw [resolve_of_lookup_eq_none hname, resolve_of_lookup_eq_none hname', hu.lookup hname]

theorem supertypes (hu : h.SameUnshadowed k) (name : String) :
  h.supertypes name = k.supertypes name
  := by
  rw [Hierarchy.supertypes, hu.resolve, Hierarchy.supertypes]

theorem resolves (hu : h.SameUnshadowed k) :
  h.resolves = k.resolves
  := by
  funext name
  rw [Hierarchy.resolves, hu.resolve, Hierarchy.resolves]

/-- The links of the class paths are the same to the classes that are not shadowed. -/
theorem subtypes (hu : h.SameUnshadowed k) (hh : h.Consistent) (hk : k.Consistent)
    (name : String) :
  h.subtypes name = k.subtypes name
  := by
  have hpath : (h.classPath.subtypes name).filter (!h.workspace.contains ·)
      = (k.classPath.subtypes name).filter (!h.workspace.contains ·) := by
    ext child
    have hmem : child ∈ h.classPath.subtypes name
        ↔ ∃ d, h.classPath.lookup child = some d ∧ d.declares name := hh.classPath.mem_subtypes
    have hmem' : child ∈ k.classPath.subtypes name
        ↔ ∃ d, k.classPath.lookup child = some d ∧ d.declares name := hk.classPath.mem_subtypes
    rw [NameSet.mem_filter, NameSet.mem_filter, hmem, hmem']
    apply and_congr_left
    intro hout
    have hout : h.workspace.contains child = false := by
      simpa using hout
    rw [hu.lookup (Workspace.contains_eq_false_iff.mp hout)]
  rw [Hierarchy.subtypes, Hierarchy.subtypes, hpath, hu.workspace]

/-! ### Searches -/

theorem upward (hu : h.SameUnshadowed k) :
  h.upward = k.upward
  := Adjacency.ext hu.supertypes

theorem downward (hu : h.SameUnshadowed k) (hh : h.Consistent) (hk : k.Consistent) :
  h.downward = k.downward
  := Adjacency.ext (hu.subtypes hh hk)

theorem kinship (hu : h.SameUnshadowed k) (hh : h.Consistent) (hk : k.Consistent)
    (start : String) :
  h.kinship start = k.kinship start
  := by
  apply Adjacency.ext
  intro name
  change h.relatives start name = k.relatives start name
  rw [relatives, relatives, hu.resolve, knownSupertypes, knownSupertypes, hu.supertypes,
    hu.resolves, hu.subtypes hh hk]

theorem sameAnswers (hu : h.SameUnshadowed k) (hh : h.Consistent) (hk : k.Consistent) :
  h.SameAnswers k
  := by
  have hall : ∀ name, h.allSupertypes name = k.allSupertypes name := by
    intro name
    rw [allSupertypes, hu.upward, allSupertypes]
  have hreported : h.isReported = k.isReported := by
    funext name
    rw [isReported, hu.options, hu.workspace, isReported]
  constructor
  case resolve => apply hu.resolve
  case supertypes => apply hu.supertypes
  case allSupertypes => apply hall
  case descendants =>
    intro name
    rw [descendants, hu.downward hh hk, hreported, descendants]
  case isSubtype =>
    intro child parent
    rw [isSubtype, hall, isSubtype]
  case family =>
    intro name
    rw [family, hu.resolves, hu.kinship hh hk, family]

end SameUnshadowed

/-! ### Edges and walks -/

namespace SameAnswers

variable {h k : Hierarchy}

theorem resolves (ha : h.SameAnswers k) :
  h.resolves = k.resolves
  := by
  funext name
  rw [Hierarchy.resolves, ha.resolve, Hierarchy.resolves]

/-- The edges of a hierarchy are answers to queries. -/
theorem edges (ha : h.SameAnswers k) :
  h.edges = k.edges
  := by
  funext name
  rw [Hierarchy.edges, Hierarchy.edges, knownSupertypes, knownSupertypes, ha.supertypes,
    ha.descendants, ha.resolves]

theorem neighbourhood (ha : h.SameAnswers k) :
  h.neighbourhood = k.neighbourhood
  := by
  apply Adjacency.ext
  intro name
  change h.neighbours name = k.neighbours name
  rw [neighbours, neighbours, knownSupertypes, knownSupertypes, ha.supertypes,
    ha.descendants, ha.resolves]

theorem walk (ha : h.SameAnswers k) (start : String) :
  Network.walk h start = Network.walk k start
  := by
  rw [Network.walk, Network.walk, ha.neighbourhood, ha.edges]

end SameAnswers

end Hierarchy

namespace Session

variable {s t : Session}

/-- Walks from vertices of one name are the same if the hierarchies answer alike. -/
theorem walk_eq_of_sameAnswers (ha : t.hierarchy.SameAnswers s.hierarchy) {id id' : VertexId}
    (h : (t.vertices.get? id').map Vertex.name = (s.vertices.get? id).map Vertex.name) :
  t.walk id' = s.walk id
  := by
  have hnetwork : ∀ u : Session, ∀ i, u.network i
      = ((u.vertices.get? i).map Vertex.name).map (Network.walk u.hierarchy) := by
    intro u i
    rw [Option.map_map]
    rfl
  rw [walk, walk, hnetwork, hnetwork, h, funext ha.walk]

/-- Let two sessions that can come about have the same workspace and settings, and let their
class paths define every name outside the workspace alike.  Then they answer every query
alike, and vertices of one name have the same edges and the same walk. -/
theorem shadowed_unobservable (hs : s.Reachable) (ht : t.Reachable)
    (hworkspace : t.workspace = s.workspace)
    (hoptions : t.hierarchy.options = s.hierarchy.options)
    (hpath : ∀ name, s.workspace.contains name = false →
      t.classPath.lookup name = s.classPath.lookup name) :
  t.hierarchy.SameAnswers s.hierarchy
    ∧ (∀ name, t.hierarchy.locate name = s.hierarchy.locate name)
    ∧ ∀ id id', (t.vertices.get? id').map Vertex.name = (s.vertices.get? id).map Vertex.name →
        t.edgeNames id' = s.edgeNames id ∧ t.walk id' = s.walk id
  := by
  have hu : t.hierarchy.SameUnshadowed s.hierarchy := by
    constructor
    case workspace => apply hworkspace
    case options => apply hoptions
    case lookup =>
      intro name hnone
      apply hpath
      rw [← hworkspace]
      apply Workspace.contains_eq_false_iff.mpr hnone
  have ha := hu.sameAnswers ht.sound.consistent hs.sound.consistent
  refine ⟨ha, hu.locate, ?_⟩
  intro id id' hname
  constructor
  · apply hs.sound.edgeNames_eq_of_edges ht.sound ha.edges hname
  · apply walk_eq_of_sameAnswers ha hname

/-- A class of the workspace is in a cycle with one of the class path, which may or may not
have a class of the first name too, with links of its own. -/
theorem shadowed_unobservable_cycle :
  let workspace := Workspace.ofDescriptors [⟨"A", some "R", []⟩]
  let s := (start workspace (ClassPath.ofDescriptors [⟨"R", none, ["A"]⟩, ⟨"S", none, []⟩])
      Options.default).run [.register "R"]
  let t := (start workspace (ClassPath.ofDescriptors [⟨"R", none, ["A"]⟩, ⟨"A", some "S", ["R"]⟩,
      ⟨"S", none, []⟩]) Options.default).run [.register "S", .register "R"]
  t.hierarchy.SameAnswers s.hierarchy ∧ t.walk ⟨1⟩ = s.walk ⟨0⟩
  := by
  intro workspace s t
  have hmade : workspace.Made := Workspace.made_ofDescriptors _
  have hs : s.Reachable := (Reachable.opened (.start hmade _ _)).run _
  have ht : t.Reachable := (Reachable.opened (.start hmade _ _)).run _
  have hworkspace : t.workspace = s.workspace := by decide
  have hoptions : t.hierarchy.options = s.hierarchy.options := by decide
  have hpath : ∀ name, s.workspace.contains name = false →
      t.classPath.lookup name = s.classPath.lookup name := by
    intro name hout
    have hne : "A" ≠ name := by
      rintro rfl
      exact absurd hout (by decide)
    change (lastDefinitions _).get? name = (lastDefinitions _).get? name
    rw [get?_lastDefinitions, get?_lastDefinitions]
    simp [List.find?_cons, hne]
  obtain ⟨hanswers, -, hvertices⟩ := shadowed_unobservable hs ht hworkspace hoptions hpath
  use hanswers
  apply (hvertices ⟨0⟩ ⟨1⟩ (by decide)).2

end Session

end Lineage
