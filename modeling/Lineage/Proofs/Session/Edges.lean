import Lineage.Proofs.Session.Asking
import Lineage.Proofs.Session.Walks

/-!
# The edges at the vertices of a session

The edges at a vertex depend on its name and the hierarchy only, whatever definition it holds and
whatever is registered: they come from the supertypes of the name that resolve and go to its
descendants.  Asking for them or walking along them leaves the session as it was but for vertices
that no one had before (`edges_of_name`).

So an edge between two vertices can be asked for at either of them.  If the class at its target
is reported among descendants, the vertex at its source has every edge that the one at its target
has, and the one at its target has those that come from a declared supertype (`edges_at_both_ends`).
-/

namespace Lineage.Session

variable {s : Session}

/-- In every session that can come about, take any vertex.  By their names the edges at it come
from the supertypes of its name that resolve and go to the descendants of its name.  They are
different from each other and as many as there are of these.  Asked for in place they are the
same, and whatever was in the session is there afterwards as it was; and so it is at any moment of a
walk in place, which ends with the graph walked from the vertex. -/
theorem edges_of_name (hs : s.Reachable) {id : VertexId} {v : Vertex}
    (hv : s.vertices.get? id = some v) :
  (∀ source target, ⟨source, target⟩ ∈ s.edgeNames id
      ↔ (source ∈ s.hierarchy.supertypes v.name ∧ s.hierarchy.resolves source ∧ target = v.name)
        ∨ (source = v.name ∧ target ∈ (s.hierarchy.descendants v.name).toList))
    ∧ (s.edgeNames id).Nodup
    ∧ (s.edges id).length
        = ((s.hierarchy.supertypes v.name).filter s.hierarchy.resolves).length
          + (s.hierarchy.descendants v.name).toList.length
    ∧ (∃ edges t, (Action.edges id).perform s = (.ok edges, t)
        ∧ edges.map t.edgeName = s.edgeNames id ∧ t.Extends s)
    ∧ ∃ g, s.walk id = some g ∧ s.EndsInPlace id g
  := by
  have hs := hs.sound
  have hnames := hs.edgeNames_eq hv
  refine ⟨?_, ?_, ?_, ?_, ?_⟩
  · intro source target
    rw [hnames, hs.consistent.mem_edges, and_comm (a := target = v.name), and_assoc]
    rfl
  · rw [hnames]
    apply Hierarchy.nodup_edges
  · have hlength := congrArg List.length hnames
    rw [edgeNames, List.length_map, hs.consistent.length_edges] at hlength
    apply hlength
  · obtain ⟨edges, t, hperform, hextends, hbear⟩ := hs.perform_edges hv
    refine ⟨edges, t, hperform, ?_, hextends⟩
    rw [hbear.map_edgeName, hnames]
  · exact ⟨_, walk_of_get? hv, hs.endsInPlace_walk hv⟩

/-- A class declares itself, a class that has been removed, and one that is not known.  A vertex of
it holds a definition with other supertypes, to no effect.  The vertex of the removed class still
has the edge to the class, which has none from there. -/
theorem edges_of_name_contradicted :
  let s := (start (Workspace.ofDescriptors
      [⟨"A", some "X", ["A", "U"]⟩, ⟨"X", none, []⟩, ⟨"B", some "A", []⟩])
      (ClassPath.ofDescriptors [⟨"L", none, ["A"]⟩]) Options.default).run
    [.register "A", .register "X", .setData ⟨0⟩ ⟨"A", some "B", []⟩, .edit (.remove "X")]
  s.vertices.data? ⟨0⟩ = some ⟨"A", some "B", []⟩
    ∧ ⟨"B", "A"⟩ ∉ s.edgeNames ⟨0⟩ ∧ ⟨"A", "A"⟩ ∈ s.edgeNames ⟨0⟩
    ∧ (s.edges ⟨0⟩).length = 2
    ∧ (∃ edges t, (Action.edges ⟨0⟩).perform s = (.ok edges, t)
        ∧ edges.map t.edgeName = s.edgeNames ⟨0⟩ ∧ t.Extends s)
    ∧ ⟨"X", "A"⟩ ∈ s.edgeNames ⟨1⟩ ∧ ⟨"X", "A"⟩ ∉ s.edgeNames ⟨0⟩
  := by
  intro s
  have hs : s.Reachable := (Reachable.opened (.start (Workspace.made_ofDescriptors _) _ _)).run _
  have hclass : s.vertices.get? ⟨0⟩ = some ⟨"A", ⟨"A", some "B", []⟩⟩ := by decide
  have hremoved : s.vertices.get? ⟨1⟩ = some ⟨"X", ⟨"X", none, []⟩⟩ := by decide
  have hhierarchy : s.hierarchy = ⟨Workspace.ofDescriptors
      [⟨"A", some "X", ["A", "U"]⟩, ⟨"B", some "A", []⟩],
      ClassPath.ofDescriptors [⟨"L", none, ["A"]⟩], Options.default⟩ := by
    decide
  have hbelow : (s.hierarchy.descendants "A").toList = ["B"] := by
    rw [hhierarchy]
    cbv
  have hbelow' : (s.hierarchy.descendants "X").toList = ["A", "B"] := by
    rw [hhierarchy]
    cbv
  obtain ⟨hedges, -, hlength, hperform, -⟩ := edges_of_name hs hclass
  refine ⟨by decide, ?_, ?_, ?_, hperform, ?_, ?_⟩
  · intro he
    rcases (hedges "B" "A").mp he with ⟨hparent, -, -⟩ | ⟨hname, -⟩
    · exact absurd hparent (by decide)
    · exact absurd hname (by decide)
  · apply (hedges "A" "A").mpr
    exact Or.inl (by decide)
  · rw [hlength, hbelow]
    decide
  · apply ((edges_of_name hs hremoved).1 "X" "A").mpr
    rw [hbelow']
    exact Or.inr (by decide)
  · intro he
    rcases (hedges "X" "A").mp he with ⟨-, hresolves, -⟩ | ⟨hname, -⟩
    · exact absurd hresolves (by decide)
    · exact absurd hname (by decide)

/-- In every session that can come about, take two vertices of different names, and let the name
at the target be in the workspace, or let it resolve while classes of the class path are reported.
If the edge between them is met at its target, it is met at its source.  If it is met at its source
and the name there resolves, it is met at its target exactly if this name is a declared supertype
there. -/
theorem edges_at_both_ends (hs : s.Reachable) {i j : VertexId} {v w : Vertex}
    (hv : s.vertices.get? i = some v) (hw : s.vertices.get? j = some w) (hne : v.name ≠ w.name)
    (htarget : s.workspace.contains w.name
      ∨ (s.hierarchy.resolves w.name ∧ s.hierarchy.options.runtimeDescendants)) :
  (⟨v.name, w.name⟩ ∈ s.edgeNames j → ⟨v.name, w.name⟩ ∈ s.edgeNames i)
    ∧ (⟨v.name, w.name⟩ ∈ s.edgeNames i → s.hierarchy.resolves v.name →
        (⟨v.name, w.name⟩ ∈ s.edgeNames j ↔ v.name ∈ s.hierarchy.supertypes w.name))
  := by
  have hs := hs.sound
  have hreported : s.hierarchy.isReported w.name := by
    rw [Hierarchy.isReported, Bool.or_eq_true]
    apply htarget.symm.imp And.right id
  rw [hs.edgeNames_eq hv, hs.edgeNames_eq hw]
  constructor
  · intro he
    apply hs.consistent.mem_edges_source hne hreported he
  · intro _ hresolves
    rw [hs.consistent.mem_edges_target_iff hne, and_iff_left hresolves]

/-- A class of the workspace, the one of the class path that it extends, and the one above that.
The edge from the first above it is met at both ends, and that from the second only at its source.
The edge between the two of the class path, which is not reported, is met only at its target. -/
theorem edges_at_both_ends_indirect :
  let s := (start (Workspace.ofDescriptors [⟨"A", some "R", ["U"]⟩])
      (ClassPath.ofDescriptors [⟨"R", some "S", []⟩, ⟨"S", none, []⟩, ⟨"A", some "S", []⟩])
      Options.default).run
    [.register "A", .register "R", .register "S"]
  ⟨"R", "A"⟩ ∈ s.edgeNames ⟨0⟩ ∧ ⟨"R", "A"⟩ ∈ s.edgeNames ⟨1⟩
    ∧ ⟨"S", "A"⟩ ∈ s.edgeNames ⟨2⟩ ∧ ⟨"S", "A"⟩ ∉ s.edgeNames ⟨0⟩
    ∧ ⟨"S", "R"⟩ ∈ s.edgeNames ⟨1⟩ ∧ ⟨"S", "R"⟩ ∉ s.edgeNames ⟨2⟩
  := by
  intro s
  have hs : s.Reachable := (Reachable.opened (.start (Workspace.made_ofDescriptors _) _ _)).run _
  have hA : s.vertices.get? ⟨0⟩ = some ⟨"A", ⟨"A", some "R", ["U"]⟩⟩ := by decide
  have hR : s.vertices.get? ⟨1⟩ = some ⟨"R", ⟨"R", some "S", []⟩⟩ := by decide
  have hS : s.vertices.get? ⟨2⟩ = some ⟨"S", ⟨"S", none, []⟩⟩ := by decide
  have hhierarchy : s.hierarchy = ⟨Workspace.ofDescriptors [⟨"A", some "R", ["U"]⟩],
      ClassPath.ofDescriptors [⟨"R", some "S", []⟩, ⟨"S", none, []⟩, ⟨"A", some "S", []⟩],
      Options.default⟩ := by
    decide
  have hedgesA : s.edgeNames ⟨0⟩ = [⟨"R", "A"⟩] := by
    rw [hs.sound.edgeNames_eq hA, hhierarchy]
    cbv
  have hedgesR : s.edgeNames ⟨1⟩ = [⟨"S", "R"⟩, ⟨"R", "A"⟩] := by
    rw [hs.sound.edgeNames_eq hR, hhierarchy]
    cbv
  have hedgesS : s.edgeNames ⟨2⟩ = [⟨"S", "A"⟩] := by
    rw [hs.sound.edgeNames_eq hS, hhierarchy]
    cbv
  have hdirect : ⟨"R", "A"⟩ ∈ s.edgeNames ⟨0⟩ := by
    rw [hedgesA]
    decide
  have hindirect : ⟨"S", "A"⟩ ∈ s.edgeNames ⟨2⟩ := by
    rw [hedgesS]
    decide
  refine ⟨hdirect, ?_, hindirect, ?_, ?_, ?_⟩
  · apply (edges_at_both_ends hs hR hA (by decide) (Or.inl (by decide))).1 hdirect
  · apply mt ((edges_at_both_ends hs hS hA (by decide) (Or.inl (by decide))).2 hindirect
      (by decide)).mp
    decide
  · rw [hedgesR]
    decide
  · rw [hedgesS]
    decide

end Lineage.Session
