import Lineage.Proofs.Session.Sorting

/-!
# The supertypes that a graph lists

As the supertypes of a class a graph lists the sources of the edges to it.  An edge comes to a
class from a supertype that it declares, or from a class that has it among its descendants.  A
class that is reported is a descendant of everything above it, so every class above it in the
graph is listed.  To a class of the class path that is not reported only the edges of the first
kind come.  What is above it over more links than one is in the graph, for the walk goes up
link by link, but is not listed unless the class also declares it (`supertypes_listed_iff`).
-/

namespace Lineage

/-- As supertypes of a class a graph lists all its classes that are above this one over any
number of links. -/
def Graph.ListsAbove (g : Graph) (h : Hierarchy) (name : String) : Prop :=
  ∀ ancestor ∈ h.allSupertypes name, ancestor ∈ g.names → ancestor ∈ g.supertypes name

namespace Hierarchy

variable {h : Hierarchy} {start name ancestor : String}

/-- A walk comes to everything above its names that resolves. -/
theorem Consistent.mem_names_walk_of_above (hh : h.Consistent)
    (hname : name ∈ (Graph.walk h start).names) (habove : ancestor ∈ h.allSupertypes name)
    (hancestor : h.resolves ancestor) :
  ancestor ∈ (Graph.walk h start).names
  := by
  obtain ⟨hchain, -⟩ := mem_allSupertypes.mp habove
  rw [Graph.mem_names_walk, Adjacency.mem_reach_iff] at hname ⊢
  apply hname.trans (hh.walks_up hancestor hchain)

/-- The supertypes listed for a class of a walk resolve, and are those that the class declares
and, if it is reported, all that are above it. -/
theorem Consistent.mem_supertypes_walk (hh : h.Consistent) (hstart : h.resolves start)
    (hname : name ∈ (Graph.walk h start).names) :
  ancestor ∈ (Graph.walk h start).supertypes name
    ↔ h.resolves ancestor
      ∧ (h.Declares name ancestor ∨ (ancestor ∈ h.allSupertypes name ∧ h.isReported name))
  := by
  rw [Graph.mem_supertypes, hh.link_walk_iff, Joins, mem_supertypes, hh.mem_descendants,
    mem_allSupertypes]
  constructor
  · rintro (⟨-, hdeclares, hancestor⟩ | ⟨hancestor, hchain, hne, hreported⟩)
    · exact ⟨hancestor, Or.inl hdeclares⟩
    · exact ⟨resolves_of_mem_walk_of_resolves hstart hancestor,
        Or.inr ⟨⟨hchain, hne.symm⟩, hreported⟩⟩
  · rintro ⟨hancestor, hdeclares | ⟨⟨hchain, hne⟩, hreported⟩⟩
    · exact Or.inl ⟨hname, hdeclares, hancestor⟩
    · have habove := mem_allSupertypes.mpr ⟨hchain, hne⟩
      exact Or.inr ⟨hh.mem_names_walk_of_above hname habove hancestor, hchain, hne.symm,
        hreported⟩

/-- All classes above a class of a walk are listed exactly if the class is reported, or has
nothing above it that resolves and that it does not itself declare. -/
theorem Consistent.listsAbove_walk_iff (hh : h.Consistent) (hstart : h.resolves start)
    (hname : name ∈ (Graph.walk h start).names) :
  (Graph.walk h start).ListsAbove h name
    ↔ h.isReported name
      ∨ ∀ ancestor ∈ h.allSupertypes name, h.resolves ancestor → h.Declares name ancestor
  := by
  constructor
  · intro hlists
    by_cases hreported : h.isReported name
    · apply Or.inl hreported
    · apply Or.inr
      intro ancestor habove hancestor
      have hin := hh.mem_names_walk_of_above hname habove hancestor
      have hlisted := (hh.mem_supertypes_walk hstart hname).mp (hlists ancestor habove hin)
      apply hlisted.2.resolve_right
      rintro ⟨-, h⟩
      exact hreported h
  · intro hall ancestor habove hin
    have hancestor := resolves_of_mem_walk_of_resolves hstart hin
    apply (hh.mem_supertypes_walk hstart hname).mpr
    rcases hall with hreported | hdeclares
    · exact ⟨hancestor, Or.inr ⟨habove, hreported⟩⟩
    · exact ⟨hancestor, Or.inl (hdeclares ancestor habove hancestor)⟩

end Hierarchy

namespace Session

variable {s : Session}

/-- In every session that can come about, walk from a vertex whose class resolves.  For a class
of the graph exactly those classes are listed that resolve and that it declares or that are
above a class that is reported.  So all classes of the graph above it are listed exactly if it
is in the workspace, or classes of the class path are reported, or it declares everything above
it that resolves. -/
theorem supertypes_listed_iff (hs : s.Reachable) {id : VertexId} {v : Vertex}
    (hv : s.vertices.get? id = some v) (hresolves : s.hierarchy.resolves v.name) :
  ∃ g, s.walk id = some g
    ∧ ∀ name ∈ g.names,
        (∀ ancestor, ancestor ∈ (g.supertypes name).toList
          ↔ s.hierarchy.resolves ancestor
            ∧ (s.hierarchy.Declares name ancestor
              ∨ ancestor ∈ s.hierarchy.allSupertypes name ∧ s.hierarchy.isReported name))
        ∧ (g.ListsAbove s.hierarchy name
          ↔ s.workspace.contains name ∨ s.hierarchy.options.runtimeDescendants
            ∨ ∀ ancestor ∈ s.hierarchy.allSupertypes name,
                s.hierarchy.resolves ancestor → s.hierarchy.Declares name ancestor)
  := by
  have hh := hs.sound.consistent
  use Graph.walk s.hierarchy v.name, walk_of_get? hv
  intro name hname
  constructor
  · intro ancestor
    apply hh.mem_supertypes_walk hresolves hname
  · rw [hh.listsAbove_walk_iff hresolves hname, Hierarchy.isReported, Bool.or_eq_true, or_assoc,
      or_left_comm]
    rfl

/-- A class of the workspace, and one of the class path that declares both the class above it
and the one above that. -/
theorem supertypes_listed_iff_shortcut :
  let s := (start (Workspace.ofDescriptors [⟨"A", some "R", ["U"]⟩])
      (ClassPath.ofDescriptors [⟨"R", some "S", ["T"]⟩, ⟨"S", some "T", []⟩, ⟨"T", none, []⟩])
      Options.default).run
    [.register "A"]
  ∃ g, s.walk ⟨0⟩ = some g ∧ g.ListsAbove s.hierarchy "A" ∧ g.ListsAbove s.hierarchy "R"
  := by
  intro s
  have hs : s.Reachable := (Reachable.opened (.start (Workspace.made_ofDescriptors _) _ _)).run _
  have hv : s.vertices.get? ⟨0⟩ = some ⟨"A", ⟨"A", some "R", ["U"]⟩⟩ := by decide
  obtain ⟨g, hg, hlisted⟩ := supertypes_listed_iff hs hv (by decide)
  have hnames : (s.walk ⟨0⟩).map (·.names.toList) = some ["A", "R", "S", "T"] := by
    cbv
  rw [hg, Option.map_some, Option.some.injEq] at hnames
  have hin : ∀ name ∈ ["A", "R", "S", "T"], name ∈ g.names := by
    intro name hname
    rw [← hnames] at hname
    apply hname
  refine ⟨g, hg, ?_, ?_⟩
  · apply (hlisted "A" (hin _ (by decide))).2.mpr
    apply Or.inl
    decide
  · apply (hlisted "R" (hin _ (by decide))).2.mpr
    apply Or.inr (Or.inr _)
    intro ancestor habove _
    have hall : (s.hierarchy.allSupertypes "R").toList = ["S", "T"] := by
      cbv
    rw [← NameSet.mem_toList, hall] at habove
    use ⟨"R", some "S", ["T"]⟩
    constructor
    · decide
    · revert ancestor
      decide

/-- A class of the class path with two classes above it, of which it declares one only: the
walk from a class below comes to both, and one is not listed. -/
theorem not_listed_two_links_above :
  let s := (start (Workspace.ofDescriptors [⟨"A", some "R", []⟩])
      (ClassPath.ofDescriptors [⟨"R", some "S", []⟩, ⟨"S", some "T", []⟩, ⟨"T", none, []⟩])
      Options.default).run
    [.register "A"]
  ∃ v g, s.vertices.get? ⟨0⟩ = some v ∧ s.hierarchy.resolves v.name ∧ s.walk ⟨0⟩ = some g
    ∧ "R" ∈ g.names ∧ ¬ g.ListsAbove s.hierarchy "R"
  := by
  intro s
  have hv : s.vertices.get? ⟨0⟩ = some ⟨"A", ⟨"A", some "R", []⟩⟩ := by decide
  have hwalk := walk_of_get? hv
  have heval : (s.walk ⟨0⟩).map (fun g => (g.names.toList, (g.supertypes "R").toList))
      = some (["A", "R", "S", "T"], ["S"]) := by
    cbv
  have habove : (s.hierarchy.allSupertypes "R").toList = ["S", "T"] := by
    cbv
  rw [hwalk, Option.map_some, Option.some.injEq, Prod.mk.injEq] at heval
  obtain ⟨hnames, hlisted⟩ := heval
  refine ⟨_, _, hv, by decide, hwalk, ?_, ?_⟩
  · rw [← NameSet.mem_toList, hnames]
    decide
  · intro hlists
    have hT : "T" ∈ (Graph.walk s.hierarchy "A").supertypes "R" := by
      apply hlists "T"
      · rw [← NameSet.mem_toList, habove]
        decide
      · rw [← NameSet.mem_toList, hnames]
        decide
    rw [← NameSet.mem_toList, hlisted] at hT
    revert hT
    decide

end Session

end Lineage
