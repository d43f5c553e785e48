import Lineage.Proofs.Graph.Sorting
import Lineage.Proofs.Hierarchy.Extent
import Lineage.Proofs.Session.Walks

/-!
# Sorting what is walked

The edges of a walk are declared links and links to descendants, which are declared links
taken together.  So a chain of edges is a chain of declared links downward; and if the start
of the walk resolves, a chain of declared links between two of its names goes through names
that resolve, all of them walked, and is a chain of edges (`Consistent.transGen_link_iff`).
Whatever function sorts the graph topologically therefore sorts the classes by the hierarchy,
supertypes over any number of links first, and fails exactly if a class is above itself
(`sort_walk`).
-/

namespace Lineage

namespace Hierarchy

variable {h : Hierarchy} {start name parent ancestor source target : String}

/-- An edge of a walk stands for declared links from its target up to its source. -/
theorem Consistent.declares_of_link (hh : h.Consistent)
    (hlink : (Graph.walk h start).Link source target) :
  Relation.TransGen h.Declares target source
  := by
  rcases hh.link_walk_iff.mp hlink with ⟨-, hparent, -⟩ | ⟨-, hchild⟩
  · apply Relation.TransGen.single (mem_supertypes.mp hparent)
  · obtain ⟨hchain, hne, -⟩ := hh.mem_descendants.mp hchild
    apply (Relation.reflTransGen_iff_eq_or_transGen.mp hchain).resolve_left hne.symm

theorem Consistent.declares_of_links (hh : h.Consistent)
    (hchain : Relation.TransGen (Graph.walk h start).Link source target) :
  Relation.TransGen h.Declares target source
  := by
  induction hchain with
  | single hlink => apply hh.declares_of_link hlink
  | tail _ hlink ih => apply (hh.declares_of_link hlink).trans ih

/-- A declared link from a name of a walk to a name that resolves is an edge of the walk. -/
theorem Consistent.link_of_declares (hh : h.Consistent)
    (hname : name ∈ (Graph.walk h start).nameSet) (hparent : h.Declares name parent)
    (hresolves : h.resolves parent) :
  (Graph.walk h start).Link parent name
  := by
  apply hh.link_walk_iff.mpr
  exact Or.inl ⟨hname, mem_supertypes.mpr hparent, hresolves⟩

/-- From a name of a walk the edges lead up to every name above it that resolves. -/
theorem Consistent.links_of_declares (hh : h.Consistent) (hancestor : h.resolves ancestor)
    (hchain : Relation.TransGen h.Declares name ancestor)
    (hname : name ∈ (Graph.walk h start).nameSet) :
  Relation.TransGen (Graph.walk h start).Link ancestor name
  := by
  induction hchain using Relation.TransGen.head_induction_on with
  | single hlink => apply Relation.TransGen.single (hh.link_of_declares hname hlink hancestor)
  | @head name parent hlink hchain ih =>
    have hparent : h.resolves parent := by
      obtain ⟨next, ⟨d, hd, -⟩, -⟩ := Relation.TransGen.head'_iff.mp hchain
      rw [resolves, hd, Option.isSome_some]
    have hedge := hh.link_of_declares hname hlink hparent
    apply (ih (Graph.mem_names_of_link hedge)).tail hedge

/-- Up to a name that resolves, chains of edges are chains of declared links. -/
theorem Consistent.transGen_link_iff (hh : h.Consistent) (hancestor : h.resolves ancestor)
    (hname : name ∈ (Graph.walk h start).nameSet) :
  Relation.TransGen (Graph.walk h start).Link ancestor name
    ↔ Relation.TransGen h.Declares name ancestor
  := by
  constructor
  · apply hh.declares_of_links
  · intro hchain
    apply hh.links_of_declares hancestor hchain hname

/-- If the start of a walk resolves, so do all its names. -/
theorem resolves_of_mem_walk_of_resolves (hstart : h.resolves start)
    (hname : name ∈ (Graph.walk h start).nameSet) :
  h.resolves name
  := by
  by_cases hne : name = start
  · rw [hne]
    apply hstart
  · apply resolves_of_mem_walk hname hne

/-- The edges of a walk close a cycle exactly if one of its names is above itself. -/
theorem Consistent.cyclic_walk_iff (hh : h.Consistent) (hstart : h.resolves start) :
  (Graph.walk h start).Cyclic
    ↔ ∃ name ∈ (Graph.walk h start).names, Relation.TransGen h.Declares name name
  := by
  have hiff : ∀ {name}, name ∈ (Graph.walk h start).names →
      (Relation.TransGen (Graph.walk h start).Link name name
        ↔ Relation.TransGen h.Declares name name) := by
    intro name hname
    apply hh.transGen_link_iff (resolves_of_mem_walk_of_resolves hstart hname) hname
  constructor
  · rintro ⟨name, hcycle⟩
    obtain ⟨next, hlink, -⟩ := Relation.TransGen.head'_iff.mp hcycle
    have hname := Graph.mem_names_of_link hlink
    exact ⟨name, hname, (hiff hname).mp hcycle⟩
  · rintro ⟨name, hname, hcycle⟩
    exact ⟨name, (hiff hname).mpr hcycle⟩

end Hierarchy

namespace Session

variable {s : Session}

/-- In every session that can come about, walk from a vertex whose class resolves.  Whatever
function sorts graphs topologically, as taking free classes does, fails on the graph exactly
if a class in it is above itself over one or more declared links, and otherwise gives every
class of it once, after all its supertypes there over any number of links. -/
theorem sort_walk (hs : s.Reachable) {id : VertexId} {v : Vertex}
    (hv : s.vertices.get? id = some v) (hresolves : s.hierarchy.resolves v.name) :
  Graph.Sorts Graph.sort?
    ∧ ∃ g, s.walk id = some g
      ∧ ∀ sort, Graph.Sorts sort →
          (sort g = none
            ↔ ∃ name ∈ g.names, Relation.TransGen s.hierarchy.Declares name name)
          ∧ ∀ order, sort g = some order →
              order.Perm g.names.toList
              ∧ ∀ name ∈ g.names, ∀ ancestor ∈ g.names,
                  ancestor ∈ s.hierarchy.allSupertypes name →
                    order.idxOf ancestor < order.idxOf name
  := by
  have hh := hs.sound.consistent
  refine ⟨Graph.sorts_sort?, Graph.walk s.hierarchy v.name, walk_of_get? hv, ?_⟩
  intro sort hsort
  constructor
  · rw [hsort.eq_none_iff, hh.cyclic_walk_iff hresolves]
  · intro order horder
    have htopological := hsort.isTopological horder
    use (Graph.isTopological_iff.mp htopological).1
    intro name hname ancestor hancestor habove
    obtain ⟨hchain, hne⟩ := Hierarchy.mem_allSupertypes.mp habove
    have hchain := (Relation.reflTransGen_iff_eq_or_transGen.mp hchain).resolve_left hne
    have hancestor := Hierarchy.resolves_of_mem_walk_of_resolves hresolves hancestor
    apply Graph.idxOf_lt_of_transGen htopological
    apply (hh.transGen_link_iff hancestor hname).mpr hchain

/-- A class that extends one of the class path, which extends another one there: the one two
declared links above it comes before it. -/
theorem sort_walk_library :
  let s := (start (Workspace.ofDescriptors [⟨"A", some "R", ["U"]⟩])
      (ClassPath.ofDescriptors [⟨"R", some "S", []⟩, ⟨"S", none, []⟩]) Options.default).run
    [.register "A"]
  ∃ g order, s.walk ⟨0⟩ = some g ∧ g.sort? = some order ∧ order.Perm g.names.toList
    ∧ order.idxOf "S" < order.idxOf "A"
  := by
  intro s
  have hs : s.Reachable := (Reachable.opened (.start (Workspace.made_ofDescriptors _) _ _)).run _
  have hv : s.vertices.get? ⟨0⟩ = some ⟨"A", ⟨"A", some "R", ["U"]⟩⟩ := by decide
  obtain ⟨hsorts, g, hg, hsorted⟩ := sort_walk hs hv (by decide)
  have horder : g.sort? = some ["S", "R", "A"] := by
    have hwalk : (s.walk ⟨0⟩).bind Graph.sort? = some ["S", "R", "A"] := by
      cbv
    rw [hg] at hwalk
    apply hwalk
  obtain ⟨hperm, hbefore⟩ := (hsorted Graph.sort? hsorts).2 _ horder
  have hmem : ∀ name ∈ ["S", "R", "A"], name ∈ g.names := by
    intro name hin
    apply hperm.mem_iff.mp hin
  refine ⟨g, _, hg, horder, hperm, hbefore "A" (hmem _ (by decide)) "S" (hmem _ (by decide)) ?_⟩
  have hup : s.hierarchy.Declares "A" "R" := ⟨⟨"A", some "R", ["U"]⟩, by decide⟩
  have hup' : s.hierarchy.Declares "R" "S" := ⟨⟨"R", some "S", []⟩, by decide⟩
  apply Hierarchy.mem_allSupertypes.mpr
  exact ⟨(Relation.ReflTransGen.single hup).tail hup', by decide⟩

end Session

end Lineage
