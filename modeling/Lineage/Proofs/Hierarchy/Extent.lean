import Lineage.Proofs.Hierarchy.Ancestry
import Lineage.Proofs.Network.Graph

/-!
# The extent of a walk

A network `Charts` a hierarchy from a name when it is exactly what can be walked from there.
Its names are the least set that has the start and, with every name, the supertypes of it
that resolve and its descendants; its edges are the links from these supertypes and to these
descendants, each once; and its sizes and lists are those of the two sets.  Every network that
is indexed and has the graph of a walk does (`Consistent.charts`), whether or not the start
resolves.
-/

namespace Lineage

namespace Graph

variable {g : Graph}

/-- The classes as a set. -/
def nameSet (g : Graph) : Set String := {name | name ∈ g.names}

/-- The supertypes of a class are the sources of the edges to it. -/
theorem mem_supertypes {source target : String} :
  source ∈ g.supertypes target ↔ g.Link source target
  := by
  rw [supertypes, NameSet.mem_filter, decide_eq_true_eq]
  constructor
  · rintro ⟨-, hlink⟩
    apply hlink
  · intro hlink
    exact ⟨mem_names_of_link hlink, hlink⟩

end Graph

/-! ### What can be walked -/

/-- Some names have, with each of them, its supertypes that resolve and its descendants. -/
def Hierarchy.Closed (h : Hierarchy) (names : Set String) : Prop :=
  ∀ name ∈ names, (∀ parent ∈ h.supertypes name, h.resolves parent → parent ∈ names)
    ∧ ∀ child ∈ h.descendants name, child ∈ names

/-- The links of some names: from the supertypes that resolve, and to the descendants. -/
def Hierarchy.Joins (h : Hierarchy) (names : Set String) (source target : String) : Prop :=
  (target ∈ names ∧ source ∈ h.supertypes target ∧ h.resolves source)
    ∨ (source ∈ names ∧ target ∈ h.descendants source)

/-- The classes of a network as a set. -/
def Network.nameSet (g : Network) : Set String := {name | name ∈ g.names}

/-- A network is exactly what can be walked from a name. -/
structure Network.Charts (g : Network) (h : Hierarchy) (start : String) : Prop where
  /-- The names are the least that have the start and all that it leads to. -/
  isLeast : IsLeast {names | start ∈ names ∧ h.Closed names} g.nameSet
  contains : ∀ name, g.contains name = true ↔ name ∈ g.nameSet
  /-- The subtypes of a name are the ends of the links from it. -/
  mem_subtypes : ∀ source target,
    target ∈ g.subtypes source ↔ h.Joins g.nameSet source target
  /-- The supertypes of a name are the ends of the links to it. -/
  mem_supertypes : ∀ source target,
    source ∈ g.supertypes target ↔ h.Joins g.nameSet source target
  /-- All three are listed in strictly ascending order. -/
  ascending : g.names.Pairwise (· < ·) ∧ ∀ name,
    (g.subtypes name).Pairwise (· < ·) ∧ (g.supertypes name).Pairwise (· < ·)
  /-- No class has two nodes, and no edge is there twice. -/
  nodup : (g.nodes.map Node.name).Nodup ∧ g.edges.Nodup
  nodeCount : g.nameSet.encard = g.nodeCount
  edgeCount : {e : Edge String | h.Joins g.nameSet e.source e.target}.encard = g.edgeCount
  /-- Every name resolves, except perhaps the start. -/
  resolves : ∀ name ∈ g.nameSet, name ≠ start → h.resolves name

namespace Hierarchy

variable {h : Hierarchy} {start name source target : String}

/-- Descendants resolve. -/
theorem Consistent.resolves_of_mem_descendants (hh : h.Consistent)
    (htarget : target ∈ h.descendants source) :
  h.resolves target
  := by
  obtain ⟨hchain, hne, -⟩ := hh.mem_descendants.mp htarget
  apply resolves_of_chain hchain hne.symm

/-- The names from which no step leads out are the closed ones. -/
theorem Consistent.closed_iff (hh : h.Consistent) {names : Set String} :
  h.Closed names
    ↔ ∀ source ∈ names, ∀ target, h.neighbourhood.Step source target → target ∈ names
  := by
  apply forall₂_congr
  intro source _
  simp only [Hierarchy.step_neighbourhood, knownSupertypes, List.mem_filter]
  constructor
  · rintro ⟨hparents, hchildren⟩ target (⟨hparent, hresolves⟩ | ⟨hchild, -⟩)
    · apply hparents target hparent hresolves
    · apply hchildren target hchild
  · intro hstep
    constructor
    · intro parent hparent hresolves
      apply hstep parent (Or.inl ⟨hparent, hresolves⟩)
    · intro child hchild
      apply hstep child (Or.inr ⟨hchild, hh.resolves_of_mem_descendants hchild⟩)

theorem mem_nameSet_walk :
  name ∈ (Graph.walk h start).nameSet ↔ Relation.ReflTransGen h.neighbourhood.Step start name
  := Graph.mem_names_walk.trans Adjacency.mem_reach_iff

/-- The names of a walk are the least closed ones that have the start. -/
theorem Consistent.isLeast_nameSet_walk (hh : h.Consistent) (start : String) :
  IsLeast {names | start ∈ names ∧ h.Closed names} (Graph.walk h start).nameSet
  := by
  constructor
  · constructor
    · apply mem_nameSet_walk.mpr Relation.ReflTransGen.refl
    · apply hh.closed_iff.mpr
      intro source hsource target hstep
      rw [mem_nameSet_walk] at hsource ⊢
      apply hsource.tail hstep
  · rintro names ⟨hstart, hclosed⟩ name hname
    rw [mem_nameSet_walk] at hname
    induction hname with
    | refl => apply hstart
    | tail _ hstep ih => apply hh.closed_iff.mp hclosed _ ih _ hstep

/-- The edges of a walk are the links of its names. -/
theorem Consistent.link_walk_iff (hh : h.Consistent) :
  (Graph.walk h start).Link source target
    ↔ h.Joins (Graph.walk h start).nameSet source target
  := by
  rw [Graph.Link, Graph.mem_subtypes_walk]
  simp only [← Graph.mem_names_walk, mem_edges, knownSupertypes, List.mem_filter]
  constructor
  · rintro ⟨name, hname, ⟨hparent, rfl⟩ | ⟨rfl, hchild, -⟩⟩
    · exact Or.inl ⟨hname, hparent⟩
    · exact Or.inr ⟨hname, hchild⟩
  · rintro (⟨htarget, hparent⟩ | ⟨hsource, hchild⟩)
    · exact ⟨target, htarget, Or.inl ⟨hparent, rfl⟩⟩
    · exact ⟨source, hsource, Or.inr ⟨rfl, hchild, hh.resolves_of_mem_descendants hchild⟩⟩

/-- What a walk comes to besides its start resolves. -/
theorem resolves_of_mem_walk (hname : name ∈ (Graph.walk h start).nameSet) (hne : name ≠ start) :
  h.resolves name
  := by
  rcases (mem_nameSet_walk.mp hname).cases_tail with e | ⟨source, -, hstep⟩
  · exact absurd e hne
  · rcases Hierarchy.step_neighbourhood.mp hstep with hparent | ⟨-, hresolves⟩
    · apply (List.mem_filter.mp hparent).2
    · apply hresolves

/-- A network with the graph of a walk is exactly what can be walked. -/
theorem Consistent.charts (hh : h.Consistent) {g : Network} (hg : g.Indexed)
    (hgraph : g.graph = Graph.walk h start) :
  g.Charts h start
  := by
  have hcontains : ∀ name, g.contains name = true ↔ name ∈ g.nameSet :=
    fun name => Network.mem_names.symm
  have hnames : (Graph.walk h start).nameSet = g.nameSet := by
    ext name
    rw [← hcontains, ← Network.contains_graph, hgraph]
    apply Graph.mem_names
  have hlink : ∀ source target, g.Link source target ↔ h.Joins g.nameSet source target := by
    intro source target
    rw [← hg.mem_subtypes_graph, hgraph, ← hnames]
    apply hh.link_walk_iff
  constructor
  case isLeast => exact hnames ▸ hh.isLeast_nameSet_walk start
  case contains => exact hcontains
  case mem_subtypes => exact fun source target => hg.mem_subtypes.trans (hlink source target)
  case mem_supertypes => exact fun source target => hg.mem_supertypes.trans (hlink source target)
  case ascending =>
    exact ⟨hg.ascending_names,
      fun name => ⟨hg.ascending_neighbours _ name, hg.ascending_neighbours _ name⟩⟩
  case nodup => exact ⟨hg.nodup_nodes, hg.nodup_edges⟩
  case nodeCount => exact hg.encard_names
  case edgeCount =>
    simp only [← hlink]
    apply hg.encard_links
  case resolves =>
    intro name hname hne
    apply resolves_of_mem_walk (hnames ▸ hname) hne

end Hierarchy

end Lineage
