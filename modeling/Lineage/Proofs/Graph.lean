import Lineage.Graph
import Lineage.Proofs.Reachability

/-!
# What a walk collects

Without regard to places, a walk puts names and edges into a graph, which has each of them or has
not.  The graph walked from a name has the names that the neighbourhood search reaches from there
(`mem_names_walk`), and all the edges at these names and no other (`mem_subtypes_walk`).  A
graph is determined by its names and edges, so two walks that reach the same names are the
same graph (`walk_eq_of_reach_eq`).
-/

namespace Lineage

/-! ### The edges at a name -/

namespace Hierarchy

variable {h : Hierarchy} {name source target : String}

theorem mem_edges :
  ⟨source, target⟩ ∈ h.edges name
    ↔ (source ∈ h.knownSupertypes name ∧ target = name)
      ∨ (source = name ∧ target ∈ h.descendants name ∧ h.resolves target)
  := by
  rw [edges, List.mem_append, List.mem_map, List.mem_map]
  simp only [Edge.mk.injEq, List.mem_filter, NameSet.mem_toList]
  constructor
  · rintro (⟨a, ha, rfl, rfl⟩ | ⟨a, ha, rfl, rfl⟩)
    · exact Or.inl ⟨ha, rfl⟩
    · exact Or.inr ⟨rfl, ha⟩
  · rintro (⟨ha, rfl⟩ | ⟨rfl, ha⟩)
    · exact Or.inl ⟨source, ha, rfl, rfl⟩
    · exact Or.inr ⟨target, ha, rfl, rfl⟩

theorem step_neighbourhood :
  h.neighbourhood.Step source target
    ↔ target ∈ h.knownSupertypes source
      ∨ (target ∈ h.descendants source ∧ h.resolves target)
  := by
  change target ∈ h.neighbours source ↔ _
  rw [neighbours, List.mem_append, List.mem_filter, NameSet.mem_toList]

/-- The neighbours of a name are at the other ends of its edges. -/
theorem step_neighbourhood_iff_edges :
  h.neighbourhood.Step name target
    ↔ ⟨target, name⟩ ∈ h.edges name ∨ ⟨name, target⟩ ∈ h.edges name
  := by
  rw [step_neighbourhood, mem_edges, mem_edges]
  constructor
  · rintro (hparent | hchild)
    · exact Or.inl (Or.inl ⟨hparent, rfl⟩)
    · exact Or.inr (Or.inr ⟨rfl, hchild⟩)
  · rintro ((⟨hparent, -⟩ | ⟨rfl, hchild⟩) | (⟨hparent, rfl⟩ | ⟨-, hchild⟩))
    · exact Or.inl hparent
    · exact Or.inr hchild
    · exact Or.inl hparent
    · exact Or.inr hchild

/-- One end of an edge at a name is the name, and the other a neighbour. -/
theorem ends_of_mem_edges (he : ⟨source, target⟩ ∈ h.edges name) :
  (source = name ∧ h.neighbourhood.Step name target)
    ∨ (target = name ∧ h.neighbourhood.Step name source)
  := by
  rcases mem_edges.mp he with ⟨hparent, rfl⟩ | ⟨rfl, hchild⟩
  · exact Or.inr ⟨rfl, step_neighbourhood.mpr (Or.inl hparent)⟩
  · exact Or.inl ⟨rfl, step_neighbourhood.mpr (Or.inr hchild)⟩

end Hierarchy

namespace Graph

/-- The graph with one class and no edge. -/
def single (name : String) : Graph := ⟨(∅ : NameMap NameSet).insert name ∅⟩

/-- The graph with the class `name`. -/
def addName (g : Graph) (name : String) : Graph :=
  ⟨g.targets.insert name (g.subtypes name)⟩

/-- The graph with an edge and both its ends. -/
def addEdge (g : Graph) (e : Edge String) : Graph :=
  let g := (g.addName e.source).addName e.target
  ⟨g.targets.insert e.source ((g.subtypes e.source).insert e.target)⟩

/-- All that can be reached from `start` along the edges of the hierarchy. -/
def walk (h : Hierarchy) (start : String) : Graph :=
  (h.neighbourhood.visits start).foldl (fun g name => (h.edges name).foldl addEdge g)
    (single start)

variable {g k : Graph} {h : Hierarchy} {name start source target : String}

/-! ### Names and edges of a graph -/

@[simp]
theorem mem_names :
  name ∈ g.names ↔ g.contains name
  := NameMap.mem_keys

/-- The edge from a class to one of its subtypes. -/
def Link (g : Graph) (source target : String) : Prop := target ∈ g.subtypes source

/-- A class that has an edge to another is one of the classes. -/
theorem mem_names_of_link (h : g.Link source target) :
  source ∈ g.names
  := by
  rw [Link, subtypes] at h
  rw [mem_names, contains, NameMap.contains]
  cases e : g.targets.get? source with
  | none =>
    rw [e] at h
    exact absurd h (NameSet.not_mem_empty target)
  | some targets => rfl

/-- A graph is determined by its names and its edges. -/
theorem ext (hnames : ∀ name, g.contains name = k.contains name)
    (hsubtypes : ∀ name, g.subtypes name = k.subtypes name) :
  g = k
  := by
  have htargets : g.targets = k.targets := by
    ext1 name
    have hname := hnames name
    have hset := hsubtypes name
    rw [contains, contains, NameMap.contains, NameMap.contains] at hname
    rw [subtypes, subtypes] at hset
    cases hg : g.targets.get? name with
    | none =>
      rw [hg, Option.isSome_none] at hname
      symm
      apply Option.isNone_iff_eq_none.mp
      apply Option.isSome_eq_false_iff.mp hname.symm
    | some targets =>
      rw [hg, Option.isSome_some] at hname
      obtain ⟨targets', hk⟩ := Option.isSome_iff_exists.mp hname.symm
      rw [hg, hk, Option.getD_some, Option.getD_some] at hset
      rw [hk, hset]
  cases g
  cases k
  congr

theorem contains_single :
  (single start).contains name ↔ name = start
  := by
  rw [contains, single, NameMap.contains, NameMap.get?_insert]
  split <;> simp [*]

theorem subtypes_single :
  (single start).subtypes name = ∅
  := by
  rw [subtypes, single, NameMap.get?_insert]
  split <;> rfl

theorem contains_addName {a : String} :
  (g.addName name).contains a ↔ a = name ∨ g.contains a
  := by
  rw [contains, addName, NameMap.contains, NameMap.get?_insert]
  split
  · simp [*]
  · simp only [*, false_or]
    rfl

theorem subtypes_addName {a : String} :
  (g.addName name).subtypes a = g.subtypes a
  := by
  rw [subtypes, addName, NameMap.get?_insert]
  split
  · simp [*]
  · rfl

/-- An edge brings its ends with it. -/
theorem contains_addEdge {e : Edge String} :
  (g.addEdge e).contains name ↔ name = e.source ∨ name = e.target ∨ g.contains name
  := by
  have hinsert : (g.addEdge e).contains name
      ↔ name = e.source ∨ ((g.addName e.source).addName e.target).contains name := by
    rw [contains, addEdge, NameMap.contains, NameMap.get?_insert]
    split
    · simp [*]
    · simp only [*, false_or]
      rfl
  rw [hinsert, contains_addName, contains_addName]
  grind

theorem mem_subtypes_addEdge {e : Edge String} :
  target ∈ (g.addEdge e).subtypes source
    ↔ (source = e.source ∧ target = e.target) ∨ target ∈ g.subtypes source
  := by
  have hbefore : ∀ a, ((g.addName e.source).addName e.target).subtypes a = g.subtypes a := by
    intro a
    rw [subtypes_addName, subtypes_addName]
  rw [subtypes, addEdge, NameMap.get?_insert]
  split
  · rename_i hsource
    rw [Option.getD_some, NameSet.mem_insert, hbefore, hsource, eq_self, true_and]
  · rename_i hsource
    apply Iff.trans (Iff.of_eq (congrArg (target ∈ ·) (hbefore source)))
    simp [hsource]

theorem contains_foldl_addEdge {edges : List (Edge String)} :
  (edges.foldl addEdge g).contains name
    ↔ g.contains name ∨ ∃ e ∈ edges, name = e.source ∨ name = e.target
  := by
  induction edges generalizing g with
  | nil => simp
  | cons e edges ih =>
    rw [List.foldl_cons, ih, contains_addEdge]
    simp only [List.mem_cons, exists_eq_or_imp]
    grind

theorem mem_subtypes_foldl_addEdge {edges : List (Edge String)} :
  target ∈ (edges.foldl addEdge g).subtypes source
    ↔ target ∈ g.subtypes source ∨ ⟨source, target⟩ ∈ edges
  := by
  induction edges generalizing g with
  | nil => simp
  | cons e edges ih =>
    have he : (source = e.source ∧ target = e.target) ↔ Edge.mk source target = e := by
      cases e
      simp
    rw [List.foldl_cons, ih, mem_subtypes_addEdge, he, List.mem_cons, or_assoc, or_left_comm]

/-! ### Walks -/

/-- A walk puts the edges at all names that are visited together. -/
theorem walk_eq_foldl :
  walk h start = ((h.neighbourhood.visits start).flatMap h.edges).foldl addEdge (single start)
  := by
  rw [walk, List.foldl_flatMap]

theorem mem_visits :
  name ∈ h.neighbourhood.visits start ↔ name ∈ h.neighbourhood.reach start
  := NameSet.mem_ofList.symm

/-- The names of a walk are those that are reached. -/
theorem mem_names_walk :
  name ∈ (walk h start).names ↔ name ∈ h.neighbourhood.reach start
  := by
  have hstart : start ∈ h.neighbourhood.reach start :=
    Adjacency.mem_reach_iff.mpr Relation.ReflTransGen.refl
  rw [mem_names, walk_eq_foldl, contains_foldl_addEdge, contains_single]
  simp only [List.mem_flatMap, mem_visits]
  constructor
  · rintro (rfl | ⟨⟨source, target⟩, ⟨a, ha, he⟩, hend⟩)
    · apply hstart
    · have hstep : ∀ b, h.neighbourhood.Step a b → b ∈ h.neighbourhood.reach start := by
        intro b hb
        rw [Adjacency.mem_reach_iff] at ha ⊢
        apply ha.tail hb
      rcases Hierarchy.ends_of_mem_edges he with ⟨rfl, htarget⟩ | ⟨rfl, hsource⟩
      · rcases hend with rfl | rfl
        · apply ha
        · apply hstep _ htarget
      · rcases hend with rfl | rfl
        · apply hstep _ hsource
        · apply ha
  · intro hname
    rcases (Adjacency.mem_reach_iff.mp hname).cases_tail with e | ⟨a, ha, hlast⟩
    · exact Or.inl e
    · apply Or.inr
      have ha := Adjacency.mem_reach_iff.mpr ha
      rcases Hierarchy.step_neighbourhood_iff_edges.mp hlast with he | he
      · exact ⟨_, ⟨a, ha, he⟩, Or.inl rfl⟩
      · exact ⟨_, ⟨a, ha, he⟩, Or.inr rfl⟩

/-- The edges of a walk are those at the names that are reached. -/
theorem mem_subtypes_walk :
  target ∈ (walk h start).subtypes source
    ↔ ∃ a ∈ h.neighbourhood.reach start, ⟨source, target⟩ ∈ h.edges a
  := by
  rw [walk_eq_foldl, mem_subtypes_foldl_addEdge, subtypes_single, List.mem_flatMap]
  simp only [mem_visits, NameSet.not_mem_empty, false_or]

/-- Walks that reach the same names are the same graph. -/
theorem walk_eq_of_reach_eq {start' : String}
    (hreach : h.neighbourhood.reach start = h.neighbourhood.reach start') :
  walk h start = walk h start'
  := by
  apply ext
  · intro name
    rw [Bool.eq_iff_iff, ← mem_names, ← mem_names, mem_names_walk, mem_names_walk, hreach]
  · intro source
    ext target
    rw [mem_subtypes_walk, mem_subtypes_walk, hreach]

end Graph

end Lineage
