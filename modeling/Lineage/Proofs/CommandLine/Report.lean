import Lineage.CommandLine.Run
import Lineage.Proofs.Hierarchy.Edges
import Lineage.Proofs.Session.History

/-!
# What is reported and what is drawn

A supertype that a class declares either resolves, and then an edge comes from it to the class, or
it does not, and then it is left out of the edges without a word.  The program's report looks up
the supertypes of the workspace classes one by one.  What it reports of a class is just what the
edges leave out, so no declared supertype gets lost between the two
(`report_complements_edges`).
-/

namespace Lineage

namespace Hierarchy

variable {h : Hierarchy} {name : String} {missing : List String}

/-- The edges at a name that end there come from the supertypes that resolve. -/
theorem map_source_edges (h : Hierarchy) (name : String) :
  ((h.edges name).filter (·.target = name)).map Edge.source = h.knownSupertypes name
  := by
  have hbelow : ((h.descendants name).toList.filter h.resolves).filter (· = name) = [] := by
    apply List.filter_eq_nil_iff.mpr
    intro child hchild heq
    rw [of_decide_eq_true heq] at hchild
    apply h.not_mem_descendants_self name (List.mem_filter.mp hchild).1
  rw [edges, List.filter_append, List.map_append, List.filter_map, List.filter_map]
  simp [Function.comp_def, hbelow]

/-- The supertypes of a name are those that resolve and those that do not, in their order. -/
theorem partition_supertypes (h : Hierarchy) (name : String) :
  (h.supertypes name).partition (· ∈ h.knownSupertypes name)
    = (h.knownSupertypes name, h.missingSupertypes name)
  := by
  have hkeep : ∀ parent ∈ h.supertypes name,
      decide (parent ∈ h.knownSupertypes name) = h.resolves parent := by
    intro parent hparent
    simp [knownSupertypes, hparent]
  rw [List.partition_eq_filter_filter, Prod.mk.injEq]
  constructor
  · apply List.filter_congr hkeep
  · apply List.filter_congr
    intro parent hparent
    rw [Function.comp_apply, hkeep parent hparent]

theorem mem_missingSupertypes {parent : String} :
  parent ∈ h.missingSupertypes name ↔ parent ∈ h.supertypes name ∧ ¬ h.resolves parent
  := by
  rw [missingSupertypes, List.mem_filter, Bool.not_eq_true', Bool.not_eq_true]

theorem xor_mem_knownSupertypes {parent : String} (hparent : parent ∈ h.supertypes name) :
  Xor (parent ∈ h.knownSupertypes name) (parent ∈ h.missingSupertypes name)
  := by
  rw [mem_missingSupertypes, knownSupertypes, List.mem_filter, and_iff_right hparent,
    and_iff_right hparent]
  by_cases hresolves : h.resolves parent <;> simp [Xor, hresolves]

/-! ### The report -/

/-- The report has an entry for every class of the workspace with a supertype that does not
resolve. -/
theorem mem_unresolved :
  (name, missing) ∈ h.unresolved
    ↔ h.workspace.contains name ∧ missing ≠ [] ∧ missing = h.missingSupertypes name
  := by
  rw [unresolved, List.mem_filter, List.mem_map]
  simp only [Prod.mk.injEq, NameSet.mem_toList, Workspace.names, NameMap.mem_keys]
  constructor
  · rintro ⟨⟨_, hin, rfl, rfl⟩, hsome⟩
    exact ⟨hin, by simpa using hsome, rfl⟩
  · rintro ⟨hin, hsome, rfl⟩
    exact ⟨⟨name, hin, rfl, rfl⟩, by simpa using hsome⟩

/-- The classes of the report are in the order of the workspace. -/
theorem map_fst_unresolved (h : Hierarchy) :
  h.unresolved.map Prod.fst
    = h.workspace.names.toList.filter fun name => !(h.missingSupertypes name).isEmpty
  := by
  rw [unresolved, List.filter_map, List.map_map]
  apply List.map_id

/-- A class of the workspace is in the report if not all of its supertypes resolve. -/
theorem mem_map_fst_unresolved :
  name ∈ h.unresolved.map Prod.fst
    ↔ h.workspace.contains name ∧ ∃ parent ∈ h.supertypes name, parent ∉ h.knownSupertypes name
  := by
  rw [map_fst_unresolved, List.mem_filter, NameSet.mem_toList, Workspace.names, NameMap.mem_keys,
    Bool.not_eq_true', List.isEmpty_eq_false_iff_exists_mem]
  simp only [mem_missingSupertypes]
  apply and_congr Iff.rfl (exists_congr _)
  intro parent
  apply and_congr_right
  intro hparent
  rw [knownSupertypes, List.mem_filter, and_iff_right hparent]

theorem lookup_map_filter {α β : Type} [DecidableEq α] (f : α → β) (keep : β → Bool)
    (list : List α) (a : α) :
  ((list.map fun b => (b, f b)).filter (keep ·.2)).lookup a
    = if a ∈ list ∧ keep (f a) then some (f a) else none
  := by
  induction list with
  | nil => simp
  | cons head tail ih =>
    rw [List.map_cons, List.filter_cons]
    by_cases heq : a = head
    · subst heq
      by_cases hkeep : keep (f a) <;> simp [hkeep, ih]
    · have hne : (a == head) = false := beq_false_of_ne heq
      split
      · simp [List.lookup_cons, hne, heq, ih]
      · simp [heq, ih]

/-- The report has no entry for a class of the workspace exactly if nothing is missing there. -/
theorem lookup_unresolved (hin : h.workspace.contains name) :
  (h.unresolved.lookup name).getD [] = h.missingSupertypes name
  := by
  have hname : name ∈ h.workspace.names.toList := NameMap.mem_keys.mpr hin
  rw [unresolved, lookup_map_filter h.missingSupertypes (!·.isEmpty)]
  by_cases hsome : h.missingSupertypes name = [] <;> simp [hname, hsome]

end Hierarchy

/-- The edges at a vertex that end at its class come from the supertypes that resolve. -/
theorem Session.Sound.map_source_edgeNames {s : Session} (hs : s.Sound) {id : VertexId}
    {v : Vertex} (hv : s.vertices.get? id = some v) :
  ((s.edgeNames id).filter (·.target = v.name)).map Edge.source
    = s.hierarchy.knownSupertypes v.name
  := by
  rw [hs.edgeNames_eq hv, Hierarchy.map_source_edges]

namespace CommandLine

open Session (Reachable)

variable {s : Session}

/-- In every session that can come about, there is one report that the program gives in its two
forms.  Its classes are classes of the workspace, in strictly ascending order, and exactly those
that declare a supertype that does not resolve; reported of each are these supertypes.  Take any
vertex of a class of the workspace.  The supertypes of the class are split, in their order, into
the sources of the edges at the vertex that end at the class, and what is reported of the class.
Each supertype is in one of the two and not in the other, and the class is in the report exactly if
the edges leave out one of its supertypes. -/
theorem report_complements_edges (hs : s.Reachable) :
  ∃ report : List (String × List String),
    answer true s .check = .ok (jsonAnswer (.object [
        ("runtime_classes", Json.natural s.classPath.size),
        ("unresolved", .array (report.map fun entry =>
          .object [("class", .string entry.1), ("missing", Json.strings entry.2)])),
        ("workspace_classes", Json.natural s.workspace.size)]))
    ∧ answer false s .check = .ok (lines ((toString s.workspace.size ++ " workspace classes, " ++
          toString s.classPath.size ++ " runtime classes, " ++
          toString report.length ++ " with unresolved supertypes") ::
        report.map fun entry => entry.1 ++ ": " ++ ", ".intercalate entry.2))
    ∧ (report.map Prod.fst).Pairwise (· < ·)
    ∧ (∀ name missing, (name, missing) ∈ report
        ↔ s.workspace.contains name ∧ missing ≠ []
          ∧ missing = (s.hierarchy.supertypes name).filter (s.hierarchy.resolve · = none))
    ∧ ∀ id v, s.vertices.get? id = some v → s.workspace.contains v.name →
        let parents := s.hierarchy.supertypes v.name
        let sources := ((s.edgeNames id).filter (·.target = v.name)).map Edge.source
        let missing := (report.lookup v.name).getD []
        parents.partition (· ∈ sources) = (sources, missing)
          ∧ parents.Nodup ∧ (∀ parent ∈ parents, Xor (parent ∈ sources) (parent ∈ missing))
          ∧ (v.name ∈ report.map Prod.fst ↔ ∃ parent ∈ parents, parent ∉ sources)
  := by
  refine ⟨s.hierarchy.unresolved, rfl, rfl, ?_, ?_, ?_⟩
  · rw [Hierarchy.map_fst_unresolved]
    apply (NameSet.ascending _).filter
  · intro name missing
    rw [Hierarchy.mem_unresolved, Hierarchy.missingSupertypes]
    have hmissing : ∀ parent, (!s.hierarchy.resolves parent)
        = decide (s.hierarchy.resolve parent = none) := by
      intro parent
      rw [Hierarchy.resolves]
      cases s.hierarchy.resolve parent <;> rfl
    simp only [hmissing]
    rfl
  · intro id v hv hin parents sources missing
    have hsources : sources = s.hierarchy.knownSupertypes v.name :=
      hs.sound.map_source_edgeNames hv
    have hmissing : missing = s.hierarchy.missingSupertypes v.name :=
      Hierarchy.lookup_unresolved hin
    rw [hsources, hmissing]
    refine ⟨s.hierarchy.partition_supertypes v.name, s.hierarchy.nodup_supertypes v.name, ?_, ?_⟩
    · intro parent
      apply Hierarchy.xor_mem_knownSupertypes
    · apply Hierarchy.mem_map_fst_unresolved.trans (and_iff_right hin)

/-- A class declares a name that does not resolve, twice, itself, a class that shadows one of the
class path, and another name that does not resolve.  A vertex of it that is not registered holds a
definition without any of these.  The report leaves out the class below it and the one that
shadows another, as that one itself declares nothing. -/
theorem report_complements_edges_shadowing :
  let s := (Session.start (Workspace.ofDescriptors [⟨"C", some "A", ["R"]⟩,
        ⟨"A", some "U", ["A", "R", "U", "V"]⟩, ⟨"R", none, []⟩])
      (ClassPath.ofDescriptors [⟨"R", some "W", []⟩]) Options.default).run
    [.register "A", .untracked ⟨"A", none, []⟩]
  let sources := ((s.edgeNames ⟨1⟩).filter (·.target = "A")).map Edge.source
  s.hierarchy.supertypes "A" = ["U", "A", "R", "V"] ∧ sources = ["A", "R"]
    ∧ ∃ report : List (String × List String),
      ("A", ["U", "V"]) ∈ report ∧ (report.lookup "A").getD [] = ["U", "V"]
        ∧ "C" ∉ report.map Prod.fst ∧ "R" ∉ report.map Prod.fst
  := by
  intro s sources
  have hs : s.Reachable := (Reachable.opened (.start (Workspace.made_ofDescriptors _) _ _)).run _
  have hv : s.vertices.get? ⟨1⟩ = some ⟨"A", ⟨"A", none, []⟩⟩ := by decide
  have hparents : s.hierarchy.supertypes "A" = ["U", "A", "R", "V"] := by decide
  have hsources : sources = s.hierarchy.knownSupertypes "A" :=
    hs.sound.map_source_edgeNames hv
  replace hsources : sources = ["A", "R"] := by
    rw [hsources]
    decide
  obtain ⟨report, -, -, -, hmem, hsplit⟩ := report_complements_edges hs
  obtain ⟨hpartition, -, -, -⟩ := hsplit ⟨1⟩ _ hv (by decide)
  refine ⟨hparents, hsources, report, ?_, ?_, ?_, ?_⟩
  · apply (hmem "A" _).mpr
    decide
  · change (s.hierarchy.supertypes "A").partition (· ∈ sources) = (sources, _) at hpartition
    rw [hsources, hparents] at hpartition
    apply (Prod.mk.inj hpartition).2.symm
  · intro hin
    obtain ⟨⟨_, missing⟩, hentry, rfl⟩ := List.mem_map.mp hin
    obtain ⟨-, hsome, rfl⟩ := (hmem "C" missing).mp hentry
    revert hsome
    decide
  · intro hin
    obtain ⟨⟨_, missing⟩, hentry, rfl⟩ := List.mem_map.mp hin
    obtain ⟨-, hsome, rfl⟩ := (hmem "R" missing).mp hentry
    revert hsome
    decide

end CommandLine

end Lineage
