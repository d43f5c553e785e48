import Lineage.Hierarchy.Ancestry
import Lineage.Proofs.Consistency
import Lineage.Proofs.Reachability

/-!
# Ancestors and descendants as chains of declarations

In a hierarchy whose two sources are consistent, the subtypes found through the links of
both sources are the names that resolve to a definition declaring the supertype
(`Consistent.mem_subtypes`).  The searches upward and downward then follow one relation,
`Declares`, in its two directions (`mem_allSupertypes`, `Consistent.mem_descendants`).
-/

namespace Lineage.Hierarchy

/-- Both sources of a hierarchy are consistent. -/
structure Consistent (h : Hierarchy) : Prop where
  workspace : h.workspace.Consistent
  classPath : h.classPath.Consistent

variable {h : Hierarchy}

/-! ### Resolution -/

/-- A name resolves to a definition of that name. -/
theorem Consistent.name_of_resolve (hh : h.Consistent) {name : String} {d : Descriptor}
    (hd : h.resolve name = some d) :
  d.name = name
  := by
  rcases Option.or_eq_some_iff.mp hd with hd | ⟨-, hd⟩
  · apply hh.workspace.named hd
  · apply hh.classPath.named hd

theorem resolve_of_lookup {name : String} {d : Descriptor}
    (hd : h.workspace.lookup name = some d) :
  h.resolve name = some d
  := by
  rw [resolve, hd, Option.some_or]

theorem resolve_of_lookup_eq_none {name : String} (hnone : h.workspace.lookup name = none) :
  h.resolve name = h.classPath.lookup name
  := by
  rw [resolve, hnone, Option.none_or]

/-- A name is defined in the library when it resolves without being in the workspace. -/
theorem isLibrary_iff {name : String} :
  h.isLibrary name ↔ h.workspace.lookup name = none ∧ h.resolves name
  := by
  rw [isLibrary, locate, resolves, resolve]
  cases h.workspace.lookup name with
  | some d => simp
  | none => cases h.classPath.lookup name <;> simp

/-! ### Direct links -/

/-- The subtypes of a name are the classes whose definition declares it: a class of the
workspace by its definition there, and any other by that of the class path. -/
theorem Consistent.mem_subtypes (hh : h.Consistent) {parent child : String} :
  child ∈ h.subtypes parent ↔ h.Declares child parent
  := by
  have hworkspace : child ∈ h.workspace.subtypes parent
      ↔ ∃ d, h.workspace.lookup child = some d ∧ d.declares parent := hh.workspace.mem_subtypes
  have hclassPath : child ∈ h.classPath.subtypes parent
      ↔ ∃ d, h.classPath.lookup child = some d ∧ d.declares parent := hh.classPath.mem_subtypes
  rw [subtypes, List.mem_append, NameSet.mem_toList, NameSet.mem_toList, NameSet.mem_filter,
    hworkspace, hclassPath, Declares]
  cases e : h.workspace.lookup child with
  | some d =>
    have hcontains : h.workspace.contains child = true := by
      rw [Workspace.contains, NameMap.contains_iff]
      exact ⟨d, e⟩
    simp [resolve_of_lookup e, hcontains]
  | none =>
    have hcontains : h.workspace.contains child = false :=
      Workspace.contains_eq_false_iff.mpr e
    simp [resolve_of_lookup_eq_none e, hcontains]

/-! ### Chains of links -/

theorem step_upward (h : Hierarchy) :
  h.upward.Step = h.Declares
  := by
  funext child parent
  apply propext mem_supertypes

theorem Consistent.step_downward (hh : h.Consistent) :
  h.downward.Step = Function.swap h.Declares
  := by
  funext parent child
  apply propext hh.mem_subtypes

/-- The supertypes over any number of links are the names at the end of a chain of
declarations. -/
theorem mem_allSupertypes {name ancestor : String} :
  ancestor ∈ h.allSupertypes name
    ↔ Relation.ReflTransGen h.Declares name ancestor ∧ ancestor ≠ name
  := by
  rw [allSupertypes, NameSet.mem_erase, Adjacency.mem_reach_iff, step_upward]

/-- The descendants are the names to be reported at the beginning of a chain of
declarations. -/
theorem Consistent.mem_descendants (hh : h.Consistent) {name descendant : String} :
  descendant ∈ h.descendants name
    ↔ Relation.ReflTransGen h.Declares descendant name ∧ descendant ≠ name
      ∧ h.isReported descendant
  := by
  rw [descendants, NameSet.mem_filter, NameSet.mem_erase, Adjacency.mem_reach_iff,
    hh.step_downward, Relation.reflTransGen_swap, and_assoc]

/-- A name is a subtype of those to which a chain of declarations leads. -/
theorem isSubtype_iff {child parent : String} :
  h.isSubtype child parent ↔ Relation.ReflTransGen h.Declares child parent
  := by
  rw [isSubtype, Bool.or_eq_true, decide_eq_true_eq, decide_eq_true_eq, mem_allSupertypes]
  constructor
  · rintro (rfl | ⟨hchain, -⟩)
    · apply Relation.ReflTransGen.refl
    · apply hchain
  · intro hchain
    by_cases heq : child = parent
    · exact Or.inl heq
    · exact Or.inr ⟨hchain, Ne.symm heq⟩

/-- The descendants of a subtype are descendants of the name above it, apart from that name. -/
theorem Consistent.mem_descendants_of_isSubtype (hh : h.Consistent)
    {child parent descendant : String} (hsubtype : h.isSubtype child parent)
    (hdescendant : descendant ∈ h.descendants child) (hne : descendant ≠ parent) :
  descendant ∈ h.descendants parent
  := by
  obtain ⟨hchain, -, hreported⟩ := hh.mem_descendants.mp hdescendant
  have habove := hchain.trans (isSubtype_iff.mp hsubtype)
  exact hh.mem_descendants.mpr ⟨habove, hne, hreported⟩

/-- A name with a supertype over any number of links resolves. -/
theorem resolves_of_chain {name ancestor : String}
    (hchain : Relation.ReflTransGen h.Declares name ancestor) (hne : ancestor ≠ name) :
  h.resolves name
  := by
  rcases hchain.cases_head with e | ⟨parent, ⟨d, hd, -⟩, -⟩
  · exact absurd e.symm hne
  · rw [resolves, hd, Option.isSome_some]

/-- What is reported besides the workspace is, where it resolves, a class of the library,
and it is reported if the settings ask for it. -/
theorem isReported_iff {name : String} (hname : h.resolves name) :
  h.isReported name
    ↔ h.workspace.contains name ∨ (h.isLibrary name ∧ h.options.runtimeDescendants)
  := by
  rw [isReported, Bool.or_eq_true, isLibrary_iff, Workspace.contains, NameMap.contains]
  change _ ∨ (h.workspace.lookup name).isSome ↔ (h.workspace.lookup name).isSome ∨ _
  cases h.workspace.lookup name <;> simp [hname]

/-- The descendants of a class are the names to be reported that have the class among their
supertypes over any number of links. -/
theorem Consistent.mem_descendants_iff_allSupertypes (hh : h.Consistent)
    {name descendant : String} :
  descendant ∈ h.descendants name
    ↔ descendant ≠ name ∧ name ∈ h.allSupertypes descendant
      ∧ (h.workspace.contains descendant
        ∨ h.isLibrary descendant ∧ h.options.runtimeDescendants)
  := by
  rw [hh.mem_descendants, mem_allSupertypes]
  constructor
  · rintro ⟨hchain, hne, hreported⟩
    have hresolves := resolves_of_chain hchain hne.symm
    exact ⟨hne, ⟨hchain, hne.symm⟩, (isReported_iff hresolves).mp hreported⟩
  · rintro ⟨hne, ⟨hchain, hne'⟩, hreported⟩
    have hresolves := resolves_of_chain hchain hne'
    exact ⟨hchain, hne, (isReported_iff hresolves).mpr hreported⟩

/-! ### Families -/

/-- The relatives of a name are its supertypes that resolve and its subtypes, provided that it
has a superclass or the family is its own. -/
theorem mem_relatives {start name relative : String} :
  relative ∈ h.relatives start name
    ↔ ∃ d, h.resolve name = some d ∧ (d.superName ≠ none ∨ name = start)
      ∧ (relative ∈ h.knownSupertypes name ∨ relative ∈ h.subtypes name)
  := by
  rw [relatives]
  cases h.resolve name with
  | none => simp
  | some d =>
    simp only [Option.some.injEq, exists_eq_left']
    split
    · rename_i hroot
      simp [hroot]
    · rename_i hroot
      rw [List.mem_append, and_iff_right]
      tauto

end Lineage.Hierarchy
