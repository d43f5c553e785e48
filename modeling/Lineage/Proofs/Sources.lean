import Lineage.Proofs.Consistency

/-!
# Two ways to gather definitions

A workspace enters the definitions of a list one by one, and takes the links of a definition away
again when a later one replaces it.  A class path first keeps the last definition of each name, and
then enters the links of those that are left, in whatever order they come.  The two come to the
same: the last definition of each name, and the links that these definitions declare
(`sources_agree`).
-/

namespace Lineage

/-- The definition of `name` that comes last in a list. -/
def LastDefinition (ds : List Descriptor) (name : String) (d : Descriptor) : Prop :=
  ∃ before after, ds = before ++ d :: after ∧ d.name = name ∧ ∀ e ∈ after, e.name ≠ name

variable {ds : List Descriptor} {name : String} {d : Descriptor}

theorem get?_lastDefinitions_eq_some_iff :
  (lastDefinitions ds).get? name = some d ↔ LastDefinition ds name d
  := by
  rw [get?_lastDefinitions, List.find?_eq_some_iff_append, LastDefinition]
  constructor
  · rintro ⟨hname, after, before, hds, hafter⟩
    refine ⟨before.reverse, after.reverse, ?_, of_decide_eq_true hname, ?_⟩
    · rw [← ds.reverse_reverse, hds]
      simp
    · intro e he
      simpa using hafter e (List.mem_reverse.mp he)
  · rintro ⟨before, after, rfl, hname, hafter⟩
    refine ⟨decide_eq_true hname, after.reverse, before.reverse, ?_, ?_⟩
    · simp
    · intro e he
      simpa using hafter e (List.mem_reverse.mp he)

/-- The names with a last definition are those of all definitions. -/
theorem keys_lastDefinitions (ds : List Descriptor) :
  (lastDefinitions ds).keys = NameSet.ofList (ds.map Descriptor.name)
  := by
  ext name
  rw [NameMap.mem_keys, NameMap.contains, get?_lastDefinitions, List.find?_isSome,
    NameSet.mem_ofList, List.mem_map]
  simp

/-- The links of some classes do not depend on the order in which they are entered. -/
theorem SubtypeLinks.ofDescriptors_of_perm {ds es : List Descriptor} (h : ds.Perm es) :
  SubtypeLinks.ofDescriptors ds = SubtypeLinks.ofDescriptors es
  := by
  apply (tight_ofDescriptors ds).ext (tight_ofDescriptors es)
  intro parent
  ext child
  simp only [mem_subtypes_ofDescriptors, h.mem_iff]

/-- Entering definitions one by one, and taking away what is replaced, leaves the links of the
last definitions. -/
theorem links_ofDescriptors (ds : List Descriptor) :
  (Workspace.ofDescriptors ds).links = (ClassPath.ofDescriptors ds).links
  := by
  have hworkspace := (Workspace.made_ofDescriptors ds).consistent
  rw [Workspace.Consistent, Workspace.classes_ofDescriptors] at hworkspace
  apply hworkspace.links_unique (ClassPath.consistent_ofDescriptors ds)

/-- The workspace and the class path that the same definitions make have the same classes, which
are those with a last definition, and the same direct subtypes of every name, which are the classes
whose last definition declares it.  In what order the class path enters the links of its classes
makes no difference. -/
theorem sources_agree (ds : List Descriptor) :
  let w := Workspace.ofDescriptors ds
  let path := ClassPath.ofDescriptors ds
  (∀ name, w.lookup name = path.lookup name)
    ∧ (∀ name d, w.lookup name = some d ↔ LastDefinition ds name d)
    ∧ w.names = path.names ∧ w.names = NameSet.ofList (ds.map Descriptor.name)
    ∧ w.size = path.size ∧ w.size = w.names.size
    ∧ (∀ parent, (w.subtypes parent).toList = (path.subtypes parent).toList)
    ∧ (∀ parent child, child ∈ (w.subtypes parent).toList
        ↔ ∃ d, LastDefinition ds child d ∧ d.declares parent)
    ∧ ∀ order : List Descriptor, order.Perm path.classes.values →
        SubtypeLinks.ofDescriptors order = path.links
  := by
  intro w path
  have hclasses : w.classes = path.classes := Workspace.classes_ofDescriptors ds
  have hlinks : w.links = path.links := links_ofDescriptors ds
  have hlookup : ∀ name d, w.lookup name = some d ↔ LastDefinition ds name d := by
    intro name d
    rw [Workspace.lookup, hclasses]
    apply get?_lastDefinitions_eq_some_iff
  refine ⟨?_, hlookup, ?_, ?_, ?_, ?_, ?_, ?_, ?_⟩
  · intro name
    rw [Workspace.lookup, hclasses, ClassPath.lookup]
  · rw [Workspace.names, hclasses, ClassPath.names]
  · rw [Workspace.names, hclasses]
    apply keys_lastDefinitions
  · rw [Workspace.size, hclasses, ClassPath.size]
  · apply NameMap.size_keys.symm
  · intro parent
    rw [Workspace.subtypes, hlinks, ClassPath.subtypes]
  · intro parent child
    simp only [← hlookup]
    apply (Workspace.made_ofDescriptors ds).consistent.mem_subtypes
  · intro order horder
    apply SubtypeLinks.ofDescriptors_of_perm horder

/-- Three definitions of one class, the second one with a supertype that neither of the others has.
The class is a subtype of what its last definition declares, twice for one of them, and of nothing
else. -/
theorem sources_agree_redefined :
  let ds : List Descriptor := [⟨"A", some "B", []⟩, ⟨"B", none, ["I"]⟩, ⟨"A", some "C", ["B"]⟩,
    ⟨"A", some "B", ["I", "B"]⟩]
  let path := ClassPath.ofDescriptors ds
  SubtypeLinks.ofDescriptors [⟨"B", none, ["I"]⟩, ⟨"A", some "B", ["I", "B"]⟩] = path.links
    ∧ (path.subtypes "I").toList = ["A", "B"] ∧ (path.subtypes "C").toList = []
  := by
  intro ds path
  obtain ⟨-, -, -, -, -, -, hsubtypes, -, horder⟩ := sources_agree ds
  refine ⟨horder _ (by decide), ?_, ?_⟩
  · rw [← hsubtypes]
    decide
  · rw [← hsubtypes]
    decide

end Lineage
