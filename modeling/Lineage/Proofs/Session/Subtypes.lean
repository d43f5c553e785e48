import Lineage.Proofs.Session.Soundness
import Mathlib.Data.List.Nodup

/-!
# The direct subtypes of a name

The workspace and the class path each keep the links of their own classes, and a class that both
define may be linked to a name in both.  Of the links of the class path those of shadowed classes
are left out.  So a direct subtype is never listed twice, and what is listed are the names that
resolve to a definition with the link, and no name whose link is out of date (`subtypes_exact`).
-/

namespace Lineage

namespace Hierarchy

variable {h : Hierarchy} {child parent : String}

/-- The classes linked to a name in the workspace are in the workspace. -/
theorem Consistent.contains_of_mem_subtypes (hh : h.Consistent)
    (hchild : child ∈ h.workspace.subtypes parent) :
  h.workspace.contains child
  := by
  obtain ⟨d, hd, -⟩ := hh.workspace.mem_subtypes.mp hchild
  apply NameMap.contains_iff.mpr ⟨d, hd⟩

/-- No direct subtype is listed twice, once by each source. -/
theorem Consistent.nodup_subtypes (hh : h.Consistent) (parent : String) :
  (h.subtypes parent).Nodup
  := by
  apply List.Nodup.append (NameSet.nodup _) (NameSet.nodup _)
  intro child hworkspace hclassPath
  have hin := hh.contains_of_mem_subtypes hworkspace
  have hout := (NameSet.mem_filter.mp hclassPath).2
  rw [hin] at hout
  exact absurd hout (by decide)

end Hierarchy

namespace Session

variable {s : Session}

/-- In every session that can come about, the direct subtypes of a name are listed without
repetition.  They are the names that resolve, in the workspace or else on the class path, to a
definition that has this name as its superclass or among its interfaces, whether or not the name
itself resolves. -/
theorem subtypes_exact (hs : s.Reachable) (parent : String) :
  (s.hierarchy.subtypes parent).Nodup
    ∧ ∀ child, child ∈ s.hierarchy.subtypes parent
      ↔ ∃ d, (s.workspace.lookup child).or (s.classPath.lookup child) = some d
        ∧ (d.superName = some parent ∨ parent ∈ d.interfaces)
  := by
  have hh := hs.sound.consistent
  constructor
  · apply hh.nodup_subtypes
  · intro child
    rw [hh.mem_subtypes, Hierarchy.Declares]
    apply exists_congr
    intro d
    apply and_congr_right
    intro _
    simp [Descriptor.declares]

/-- A class of the workspace shadows one of the class path that declares another supertype.  It is
listed below its own supertype, which does not resolve, as long as it is there, and below that of
the class path once it is removed. -/
theorem subtypes_exact_shadowing :
  let s := (start (Workspace.ofDescriptors [⟨"A", some "U", ["U"]⟩])
      (ClassPath.ofDescriptors [⟨"A", some "R", ["U"]⟩, ⟨"B", none, ["U"]⟩, ⟨"R", none, []⟩])
      Options.default).run
    [.edit (.put ⟨"A", some "U", []⟩)]
  let t := s.after (.edit (.remove "A"))
  s.hierarchy.resolve "U" = none
    ∧ (s.hierarchy.subtypes "U").Nodup ∧ "A" ∈ s.hierarchy.subtypes "U"
    ∧ "B" ∈ s.hierarchy.subtypes "U" ∧ "A" ∉ s.hierarchy.subtypes "R"
    ∧ "A" ∈ t.hierarchy.subtypes "R"
  := by
  intro s t
  have hs : s.Reachable := (Reachable.opened (.start (Workspace.made_ofDescriptors _) _ _)).run _
  have ht : t.Reachable := hs.after _
  obtain ⟨hnodup, hmem⟩ := subtypes_exact hs "U"
  refine ⟨by decide, hnodup, ?_, ?_, ?_, ?_⟩
  · apply (hmem "A").mpr
    use ⟨"A", some "U", []⟩
    decide
  · apply (hmem "B").mpr
    use ⟨"B", none, ["U"]⟩
    decide
  · intro hin
    obtain ⟨d, hd, hdeclares⟩ := ((subtypes_exact hs "R").2 "A").mp hin
    have hresolve : s.hierarchy.resolve "A" = some ⟨"A", some "U", []⟩ := by decide
    obtain rfl := Option.some.inj (hd.symm.trans hresolve)
    revert hdeclares
    decide
  · apply ((subtypes_exact ht "R").2 "A").mpr
    use ⟨"A", some "R", ["U"]⟩
    decide

end Session

end Lineage
