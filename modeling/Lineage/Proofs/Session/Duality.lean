import Lineage.Proofs.Session.Soundness

/-!
# The searches of a session are dual

Downward search goes through the links that a session keeps up to date, upward search through
the definitions that names resolve to.  As the links are those of the definitions, the two
searches find the same pairs of names, cycles and shadowed classes included
(`descendants_dual`).
-/

namespace Lineage.Session

variable {s : Session}

/-- In every session that can come about, the descendants of a name are the other names that
find it upward and are in the workspace or else reported from the class path; and they are
listed in strictly ascending order. -/
theorem descendants_dual (hs : s.Reachable) (name : String) :
  (∀ descendant, descendant ∈ s.hierarchy.descendants name
      ↔ descendant ≠ name ∧ name ∈ s.hierarchy.allSupertypes descendant
        ∧ (s.workspace.contains descendant
          ∨ s.hierarchy.isLibrary descendant ∧ s.hierarchy.options.runtimeDescendants))
    ∧ (s.hierarchy.descendants name).toList.Pairwise (· < ·)
  := by
  constructor
  · intro descendant
    apply hs.sound.consistent.mem_descendants_iff_allSupertypes
  · apply (s.hierarchy.descendants name).ascending

/-- In a cycle of two classes, one of which shadows a class of the class path, each is below
the other. -/
theorem descendants_dual_cycle :
  "B" ∈ ((Session.start (Workspace.ofDescriptors [⟨"A", some "B", []⟩])
      (ClassPath.ofDescriptors [⟨"B", none, []⟩]) Options.default).run
    [.edit (.put ⟨"B", some "A", []⟩)]).hierarchy.descendants "A"
  := by
  have hopened : (Session.start (Workspace.ofDescriptors [⟨"A", some "B", []⟩])
      (ClassPath.ofDescriptors [⟨"B", none, []⟩]) Options.default).Opened :=
    .start (Workspace.made_ofDescriptors _) _ _
  apply ((descendants_dual ((Reachable.opened hopened).run _) "A").1 "B").mpr
  refine ⟨by decide, ?_, Or.inl (by decide)⟩
  apply Hierarchy.mem_allSupertypes.mpr
  constructor
  · apply Relation.ReflTransGen.single
    use ⟨"B", some "A", []⟩
    decide
  · decide

end Lineage.Session
