import Lineage.Proofs.Hierarchy.Trails
import Lineage.Proofs.Session.Soundness
import Mathlib.Data.List.Permutation

/-!
# The relations that searches decide

Each search leaves something out.  The search upward does not list its own start, and that for
a family does not go through classes without a superclass but for its start.  Read as relations
between two names, what they decide is regular all the same.  A name is a subtype of another one
when a chain of declarations leads there, so chains can be put together, and what is below a
subtype is below its supertypes (`subtyping_preorder`).  A name is kin to another one when a trail
leads there whose ends do not matter, so the trail can be walked back (`family_mutual`).
-/

namespace Lineage.Session

variable {s : Session}

/-- In every session that can come about, subtyping is reflexive and transitive, for names that
resolve as for names that do not, and the descendants of a subtype are descendants of its
supertype, unless they are that supertype itself. -/
theorem subtyping_preorder (hs : s.Reachable) (a b c : String) :
  s.hierarchy.isSubtype a a
    ∧ (s.hierarchy.isSubtype a b → s.hierarchy.isSubtype b c → s.hierarchy.isSubtype a c)
    ∧ (s.hierarchy.isSubtype b a →
        ∀ name ∈ (s.hierarchy.descendants b).toList, name ≠ a →
          name ∈ (s.hierarchy.descendants a).toList)
  := by
  refine ⟨?_, ?_, ?_⟩
  · apply Hierarchy.isSubtype_iff.mpr Relation.ReflTransGen.refl
  · intro hab hbc
    have hab := Hierarchy.isSubtype_iff.mp hab
    have hbc := Hierarchy.isSubtype_iff.mp hbc
    apply Hierarchy.isSubtype_iff.mpr (hab.trans hbc)
  · intro hba name hname hne
    apply hs.sound.consistent.mem_descendants_of_isSubtype hba hname hne

/-- A class of the workspace that shadows one of the class path closes a cycle through two
others there, the second of which declares a name that does not resolve.  A class is below
itself on this cycle, but not listed there. -/
theorem subtyping_preorder_cycle :
  let s := (start (Workspace.ofDescriptors [⟨"A", some "R", []⟩])
      (ClassPath.ofDescriptors [⟨"R", some "S", []⟩, ⟨"S", none, ["A", "U"]⟩, ⟨"A", none, []⟩])
      Options.default).run
    [.edit (.put ⟨"C", some "A", []⟩)]
  s.hierarchy.resolve "U" = none ∧ s.hierarchy.isSubtype "U" "U"
    ∧ s.hierarchy.isSubtype "C" "U"
    ∧ "A" ∈ (s.hierarchy.descendants "R").toList ∧ "A" ∉ (s.hierarchy.descendants "A").toList
    ∧ "C" ∈ (s.hierarchy.descendants "A").toList
  := by
  intro s
  have hs : s.Reachable := (Reachable.opened (.start (Workspace.made_ofDescriptors _) _ _)).run _
  have hbelow : (s.hierarchy.descendants "R").toList = ["A", "C"] := by
    cbv
  have hself : (s.hierarchy.descendants "A").toList = ["C"] := by
    cbv
  refine ⟨by decide, ?_, ?_, ?_, ?_, ?_⟩
  · apply (subtyping_preorder hs "U" "U" "U").1
  · apply (subtyping_preorder hs "C" "R" "U").2.1
    · cbv
    · cbv
  · rw [hbelow]
    decide
  · rw [hself]
    decide
  · apply (subtyping_preorder hs "A" "R" "C").2.2
    · cbv
    · rw [hbelow]
      decide
    · decide

/-- In every session that can come about, kinship is mutual: a name is in the family of each
member of its own, whether it is a root, in a cycle or defined on the class path, or not at
all. -/
theorem family_mutual (hs : s.Reachable) (a b : String) :
  b ∈ (s.hierarchy.family a).toList ↔ a ∈ (s.hierarchy.family b).toList
  := by
  have hh := hs.sound.consistent
  rw [NameSet.mem_toList, NameSet.mem_toList]
  constructor
  · apply hh.mem_family_symm
  · apply hh.mem_family_symm

/-- A root, a class in a cycle with one of the class path, and one below it: the class is kin
to the root, and so the root to it.  Another class below the root is kin to the root as well,
but neither of the two is kin to the other. -/
theorem family_mutual_root :
  let s := (start (Workspace.ofDescriptors [⟨"A", some "R", ["O"]⟩])
      (ClassPath.ofDescriptors [⟨"R", some "A", []⟩, ⟨"O", none, []⟩, ⟨"B", some "O", []⟩])
      Options.default).run
    [.edit (.put ⟨"C", some "A", ["U"]⟩)]
  "O" ∈ (s.hierarchy.family "C").toList ∧ "C" ∈ (s.hierarchy.family "O").toList
    ∧ "B" ∉ (s.hierarchy.family "C").toList ∧ "C" ∉ (s.hierarchy.family "B").toList
  := by
  intro s
  have hs : s.Reachable := (Reachable.opened (.start (Workspace.made_ofDescriptors _) _ _)).run _
  have hfamily : (s.hierarchy.family "C").toList = ["A", "C", "O", "R"] := by
    cbv
  have hroot : "O" ∈ (s.hierarchy.family "C").toList := by
    rw [hfamily]
    decide
  have hother : "B" ∉ (s.hierarchy.family "C").toList := by
    rw [hfamily]
    decide
  exact ⟨hroot, (family_mutual hs "C" "O").mp hroot, hother,
    mt (family_mutual hs "C" "B").mpr hother⟩

end Lineage.Session
