import Lineage.Proofs.Hierarchy.Trails
import Lineage.Proofs.Session.Soundness
import Mathlib.Data.List.Permutation

/-!
# What the searches of a session find

The supertypes of a name over any number of links are exactly what trails of declarations lead
to, cycles and names that do not resolve included (`allSupertypes_exact`).  A family is exactly
what trails of links lead to that pass only through classes with a superclass
(`family_exact`).  Upward search asks for definitions only; the search for a family also
follows the links that a session keeps, so that these have to be those of the definitions.
-/

namespace Lineage.Session

variable {s : Session}

/-- In every session, what lies above a name is listed in strictly ascending order, and it is
every other name that ends a trail of one or more links on which each name but the last
resolves to a definition that declares the next.  If the name does not resolve, the list is
empty. -/
theorem allSupertypes_exact (s : Session) (name : String) :
  (s.hierarchy.allSupertypes name).toList.Pairwise (· < ·)
    ∧ (∀ ancestor, ancestor ∈ (s.hierarchy.allSupertypes name).toList
        ↔ ancestor ≠ name
          ∧ ∃ names, 2 ≤ names.length ∧ Trail s.hierarchy.Declares names name ancestor)
    ∧ (s.hierarchy.resolve name = none → (s.hierarchy.allSupertypes name).toList = [])
  := by
  refine ⟨(s.hierarchy.allSupertypes name).ascending, ?_, ?_⟩
  · intro ancestor
    apply Hierarchy.mem_allSupertypes_iff_trail
  · intro hnone
    apply List.eq_nil_iff_forall_not_mem.mpr
    intro ancestor hancestor
    obtain ⟨hchain, hne⟩ := Hierarchy.mem_allSupertypes.mp hancestor
    have hname := Hierarchy.resolves_of_chain hchain hne
    rw [Hierarchy.resolves, hnone] at hname
    exact Bool.false_ne_true hname

/-- A class of the workspace above itself through one of the class path, from where one comes
to a name that does not resolve; and above that name nothing is listed. -/
theorem allSupertypes_exact_cycle :
  let s := start (Workspace.ofDescriptors [⟨"A", some "R", []⟩])
    (ClassPath.ofDescriptors [⟨"A", some "S", []⟩, ⟨"R", none, ["A", "U"]⟩]) Options.default
  s.hierarchy.resolve "U" = none ∧ "U" ∈ (s.hierarchy.allSupertypes "A").toList
    ∧ "A" ∉ (s.hierarchy.allSupertypes "A").toList
    ∧ (s.hierarchy.allSupertypes "U").toList = []
  := by
  intro s
  obtain ⟨-, hexact, -⟩ := allSupertypes_exact s "A"
  have hlink : s.hierarchy.Declares "A" "R" := ⟨⟨"A", some "R", []⟩, by decide⟩
  have hlink' : s.hierarchy.Declares "R" "U" := ⟨⟨"R", none, ["A", "U"]⟩, by decide⟩
  refine ⟨by decide, ?_, ?_, ?_⟩
  · apply (hexact "U").mpr
    exact ⟨by decide, ["A", "R", "U"], by decide,
      ((Trail.single _ "A").concat hlink).concat hlink'⟩
  · intro h
    exact ((hexact "A").mp h).1 rfl
  · apply (allSupertypes_exact s "U").2.2
    decide

/-- In every session that can come about, a family is listed in strictly ascending order, and
it is empty for a name that does not resolve.  Its members are the names that end a trail from
its start on which every name resolves, each two neighbours are linked by a definition of the
one that declares the other, and each name between the ends has a superclass. -/
theorem family_exact (hs : s.Reachable) (name : String) :
  (s.hierarchy.family name).toList.Pairwise (· < ·)
    ∧ (s.hierarchy.resolve name = none → (s.hierarchy.family name).toList = [])
    ∧ ∀ member, member ∈ (s.hierarchy.family name).toList
        ↔ ∃ names, s.hierarchy.KinTrail names name member
  := by
  refine ⟨(s.hierarchy.family name).ascending, ?_, ?_⟩
  · intro hnone
    rw [Hierarchy.family, Hierarchy.resolves, hnone]
    rfl
  · intro member
    apply hs.sound.consistent.mem_family

/-- Two classes below a shared root.  From the root a trail goes on through the one to its
interface, and from the interface to the class below; but from there no trail leads through the
root to the other. -/
theorem family_exact_root :
  let s := (start (Workspace.ofDescriptors [⟨"A", some "O", ["I"]⟩, ⟨"I", none, []⟩])
      (ClassPath.ofDescriptors [⟨"O", none, []⟩, ⟨"B", some "O", []⟩]) Options.default).run
    [.edit (.put ⟨"C", some "A", []⟩)]
  "I" ∈ (s.hierarchy.family "O").toList ∧ "C" ∈ (s.hierarchy.family "I").toList
    ∧ (s.hierarchy.family "U").toList = []
    ∧ ¬ ∃ names, s.hierarchy.KinTrail names "C" "B"
  := by
  intro s
  have hs : s.Reachable := (Reachable.opened (.start (Workspace.made_ofDescriptors _) _ _)).run _
  have hroot : s.hierarchy.Declares "A" "O" := ⟨⟨"A", some "O", ["I"]⟩, by decide⟩
  have hinterface : s.hierarchy.Declares "A" "I" := ⟨⟨"A", some "O", ["I"]⟩, by decide⟩
  have hsuper : s.hierarchy.Declares "C" "A" := ⟨⟨"C", some "A", []⟩, by decide⟩
  refine ⟨?_, ?_, ?_, ?_⟩
  · apply ((family_exact hs "O").2.2 "I").mpr
    use ["O", "A", "I"], ((Trail.single _ "O").concat (Or.inr hroot)).concat (Or.inl hinterface)
    · decide
    · intro name hname
      rw [List.mem_singleton.mp hname]
      exact ⟨⟨"A", some "O", ["I"]⟩, by decide⟩
  · apply ((family_exact hs "I").2.2 "C").mpr
    use ["I", "A", "C"], ((Trail.single _ "I").concat (Or.inr hinterface)).concat (Or.inr hsuper)
    · decide
    · intro name hname
      rw [List.mem_singleton.mp hname]
      exact ⟨⟨"A", some "O", ["I"]⟩, by decide⟩
  · apply (family_exact hs "U").2.1
    decide
  · rw [← (family_exact hs "C").2.2 "B"]
    have hfamily : (s.hierarchy.family "C").toList = ["A", "C", "I", "O"] := by
      cbv
    rw [hfamily]
    decide

end Lineage.Session
