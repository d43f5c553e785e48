import Lineage.Proofs.Graph
import Lineage.Proofs.Hierarchy.Ancestry

/-!
# Walks within a component

A step to a neighbour goes up one declared link or down to a descendant, and the same step
back need not be there: a class of the class path that is no descendant of its supertypes is
not a neighbour of theirs.  Yet from a reported class every walk leads back.  Wherever it goes
up, a reported class stays at or below it from which the start can be reached, and is a
descendant to step down to; and wherever it goes down, it goes to a reported class, from
which the declared links lead up again (`neighbours_symm`).
-/

namespace Lineage.Hierarchy

variable {h : Hierarchy} {start name target : String}

theorem Consistent.step_neighbourhood (hh : h.Consistent) :
  h.neighbourhood.Step name target
    ↔ (h.Declares name target ∧ h.resolves target)
      ∨ (Relation.ReflTransGen h.Declares target name ∧ target ≠ name ∧ h.isReported target)
  := by
  rw [Hierarchy.step_neighbourhood, mem_knownSupertypes, hh.mem_descendants]
  apply or_congr_right
  constructor
  · rintro ⟨hbelow, -⟩
    apply hbelow
  · rintro ⟨hchain, hne, hreported⟩
    exact ⟨⟨hchain, hne, hreported⟩, resolves_of_chain hchain hne.symm⟩

/-- The declared links to a name that resolves can be walked. -/
theorem Consistent.walks_up (hh : h.Consistent) (htarget : h.resolves target)
    (hchain : Relation.ReflTransGen h.Declares name target) :
  Relation.ReflTransGen h.neighbourhood.Step name target
  := by
  induction hchain using Relation.ReflTransGen.head_induction_on with
  | refl => apply Relation.ReflTransGen.refl
  | @head name parent hlink hchain ih =>
    apply ih.head
    apply hh.step_neighbourhood.mpr
    apply Or.inl
    use hlink
    by_cases hne : target = parent
    · rw [← hne]
      apply htarget
    · apply resolves_of_chain hchain hne

/-- At a name or below it there is a reported class from which `start` can be reached. -/
def Anchored (h : Hierarchy) (start name : String) : Prop :=
  h.resolves name ∧ ∃ reported, h.isReported reported
    ∧ Relation.ReflTransGen h.Declares reported name
    ∧ Relation.ReflTransGen h.neighbourhood.Step reported start

/-- From an anchored name the start can be reached. -/
theorem Anchored.leads_back (hh : h.Consistent) (ha : h.Anchored start name) :
  Relation.ReflTransGen h.neighbourhood.Step name start
  := by
  obtain ⟨-, reported, hreported, hchain, hback⟩ := ha
  by_cases hne : reported = name
  · rw [← hne]
    apply hback
  · apply hback.head
    apply hh.step_neighbourhood.mpr
    exact Or.inr ⟨hchain, hne, hreported⟩

/-- A step from an anchored name leads to an anchored name. -/
theorem Anchored.step (hh : h.Consistent) (ha : h.Anchored start name)
    (hstep : h.neighbourhood.Step name target) :
  h.Anchored start target
  := by
  obtain ⟨hname, reported, hreported, hchain, hback⟩ := id ha
  rcases hh.step_neighbourhood.mp hstep with ⟨hlink, htarget⟩ | ⟨hbelow, hne, htarget⟩
  · -- the class below the name is also below its supertype
    exact ⟨htarget, reported, hreported, hchain.tail hlink, hback⟩
  · -- a descendant is itself reported, and it climbs back to the name
    use resolves_of_chain hbelow hne.symm, target, htarget, Relation.ReflTransGen.refl
    apply (hh.walks_up hname hbelow).trans (ha.leads_back hh)

/-- Every walk from a reported class leads back to it. -/
theorem Consistent.neighbours_symm (hh : h.Consistent) (hstart : h.resolves start)
    (hreported : h.isReported start)
    (hwalk : Relation.ReflTransGen h.neighbourhood.Step start name) :
  Relation.ReflTransGen h.neighbourhood.Step name start
  := by
  have ha : h.Anchored start name := by
    induction hwalk with
    | refl =>
      exact ⟨hstart, start, hreported, Relation.ReflTransGen.refl, Relation.ReflTransGen.refl⟩
    | tail _ hstep ih => apply ih.step hh hstep
  apply ha.leads_back hh

/-- From every name that a reported class reaches, the walk is the same. -/
theorem Consistent.walk_eq_of_mem (hh : h.Consistent) (hstart : h.resolves start)
    (hreported : h.isReported start) (hname : name ∈ (Graph.walk h start).names) :
  Graph.walk h name = Graph.walk h start
  := by
  have hwalk := Adjacency.mem_reach_iff.mp (Graph.mem_names_walk.mp hname)
  have hback := hh.neighbours_symm hstart hreported hwalk
  apply Graph.walk_eq_of_reach_eq
  ext a
  rw [Adjacency.mem_reach_iff, Adjacency.mem_reach_iff]
  constructor
  · intro ha
    apply hwalk.trans ha
  · intro ha
    apply hback.trans ha

end Lineage.Hierarchy
