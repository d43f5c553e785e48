import Lineage.Proofs.Descriptor
import Lineage.Proofs.Hierarchy.Extent

/-!
# The edges at a name

The edges at a name come from the supertypes that it declares and that resolve, and go to its
descendants.  There are as many as there are of these, for no edge comes about in both ways: no
name is among its own descendants (`nodup_edges`, `length_edges`).

An edge between two names can be met at either of them, and in different ways: at its target as
one from a declared supertype (`mem_edges_target_iff`), at its source as one to a descendant.
-/

namespace Lineage.Hierarchy

variable {h : Hierarchy} {name source target : String}

theorem Consistent.mem_edges (hh : h.Consistent) :
  ⟨source, target⟩ ∈ h.edges name
    ↔ (target = name ∧ source ∈ h.supertypes name ∧ h.resolves source)
      ∨ (source = name ∧ target ∈ h.descendants name)
  := by
  rw [Hierarchy.mem_edges, knownSupertypes, List.mem_filter]
  constructor
  · rintro (⟨hparent, htarget⟩ | ⟨hsource, hchild, -⟩)
    · exact Or.inl ⟨htarget, hparent⟩
    · exact Or.inr ⟨hsource, hchild⟩
  · rintro (⟨htarget, hparent⟩ | ⟨hsource, hchild⟩)
    · exact Or.inl ⟨hparent, htarget⟩
    · exact Or.inr ⟨hsource, hchild, hh.resolves_of_mem_descendants hchild⟩

/-! ### How many there are -/

theorem nodup_supertypes (h : Hierarchy) (name : String) :
  (h.supertypes name).Nodup
  := by
  rw [supertypes]
  cases h.resolve name with
  | none => apply List.nodup_nil
  | some d => apply d.nodup_supertypes

theorem not_mem_descendants_self (h : Hierarchy) (name : String) :
  name ∉ h.descendants name
  := by
  intro hname
  rw [descendants, NameSet.mem_filter, NameSet.mem_erase] at hname
  apply hname.1.2 rfl

/-- No edge at a name is there twice. -/
theorem nodup_edges (h : Hierarchy) (name : String) :
  (h.edges name).Nodup
  := by
  apply List.Nodup.append
  · apply ((h.nodup_supertypes name).filter _).map
    intro a b hab
    apply (Edge.mk.inj hab).1
  · apply ((h.descendants name).nodup.filter _).map
    intro a b hab
    apply (Edge.mk.inj hab).2
  -- an edge in both parts would go to its own source
  · intro e hparent hchild
    obtain ⟨parent, -, rfl⟩ := List.mem_map.mp hparent
    obtain ⟨child, hin, heq⟩ := List.mem_map.mp hchild
    rw [(Edge.mk.inj heq).2] at hin
    apply h.not_mem_descendants_self name (List.mem_filter.mp hin).1

/-- The edges at a name are as many as the supertypes that resolve and the descendants. -/
theorem Consistent.length_edges (hh : h.Consistent) (name : String) :
  (h.edges name).length
    = ((h.supertypes name).filter h.resolves).length + (h.descendants name).size
  := by
  have hresolves : (h.descendants name).toList.filter h.resolves
      = (h.descendants name).toList := by
    apply List.filter_eq_self.mpr
    intro child hchild
    apply hh.resolves_of_mem_descendants hchild
  rw [edges, List.length_append, List.length_map, List.length_map, hresolves]
  rfl

/-! ### The two ends of an edge -/

/-- An edge from another name is met at its target exactly if it comes from a declared
supertype that resolves. -/
theorem Consistent.mem_edges_target_iff (hh : h.Consistent) (hne : source ≠ target) :
  ⟨source, target⟩ ∈ h.edges target ↔ source ∈ h.supertypes target ∧ h.resolves source
  := by
  rw [hh.mem_edges]
  constructor
  · rintro (⟨-, hparent⟩ | ⟨hsource, -⟩)
    · apply hparent
    · exact absurd hsource hne
  · intro hparent
    exact Or.inl ⟨rfl, hparent⟩

/-- A class that is reported is a descendant of the supertypes it declares, so an edge to it
from another name that is met at its target is met at its source. -/
theorem Consistent.mem_edges_source (hh : h.Consistent) (hne : source ≠ target)
    (hreported : h.isReported target) (he : ⟨source, target⟩ ∈ h.edges target) :
  ⟨source, target⟩ ∈ h.edges source
  := by
  obtain ⟨hparent, -⟩ := (hh.mem_edges_target_iff hne).mp he
  have hlink := mem_supertypes.mp hparent
  have hbelow : target ∈ h.descendants source :=
    hh.mem_descendants.mpr ⟨Relation.ReflTransGen.single hlink, hne.symm, hreported⟩
  exact hh.mem_edges.mpr (Or.inr ⟨rfl, hbelow⟩)

end Lineage.Hierarchy
