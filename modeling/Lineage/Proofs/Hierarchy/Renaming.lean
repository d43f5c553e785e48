import Lineage.Proofs.Descriptor
import Lineage.Proofs.Hierarchy.Ancestry

/-!
# Hierarchies that differ in one name

A hierarchy `k` is a `Renaming` of `h` when every name resolves in `k` as it does in `h` but
for one name, `new`, which takes the place of another one, `old`, and is not mentioned in `h`
at all.  Substituting `new` for `old` is then one to one among the names that matter, it
carries every direct link of `h` to one of `k`, and there are no other links in `k`.  So it
carries what a search in `h` finds to what the same search in `k` finds, and each answer of
`k` is the answer of `h` with the names substituted (`Renaming.answersRenamed`).
-/

namespace Lineage

namespace Descriptor

/-- The definition with every name in it replaced by its image. -/
def image (d : Descriptor) (image : String → String) : Descriptor :=
  ⟨image d.name, d.superName.map image, d.interfaces.map image⟩

variable {old new a b : String}

/-- Apart from the new name itself, names are told apart after a substitution as before. -/
theorem substitute_inj (ha : a ≠ new) (hb : b ≠ new) :
  substitute old new a = substitute old new b ↔ a = b
  := by
  simp only [substitute]
  grind

/-- Every name but the old one has come from another name than the new one. -/
theorem exists_substitute_eq (ha : a ≠ old) (hne : old ≠ new) :
  ∃ b, b ≠ new ∧ substitute old new b = a
  := by
  by_cases h : a = new
  · use old, hne
    rw [substitute_self, h]
  · use a, h
    apply substitute_of_ne ha

/-- A definition that does not declare the new name lists its supertypes, renamed, in the same
order. -/
theorem supertypes_rename_of_not_declares {d : Descriptor} (h : ¬ d.declares new) :
  (d.rename old new).supertypes = d.supertypes.map (substitute old new)
  := by
  rw [supertypes_rename]
  apply eraseDups_of_nodup
  apply d.nodup_supertypes.map_on
  have hne : ∀ name ∈ d.supertypes, name ≠ new := by
    rintro name hin rfl
    exact h (mem_supertypes.mp hin)
  intro a ha b hb
  apply (substitute_inj (hne a ha) (hne b hb)).mp

end Descriptor

open Descriptor (substitute)

namespace Hierarchy

/-- A hierarchy has the same classes as another one but for a name that is another. -/
structure Renaming (old new : String) (h k : Hierarchy) : Prop where
  ne : old ≠ new
  /-- Every name resolves as before, with the new name in the place of the old one. -/
  resolve : ∀ {a}, a ≠ new → k.resolve (substitute old new a) = (h.resolve a).map (·.rename old new)
  /-- The old name is gone. -/
  resolve_old : k.resolve old = none
  /-- The new name was not a class. -/
  resolve_new : h.resolve new = none
  /-- The new name was not declared as a supertype. -/
  not_declares_new : ∀ {a}, ¬ h.Declares a new
  isReported : ∀ {a}, a ≠ new → k.isReported (substitute old new a) = h.isReported a

/-- A hierarchy answers for the image of every name but `new` as another one does for the name,
with the names in the answer replaced by their images. -/
structure AnswersRenamed (image : String → String) (new : String) (h k : Hierarchy) : Prop where
  resolve : ∀ {a}, a ≠ new → k.resolve (image a) = (h.resolve a).map (·.image image)
  supertypes : ∀ {a}, a ≠ new → k.supertypes (image a) = (h.supertypes a).map image
  descendants : ∀ {a}, a ≠ new → k.descendants (image a) = (h.descendants a).image image
  allSupertypes : ∀ {a}, a ≠ new → k.allSupertypes (image a) = (h.allSupertypes a).image image
  family : ∀ {a}, a ≠ new → k.family (image a) = (h.family a).image image
  isSubtype : ∀ {a b}, a ≠ new → b ≠ new → k.isSubtype (image a) (image b) = h.isSubtype a b

namespace Renaming

variable {old new : String} {h k : Hierarchy} {a b : String}

/-! ### Direct links -/

theorem ne_new_of_resolves (hr : Renaming old new h k) {d : Descriptor}
    (hd : h.resolve a = some d) :
  a ≠ new
  := by
  rintro rfl
  rw [hr.resolve_new] at hd
  exact absurd hd (Option.some_ne_none d).symm

theorem ne_new_of_declares (hr : Renaming old new h k) (hab : h.Declares a b) :
  b ≠ new
  := by
  rintro rfl
  exact hr.not_declares_new hab

theorem resolves (hr : Renaming old new h k) (ha : a ≠ new) :
  k.resolves (substitute old new a) = h.resolves a
  := by
  rw [Hierarchy.resolves, hr.resolve ha, Option.isSome_map, Hierarchy.resolves]

theorem supertypes (hr : Renaming old new h k) (ha : a ≠ new) :
  k.supertypes (substitute old new a) = (h.supertypes a).map (substitute old new)
  := by
  rw [Hierarchy.supertypes, hr.resolve ha, Hierarchy.supertypes]
  cases hd : h.resolve a with
  | none => rfl
  | some d =>
    apply Descriptor.supertypes_rename_of_not_declares
    intro hnew
    exact hr.not_declares_new ⟨d, hd, hnew⟩

theorem knownSupertypes (hr : Renaming old new h k) (ha : a ≠ new) :
  k.knownSupertypes (substitute old new a) = (h.knownSupertypes a).map (substitute old new)
  := by
  rw [Hierarchy.knownSupertypes, hr.supertypes ha, List.filter_map, Hierarchy.knownSupertypes]
  congr 1
  apply List.filter_congr
  intro b hb
  apply hr.resolves (hr.ne_new_of_declares (mem_supertypes.mp hb))

/-- The links from a class are those that it had, renamed. -/
theorem declares_from_iff (hr : Renaming old new h k) (ha : a ≠ new) :
  k.Declares (substitute old new a) b ↔ ∃ c, h.Declares a c ∧ substitute old new c = b
  := by
  rw [← mem_supertypes, hr.supertypes ha, List.mem_map]
  simp only [mem_supertypes]

/-- The links to a class are those that there were, renamed. -/
theorem declares_to_iff (hr : Renaming old new h k) (hb : b ≠ new) :
  k.Declares a (substitute old new b) ↔ ∃ c, h.Declares c b ∧ substitute old new c = a
  := by
  constructor
  · intro hab
    have ha : a ≠ old := by
      rintro rfl
      obtain ⟨d, hd, -⟩ := hab
      rw [hr.resolve_old] at hd
      exact absurd hd (Option.some_ne_none d).symm
    obtain ⟨c, hc, rfl⟩ := Descriptor.exists_substitute_eq ha hr.ne
    obtain ⟨e, he, heb⟩ := (hr.declares_from_iff hc).mp hab
    rw [Descriptor.substitute_inj (hr.ne_new_of_declares he) hb] at heb
    rw [heb] at he
    exact ⟨c, he, rfl⟩
  · rintro ⟨c, hc, rfl⟩
    obtain ⟨d, hd, -⟩ := id hc
    apply (hr.declares_from_iff (hr.ne_new_of_resolves hd)).mpr
    exact ⟨b, hc, rfl⟩

/-! ### Searches -/

theorem ne_new_of_step_upward (hr : Renaming old new h k) (hab : h.upward.Step a b) :
  b ≠ new
  := by
  rw [step_upward] at hab
  apply hr.ne_new_of_declares hab

theorem ne_new_of_step_downward (hr : Renaming old new h k) (hh : h.Consistent)
    (hab : h.downward.Step a b) :
  b ≠ new
  := by
  rw [hh.step_downward] at hab
  obtain ⟨d, hd, -⟩ := hab
  apply hr.ne_new_of_resolves hd

theorem reach_upward (hr : Renaming old new h k) (ha : a ≠ new) :
  k.upward.reach (substitute old new a) = (h.upward.reach a).image (substitute old new)
  := by
  apply Adjacency.reach_map (· ≠ new) (fun _ => hr.ne_new_of_step_upward) _ ha
  intro x y hx
  rw [step_upward, step_upward]
  apply hr.declares_from_iff hx

theorem reach_downward (hr : Renaming old new h k) (hh : h.Consistent) (hk : k.Consistent)
    (ha : a ≠ new) :
  k.downward.reach (substitute old new a) = (h.downward.reach a).image (substitute old new)
  := by
  apply Adjacency.reach_map (· ≠ new) (fun _ => hr.ne_new_of_step_downward hh) _ ha
  intro x y hx
  rw [hh.step_downward, hk.step_downward]
  apply hr.declares_to_iff hx

theorem mem_relatives (hr : Renaming old new h k) (hh : h.Consistent) (hk : k.Consistent)
    {start : String} (hstart : start ≠ new) (ha : a ≠ new) :
  b ∈ k.relatives (substitute old new start) (substitute old new a)
    ↔ ∃ c ∈ h.relatives start a, substitute old new c = b
  := by
  have hsupertypes : b ∈ k.knownSupertypes (substitute old new a)
      ↔ ∃ c ∈ h.knownSupertypes a, substitute old new c = b := by
    rw [hr.knownSupertypes ha, List.mem_map]
  have hsubtypes : b ∈ k.subtypes (substitute old new a)
      ↔ ∃ c ∈ h.subtypes a, substitute old new c = b := by
    simp only [hk.mem_subtypes, hh.mem_subtypes]
    apply hr.declares_to_iff ha
  rw [Hierarchy.mem_relatives, hr.resolve ha, hsupertypes, hsubtypes]
  simp only [Hierarchy.mem_relatives]
  cases h.resolve a with
  | none => simp
  | some d =>
    have hroot : (d.rename old new).superName = none ↔ d.superName = none := by
      simp [Descriptor.rename]
    simp only [Option.map_some, Option.some.injEq, exists_eq_left', ne_eq, hroot,
      Descriptor.substitute_inj ha hstart]
    constructor
    · rintro ⟨hpasses, ⟨c, hc, hcb⟩ | ⟨c, hc, hcb⟩⟩
      · exact ⟨c, ⟨hpasses, Or.inl hc⟩, hcb⟩
      · exact ⟨c, ⟨hpasses, Or.inr hc⟩, hcb⟩
    · rintro ⟨c, ⟨hpasses, hc | hc⟩, hcb⟩
      · exact ⟨hpasses, Or.inl ⟨c, hc, hcb⟩⟩
      · exact ⟨hpasses, Or.inr ⟨c, hc, hcb⟩⟩

theorem reach_kinship (hr : Renaming old new h k) (hh : h.Consistent) (hk : k.Consistent)
    (ha : a ≠ new) :
  (k.kinship (substitute old new a)).reach (substitute old new a)
    = ((h.kinship a).reach a).image (substitute old new)
  := by
  apply Adjacency.reach_map (· ≠ new) _ _ ha
  · intro x y _ hxy
    rcases mem_of_mem_relatives hxy with hy | hy
    · apply hr.ne_new_of_declares (mem_supertypes.mp hy)
    · apply hr.ne_new_of_resolves (hh.mem_subtypes.mp hy).choose_spec.1
  · intro x y hx
    apply hr.mem_relatives hh hk ha hx

/-! ### Answers -/

theorem allSupertypes (hr : Renaming old new h k) (ha : a ≠ new) :
  k.allSupertypes (substitute old new a) = (h.allSupertypes a).image (substitute old new)
  := by
  rw [Hierarchy.allSupertypes, hr.reach_upward ha, NameSet.erase_image, Hierarchy.allSupertypes]
  intro b hb
  have hb' := Adjacency.mem_of_mem_reach (· ≠ new) (fun _ => hr.ne_new_of_step_upward) ha hb
  apply Descriptor.substitute_inj hb' ha

theorem descendants (hr : Renaming old new h k) (hh : h.Consistent) (hk : k.Consistent)
    (ha : a ≠ new) :
  k.descendants (substitute old new a) = (h.descendants a).image (substitute old new)
  := by
  have hne : ∀ b ∈ h.downward.reach a, b ≠ new := fun b hb =>
    Adjacency.mem_of_mem_reach (· ≠ new) (fun _ => hr.ne_new_of_step_downward hh) ha hb
  rw [Hierarchy.descendants, hr.reach_downward hh hk ha, NameSet.erase_image,
    NameSet.filter_image, Hierarchy.descendants]
  · intro b hb
    apply hr.isReported (hne b (NameSet.mem_erase.mp hb).1)
  · intro b hb
    apply Descriptor.substitute_inj (hne b hb) ha

theorem family (hr : Renaming old new h k) (hh : h.Consistent) (hk : k.Consistent)
    (ha : a ≠ new) :
  k.family (substitute old new a) = (h.family a).image (substitute old new)
  := by
  rw [Hierarchy.family, hr.resolves ha, hr.reach_kinship hh hk ha, Hierarchy.family]
  split <;> rfl

theorem isSubtype (hr : Renaming old new h k) (ha : a ≠ new) (hb : b ≠ new) :
  k.isSubtype (substitute old new a) (substitute old new b) = h.isSubtype a b
  := by
  have hmem : substitute old new b ∈ k.allSupertypes (substitute old new a)
      ↔ b ∈ h.allSupertypes a := by
    rw [hr.allSupertypes ha, NameSet.mem_image]
    constructor
    · rintro ⟨c, hc, hcb⟩
      have hc' := Adjacency.mem_of_mem_reach (· ≠ new) (fun _ => hr.ne_new_of_step_upward) ha
        (NameSet.mem_erase.mp hc).1
      rw [Descriptor.substitute_inj hc' hb] at hcb
      rw [← hcb]
      apply hc
    · intro hb
      exact ⟨b, hb, rfl⟩
  simp only [Hierarchy.isSubtype, hmem, Descriptor.substitute_inj ha hb]

/-- A renaming of a hierarchy answers every query as the hierarchy does, renamed. -/
theorem answersRenamed (hr : Renaming old new h k) (hh : h.Consistent) (hk : k.Consistent) :
  AnswersRenamed (substitute old new) new h k
  where
  resolve := hr.resolve
  supertypes := hr.supertypes
  descendants := hr.descendants hh hk
  allSupertypes := hr.allSupertypes
  family := hr.family hh hk
  isSubtype := hr.isSubtype

end Renaming

end Hierarchy

end Lineage
