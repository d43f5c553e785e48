import Lineage.Proofs.Hierarchy.Ancestry
import Mathlib.Data.List.Chain

/-!
# Trails of names

A `Trail` is a list of names that leads from one name to another, every name being related to
the next one.  What the searches of a hierarchy find is said by trails without mentioning a
search.  The supertypes of a name over any number of links are where the trails of declarations
from it end (`mem_allSupertypes_iff_trail`).  The family of a name is where its `KinTrail`s
end: they follow links in either direction among names that resolve, and every name between
their ends has a superclass (`Consistent.mem_family`).

The search for a family goes on from its start even if that has no superclass, and may come
back there and go on once more.  A trail does not: where the search has come back to its start
the trail begins anew (`KinTrail.exists_extension`).  So the two ends of a trail are on a par,
and it can be walked back (`KinTrail.reverse`): a name is in the families of those in its own
(`Consistent.mem_family_symm`).
-/

namespace Lineage

/-- A list of names leads from one name to another, and every name is related to the next. -/
structure Trail (r : String → String → Prop) (names : List String) (a b : String) : Prop where
  head : names.head? = some a
  last : names.getLast? = some b
  chain : names.IsChain r

namespace Trail

variable {r : String → String → Prop} {names : List String} {a b c name : String}

theorem single (r : String → String → Prop) (a : String) :
  Trail r [a] a a
  := ⟨rfl, rfl, List.isChain_singleton a⟩

/-- A trail is continued by a name that its last one is related to. -/
theorem concat (h : Trail r names a b) (hbc : r b c) :
  Trail r (names ++ [c]) a c
  where
  head := by
    rw [List.head?_append, h.head, Option.some_or]
  last := List.getLast?_concat
  chain := by
    apply h.chain.append (List.isChain_singleton c)
    intro x hx y hy
    rw [h.last] at hx
    rw [← Option.some.inj hx, ← Option.some.inj hy]
    apply hbc

/-- What holds of the trail of one name, and of every trail that is continued if it holds of
the trail, holds of all trails. -/
theorem induction {motive : ∀ names b, Trail r names a b → Prop}
    (single : motive [a] a (single r a))
    (concat : ∀ {names b c} (h : Trail r names a b) (hbc : r b c), motive names b h →
      motive (names ++ [c]) c (h.concat hbc))
    (h : Trail r names a b) :
  motive names b h
  := by
  induction names using List.reverseRecOn generalizing b with
  | nil => exact absurd h.head (Option.some_ne_none a).symm
  | append_singleton init last ih =>
    obtain rfl : last = b := by
      apply Option.some.inj
      rw [← h.last, List.getLast?_concat]
    cases hinit : init.getLast? with
    | none =>
      obtain rfl := List.getLast?_eq_none_iff.mp hinit
      obtain rfl : last = a := Option.some.inj h.head
      apply single
    | some before =>
      have hhead : init.head? = some a := by
        obtain ⟨head, hhead⟩ := Option.isSome_iff_exists.mp
          (List.isSome_head?.mpr (List.ne_nil_of_mem (List.mem_of_getLast? hinit)))
        rw [← h.head, List.head?_append, hhead, Option.some_or]
      have htrail : Trail r init a before := ⟨hhead, hinit, h.chain.left_of_append⟩
      have hstep := (List.isChain_append.mp h.chain).2.2 before hinit last rfl
      apply concat htrail hstep (ih htrail)

/-- Trails lead to where chains of related names lead. -/
theorem exists_iff :
  (∃ names, Trail r names a b) ↔ Relation.ReflTransGen r a b
  := by
  constructor
  · rintro ⟨names, h⟩
    induction h using Trail.induction with
    | single => apply Relation.ReflTransGen.refl
    | concat _ hbc ih => apply ih.tail hbc
  · intro h
    induction h with
    | refl => exact ⟨[a], single r a⟩
    | tail _ hbc ih =>
      obtain ⟨names, h⟩ := ih
      exact ⟨names ++ [_], h.concat hbc⟩

/-- A trail to another name has two names at least. -/
theorem two_le_length (h : Trail r names a b) (hne : b ≠ a) :
  2 ≤ names.length
  := by
  induction h using Trail.induction with
  | single => exact absurd rfl hne
  | concat h _ _ =>
    rw [List.length_append, List.length_singleton]
    apply Nat.succ_le_succ
    apply List.length_pos_of_mem (List.mem_of_getLast? h.last)

/-- A trail along a symmetric relation can be walked back. -/
theorem reverse (h : Trail r names a b) (hsymm : ∀ {x y}, r x y → r y x) :
  Trail r names.reverse b a
  where
  head := by
    rw [List.head?_reverse, h.last]
  last := by
    rw [List.getLast?_reverse, h.head]
  chain := by
    apply List.isChain_reverse.mpr
    apply h.chain.imp
    intro x y hxy
    apply hsymm hxy

/-! ### Between the ends -/

/-- Between the ends of a trail that is continued are the names after its first one. -/
theorem tail_dropLast_concat (h : Trail r names a b) (c : String) :
  (names ++ [c]).tail.dropLast = names.tail
  := by
  rw [List.tail_append_of_ne_nil (List.ne_nil_of_mem (List.mem_of_getLast? h.last)),
    List.dropLast_concat]

/-- After the first name of a trail come the names between its ends and its last one. -/
theorem mem_tail (h : Trail r names a b) (hname : name ∈ names.tail) :
  name ∈ names.tail.dropLast ∨ name = b
  := by
  cases names with
  | nil => exact absurd hname List.not_mem_nil
  | cons head tail =>
    rw [List.tail_cons] at hname ⊢
    have hlast : tail.getLast? = some b := by
      rw [← h.last, List.getLast?_cons_of_ne_nil (List.ne_nil_of_mem hname)]
    rw [← List.dropLast_append_getLast? b hlast, List.mem_append, List.mem_singleton] at hname
    apply hname

/-- The last name of a trail is its first one or comes after that. -/
theorem eq_or_mem_tail (h : Trail r names a b) :
  b = a ∨ b ∈ names.tail
  := by
  have hlast := List.mem_of_getLast? h.last
  cases names with
  | nil => exact absurd hlast List.not_mem_nil
  | cons head tail =>
    obtain rfl : head = a := Option.some.inj h.head
    apply List.mem_cons.mp hlast

end Trail

namespace Hierarchy

variable {h : Hierarchy} {names : List String} {a b c name start ancestor : String}

/-! ### Supertypes -/

/-- The supertypes of a name over any number of links are the other names where the trails of
declarations from it end. -/
theorem mem_allSupertypes_iff_trail :
  ancestor ∈ h.allSupertypes name
    ↔ ancestor ≠ name ∧ ∃ names, 2 ≤ names.length ∧ Trail h.Declares names name ancestor
  := by
  rw [mem_allSupertypes, ← Trail.exists_iff, and_comm]
  apply and_congr_right
  intro hne
  constructor
  · rintro ⟨names, htrail⟩
    exact ⟨names, htrail.two_le_length hne, htrail⟩
  · rintro ⟨names, -, htrail⟩
    exact ⟨names, htrail⟩

/-! ### Families -/

/-- One of two names declares the other. -/
def Linked (h : Hierarchy) (a b : String) : Prop := h.Declares a b ∨ h.Declares b a

/-- A name resolves to a definition that has a superclass. -/
def HasSuperclass (h : Hierarchy) (name : String) : Prop :=
  ∃ d, h.resolve name = some d ∧ d.superName ≠ none

/-- A trail along links in either direction, among names that resolve, on which every name
between the ends has a superclass. -/
structure KinTrail (h : Hierarchy) (names : List String) (a b : String) : Prop
    extends Trail h.Linked names a b where
  resolves : ∀ name ∈ names, h.resolves name
  hasSuperclass : ∀ name ∈ names.tail.dropLast, h.HasSuperclass name

theorem KinTrail.single (ha : h.resolves a) :
  h.KinTrail [a] a a
  where
  toTrail := Trail.single h.Linked a
  resolves name hname := by
    rw [List.mem_singleton.mp hname]
    apply ha
  hasSuperclass name hname := absurd hname List.not_mem_nil

/-- A trail to its own start begins anew; otherwise it goes on through a name that has a
superclass. -/
theorem KinTrail.exists_extension (ht : h.KinTrail names a b) (hbc : h.Linked b c)
    (hc : h.resolves c) (hb : h.HasSuperclass b ∨ b = a) :
  ∃ names', h.KinTrail names' a c
  := by
  have hresolves : ∀ names : List String, (∀ name ∈ names, h.resolves name) →
      ∀ name ∈ names ++ [c], h.resolves name := by
    intro names hnames name hname
    rcases List.mem_append.mp hname with hname | hname
    · apply hnames name hname
    · rw [List.mem_singleton.mp hname]
      apply hc
  rcases hb with hb | rfl
  · use names ++ [c], ht.toTrail.concat hbc, hresolves names ht.resolves
    intro name hname
    rw [ht.tail_dropLast_concat] at hname
    rcases ht.mem_tail hname with hname | rfl
    · apply ht.hasSuperclass name hname
    · apply hb
  · have hstart := KinTrail.single (ht.resolves b (List.mem_of_getLast? ht.last))
    use [b] ++ [c], hstart.toTrail.concat hbc, hresolves [b] hstart.resolves
    intro name hname
    exact absurd hname List.not_mem_nil

/-- A trail of links is one in either direction, with the same names between its ends. -/
theorem KinTrail.reverse (ht : h.KinTrail names a b) :
  h.KinTrail names.reverse b a
  where
  toTrail := ht.toTrail.reverse Or.symm
  resolves name hname := by
    apply ht.resolves name (List.mem_reverse.mp hname)
  hasSuperclass name hname := by
    rw [List.tail_reverse, List.dropLast_reverse, List.mem_reverse, List.tail_dropLast] at hname
    apply ht.hasSuperclass name hname

/-- A step of the search for a family follows a link in either direction, among names that
resolve, from its start or from a name that has a superclass. -/
theorem Consistent.step_kinship (hh : h.Consistent) :
  (h.kinship start).Step a b
    ↔ h.Linked a b ∧ h.resolves a ∧ h.resolves b ∧ (h.HasSuperclass a ∨ a = start)
  := by
  change b ∈ h.relatives start a ↔ _
  rw [mem_relatives, mem_knownSupertypes, hh.mem_subtypes, Linked, HasSuperclass]
  constructor
  · rintro ⟨d, hd, hpasses, hlinked⟩
    have ha : h.resolves a := by
      rw [Hierarchy.resolves, hd, Option.isSome_some]
    have hpasses : (∃ d, h.resolve a = some d ∧ d.superName ≠ none) ∨ a = start :=
      hpasses.imp (fun hsuper => ⟨d, hd, hsuper⟩) id
    rcases hlinked with ⟨hup, hb⟩ | hdown
    · exact ⟨Or.inl hup, ha, hb, hpasses⟩
    · obtain ⟨e, he, -⟩ := id hdown
      refine ⟨Or.inr hdown, ha, ?_, hpasses⟩
      rw [Hierarchy.resolves, he, Option.isSome_some]
  · rintro ⟨hlinked, ha, hb, hpasses⟩
    obtain ⟨d, hd⟩ := Option.isSome_iff_exists.mp ha
    refine ⟨d, hd, ?_, hlinked.imp (fun hup => ⟨hup, hb⟩) id⟩
    apply hpasses.imp _ id
    rintro ⟨e, he, hsuper⟩
    rw [hd] at he
    rw [Option.some.inj he]
    apply hsuper

theorem mem_family_iff_chain :
  b ∈ h.family a ↔ h.resolves a ∧ Relation.ReflTransGen (h.kinship a).Step a b
  := by
  rw [family, ← Adjacency.mem_reach_iff]
  split <;> simp [*]

/-- The family of a name is where the trails from it end that pass only through classes with
a superclass. -/
theorem Consistent.mem_family (hh : h.Consistent) :
  b ∈ h.family a ↔ ∃ names, h.KinTrail names a b
  := by
  rw [mem_family_iff_chain]
  constructor
  · rintro ⟨ha, hchain⟩
    induction hchain with
    | refl => exact ⟨[a], KinTrail.single ha⟩
    | tail _ hstep ih =>
      obtain ⟨names, ht⟩ := ih
      obtain ⟨hlinked, -, hc, hpasses⟩ := hh.step_kinship.mp hstep
      apply ht.exists_extension hlinked hc hpasses
  · rintro ⟨names, htrail, hresolves, hsuper⟩
    use hresolves a (List.mem_of_head? htrail.head)
    induction htrail using Trail.induction with
    | single => apply Relation.ReflTransGen.refl
    | @concat names b c htrail hlinked ih =>
      rw [htrail.tail_dropLast_concat] at hsuper
      have hnames : ∀ name ∈ names, h.resolves name := fun name hname =>
        hresolves name (List.mem_append_left _ hname)
      have hbetween : ∀ name ∈ names.tail.dropLast, h.HasSuperclass name := fun name hname =>
        hsuper name (List.dropLast_subset _ hname)
      apply (ih hnames hbetween).tail
      apply hh.step_kinship.mpr
      refine ⟨hlinked, hnames b (List.mem_of_getLast? htrail.last), ?_, ?_⟩
      · apply hresolves c (List.mem_append_right _ List.mem_cons_self)
      · apply htrail.eq_or_mem_tail.symm.imp (hsuper b) id

/-- The trail to a member of a family leads back from it. -/
theorem Consistent.mem_family_symm (hh : h.Consistent) (hb : b ∈ h.family a) :
  a ∈ h.family b
  := by
  obtain ⟨names, htrail⟩ := hh.mem_family.mp hb
  exact hh.mem_family.mpr ⟨names.reverse, htrail.reverse⟩

end Hierarchy

end Lineage
