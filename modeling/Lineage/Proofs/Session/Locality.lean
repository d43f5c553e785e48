import Lineage.Proofs.Session.Soundness
import Mathlib.Data.List.Permutation

/-!
# How far an edit reaches

Entering a class and taking one out change what its name resolves to, and nothing else: not
what any other name resolves to, nor whether it is reported (`Hierarchy.SameBut`).  A chain of
declarations that does not go through the name is a chain before and after.  So the edit cannot
be noticed below a class that is not above the name, nor above a class that is not below it
(`edits_local`).  It makes no difference whether the edit begins or ends to shadow a class of
the class path.
-/

namespace Lineage

namespace Hierarchy

/-- Two hierarchies resolve and report all names alike but one. -/
structure SameBut (name : String) (h k : Hierarchy) : Prop where
  resolve : ∀ {a}, a ≠ name → h.resolve a = k.resolve a
  isReported : ∀ {a}, a ≠ name → h.isReported a = k.isReported a

namespace SameBut

variable {h k : Hierarchy} {name a b : String}

theorem symm (hs : SameBut name h k) :
  SameBut name k h
  := ⟨fun ha => (hs.resolve ha).symm, fun ha => (hs.isReported ha).symm⟩

/-- The links from all other names are the same. -/
theorem declares (hs : SameBut name h k) (ha : a ≠ name) :
  h.Declares a b ↔ k.Declares a b
  := by
  rw [Declares, Declares, hs.resolve ha]

/-! ### Chains from a name that is not below the changed one -/

/-- The chains from a name that is not below the changed one do not go through that. -/
theorem chain_from_iff (hs : SameBut name h k) (ha : a ≠ name)
    (hout : name ∉ h.allSupertypes a) :
  Relation.ReflTransGen h.Declares a b ↔ Relation.ReflTransGen k.Declares a b
  := by
  apply reflTransGen_congr
  intro c _ hchain
  apply hs.declares
  rintro rfl
  exact hout (mem_allSupertypes.mpr ⟨hchain, ha.symm⟩)

/-- Above a name that is not below the changed one, nothing changes. -/
theorem allSupertypes (hs : SameBut name h k) (ha : a ≠ name)
    (hout : name ∉ h.allSupertypes a) :
  h.allSupertypes a = k.allSupertypes a
  := by
  ext b
  rw [mem_allSupertypes, mem_allSupertypes, hs.chain_from_iff ha hout]

/-! ### Chains to a name that is not above the changed one -/

/-- The chains to a name that is not above the changed one do not go through that. -/
theorem chain_to (hs : SameBut name h k) (hout : b ∉ h.allSupertypes name)
    (hchain : Relation.ReflTransGen h.Declares a b) :
  Relation.ReflTransGen k.Declares a b
  := by
  induction hchain using Relation.ReflTransGen.head_induction_on with
  | refl => apply Relation.ReflTransGen.refl
  | @head a c hlink hchain ih =>
    by_cases hb : b = a
    · rw [hb]
    · have ha : a ≠ name := by
        rintro rfl
        exact hout (mem_allSupertypes.mpr ⟨hchain.head hlink, hb⟩)
      apply ih.head ((hs.declares ha).mp hlink)

/-- Below a name that is not above the changed one, before or after, nothing changes. -/
theorem descendants (hs : SameBut name h k) (hh : h.Consistent) (hk : k.Consistent)
    (hout : a ∉ h.allSupertypes name) (hout' : a ∉ k.allSupertypes name) :
  h.descendants a = k.descendants a
  := by
  ext b
  rw [hh.mem_descendants, hk.mem_descendants]
  have hchain : Relation.ReflTransGen h.Declares b a ↔ Relation.ReflTransGen k.Declares b a :=
    ⟨hs.chain_to hout, hs.symm.chain_to hout'⟩
  rw [← hchain]
  apply and_congr_right
  intro hb
  apply and_congr_right
  intro hne
  have hb : b ≠ name := by
    rintro rfl
    exact hout (mem_allSupertypes.mpr ⟨hb, hne.symm⟩)
  rw [hs.isReported hb]

end SameBut

/-- A hierarchy is the same but for one name with another workspace that is. -/
theorem sameBut_of_lookup {h : Hierarchy} {w : Workspace} {name : String}
    (hlookup : ∀ {a}, a ≠ name → w.lookup a = h.workspace.lookup a) :
  SameBut name h { h with workspace := w }
  where
  resolve {a} ha := by
    rw [Hierarchy.resolve, Hierarchy.resolve, hlookup ha]
  isReported {a} ha := by
    change (_ || (h.workspace.lookup a).isSome) = (_ || (w.lookup a).isSome)
    rw [hlookup ha]

end Hierarchy

namespace Session

variable {s t : Session} {diff : Diff} {d : Descriptor} {name : String}

theorem sameBut_of_put (h : s.put d = .ok (diff, t)) :
  Hierarchy.SameBut d.name s.hierarchy t.hierarchy
  := by
  obtain ⟨-, -, rfl⟩ := put_eq_ok_iff.mp h
  apply Hierarchy.sameBut_of_lookup
  intro a ha
  rw [Workspace.lookup_insert, if_neg ha]
  rfl

theorem sameBut_of_remove (h : s.remove name = .ok (diff, t)) :
  Hierarchy.SameBut name s.hierarchy t.hierarchy
  := by
  obtain ⟨d, -, -, rfl⟩ := remove_eq_ok_iff.mp h
  rw [hierarchy_release]
  apply Hierarchy.sameBut_of_lookup
  intro a ha
  rw [Workspace.lookup_erase, if_neg ha]
  rfl

/-- In every session that can come about, let the class of a name be entered or taken out.  A
name that is above it neither before nor after has the same descendants as before; the name
itself is one of these.  Another name that was not below it has the same supertypes over any
number of links. -/
theorem edits_local (hs : s.Reachable)
    (h : (∃ d : Descriptor, d.name = name ∧ s.put d = .ok (diff, t))
      ∨ s.remove name = .ok (diff, t)) :
  (∀ a, a ∉ s.hierarchy.allSupertypes name → a ∉ t.hierarchy.allSupertypes name →
      t.hierarchy.descendants a = s.hierarchy.descendants a)
    ∧ t.hierarchy.descendants name = s.hierarchy.descendants name
    ∧ ∀ a, a ≠ name → name ∉ s.hierarchy.allSupertypes a →
        t.hierarchy.allSupertypes a = s.hierarchy.allSupertypes a
  := by
  have hsame : Hierarchy.SameBut name s.hierarchy t.hierarchy ∧ t.Sound := by
    rcases h with ⟨d, rfl, h⟩ | h
    · exact ⟨sameBut_of_put h, hs.sound.edit (e := .put d) h⟩
    · exact ⟨sameBut_of_remove h, hs.sound.edit (e := .remove name) h⟩
  obtain ⟨hsame, ht⟩ := hsame
  have hbelow : ∀ a, a ∉ s.hierarchy.allSupertypes name → a ∉ t.hierarchy.allSupertypes name →
      t.hierarchy.descendants a = s.hierarchy.descendants a := by
    intro a hbefore hafter
    symm
    apply hsame.descendants hs.sound.consistent ht.consistent hbefore hafter
  have hself : ∀ h : Hierarchy, name ∉ h.allSupertypes name := by
    intro h hin
    exact (Hierarchy.mem_allSupertypes.mp hin).2 rfl
  refine ⟨hbelow, hbelow name (hself _) (hself _), ?_⟩
  intro a ha hout
  symm
  apply hsame.allSupertypes ha hout

/-- A class is entered that shadows one of the class path and breaks the cycle this was in.
Nothing changes below the class itself and below another one that the new definition does not
mention, and nothing above a class that was not in the cycle. -/
theorem edits_local_shadowing :
  let s := start (Workspace.ofDescriptors [⟨"A", some "R", []⟩])
    (ClassPath.ofDescriptors [⟨"R", some "S", []⟩, ⟨"S", some "R", ["I"]⟩, ⟨"T", some "I", []⟩])
    ⟨true⟩
  ∃ diff t, s.put ⟨"R", none, ["T"]⟩ = .ok (diff, t)
    ∧ t.hierarchy.descendants "R" = s.hierarchy.descendants "R"
    ∧ t.hierarchy.descendants "A" = s.hierarchy.descendants "A"
    ∧ t.hierarchy.allSupertypes "T" = s.hierarchy.allSupertypes "T"
  := by
  intro s
  have hs : s.Reachable := .opened (.start (Workspace.made_ofDescriptors _) _ _)
  have hput : s.put ⟨"R", none, ["T"]⟩ = .ok
      (s.advance.1.record (s.workspace.lookup "R") (some ⟨"R", none, ["T"]⟩),
        s.advance.2.define ⟨"R", none, ["T"]⟩) :=
    put_eq_ok_iff.mpr ⟨by decide, rfl, rfl⟩
  obtain ⟨hbelow, hself, habove⟩ := edits_local hs (Or.inl ⟨⟨"R", none, ["T"]⟩, rfl, hput⟩)
  refine ⟨_, _, hput, hself, hbelow "A" ?_ ?_, habove "T" (by decide) ?_⟩
  · have hbefore : (s.hierarchy.allSupertypes "R").toList = ["I", "S"] := by
      cbv
    rw [← NameSet.mem_toList, hbefore]
    decide
  · have hafter : ((s.advance.2.define ⟨"R", none, ["T"]⟩).hierarchy.allSupertypes "R").toList
        = ["I", "T"] := by
      cbv
    rw [← NameSet.mem_toList, hafter]
    decide
  · have hbefore : (s.hierarchy.allSupertypes "T").toList = ["I"] := by
      cbv
    rw [← NameSet.mem_toList, hbefore]
    decide

end Session

end Lineage
