import Lineage.Proofs.Hierarchy.Renaming
import Lineage.Proofs.Session.Soundness

/-!
# Renaming to a name that nothing mentions

A class can be renamed to any name that is not in the workspace.  If moreover nothing mentions
the new name, in the workspace or on the class path, and nothing on the class path mentions the
old one, then the renaming changes no more than the name: after it every query gives the same
answer as before, with the new name in the place of the old one (`rename_isomorphism`).
-/

namespace Lineage

open Descriptor (substitute)

/-- Some classes mention a name: it is one of them, or one of them declares it. -/
def Mentions (classes : NameMap Descriptor) (name : String) : Prop :=
  classes.contains name ∨ ∃ d ∈ classes.values, d.declares name

instance (classes : NameMap Descriptor) (name : String) : Decidable (Mentions classes name) :=
  inferInstanceAs (Decidable (_ ∨ _))

section Mentions

variable {classes : NameMap Descriptor} {name a : String} {d : Descriptor}

theorem get?_of_not_mentions (h : ¬ Mentions classes name) :
  classes.get? name = none
  := by
  apply Option.eq_none_iff_forall_ne_some.mpr
  intro d hd
  apply h
  apply Or.inl (NameMap.contains_iff.mpr ⟨d, hd⟩)

theorem not_declares_of_not_mentions (h : ¬ Mentions classes name)
    (hd : classes.get? a = some d) :
  ¬ d.declares name
  := by
  intro hdeclares
  apply h
  apply Or.inr ⟨d, NameMap.mem_values_of_get? hd, hdeclares⟩

/-- A class is not changed by renaming what the classes do not mention. -/
theorem rename_of_not_mentions (hclasses : Named classes) (h : ¬ Mentions classes name)
    (hd : classes.get? a = some d) (new : String) :
  d.rename name new = d
  := by
  apply Descriptor.rename_of_not_declares
  · rintro hname
    rw [hclasses hd] at hname
    rw [hname, get?_of_not_mentions h] at hd
    exact absurd hd (Option.some_ne_none d).symm
  · apply not_declares_of_not_mentions h hd

end Mentions

namespace Session

variable {s t : Session} {diff : Diff} {d : Descriptor} {old new name a : String}

/-! ### What a renaming leaves as it is -/

/-- Another session has the class path and the settings of this one. -/
def SameGround (s t : Session) : Prop :=
  t.classPath = s.classPath ∧ t.hierarchy.options = s.hierarchy.options

theorem sameGround_moved (s : Session) (old new : String) (d : Descriptor) :
  s.SameGround (s.moved old new d)
  := by
  rw [SameGround, classPath, moved, hierarchy_release]
  exact ⟨rfl, rfl⟩

theorem sameGround_rewrite (s : Session) (old new name : String) :
  s.SameGround (s.rewrite old new name)
  := by
  cases e : s.workspace.lookup name with
  | none =>
    rw [rewrite_of_none e]
    exact ⟨rfl, rfl⟩
  | some d =>
    rw [rewrite_of_some e]
    exact ⟨rfl, rfl⟩

theorem sameGround_of_rename (h : s.rename old new = .ok (diff, t)) :
  s.SameGround t
  := by
  obtain ⟨d, -, -, rfl⟩ := of_rename_eq_ok h
  apply List.foldlRecOn (motive := fun t : Session => s.SameGround t)
  · apply sameGround_moved s.advance.2
  · intro t ht name _
    obtain ⟨hpath, hoptions⟩ := sameGround_rewrite t old new name
    exact ⟨hpath.trans ht.1, hoptions.trans ht.2⟩

/-! ### The hierarchy after a renaming -/

theorem ne_of_rename (h : s.rename old new = .ok (diff, t)) :
  old ≠ new
  := by
  obtain ⟨d, hd, hnone, -⟩ := of_rename_eq_ok h
  rintro rfl
  rw [hnone] at hd
  exact absurd hd (Option.some_ne_none d).symm

/-- The classes of the workspace are under their new names. -/
theorem lookup_substitute_of_rename (hs : s.workspace.Consistent)
    (h : s.rename old new = .ok (diff, t)) (ha : a ≠ new) :
  t.workspace.lookup (substitute old new a) = (s.workspace.lookup a).map (·.rename old new)
  := by
  rw [lookup_of_rename hs h]
  by_cases hold : a = old
  · rw [hold, Descriptor.substitute_self, if_pos rfl]
  · rw [Descriptor.substitute_of_ne hold, if_neg ha, if_neg hold]

/-- The classes of a class path that mentions neither of two names look as if one had been
renamed to the other. -/
theorem lookup_substitute_of_not_mentions {path : ClassPath} (hpath : path.Consistent)
    (hold : ¬ Mentions path.classes old) (hnew : ¬ Mentions path.classes new) :
  path.lookup (substitute old new a) = (path.lookup a).map (·.rename old new)
  := by
  by_cases ha : a = old
  · have hnone : path.lookup old = none := get?_of_not_mentions hold
    rw [ha, hnone, Descriptor.substitute_self]
    apply get?_of_not_mentions hnew
  · rw [Descriptor.substitute_of_ne ha]
    cases hd : path.lookup a with
    | none => rfl
    | some d => rw [Option.map_some, rename_of_not_mentions hpath.named hold hd]

/-- A class renamed to a name that nothing mentions is renamed in the hierarchy. -/
theorem Sound.renaming (hs : s.Sound) (h : s.rename old new = .ok (diff, t))
    (hnew : ¬ Mentions s.workspace.classes new) (hnew' : ¬ Mentions s.classPath.classes new)
    (hold : ¬ Mentions s.classPath.classes old) :
  Hierarchy.Renaming old new s.hierarchy t.hierarchy
  := by
  have hpath : t.hierarchy.classPath = s.hierarchy.classPath := (sameGround_of_rename h).1
  have hlookup : ∀ {a}, a ≠ new → t.hierarchy.workspace.lookup (substitute old new a)
      = (s.hierarchy.workspace.lookup a).map (·.rename old new) := fun ha =>
    lookup_substitute_of_rename hs.workspace h ha
  have hlookup' : ∀ a, t.hierarchy.classPath.lookup (substitute old new a)
      = (s.hierarchy.classPath.lookup a).map (·.rename old new) := by
    intro a
    rw [hpath]
    apply lookup_substitute_of_not_mentions hs.consistent.classPath hold hnew'
  constructor
  case ne => apply ne_of_rename h
  case resolve =>
    intro a ha
    rw [Hierarchy.resolve, hlookup ha, hlookup', Hierarchy.resolve, Option.map_or]
  case resolve_old =>
    have hnone : t.workspace.lookup old = none := by
      rw [lookup_of_rename hs.workspace h, if_neg (ne_of_rename h), if_pos rfl]
    rw [Hierarchy.resolve_of_lookup_eq_none hnone, hpath]
    apply get?_of_not_mentions hold
  case resolve_new =>
    rw [Hierarchy.resolve_of_lookup_eq_none (get?_of_not_mentions hnew)]
    apply get?_of_not_mentions hnew'
  case not_declares_new =>
    rintro a ⟨d, hd, hdeclares⟩
    rcases Option.or_eq_some_iff.mp hd with hd | ⟨-, hd⟩
    · exact not_declares_of_not_mentions hnew hd hdeclares
    · exact not_declares_of_not_mentions hnew' hd hdeclares
  case isReported =>
    intro a ha
    have hcontains : t.hierarchy.workspace.contains (substitute old new a)
        = s.hierarchy.workspace.contains a := by
      apply Eq.trans (congrArg Option.isSome (hlookup ha))
      apply Option.isSome_map
    rw [Hierarchy.isReported, (sameGround_of_rename h).2, hcontains, Hierarchy.isReported]

/-- In every session that can come about, let a class be renamed to a name that is mentioned
nowhere, while the class path does not mention the old one.  Then the hierarchy answers every
query as before, with the new name in the place of the old one. -/
theorem rename_isomorphism (hs : s.Reachable) (h : s.rename old new = .ok (diff, t))
    (hnew : ¬ Mentions s.workspace.classes new) (hnew' : ¬ Mentions s.classPath.classes new)
    (hold : ¬ Mentions s.classPath.classes old) :
  Hierarchy.AnswersRenamed (fun name => if name = old then new else name) new s.hierarchy
    t.hierarchy
  := by
  have ht : t.Sound := Sound.edit hs.sound (e := .rename old new) h
  apply (hs.sound.renaming h hnew hnew' hold).answersRenamed hs.sound.consistent ht.consistent

/-- A class that lists itself and is in a cycle with its subclass is renamed. -/
theorem rename_isomorphism_cycle :
  let s := start
      (Workspace.ofDescriptors [⟨"A", some "A", ["L", "B"]⟩, ⟨"B", some "A", ["A", "X"]⟩])
      (ClassPath.ofDescriptors [⟨"L", none, []⟩]) Options.default
  ∃ diff t, s.rename "A" "N" = .ok (diff, t)
    ∧ Hierarchy.AnswersRenamed (fun name => if name = "A" then "N" else name) "N" s.hierarchy
      t.hierarchy
  := by
  intro s
  have hs : s.Opened := .start (Workspace.made_ofDescriptors _) _ _
  have hold : s.workspace.lookup "A" = some ⟨"A", some "A", ["L", "B"]⟩ := by decide
  have hnew : s.workspace.lookup "N" = none := by decide
  have h := rename_eq_ok_iff.mpr ⟨_, hold, hnew, rfl⟩
  refine ⟨_, _, h, rename_isomorphism (.opened hs) h ?_ ?_ ?_⟩
  · decide
  · decide
  · decide

end Session

end Lineage
