import Lineage.Proofs.Session.Renaming
import Lineage.Proofs.Session.Replay

/-!
# What renaming makes of the workspace

Renaming a class finds the classes to rewrite by the subtype links and enters them anew one
by one.  All in all this is to substitute the new name for the old one in every class of the
workspace at once (`Workspace.Substitution`), and no more need be known of the new name than
that no class has it: it may be mentioned already, and the renamed class may mention itself.
The diff tells of the name that went, the name that came and the classes rewritten
(`rename_substitutes`).
-/

namespace Lineage

open Descriptor (substitute)

namespace Descriptor

variable {d : Descriptor} {old new a : String}

theorem substitute_ne (hne : old ≠ new) :
  substitute old new a ≠ old
  := by
  by_cases h : a = old
  · rw [h, substitute_self]
    apply hne.symm
  · rw [substitute_of_ne h]
    apply h

/-- No mention of the old name is left in a renamed definition. -/
theorem not_declares_rename (hne : old ≠ new) :
  ¬ (d.rename old new).declares old
  := by
  rw [declares_rename]
  rintro ⟨a, -, ha⟩
  exact substitute_ne hne ha

/-- A definition that declares the old name is not what it was once it is renamed. -/
theorem ne_rename_of_declares (hne : old ≠ new) (h : d.declares old) :
  d ≠ d.rename old new
  := by
  intro heq
  apply not_declares_rename (d := d) hne
  rw [← heq]
  apply h

end Descriptor

namespace Workspace

/-- The workspace of the classes of `w` with `new` for every mention of `old`. -/
def substituted (w : Workspace) (old new : String) : Workspace :=
  ofDescriptors (w.classes.values.map (·.rename old new))

/-- A workspace is what another one becomes by substituting `new` for `old` in all classes. -/
structure Substitution (old new : String) (before after : Workspace) : Prop where
  /-- The classes and their links are those of the classes with the name substituted. -/
  eq_substituted : after = before.substituted old new
  /-- None of these classes has replaced another one. -/
  perm : after.classes.values.Perm (before.classes.values.map (·.rename old new))
  /-- Each class is under its name with the name substituted. -/
  lookup : ∀ {name d}, before.lookup name = some d →
    after.lookup (substitute old new name) = some (d.rename old new)
  /-- No two classes have become one, and no class has come from nowhere. -/
  bijOn : Set.BijOn (substitute old new) {name | before.contains name}
    {name | after.contains name}
  /-- A class that does not mention the old name is as it was. -/
  unmentioned : ∀ {name d}, before.lookup name = some d → name ≠ old → ¬ d.declares old →
    after.lookup name = some d
  /-- The old name is not mentioned any more. -/
  gone : ∀ {name d}, after.lookup name = some d → name ≠ old ∧ d.name ≠ old ∧ old ∉ d.supertypes

end Workspace

namespace Session

variable {s t : Session} {diff : Diff} {d e : Descriptor} {old new name a : String}

/-! ### The workspace after a renaming -/

theorem ne_new_of_rename (h : s.rename old new = .ok (diff, t))
    (hname : s.workspace.lookup name = some d) :
  name ≠ new
  := by
  obtain ⟨-, -, hnone, -⟩ := of_rename_eq_ok h
  rintro rfl
  rw [hnone] at hname
  exact absurd hname (Option.some_ne_none d).symm

/-- The classes after a renaming are the classes before it, renamed. -/
theorem lookup_eq_some_iff_of_rename (hs : s.workspace.Consistent)
    (h : s.rename old new = .ok (diff, t)) :
  t.workspace.lookup a = some e
    ↔ ∃ name d, s.workspace.lookup name = some d ∧ substitute old new name = a
      ∧ d.rename old new = e
  := by
  constructor
  · intro he
    rw [lookup_of_rename hs h] at he
    split at he
    · rename_i ha
      obtain ⟨d, hd, hde⟩ := Option.map_eq_some_iff.mp he
      exact ⟨old, d, hd, Descriptor.substitute_self.trans ha.symm, hde⟩
    · split at he
      · exact absurd he (Option.some_ne_none e).symm
      · rename_i hold
        obtain ⟨d, hd, hde⟩ := Option.map_eq_some_iff.mp he
        exact ⟨a, d, hd, Descriptor.substitute_of_ne hold, hde⟩
  · rintro ⟨name, d, hd, rfl, rfl⟩
    rw [lookup_substitute_of_rename hs h (ne_new_of_rename h hd), hd, Option.map_some]

/-- Renaming tells the classes of the workspace apart. -/
theorem nodup_map_rename_of_rename (hs : s.workspace.Consistent)
    (h : s.rename old new = .ok (diff, t)) :
  (s.workspace.classes.values.map (·.rename old new)).Nodup
  := by
  apply hs.named.nodup_values.map_on
  intro d hd e he hde
  have hd := hs.named.mem_values.mp hd
  have he := hs.named.mem_values.mp he
  have hname : d.name = e.name :=
    (Descriptor.substitute_inj (ne_new_of_rename h hd) (ne_new_of_rename h he)).mp
      (congrArg Descriptor.name hde)
  rw [hname, he] at hd
  exact (Option.some.inj hd).symm

theorem perm_values_of_rename (hs : s.workspace.Consistent) (ht : t.workspace.Consistent)
    (h : s.rename old new = .ok (diff, t)) :
  t.workspace.classes.values.Perm (s.workspace.classes.values.map (·.rename old new))
  := by
  apply (List.perm_ext_iff_of_nodup ht.named.nodup_values (nodup_map_rename_of_rename hs h)).mpr
  intro e
  rw [NameMap.mem_values, List.mem_map]
  constructor
  · rintro ⟨a, he⟩
    obtain ⟨name, d, hd, -, hde⟩ := (lookup_eq_some_iff_of_rename hs h).mp he
    exact ⟨d, NameMap.mem_values_of_get? hd, hde⟩
  · rintro ⟨d, hd, hde⟩
    obtain ⟨name, hd⟩ := NameMap.mem_values.mp hd
    use substitute old new name
    apply (lookup_eq_some_iff_of_rename hs h).mpr
    exact ⟨name, d, hd, rfl, hde⟩

theorem bijOn_of_rename (hs : s.workspace.Consistent) (h : s.rename old new = .ok (diff, t)) :
  Set.BijOn (substitute old new) {name | s.workspace.contains name}
    {name | t.workspace.contains name}
  := by
  refine ⟨?_, ?_, ?_⟩
  · intro name hname
    obtain ⟨d, hd⟩ := NameMap.contains_iff.mp hname
    apply NameMap.contains_iff.mpr
    use d.rename old new
    apply (lookup_eq_some_iff_of_rename hs h).mpr
    exact ⟨name, d, hd, rfl, rfl⟩
  · intro a ha b hb hab
    obtain ⟨d, hd⟩ := NameMap.contains_iff.mp ha
    obtain ⟨e, he⟩ := NameMap.contains_iff.mp hb
    apply (Descriptor.substitute_inj (ne_new_of_rename h hd) (ne_new_of_rename h he)).mp hab
  · intro a ha
    obtain ⟨e, he⟩ := NameMap.contains_iff.mp ha
    obtain ⟨name, d, hd, hname, -⟩ := (lookup_eq_some_iff_of_rename hs h).mp he
    exact ⟨name, NameMap.contains_iff.mpr ⟨d, hd⟩, hname⟩

/-- A renaming that succeeds substitutes the new name for the old one in all classes. -/
theorem Sound.substitution (hs : s.Sound) (h : s.rename old new = .ok (diff, t)) :
  s.workspace.Substitution old new t.workspace
  := by
  have ht : t.Sound := hs.edit (e := .rename old new) h
  have hne : old ≠ new := ne_of_rename h
  have hperm := perm_values_of_rename hs.workspace ht.workspace h
  have hlookup : ∀ {name d}, s.workspace.lookup name = some d →
      t.workspace.lookup (substitute old new name) = some (d.rename old new) := by
    intro name d hd
    apply (lookup_eq_some_iff_of_rename hs.workspace h).mpr
    exact ⟨name, d, hd, rfl, rfl⟩
  constructor
  case eq_substituted => apply (ht.workspace.ofDescriptors_of_perm hperm.symm).symm
  case perm => apply hperm
  case lookup => apply hlookup
  case bijOn => apply bijOn_of_rename hs.workspace h
  case unmentioned =>
    intro name d hd hname hdeclares
    have hd' : d.rename old new = d := by
      apply Descriptor.rename_of_not_declares _ hdeclares
      rw [hs.workspace.named hd]
      apply hname
    rw [← hd', ← hlookup hd, Descriptor.substitute_of_ne hname]
  case gone =>
    intro a e he
    obtain ⟨name, d, -, rfl, rfl⟩ := (lookup_eq_some_iff_of_rename hs.workspace h).mp he
    refine ⟨Descriptor.substitute_ne hne, Descriptor.substitute_ne hne, ?_⟩
    rw [Descriptor.mem_supertypes]
    apply Descriptor.not_declares_rename hne

/-! ### The diff of a renaming -/

theorem removedClasses_of_rename (hs : s.Sound) (h : s.rename old new = .ok (diff, t)) :
  diff.removedClasses = [old]
  := by
  obtain ⟨d, hd, hnew, -⟩ := of_rename_eq_ok h
  apply (between_of_rename hs h).removedClasses.eq_singleton
  intro a
  rw [lookup_of_rename hs.workspace h]
  constructor
  · rintro ⟨hbefore, hafter⟩
    by_contra hold
    by_cases ha : a = new
    · exact hbefore (ha ▸ hnew)
    · rw [if_neg ha, if_neg hold, Option.map_eq_none_iff] at hafter
      exact hbefore hafter
  · rintro rfl
    rw [hd, if_neg (ne_of_rename h), if_pos rfl]
    exact ⟨Option.some_ne_none d, rfl⟩

theorem addedClasses_of_rename (hs : s.Sound) (h : s.rename old new = .ok (diff, t)) :
  diff.addedClasses = [new]
  := by
  obtain ⟨d, hd, hnew, -⟩ := of_rename_eq_ok h
  apply (between_of_rename hs h).addedClasses.eq_singleton
  intro a
  rw [lookup_of_rename hs.workspace h]
  constructor
  · rintro ⟨hbefore, hafter⟩
    by_contra ha
    apply hafter
    rw [if_neg ha, hbefore]
    apply ite_self
  · rintro rfl
    rw [if_pos rfl, hd]
    exact ⟨hnew, Option.some_ne_none _⟩

/-- A class that is redirected and declares the old name is entered as modified. -/
theorem modifiedClasses_redirect {state : Diff × Session} (hne : old ≠ new)
    (hs : state.2.workspace.Consistent) (hname : name ≠ old)
    (hd : state.2.workspace.lookup name = some d) (hdeclares : d.declares old) :
  (redirect old new state name).1.modifiedClasses = state.1.modifiedClasses ++ [name]
  := by
  have hrename : (d.rename old new).name = name := by
    rw [Descriptor.name_rename, hs.named hd, Descriptor.substitute_of_ne hname]
  have hsame : d.name = (d.rename old new).name := (hs.named hd).trans hrename.symm
  rw [redirect_of_some hd,
    Diff.record_of_ne hsame (Descriptor.ne_rename_of_declares hne hdeclares), Diff.modifyClass,
    hrename]

/-- Classes that are redirected one after the other, each once, are entered as modified in
this order. -/
theorem modifiedClasses_foldl_redirect (hne : old ≠ new) {names : List String}
    (hnodup : names.Nodup) (hold : old ∉ names) {state : Diff × Session}
    (hs : state.2.workspace.Consistent)
    (hnames : ∀ name ∈ names, ∃ d, state.2.workspace.lookup name = some d ∧ d.declares old) :
  (names.foldl (redirect old new) state).1.modifiedClasses
    = state.1.modifiedClasses ++ names
  := by
  induction names generalizing state with
  | nil => apply (List.append_nil _).symm
  | cons head tail ih =>
    obtain ⟨hhead, htail⟩ := List.nodup_cons.mp hnodup
    have hhead' : head ≠ old := by
      rintro rfl
      exact hold List.mem_cons_self
    have hold' : old ∉ tail := fun h => hold (List.mem_cons_of_mem _ h)
    obtain ⟨d, hd, hdeclares⟩ := hnames head List.mem_cons_self
    rw [List.foldl_cons, ih htail hold', modifiedClasses_redirect hne hs hhead' hd hdeclares,
      List.append_assoc, List.singleton_append]
    · rw [snd_redirect]
      apply consistent_rewrite hs
    · intro name hin
      -- the classes that are yet to come are as they were
      have hname : name ≠ head := by
        rintro rfl
        exact hhead hin
      rw [snd_redirect, lookup_rewrite hs hhead', if_neg hname]
      apply hnames name (List.mem_cons_of_mem _ hin)

/-- The classes modified by a renaming are those that mention the class, in order. -/
theorem modifiedClasses_of_rename (hs : s.workspace.Consistent)
    (h : s.rename old new = .ok (diff, t)) :
  diff.modifiedClasses = (s.mentioning old).toList
  := by
  have hne : old ≠ new := ne_of_rename h
  obtain ⟨d, hd, hnew, ht⟩ := rename_eq_ok_iff.mp h
  obtain ⟨rfl, rfl⟩ := Prod.mk.inj ht
  have hname : d.name = old := hs.named hd
  have hmoved : (s.advance.2.moved old new d).workspace.Consistent := consistent_moved hs
  rw [modifiedClasses_foldl_redirect hne (s.mentioning old).nodup
    (not_mem_mentioning_self hs) hmoved]
  · have hrename : d.name ≠ (d.rename old new).name := by
      rw [Descriptor.name_rename, hname, Descriptor.substitute_self]
      apply hne
    rw [Diff.record_of_name_ne hrename]
    rfl
  · intro name hin
    obtain ⟨⟨e, he, hdeclares⟩, hold⟩ := (mem_mentioning hs).mp hin
    have hname' : name ≠ new := ne_new_of_rename h he
    use e
    rw [lookup_moved hname, if_neg hname', if_neg hold]
    exact ⟨he, hdeclares⟩

/-- In every session that can come about, a renaming that succeeds substitutes the new name
for the old one in all classes of the workspace.  Its diff tells that the old name is removed,
that the new one is added, and that those of the other classes are modified which declared
the old name, in ascending order. -/
theorem rename_substitutes (hs : s.Reachable) (h : s.rename old new = .ok (diff, t)) :
  s.workspace.Substitution old new t.workspace
    ∧ diff.removedClasses = [old] ∧ diff.addedClasses = [new]
    ∧ diff.modifiedClasses.Pairwise (· < ·)
    ∧ ∀ name, name ∈ diff.modifiedClasses
        ↔ name ≠ old ∧ ∃ d, s.workspace.lookup name = some d ∧ old ∈ d.supertypes
  := by
  refine ⟨hs.sound.substitution h, removedClasses_of_rename hs.sound h,
    addedClasses_of_rename hs.sound h, ?_, ?_⟩
  · rw [modifiedClasses_of_rename hs.sound.workspace h]
    apply NameSet.ascending
  · intro name
    rw [modifiedClasses_of_rename hs.sound.workspace h]
    simp only [Descriptor.mem_supertypes]
    apply (mem_mentioning hs.sound.workspace).trans and_comm

/-- A class that lists itself is renamed to a name that it and two other classes declare,
one of these beside the old name and one without it. -/
theorem rename_substitutes_mentioned :
  let s := start (Workspace.ofDescriptors
      [⟨"A", some "A", ["B", "N"]⟩, ⟨"B", some "A", ["N", "A"]⟩, ⟨"C", some "N", []⟩])
    (ClassPath.ofDescriptors []) Options.default
  ∃ diff t, s.rename "A" "N" = .ok (diff, t)
    ∧ t.workspace = Workspace.ofDescriptors
      [⟨"N", some "N", ["B", "N"]⟩, ⟨"B", some "N", ["N", "N"]⟩, ⟨"C", some "N", []⟩]
    ∧ diff.removedClasses = ["A"] ∧ diff.addedClasses = ["N"] ∧ "B" ∈ diff.modifiedClasses
  := by
  intro s
  have hs : s.Opened := .start (Workspace.made_ofDescriptors _) _ _
  have hold : s.workspace.lookup "A" = some ⟨"A", some "A", ["B", "N"]⟩ := by decide
  have hnew : s.workspace.lookup "N" = none := by decide
  have h := rename_eq_ok_iff.mpr ⟨_, hold, hnew, rfl⟩
  obtain ⟨hsubstitution, hremoved, hadded, -, hmodified⟩ := rename_substitutes (.opened hs) h
  refine ⟨_, _, h, ?_, hremoved, hadded, (hmodified "B").mpr ?_⟩
  · rw [hsubstitution.eq_substituted]
    decide
  · exact ⟨by decide, ⟨"B", some "A", ["N", "A"]⟩, by decide, by decide⟩

end Session

end Lineage
