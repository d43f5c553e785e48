import Lineage.ClassPath
import Lineage.Workspace
import Mathlib.Data.List.Induction
import Mathlib.Data.List.Nodup

/-!
# Classes and the links they declare

A store of classes is `Consistent` when every class is under its own name and the subtype
links are those that the classes declare, without an entry for a supertype that has no
subtype.  The links of a consistent store are determined by its classes
(`Consistent.links_unique`), so that how the store came about leaves no trace in it.

Every workspace that can be made is consistent (`Workspace.Made.consistent`), and so is
every class path (`ClassPath.consistent_ofDescriptors`).
-/

namespace Lineage

/-! ### Links without empty entries -/

namespace SubtypeLinks

/-- Every supertype with an entry has a subtype. -/
def Tight (links : SubtypeLinks) : Prop :=
  ∀ parent children, links.table.get? parent = some children → ∃ child, child ∈ children

theorem tight_empty :
  (∅ : SubtypeLinks).Tight
  := by
  intro parent children h
  exact absurd h (Option.some_ne_none children).symm

theorem Tight.link {links : SubtypeLinks} {child parent : String} (h : links.Tight) :
  (links.link child parent).Tight
  := by
  intro p children hp
  rw [SubtypeLinks.link, NameMap.get?_insert] at hp
  split at hp
  · obtain rfl := Option.some.inj hp
    use child
    apply NameSet.mem_insert.mpr (Or.inl rfl)
  · apply h p children hp

theorem Tight.unlink {links : SubtypeLinks} {child parent : String} (h : links.Tight) :
  (links.unlink child parent).Tight
  := by
  intro p children hp
  rw [SubtypeLinks.unlink] at hp
  split at hp
  · rw [NameMap.get?_erase] at hp
    split at hp
    · exact absurd hp (Option.some_ne_none children).symm
    · apply h p children hp
  · rename_i hsome
    rw [NameMap.get?_insert] at hp
    split at hp
    · obtain rfl := Option.some.inj hp
      by_contra hnone
      apply hsome
      apply NameSet.isEmpty_iff.mpr
      apply not_exists.mp hnone
    · apply h p children hp

theorem Tight.insert {links : SubtypeLinks} (h : links.Tight) (d : Descriptor) :
  (links.insert d).Tight
  := List.foldlRecOn _ _ h fun _ h _ _ => h.link

theorem Tight.remove {links : SubtypeLinks} (h : links.Tight) (d : Descriptor) :
  (links.remove d).Tight
  := List.foldlRecOn _ _ h fun _ h _ _ => h.unlink

/-- The entry of a supertype is its set of subtypes unless that is empty. -/
theorem Tight.get?_eq {links : SubtypeLinks} (h : links.Tight) (parent : String) :
  links.table.get? parent
    = if (links.subtypes parent).isEmpty then none else some (links.subtypes parent)
  := by
  rw [subtypes]
  cases e : links.table.get? parent with
  | none => rfl
  | some children =>
    obtain ⟨child, hchild⟩ := h parent children e
    rw [Option.getD_some, if_neg]
    intro hempty
    apply NameSet.isEmpty_iff.mp hempty child hchild

/-- Links without empty entries are determined by the subtypes they give. -/
theorem Tight.ext {l m : SubtypeLinks} (hl : l.Tight) (hm : m.Tight)
    (h : ∀ parent, l.subtypes parent = m.subtypes parent) :
  l = m
  := by
  have htable : l.table = m.table := by
    ext1 parent
    rw [hl.get?_eq, hm.get?_eq, h]
  cases l
  cases m
  congr

/-- The links that some definitions declare, each under the name of its definition. -/
theorem mem_subtypes_ofDescriptors {ds : List Descriptor} {parent child : String} :
  child ∈ (ofDescriptors ds).subtypes parent
    ↔ ∃ d ∈ ds, d.name = child ∧ d.declares parent
  := by
  rw [ofDescriptors]
  induction ds using List.reverseRecOn with
  | nil => simp
  | append_singleton ds d ih =>
    rw [List.foldl_append, List.foldl_cons, List.foldl_nil, mem_subtypes_insert, ih]
    simp only [List.mem_append, List.mem_singleton]
    constructor
    · rintro (⟨rfl, hd⟩ | ⟨e, he, h⟩)
      · exact ⟨d, Or.inr rfl, rfl, hd⟩
      · exact ⟨e, Or.inl he, h⟩
    · rintro ⟨e, he | rfl, rfl, hdeclares⟩
      · exact Or.inr ⟨e, he, rfl, hdeclares⟩
      · exact Or.inl ⟨rfl, hdeclares⟩

theorem tight_ofDescriptors (ds : List Descriptor) :
  (ofDescriptors ds).Tight
  := List.foldlRecOn _ _ tight_empty fun _ h d _ => h.insert d

end SubtypeLinks

/-! ### The last definition of each name -/

/-- Every class is under its own name. -/
def Named (classes : NameMap Descriptor) : Prop :=
  ∀ ⦃name d⦄, classes.get? name = some d → d.name = name

theorem Named.insert {classes : NameMap Descriptor} (h : Named classes) (d : Descriptor) :
  Named (classes.insert d.name d)
  := by
  intro name e he
  rw [NameMap.get?_insert] at he
  split at he
  · rename_i hname
    rw [← Option.some.inj he, hname]
  · apply h he

theorem Named.mem_values {classes : NameMap Descriptor} (h : Named classes) {d : Descriptor} :
  d ∈ classes.values ↔ classes.get? d.name = some d
  := by
  rw [NameMap.mem_values]
  constructor
  · rintro ⟨name, hd⟩
    rw [h hd]
    apply hd
  · intro hd
    use d.name

theorem Named.map_name_values {classes : NameMap Descriptor} (h : Named classes) :
  classes.values.map Descriptor.name = classes.keys.toList
  := by
  rw [NameMap.values, List.map_map]
  apply List.map_congr_left
  rintro ⟨name, d⟩ hin
  apply h (NameMap.mem_entries.mp hin)

/-- Every class is there once. -/
theorem Named.nodup_values {classes : NameMap Descriptor} (h : Named classes) :
  classes.values.Nodup
  := by
  apply List.Nodup.of_map Descriptor.name
  rw [h.map_name_values]
  apply NameSet.nodup

theorem named_lastDefinitions (ds : List Descriptor) :
  Named (lastDefinitions ds)
  := by
  apply List.foldlRecOn (motive := fun classes => Named classes)
  · intro name d h
    exact absurd h (Option.some_ne_none d).symm
  · intro classes h d _
    apply h.insert

/-- What counts for a name is its definition that comes last. -/
theorem get?_lastDefinitions (ds : List Descriptor) (name : String) :
  (lastDefinitions ds).get? name = ds.reverse.find? (·.name = name)
  := by
  rw [lastDefinitions]
  induction ds using List.reverseRecOn with
  | nil => rfl
  | append_singleton ds d ih =>
    rw [List.foldl_append, List.foldl_cons, List.foldl_nil, NameMap.get?_insert, ih,
      List.reverse_concat, List.find?_cons]
    by_cases h : d.name = name
    · rw [if_pos h.symm, decide_eq_true h]
    · rw [if_neg (Ne.symm h), decide_eq_false h]

/-- Classes under their own names are given back by their definitions in any order. -/
theorem lastDefinitions_of_perm {classes : NameMap Descriptor} (h : Named classes)
    {ds : List Descriptor} (hds : ds.Perm classes.values) :
  lastDefinitions ds = classes
  := by
  have hmem : ∀ d, d ∈ ds ↔ classes.get? d.name = some d := by
    intro d
    rw [hds.mem_iff, h.mem_values]
  ext1 name
  rw [get?_lastDefinitions]
  cases e : ds.reverse.find? (·.name = name) with
  | some d =>
    have hname : d.name = name := by
      simpa using List.find?_some e
    rw [← hname]
    symm
    apply (hmem d).mp (List.mem_reverse.mp (List.mem_of_find?_eq_some e))
  | none =>
    symm
    apply Option.eq_none_iff_forall_ne_some.mpr
    intro d hd
    have hname := h hd
    subst hname
    apply List.find?_eq_none.mp e d (List.mem_reverse.mpr ((hmem d).mpr hd))
    apply decide_eq_true rfl

/-! ### Consistent stores -/

/-- Classes and links that belong together. -/
structure Consistent (classes : NameMap Descriptor) (links : SubtypeLinks) : Prop where
  /-- Every class is under its own name. -/
  named : Named classes
  /-- The links are those that the classes declare. -/
  mem_subtypes : ∀ {parent child},
    child ∈ links.subtypes parent ↔ ∃ d, classes.get? child = some d ∧ d.declares parent
  /-- No supertype has an empty set of subtypes. -/
  tight : links.Tight

/-- The classes leave only one choice for the links. -/
theorem Consistent.links_unique {classes : NameMap Descriptor} {l m : SubtypeLinks}
    (hl : Consistent classes l) (hm : Consistent classes m) :
  l = m
  := by
  apply hl.tight.ext hm.tight
  intro parent
  ext child
  rw [hl.mem_subtypes, hm.mem_subtypes]

/-! ### Workspaces -/

namespace Workspace

/-- The classes of a workspace and its links belong together. -/
def Consistent (w : Workspace) : Prop := Lineage.Consistent w.classes w.links

/-- The workspaces that can be made, by entering classes and by taking them out. -/
inductive Made : Workspace → Prop where
  | empty : Made ∅
  | insert {w : Workspace} (h : Made w) (d : Descriptor) : Made (w.insert d)
  | erase {w : Workspace} (h : Made w) (name : String) : Made (w.erase name)

theorem consistent_empty :
  (∅ : Workspace).Consistent
  where
  named {_ d} h := absurd h (Option.some_ne_none d).symm
  mem_subtypes {_ child} := by
    constructor
    · intro h
      exact absurd h (NameSet.not_mem_empty child)
    · rintro ⟨d, hd, -⟩
      exact absurd hd (Option.some_ne_none d).symm
  tight := SubtypeLinks.tight_empty

theorem tight_linksWithout {w : Workspace} (h : w.Consistent) (name : String) :
  (w.linksWithout name).Tight
  := by
  rw [linksWithout]
  split
  · apply h.tight
  · apply h.tight.remove

/-- Leaving a class out takes away the links to it and no other. -/
theorem mem_subtypes_linksWithout {w : Workspace} (h : w.Consistent)
    {name parent child : String} :
  child ∈ (w.linksWithout name).subtypes parent ↔ child ∈ w.subtypes parent ∧ child ≠ name
  := by
  have hmem : child ∈ w.subtypes parent ↔ ∃ d, w.lookup child = some d ∧ d.declares parent :=
    h.mem_subtypes
  rw [linksWithout]
  cases e : w.lookup name with
  | none =>
    constructor
    · intro hchild
      use hchild
      rintro rfl
      obtain ⟨d, hd, -⟩ := hmem.mp hchild
      rw [hd] at e
      exact absurd e (Option.some_ne_none d)
    · rintro ⟨hchild, -⟩
      apply hchild
  | some old =>
    have hname : old.name = name := h.named e
    rw [SubtypeLinks.mem_subtypes_remove, hname]
    apply and_congr_right
    intro hchild
    apply not_congr
    constructor
    · rintro ⟨rfl, -⟩
      rfl
    · rintro rfl
      obtain ⟨d, hd, hdeclares⟩ := hmem.mp hchild
      rw [e] at hd
      rw [Option.some.inj hd]
      exact ⟨rfl, hdeclares⟩

theorem Consistent.insert {w : Workspace} (h : w.Consistent) (d : Descriptor) :
  (w.insert d).Consistent
  where
  named := h.named.insert d
  mem_subtypes {parent child} := by
    change child ∈ ((w.linksWithout d.name).insert d).subtypes parent
      ↔ ∃ e, (w.insert d).lookup child = some e ∧ e.declares parent
    rw [SubtypeLinks.mem_subtypes_insert, mem_subtypes_linksWithout h, lookup_insert]
    by_cases hchild : child = d.name
    · simp [hchild]
    · simp only [hchild, false_and, false_or, ne_eq, not_false_eq_true, and_true, if_false]
      apply h.mem_subtypes
  tight := (tight_linksWithout h d.name).insert d

theorem Consistent.erase {w : Workspace} (h : w.Consistent) (name : String) :
  (w.erase name).Consistent
  where
  named {a d} hd := by
    change (w.erase name).lookup a = some d at hd
    rw [lookup_erase] at hd
    split at hd
    · exact absurd hd (Option.some_ne_none d).symm
    · apply h.named hd
  mem_subtypes {parent child} := by
    change child ∈ (w.linksWithout name).subtypes parent
      ↔ ∃ d, (w.erase name).lookup child = some d ∧ d.declares parent
    rw [mem_subtypes_linksWithout h, lookup_erase]
    by_cases hchild : child = name
    · simp [hchild]
    · simp only [hchild, ne_eq, not_false_eq_true, and_true, if_false]
      apply h.mem_subtypes
  tight := tight_linksWithout h name

/-- A consistent workspace is determined by its definitions. -/
theorem Consistent.ext {v w : Workspace} (hv : v.Consistent) (hw : w.Consistent)
    (h : ∀ name, v.lookup name = w.lookup name) :
  v = w
  := by
  have hclasses : v.classes = w.classes := by
    ext1 name
    apply h name
  have hlinks : v.links = w.links := by
    rw [Consistent, hclasses] at hv
    apply hv.links_unique hw
  cases v
  cases w
  congr

/-- Every workspace that can be made is consistent. -/
theorem Made.consistent {w : Workspace} (h : w.Made) :
  w.Consistent
  := by
  induction h with
  | empty => apply consistent_empty
  | insert _ d ih => apply ih.insert
  | erase _ name ih => apply ih.erase

theorem made_ofDescriptors (ds : List Descriptor) :
  (ofDescriptors ds).Made
  := List.foldlRecOn _ _ Made.empty fun _ h d _ => h.insert d

@[simp]
theorem classes_ofDescriptors (ds : List Descriptor) :
  (ofDescriptors ds).classes = lastDefinitions ds
  := (List.foldl_hom Workspace.classes fun _ _ => rfl).symm

/-- A consistent workspace is made again by its classes, entered in any order. -/
theorem Consistent.ofDescriptors_of_perm {w : Workspace} (h : w.Consistent)
    {ds : List Descriptor} (hds : ds.Perm w.classes.values) :
  ofDescriptors ds = w
  := by
  apply (made_ofDescriptors ds).consistent.ext h
  intro name
  rw [lookup, classes_ofDescriptors, lastDefinitions_of_perm h.named hds]
  rfl

end Workspace

/-! ### Class paths -/

/-- The classes of a class path and its links belong together. -/
def ClassPath.Consistent (path : ClassPath) : Prop :=
  Lineage.Consistent path.classes path.links

/-- Every class path is consistent. -/
theorem ClassPath.consistent_ofDescriptors (ds : List Descriptor) :
  (ClassPath.ofDescriptors ds).Consistent
  where
  named := named_lastDefinitions ds
  mem_subtypes {parent child} := by
    rw [ofDescriptors, SubtypeLinks.mem_subtypes_ofDescriptors]
    constructor
    · rintro ⟨d, hd, rfl, hdeclares⟩
      obtain ⟨name, hd⟩ := NameMap.mem_values.mp hd
      rw [named_lastDefinitions ds hd]
      exact ⟨d, hd, hdeclares⟩
    · rintro ⟨d, hd, hdeclares⟩
      exact ⟨d, NameMap.mem_values_of_get? hd, named_lastDefinitions ds hd, hdeclares⟩
  tight := SubtypeLinks.tight_ofDescriptors _

end Lineage
