import Lineage.Diff
import Lineage.Proofs.Consistency
import Lineage.Proofs.Descriptor

/-!
# Diffs as differences

Entering one class in a diff leaves it as it is, or enters the class as modified, or else enters
what there is of its definitions as removed and added (`Diff.record_cases`).  In each case this
adds the difference of the two definitions to every list (`Diff.record_exact`).

A diff is `Between` two workspaces when its lists are the differences of the two.  Changing a
class that has been left alone so far and entering it leads from such a diff to another one
(`Between.record`), so a diff that has every changed class entered once is the difference of
the workspaces before and after.
-/

namespace Lineage

/-- The links declared by a definition, if there is one. -/
def linksOf (d : Option Descriptor) : List Link := d.elim [] Descriptor.links

theorem Descriptor.mem_links {d : Descriptor} {l : Link} :
  l ∈ d.links ↔ l.child = d.name ∧ d.declares l.parent
  := by
  rw [links, List.mem_map]
  constructor
  · rintro ⟨parent, hparent, rfl⟩
    exact ⟨rfl, mem_supertypes.mp hparent⟩
  · rintro ⟨hchild, hparent⟩
    use l.parent, mem_supertypes.mpr hparent
    rw [← hchild]

theorem nodup_linksOf (d : Option Descriptor) :
  (linksOf d).Nodup
  := by
  cases d with
  | none => apply List.nodup_nil
  | some d =>
    apply d.nodup_supertypes.map
    intro p q h
    exact congrArg Link.parent h

/-- A definition, if there is one, is of the class `name`. -/
def Bears (d : Option Descriptor) (name : String) : Prop := ∀ e, d = some e → e.name = name

section Bears

variable {d e : Option Descriptor} {name a : String}

/-- The links declared by a definition of a class lead to that class. -/
theorem Bears.child_eq (hd : Bears d name) {l : Link} (h : l ∈ linksOf d) :
  l.child = name
  := by
  cases d with
  | none => exact absurd h List.not_mem_nil
  | some d =>
    rw [(Descriptor.mem_links.mp h).1]
    apply hd d rfl

theorem Bears.mem_map_name (hd : Bears d name) :
  a ∈ (d.map Descriptor.name).toList ↔ a = name ∧ d ≠ none
  := by
  cases d with
  | none => simp
  | some d => simp [hd d rfl, eq_comm]

theorem Bears.map_name_ne_some_iff (hd : Bears d name) :
  d.map Descriptor.name ≠ some name ↔ d = none
  := by
  cases d with
  | none => simp
  | some d => simp [hd d rfl]

theorem Bears.map_name_eq_iff (hd : Bears d name) (he : Bears e name) :
  d.map Descriptor.name = e.map Descriptor.name ↔ (d = none ↔ e = none)
  := by
  cases d with
  | none => cases e <;> simp
  | some d =>
    cases e with
    | none => simp
    | some e => simp [hd d rfl, he e rfl]

end Bears

/-- The class of a link is the one that declares it. -/
theorem map_name_of_mem_linksOf {d : Option Descriptor} {l : Link} (h : l ∈ linksOf d) :
  d.map Descriptor.name = some l.child
  := by
  cases d with
  | none => exact absurd h List.not_mem_nil
  | some d => rw [Option.map_some, (Descriptor.mem_links.mp h).1]

/-- No link of one class is a link of another. -/
theorem filter_linksOf_of_name_ne {d e : Option Descriptor}
    (h : d.map Descriptor.name ≠ e.map Descriptor.name) :
  (linksOf d).filter (· ∉ linksOf e) = linksOf d
  := by
  apply List.filter_eq_self.mpr
  intro l hl
  apply decide_eq_true
  intro he
  apply h
  rw [map_name_of_mem_linksOf hl, map_name_of_mem_linksOf he]

/-- The links that one definition of a class has and another one has not are those of its
supertypes that the other one has not. -/
theorem filter_linksOf_of_name_eq {d e : Descriptor} (h : d.name = e.name) :
  (linksOf (some d)).filter (· ∉ linksOf (some e))
    = (d.supertypes.filter (· ∉ e.supertypes)).map fun parent => ⟨parent, d.name⟩
  := by
  have hlinks : linksOf (some d) = d.supertypes.map fun parent => ⟨parent, d.name⟩ := rfl
  rw [hlinks, List.filter_map]
  congr 1
  apply List.filter_congr
  intro parent _
  have hmem : (⟨parent, d.name⟩ : Link) ∈ linksOf (some e) ↔ parent ∈ e.supertypes := by
    rw [Descriptor.mem_supertypes]
    apply Descriptor.mem_links.trans
    rw [and_iff_right h]
  rw [Function.comp_apply, decide_eq_decide, hmem]

theorem filter_linksOf_self (d : Option Descriptor) :
  (linksOf d).filter (· ∉ linksOf d) = []
  := by
  apply List.filter_eq_nil_iff.mpr
  intro l hl
  rw [decide_eq_true_eq]
  exact not_not_intro hl

theorem filter_toList_self (name : Option String) :
  name.toList.filter (name ≠ some ·) = []
  := by
  cases name <;> simp

theorem filter_toList_of_ne {name other : Option String} (h : other ≠ name) :
  name.toList.filter (other ≠ some ·) = name.toList
  := by
  cases name with
  | none => rfl
  | some name => simpa using h

/-! ### Lists that enumerate -/

/-- A list has the entries with a property, each once. -/
def Enumerates {α : Type} (list : List α) (P : α → Prop) : Prop :=
  list.Nodup ∧ ∀ a, a ∈ list ↔ P a

section Enumerates

variable {α : Type} {xs ys : List α} {P Q : α → Prop}

theorem enumerates_nil :
  Enumerates ([] : List α) fun _ => False
  := by
  constructor
  · apply List.nodup_nil
  · intro a
    apply iff_of_false List.not_mem_nil id

theorem Enumerates.eq_nil (h : Enumerates xs P) (hP : ∀ a, ¬ P a) :
  xs = []
  := by
  apply List.eq_nil_iff_forall_not_mem.mpr
  intro a hin
  exact hP a ((h.2 a).mp hin)

theorem Enumerates.eq_singleton {b : α} (h : Enumerates xs P) (hP : ∀ a, P a ↔ a = b) :
  xs = [b]
  := by
  apply List.perm_singleton.mp
  apply (List.perm_ext_iff_of_nodup h.1 (List.nodup_singleton b)).mpr
  intro a
  rw [h.2, hP, List.mem_singleton]

theorem Enumerates.congr (h : Enumerates xs P) (hPQ : ∀ a, P a ↔ Q a) :
  Enumerates xs Q
  := by
  use h.1
  intro a
  rw [h.2, hPQ]

theorem Enumerates.append (hx : Enumerates xs P) (hy : Enumerates ys Q)
    (hne : ∀ a, P a → ¬ Q a) :
  Enumerates (xs ++ ys) fun a => P a ∨ Q a
  := by
  constructor
  · apply hx.1.append hy.1
    intro a hax hay
    exact hne a ((hx.2 a).mp hax) ((hy.2 a).mp hay)
  · intro a
    rw [List.mem_append, hx.2, hy.2]

/-- Let a list have the entries that tell how the definitions of names have changed, and
another one those for a further change of one name, which had not changed before.  Then
together they have the entries for all changes. -/
theorem Enumerates.append_changed (key : α → String)
    (Tells : α → Option Descriptor → Option Descriptor → Prop)
    {before middle after : String → Option Descriptor} {name : String} {new : Option Descriptor}
    (hx : Enumerates xs fun a => Tells a (before (key a)) (middle (key a)))
    (hname : middle name = before name)
    (hafter : ∀ a, after a = if a = name then new else middle a)
    (hy : Enumerates ys fun a => key a = name ∧ Tells a (before name) new)
    (hsame : ∀ a d, ¬ Tells a d d) :
  Enumerates (xs ++ ys) fun a => Tells a (before (key a)) (after (key a))
  := by
  apply (hx.append hy _).congr
  · intro a
    by_cases ha : key a = name
    · simp [hafter, ha, hname, hsame]
    · simp [hafter, ha]
  · rintro a hbefore ⟨ha, -⟩
    rw [ha, hname] at hbefore
    exact hsame a _ hbefore

/-- The links of a class that only the second of its two definitions declares. -/
theorem Bears.enumerates_newLinks {new : Option Descriptor} {name : String} (hnew : Bears new name)
    {old : Option Descriptor} :
  Enumerates ((linksOf new).filter (· ∉ linksOf old))
    fun l => l.child = name ∧ l ∈ linksOf new ∧ l ∉ linksOf old
  := by
  constructor
  · apply (nodup_linksOf new).filter
  · intro l
    rw [List.mem_filter, decide_eq_true_eq, iff_and_self]
    rintro ⟨hin, -⟩
    apply hnew.child_eq hin

/-- The name of a class, if only the one of its two definitions is there. -/
theorem Bears.enumerates_newName {old new : Option Descriptor} {name : String}
    (hold : Bears old name) (hnew : Bears new name) :
  Enumerates ((new.map Descriptor.name).toList.filter (old.map Descriptor.name ≠ some ·))
    fun a => a = name ∧ old = none ∧ new ≠ none
  := by
  constructor
  · apply List.Nodup.filter
    cases new <;> simp
  · intro a
    rw [List.mem_filter, hnew.mem_map_name, decide_eq_true_eq]
    constructor
    · rintro ⟨⟨rfl, hsome⟩, hnone⟩
      exact ⟨rfl, hold.map_name_ne_some_iff.mp hnone, hsome⟩
    · rintro ⟨rfl, hnone, hsome⟩
      exact ⟨⟨rfl, hsome⟩, hold.map_name_ne_some_iff.mpr hnone⟩

/-- The name of a class, if both of its definitions are there and they are different. -/
theorem Bears.enumerates_commonName {old new : Option Descriptor} {name : String}
    (hold : Bears old name) (hnew : Bears new name) :
  Enumerates (if old.map Descriptor.name = new.map Descriptor.name ∧ old ≠ new
      then (new.map Descriptor.name).toList else [])
    fun a => a = name ∧ old ≠ none ∧ new ≠ none ∧ old ≠ new
  := by
  constructor
  · cases new <;> split <;> simp
  · intro a
    rw [List.mem_ite_nil_right, hnew.mem_map_name, hold.map_name_eq_iff hnew]
    tauto

end Enumerates

attribute [ext] Diff

namespace Diff

variable {diff : Diff}

/-! ### What is entered for one class -/

/-- The diff with one definition entered as removed and another one as added, so far as they
are there. -/
def replaceClass (diff : Diff) (old new : Option Descriptor) : Diff :=
  { diff with
    addedClasses := diff.addedClasses ++ (new.map Descriptor.name).toList
    removedClasses := diff.removedClasses ++ (old.map Descriptor.name).toList
    addedLinks := diff.addedLinks ++ linksOf new
    removedLinks := diff.removedLinks ++ linksOf old }

theorem record_of_ne {old new : Descriptor} (hname : old.name = new.name) (h : old ≠ new) :
  diff.record (some old) (some new) = diff.modifyClass old new
  := by
  simp only [record, hname, h, ne_eq, not_true_eq_false, if_false]

/-- Definitions of two classes are entered as a class removed and a class added. -/
theorem record_of_name_ne {old new : Descriptor} (h : old.name ≠ new.name) :
  diff.record (some old) (some new) = (diff.record (some old) none).record none (some new)
  := by
  simp only [record, if_pos h]

/-- A class that stays is not entered, and one with another definition of the same name is
entered as modified.  In any other case, what there is of the definitions is entered as removed
and as added. -/
theorem record_cases (diff : Diff) (old new : Option Descriptor) :
  (old = new ∧ diff.record old new = diff)
  ∨ (∃ before after, old = some before ∧ new = some after ∧ before.name = after.name
    ∧ before ≠ after ∧ diff.record old new = diff.modifyClass before after)
  ∨ (old.map Descriptor.name ≠ new.map Descriptor.name
    ∧ diff.record old new = diff.replaceClass old new)
  := by
  match old, new with
  | none, none => exact Or.inl ⟨rfl, rfl⟩
  | none, some new =>
    refine Or.inr (Or.inr ⟨by simp, ?_⟩)
    simp [record, replaceClass, addClass, linksOf]
  | some old, none =>
    refine Or.inr (Or.inr ⟨by simp, ?_⟩)
    simp [record, replaceClass, removeClass, linksOf]
  | some old, some new =>
    by_cases hname : old.name = new.name
    · by_cases h : old = new
      · subst h
        exact Or.inl ⟨rfl, by simp [record]⟩
      · exact Or.inr (Or.inl ⟨old, new, rfl, rfl, hname, h, record_of_ne hname h⟩)
    · refine Or.inr (Or.inr ⟨by simpa using hname, ?_⟩)
      rw [record_of_name_ne hname]
      rfl

theorem sequence_record (old new : Option Descriptor) :
  (diff.record old new).sequence = diff.sequence
  := by
  obtain ⟨-, e⟩ | ⟨_, _, -, -, -, -, e⟩ | ⟨-, e⟩ := diff.record_cases old new <;> rw [e] <;> rfl

/-- The links added are those of the definition afterwards that the one before lacks. -/
theorem addedLinks_record (old new : Option Descriptor) :
  (diff.record old new).addedLinks
    = diff.addedLinks ++ (linksOf new).filter (· ∉ linksOf old)
  := by
  obtain ⟨rfl, e⟩ | ⟨_, _, rfl, rfl, hname, -, e⟩ | ⟨hname, e⟩ := diff.record_cases old new
  · rw [e, filter_linksOf_self, List.append_nil]
  · rw [e, filter_linksOf_of_name_eq hname.symm]
    rfl
  · rw [e, filter_linksOf_of_name_ne hname.symm]
    rfl

/-- The links removed are those of the definition before that the one afterwards lacks. -/
theorem removedLinks_record (old new : Option Descriptor) :
  (diff.record old new).removedLinks
    = diff.removedLinks ++ (linksOf old).filter (· ∉ linksOf new)
  := by
  obtain ⟨rfl, e⟩ | ⟨_, _, rfl, rfl, hname, -, e⟩ | ⟨hname, e⟩ := diff.record_cases old new
  · rw [e, filter_linksOf_self, List.append_nil]
  · rw [e, filter_linksOf_of_name_eq hname]
    rfl
  · rw [e, filter_linksOf_of_name_ne hname]
    rfl

/-- A class is added if only the definition afterwards bears its name. -/
theorem addedClasses_record (old new : Option Descriptor) :
  (diff.record old new).addedClasses
    = diff.addedClasses
      ++ (new.map Descriptor.name).toList.filter (old.map Descriptor.name ≠ some ·)
  := by
  obtain ⟨rfl, e⟩ | ⟨_, _, rfl, rfl, hname, -, e⟩ | ⟨hname, e⟩ := diff.record_cases old new
  · rw [e, filter_toList_self, List.append_nil]
  · simp [e, modifyClass, hname]
  · rw [e, filter_toList_of_ne hname]
    rfl

/-- A class is removed if only the definition before bears its name. -/
theorem removedClasses_record (old new : Option Descriptor) :
  (diff.record old new).removedClasses
    = diff.removedClasses
      ++ (old.map Descriptor.name).toList.filter (new.map Descriptor.name ≠ some ·)
  := by
  obtain ⟨rfl, e⟩ | ⟨_, _, rfl, rfl, hname, -, e⟩ | ⟨hname, e⟩ := diff.record_cases old new
  · rw [e, filter_toList_self, List.append_nil]
  · simp [e, modifyClass, hname]
  · rw [e, filter_toList_of_ne hname.symm]
    rfl

/-- A class is modified if both definitions bear its name and they are different. -/
theorem modifiedClasses_record (old new : Option Descriptor) :
  (diff.record old new).modifiedClasses
    = diff.modifiedClasses
      ++ (if old.map Descriptor.name = new.map Descriptor.name ∧ old ≠ new
          then (new.map Descriptor.name).toList else [])
  := by
  obtain ⟨rfl, e⟩ | ⟨_, _, rfl, rfl, hname, hne, e⟩ | ⟨hname, e⟩ := diff.record_cases old new
  · simp [e]
  · simp [e, modifyClass, hname, hne]
  · simp [e, replaceClass, hname]

/-- Entering a class, by its definitions before and after, either of which may be missing, keeps
the number of a diff and all its entries, and adds at the end of its lists: the links of the
definition afterwards that the one before has not, and the other way round, each in their order;
the name that only the one of the two definitions bears; and the name that both bear, if they
differ in anything at all. -/
theorem record_exact (diff : Diff) (old new : Option Descriptor) :
  (diff.record old new).sequence = diff.sequence
  ∧ (diff.record old new).addedLinks
    = diff.addedLinks ++ (linksOf new).filter (· ∉ linksOf old)
  ∧ (diff.record old new).removedLinks
    = diff.removedLinks ++ (linksOf old).filter (· ∉ linksOf new)
  ∧ (diff.record old new).addedClasses
    = diff.addedClasses
      ++ (new.map Descriptor.name).toList.filter (old.map Descriptor.name ≠ some ·)
  ∧ (diff.record old new).removedClasses
    = diff.removedClasses
      ++ (old.map Descriptor.name).toList.filter (new.map Descriptor.name ≠ some ·)
  ∧ (diff.record old new).modifiedClasses
    = diff.modifiedClasses
      ++ (if old.map Descriptor.name = new.map Descriptor.name ∧ old ≠ new
          then (new.map Descriptor.name).toList else [])
  := ⟨sequence_record old new, addedLinks_record old new, removedLinks_record old new,
    addedClasses_record old new, removedClasses_record old new, modifiedClasses_record old new⟩

/-! ### Diffs between two workspaces -/

/-- The lists of a diff are the differences of two workspaces. -/
structure Between (diff : Diff) (before after : Workspace) : Prop where
  addedClasses : Enumerates diff.addedClasses fun name =>
    before.lookup name = none ∧ after.lookup name ≠ none
  removedClasses : Enumerates diff.removedClasses fun name =>
    before.lookup name ≠ none ∧ after.lookup name = none
  modifiedClasses : Enumerates diff.modifiedClasses fun name =>
    before.lookup name ≠ none ∧ after.lookup name ≠ none
      ∧ before.lookup name ≠ after.lookup name
  addedLinks : Enumerates diff.addedLinks fun l =>
    l ∈ linksOf (after.lookup l.child) ∧ l ∉ linksOf (before.lookup l.child)
  removedLinks : Enumerates diff.removedLinks fun l =>
    l ∈ linksOf (before.lookup l.child) ∧ l ∉ linksOf (after.lookup l.child)

/-- A diff without entries is between a workspace and itself. -/
theorem between_ofSequence (sequence : UInt64) (w : Workspace) :
  (ofSequence sequence).Between w w
  where
  addedClasses := enumerates_nil.congr (by tauto)
  removedClasses := enumerates_nil.congr (by tauto)
  modifiedClasses := enumerates_nil.congr (by tauto)
  addedLinks := enumerates_nil.congr (by tauto)
  removedLinks := enumerates_nil.congr (by tauto)

variable {before middle after : Workspace} {name : String} {l : Link} {new : Option Descriptor}

theorem Between.mem_addedClasses (h : diff.Between before after) :
  name ∈ diff.addedClasses ↔ before.lookup name = none ∧ after.lookup name ≠ none
  := h.addedClasses.2 name

theorem Between.mem_removedClasses (h : diff.Between before after) :
  name ∈ diff.removedClasses ↔ before.lookup name ≠ none ∧ after.lookup name = none
  := h.removedClasses.2 name

theorem Between.mem_modifiedClasses (h : diff.Between before after) :
  name ∈ diff.modifiedClasses ↔ before.lookup name ≠ none ∧ after.lookup name ≠ none
    ∧ before.lookup name ≠ after.lookup name
  := h.modifiedClasses.2 name

theorem Between.mem_addedLinks (h : diff.Between before after) :
  l ∈ diff.addedLinks
    ↔ l ∈ linksOf (after.lookup l.child) ∧ l ∉ linksOf (before.lookup l.child)
  := h.addedLinks.2 l

theorem Between.mem_removedLinks (h : diff.Between before after) :
  l ∈ diff.removedLinks
    ↔ l ∈ linksOf (before.lookup l.child) ∧ l ∉ linksOf (after.lookup l.child)
  := h.removedLinks.2 l

/-- Let a diff be between two workspaces in which a class is the same.  With a change of this
class entered it is between the first workspace and the second one changed in this class. -/
theorem Between.record (h : diff.Between before middle) (hbefore : Named before.classes)
    (hname : middle.lookup name = before.lookup name) (hnew : Bears new name)
    (hafter : ∀ a, after.lookup a = if a = name then new else middle.lookup a) :
  (diff.record (before.lookup name) new).Between before after
  := by
  have hold : Bears (before.lookup name) name := fun d hd => hbefore hd
  constructor
  case addedClasses =>
    rw [addedClasses_record]
    apply h.addedClasses.append_changed id (fun _ d e => d = none ∧ e ≠ none) hname hafter
    · apply hold.enumerates_newName hnew
    · rintro _ d ⟨hnone, hsome⟩
      exact hsome hnone
  case removedClasses =>
    rw [removedClasses_record]
    apply h.removedClasses.append_changed id (fun _ d e => d ≠ none ∧ e = none) hname hafter
    · apply (hnew.enumerates_newName hold).congr
      intro a
      rw [and_comm (a := new = none)]
      rfl
    · rintro _ d ⟨hsome, hnone⟩
      exact hsome hnone
  case modifiedClasses =>
    rw [modifiedClasses_record]
    apply h.modifiedClasses.append_changed id (fun _ d e => d ≠ none ∧ e ≠ none ∧ d ≠ e)
      hname hafter
    · apply hold.enumerates_commonName hnew
    · rintro _ d ⟨-, -, hne⟩
      exact hne rfl
  case addedLinks =>
    rw [addedLinks_record]
    apply h.addedLinks.append_changed Link.child (fun l d e => l ∈ linksOf e ∧ l ∉ linksOf d)
      hname hafter
    · apply hnew.enumerates_newLinks
    · rintro l d ⟨hin, hout⟩
      exact hout hin
  case removedLinks =>
    rw [removedLinks_record]
    apply h.removedLinks.append_changed Link.child (fun l d e => l ∈ linksOf d ∧ l ∉ linksOf e)
      hname hafter
    · apply hold.enumerates_newLinks
    · rintro l d ⟨hin, hout⟩
      exact hout hin

end Diff

end Lineage
