import Lineage.Proofs.Consistency

/-!
# Links under any calls

Definitions can put their links in and take them out in any order, whether or not the links taken
out were put in before, and by the same definition.  A call decides about the links that its
definition declares and leaves the others as they are (`mem_subtypes_after`).  So a link is there
exactly if the last call that was about it put it in, and what is left of the links has no entry
for a supertype without a subtype (`subtypes_exact_of_run`).
-/

namespace Lineage.SubtypeLinks

/-- A call that puts the links of a definition in, or takes them out. -/
inductive Call where
  | insert (d : Descriptor)
  | remove (d : Descriptor)
deriving DecidableEq, Inhabited

/-- The definition with which a call is made. -/
def Call.descriptor : Call → Descriptor
  | .insert d => d
  | .remove d => d

/-- A call is about the link from `parent` to `child` if its definition is that of `child` and
declares `parent`. -/
def Call.IsAbout (call : Call) (parent child : String) : Prop :=
  call.descriptor.name = child ∧ call.descriptor.declares parent

/-- The links after a call. -/
def after (links : SubtypeLinks) : Call → SubtypeLinks
  | .insert d => links.insert d
  | .remove d => links.remove d

/-- The links after some calls, one after the other. -/
def run (links : SubtypeLinks) (calls : List Call) : SubtypeLinks := calls.foldl after links

/-- A call is the last one of a list that is about the link from `parent` to `child`. -/
def LastAbout (calls : List Call) (parent child : String) (call : Call) : Prop :=
  ∃ before later, calls = before ++ call :: later ∧ call.IsAbout parent child
    ∧ ∀ other ∈ later, ¬ other.IsAbout parent child

variable {links : SubtypeLinks} {calls : List Call} {call last : Call} {parent child : String}

/-! ### The last call about a link -/

theorem not_lastAbout_nil :
  ¬ LastAbout [] parent child last
  := by
  rintro ⟨before, later, h, -⟩
  simp at h

/-- One more call is the last one about its own links, and for the others the last one is the same
as before. -/
theorem lastAbout_concat_iff :
  LastAbout (calls ++ [call]) parent child last
    ↔ (call.IsAbout parent child ∧ last = call)
      ∨ (¬ call.IsAbout parent child ∧ LastAbout calls parent child last)
  := by
  constructor
  · rintro ⟨before, later, h, habout, hlater⟩
    cases later using List.reverseRecOn with
    | nil =>
      obtain ⟨-, hcall⟩ := List.append_inj' h rfl
      obtain rfl := List.singleton_inj.mp hcall
      exact Or.inl ⟨habout, rfl⟩
    | append_singleton later other =>
      rw [← List.cons_append, ← List.append_assoc] at h
      obtain ⟨hcalls, hcall⟩ := List.append_inj' h rfl
      obtain rfl := List.singleton_inj.mp hcall
      apply Or.inr
      constructor
      · apply hlater call (List.mem_append_right later List.mem_cons_self)
      · exact ⟨before, later, hcalls, habout,
          fun other hin => hlater other (List.mem_append_left _ hin)⟩
  · rintro (⟨habout, rfl⟩ | ⟨hnot, before, later, rfl, habout, hlater⟩)
    · exact ⟨calls, [], rfl, habout, fun other hin => absurd hin List.not_mem_nil⟩
    · refine ⟨before, later ++ [call], by simp, habout, ?_⟩
      intro other hin
      rcases List.mem_append.mp hin with hin | hin
      · apply hlater other hin
      · rw [List.mem_singleton.mp hin]
        apply hnot

/-! ### Links after calls -/

/-- A call puts in or takes out the links that it is about, and no other. -/
theorem mem_subtypes_after :
  child ∈ (links.after call).subtypes parent
    ↔ (call.IsAbout parent child ∧ ∃ d, call = .insert d)
      ∨ (¬ call.IsAbout parent child ∧ child ∈ links.subtypes parent)
  := by
  cases call with
  | insert d =>
    rw [after, mem_subtypes_insert, eq_comm (a := child)]
    change (Call.IsAbout (.insert d) parent child ∨ _) ↔ _
    by_cases habout : Call.IsAbout (.insert d) parent child <;> simp [habout]
  | remove d =>
    rw [after, mem_subtypes_remove, eq_comm (a := child)]
    change (_ ∧ ¬ Call.IsAbout (.remove d) parent child) ↔ _
    by_cases habout : Call.IsAbout (.remove d) parent child <;> simp [habout]

theorem run_concat (links : SubtypeLinks) (calls : List Call) (call : Call) :
  links.run (calls ++ [call]) = (links.run calls).after call
  := List.foldl_concat ..

/-- A link is there after some calls exactly if the last one about it put it in, or none was
about it and it was there before. -/
theorem mem_subtypes_run :
  child ∈ (links.run calls).subtypes parent
    ↔ (∃ d, LastAbout calls parent child (.insert d))
      ∨ ((∀ call ∈ calls, ¬ call.IsAbout parent child) ∧ child ∈ links.subtypes parent)
  := by
  induction calls using List.reverseRecOn with
  | nil => simp [run, not_lastAbout_nil]
  | append_singleton calls call ih =>
    rw [run_concat, mem_subtypes_after, ih]
    simp only [lastAbout_concat_iff, List.forall_mem_append, List.forall_mem_singleton]
    by_cases habout : call.IsAbout parent child
    · simp [habout, eq_comm]
    · simp [habout]

theorem Tight.after (h : links.Tight) (call : Call) :
  (links.after call).Tight
  := by
  cases call with
  | insert d => apply h.insert
  | remove d => apply h.remove

theorem Tight.run (h : links.Tight) (calls : List Call) :
  (links.run calls).Tight
  := List.foldlRecOn _ _ h fun _ h call _ => h.after call

/-- Links without empty entries are empty exactly if there is no link. -/
theorem Tight.isEmpty_iff (h : links.Tight) :
  links.isEmpty ↔ ∀ parent child, child ∉ links.subtypes parent
  := by
  rw [isEmpty, NameMap.isEmpty_iff]
  apply forall_congr'
  intro parent
  rw [h.get?_eq, ← NameSet.isEmpty_iff]
  split
  · rename_i hempty
    simp [hempty]
  · rename_i hempty
    simp [hempty]

/-- After any calls, beginning without a link, a class is among the subtypes of a name exactly if
the last call with a definition of the class that declares the name put the links of this
definition in.  Subtypes are listed in strictly ascending order.  The links are empty exactly if
no class is a subtype of a name, and every entry that is left in them has a subtype. -/
theorem subtypes_exact_of_run (calls : List Call) :
  let links := (∅ : SubtypeLinks).run calls
  (∀ parent child, child ∈ (links.subtypes parent).toList
      ↔ ∃ before d later, calls = before ++ .insert d :: later
        ∧ d.name = child ∧ d.declares parent
        ∧ ∀ call ∈ later, ¬ (call.descriptor.name = child ∧ call.descriptor.declares parent))
    ∧ (∀ parent, (links.subtypes parent).toList.Pairwise (· < ·))
    ∧ (links.isEmpty ↔ ∀ parent child, child ∉ (links.subtypes parent).toList)
    ∧ ∀ parent children, links.table.get? parent = some children → children.toList ≠ []
  := by
  intro links
  have htight : links.Tight := tight_empty.run calls
  refine ⟨?_, ?_, ?_, ?_⟩
  · intro parent child
    rw [NameSet.mem_toList, mem_subtypes_run]
    simp only [subtypes_empty, NameSet.not_mem_empty, and_false, or_false]
    constructor
    · rintro ⟨d, before, later, hcalls, ⟨hname, hdeclares⟩, hlater⟩
      exact ⟨before, d, later, hcalls, hname, hdeclares, hlater⟩
    · rintro ⟨before, d, later, hcalls, hname, hdeclares, hlater⟩
      exact ⟨d, before, later, hcalls, ⟨hname, hdeclares⟩, hlater⟩
  · intro parent
    apply (links.subtypes parent).ascending
  · apply htight.isEmpty_iff
  · intro parent children h
    obtain ⟨child, hchild⟩ := htight parent children h
    apply List.ne_nil_of_mem hchild

/-- A class is put in twice, and taken out by a third definition, which takes away one of the
links of each and nothing of what it does not declare. -/
example :
  let links := (∅ : SubtypeLinks).run [.insert ⟨"A", some "B", ["I"]⟩,
    .insert ⟨"A", some "C", ["I", "C"]⟩, .remove ⟨"A", some "I", ["C", "U"]⟩]
  (links.subtypes "B").toList = ["A"] ∧ links.table.keys.toList = ["B"] ∧ links.isEmpty = false
  := by decide

end Lineage.SubtypeLinks
