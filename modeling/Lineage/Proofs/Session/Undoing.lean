import Lineage.Proofs.Session.Amending
import Lineage.Proofs.Session.Following

/-!
# Undoing an edit

After a class has been entered, an edit that gives it back the definition it had, or takes it out
if it had none, leads to the session there was before, but for the number of edits (`put_undone`).
Nothing is left of the two edits in the links or in the registry, and the vertices hold what they
held.  For the registered vertex of the class this takes that it followed before, as it turns to
what its name resolves to; no other vertex is touched.
-/

namespace Lineage

namespace Diff

/-- The diff of the edit that comes next and undoes all that this one tells. -/
def undone (diff : Diff) : Diff where
  sequence := diff.sequence + 1
  addedClasses := diff.removedClasses
  removedClasses := diff.addedClasses
  modifiedClasses := diff.modifiedClasses
  addedLinks := diff.removedLinks
  removedLinks := diff.addedLinks

/-- A change that is entered the other way round is undone. -/
theorem record_undone (diff : Diff) (old new : Option Descriptor) :
  diff.undone.record new old = (diff.record old new).undone
  := by
  have hmodified : (if new.map Descriptor.name = old.map Descriptor.name ∧ new ≠ old
        then (old.map Descriptor.name).toList else [])
      = if old.map Descriptor.name = new.map Descriptor.name ∧ old ≠ new
        then (new.map Descriptor.name).toList else [] := by
    by_cases hname : old.map Descriptor.name = new.map Descriptor.name
    · rw [hname]
      apply if_congr (and_congr_right fun _ => ne_comm) rfl rfl
    · rw [if_neg (fun h => hname h.1.symm), if_neg (fun h => hname h.1)]
  ext1
  · rw [sequence_record, undone, undone, sequence_record]
  · rw [addedClasses_record, undone, undone, removedClasses_record]
  · rw [removedClasses_record, undone, undone, addedClasses_record]
  · rw [modifiedClasses_record, undone, undone, modifiedClasses_record, hmodified]
  · rw [addedLinks_record, undone, undone, removedLinks_record]
  · rw [removedLinks_record, undone, undone, addedLinks_record]

end Diff

namespace Session

/-- The edit that gives a class the definition it has, or takes it out if it has none. -/
def restoring (s : Session) (name : String) : Edit :=
  match s.workspace.lookup name with
  | some d => .put d
  | none => .remove name

variable {s t : Session} {name : String} {new : Option Descriptor} {d : Descriptor}

theorem Sound.bears_lookup (hs : s.Sound) (name : String) :
  Bears (s.workspace.lookup name) name
  := fun _ hd => hs.workspace.named hd

theorem Sound.restoring_revises (hs : s.Sound) (name : String) :
  (s.restoring name).Revises name (s.workspace.lookup name)
  := by
  rw [restoring]
  cases hd : s.workspace.lookup name with
  | none => apply Edit.Revises.remove
  | some d =>
    obtain rfl := hs.bears_lookup name d hd
    apply Edit.Revises.put

theorem follows_of_data {id : VertexId} (hid : s.vertex? name = some id)
    (hdata : s.vertices.data? id = some d) (hd : s.hierarchy.resolve name = some d) :
  s.Follows name
  := by
  intro i hi
  rw [hid] at hi
  obtain rfl := Option.some.inj hi
  exact ⟨d, hdata, hd⟩

/-- A class that is amended and then given back its definition leaves no trace, if its vertex
followed and has stayed in the registry. -/
theorem Sound.amend_amend (hs : s.Sound) (hf : s.Follows name) (hnew : Bears new name)
    (hkept : s.vertex? name ≠ none → s.prospect name new ≠ none) :
  (s.amend name new).amend name (s.workspace.lookup name) = s
  := by
  have hold := hs.bears_lookup name
  have hvertex : (s.amend name new).vertex? name = s.vertex? name := by
    rw [vertex?_amend]
    split
    · rename_i h
      by_contra hne
      exact hkept (Ne.symm hne) h.2
    · rfl
  have hresolve : s.vertex? name ≠ none → s.hierarchy.resolve name ≠ none := by
    intro hsome hnone
    obtain ⟨id, hid⟩ := Option.ne_none_iff_exists'.mp hsome
    obtain ⟨d, -, hd⟩ := hf id hid
    rw [hnone] at hd
    exact absurd hd (Option.some_ne_none d).symm
  apply ((hs.amend name new).amend name _).ext hs
  case hsequence => rw [sequence_amend, sequence_amend]
  case hpath => rw [classPath_amend, classPath_amend]
  case hoptions => rw [options_amend, options_amend]
  case hlookup =>
    intro a
    rw [lookup_amend hold, lookup_amend hnew]
    split
    · rename_i ha
      rw [ha]
    · rfl
  case hvertex =>
    intro a
    by_cases ha : a = name
    · rw [vertex?_amend, prospect_amend, prospect_lookup, ha, hvertex]
      split
      · rename_i h
        by_contra hne
        exact hresolve (Ne.symm hne) h.2
      · rfl
    · rw [vertex?_amend, vertex?_amend, if_neg (fun h => ha h.1), if_neg (fun h => ha h.1)]
  case hvertices =>
    intro id
    rw [get?_amend hold, get?_amend hnew, hvertex, prospect_amend, prospect_lookup, Option.map_map]
    by_cases hid : s.vertex? name = some id
    · obtain ⟨d, hdata, hd⟩ := hf id hid
      obtain ⟨v, hv, rfl⟩ := Option.map_eq_some_iff.mp hdata
      rw [if_pos hid, if_pos hid, hd, hv]
      rfl
    · rw [if_neg hid, if_neg hid]
      cases s.vertices.get? id <;> rfl

/-- In every session that can come about, let a definition that does not list its own name be
entered, while the registered vertex of its class holds what the name resolves to.  If the
definition that it replaces does not list its own name either, entering that again succeeds; if
there was none, taking the class out again does.  Either leads to the session there was before,
with two edits counted, and its diff tells the contrary of the first one. -/
theorem put_undone (hs : s.Reachable) (hd : ¬ d.declares d.name) (hf : s.Follows d.name)
    (hold : ∀ old, s.workspace.lookup d.name = some old → ¬ old.declares d.name) :
  ∃ diff t, s.put d = .ok (diff, t)
    ∧ t.edit (s.restoring d.name) = .ok (diff.undone, { s with sequence := s.sequence + 2 })
  := by
  have hs := hs.sound
  have hrevises := Edit.Revises.put d
  have hput : s.put d = .ok (s.advance.1.record (s.workspace.lookup d.name) (some d),
      (s.amend d.name (some d)).advance.2) := by
    rw [← amend_advance]
    apply put_eq_ok_iff.mpr ⟨hd, rfl, rfl⟩
  have hlookup : (s.amend d.name (some d)).advance.2.workspace.lookup d.name = some d :=
    (lookup_amend hrevises.bears d.name).trans (if_pos rfl)
  have hrefusal : refusal? d.name (some d) (s.workspace.lookup d.name) = none := by
    apply refusal?_eq_none_iff.mpr
    simpa using hold
  have hdiff : (s.amend d.name (some d)).advance.2.advance.1 = s.advance.1.undone := by
    change Diff.ofSequence ((s.amend d.name (some d)).sequence + 1 + 1) = _
    rw [sequence_amend]
    rfl
  have hback : (s.amend d.name (some d)).amend d.name (s.workspace.lookup d.name) = s := by
    apply hs.amend_amend hf hrevises.bears
    intro _
    apply Option.some_ne_none d
  have hcount : s.advance.2.advance.2 = { s with sequence := s.sequence + 2 } := by
    change { s with sequence := s.sequence + 1 + 1 } = _
    rw [UInt64.add_assoc]
    rfl
  refine ⟨_, _, hput, ?_⟩
  rw [edit_of_revises (hs.restoring_revises d.name), hlookup, hrefusal, amend_advance, hback,
    hdiff, Diff.record_undone, hcount]

/-- A class of the class path has a vertex.  A definition that shadows it is put in the place of
one that does already, and the edits are undone; then it is put in the place of none, and this is
undone as well. -/
theorem put_undone_shadowing :
  let s := (start (Workspace.ofDescriptors [⟨"A", some "R", ["I"]⟩, ⟨"R", some "S", ["I", "S"]⟩])
      (ClassPath.ofDescriptors [⟨"R", none, ["I"]⟩, ⟨"S", none, []⟩]) Options.default).run
    [.register "R", .register "A"]
  let u := s.after (.edit (.remove "R"))
  (∃ diff t, s.put ⟨"R", some "T", ["S"]⟩ = .ok (diff, t)
      ∧ t.edit (.put ⟨"R", some "S", ["I", "S"]⟩)
        = .ok (diff.undone, { s with sequence := s.sequence + 2 }))
    ∧ ∃ diff t, u.put ⟨"R", some "T", ["S"]⟩ = .ok (diff, t)
      ∧ t.edit (.remove "R") = .ok (diff.undone, { u with sequence := u.sequence + 2 })
  := by
  intro s u
  have hs : s.Reachable := (Reachable.opened (.start (Workspace.made_ofDescriptors _) _ _)).run _
  have hu : u.Reachable := hs.after _
  have hid : s.vertex? "R" = some ⟨0⟩ := by decide
  have hid' : u.vertex? "R" = some ⟨0⟩ := by decide
  have hlookup : s.workspace.lookup "R" = some ⟨"R", some "S", ["I", "S"]⟩ := by decide
  have hnone : u.workspace.lookup "R" = none := by decide
  constructor
  · apply put_undone (d := ⟨"R", some "T", ["S"]⟩) hs (by decide)
    · exact follows_of_data hid (by decide) (Hierarchy.resolve_of_lookup hlookup)
    · intro old hold
      rw [hlookup] at hold
      obtain rfl := Option.some.inj hold
      decide
  · apply put_undone (d := ⟨"R", some "T", ["S"]⟩) hu (by decide)
    · exact follows_of_data (d := ⟨"R", none, ["I"]⟩) hid' (by decide) (by decide)
    · intro old hold
      rw [hnone] at hold
      exact absurd hold (Option.some_ne_none old).symm

end Session

end Lineage
