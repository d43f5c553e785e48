import Lineage.Loading
import Lineage.Proofs.Files
import Lineage.Proofs.Json.Records

/-!
# Descriptors, links, diffs and origins are read back

Each record is accepted by its shape for what its fields are accepted for.  A superclass that
is not there and an empty list of interfaces are not written, and their slots, which are not
filled, count as just that.  So whatever is written is read back, one value from its text on
one line and a list of descriptors from the file that it was written to
(`reads_what_is_written`).
-/

namespace Lineage

open Json (Reader)
open Json.Shape (Fills)

/-- A list of strings is accepted by the reader of such lists. -/
theorem accepts_strings (texts : List String) :
  (Reader.list Reader.string).Accepts (Json.strings texts) texts
  := Json.accepts_list Json.accepts_string texts

namespace Descriptor

/-- The slots that a written descriptor fills. -/
def filled (d : Descriptor) : Slots where
  name := some d.name
  superName := d.superName.map some
  interfaces := if d.interfaces.isEmpty then none else some d.interfaces

theorem finish_filled (d : Descriptor) :
  d.filled.finish = .ok d
  := by
  obtain ⟨name, superName, interfaces⟩ := d
  cases superName <;> cases interfaces <;> rfl

/-- Every part of a descriptor that is written fills its slot, and the others leave theirs
empty. -/
theorem fills_toJson (d : Descriptor) :
  ∃ members, d.toJson = .object members ∧ shape.Fills shape.slots members d.filled
  := by
  have hname : shape.Fills shape.slots [("name", .string d.name)]
      ⟨some d.name, none, none⟩ := by
    apply Fills.slot rfl rfl (Json.accepts_string d.name)
    apply Fills.nil
  have hsuper : shape.Fills ⟨some d.name, none, none⟩
      (d.superName.elim [] fun name => [("super_name", .string name)])
      ⟨some d.name, d.superName.map some, none⟩ := by
    cases d.superName with
    | none => apply Fills.nil
    | some name =>
      apply Fills.slot rfl rfl (Json.accepts_optional_string name)
      apply Fills.nil
  have hinterfaces : shape.Fills ⟨some d.name, d.superName.map some, none⟩
      (if d.interfaces.isEmpty then [] else [("interfaces", Json.strings d.interfaces)])
      d.filled := by
    rw [filled]
    split
    · apply Fills.nil
    · apply Fills.slot rfl rfl (accepts_strings d.interfaces)
      apply Fills.nil
  refine ⟨_, ?_, (hname.append hsuper).append hinterfaces⟩
  rw [toJson]
  cases d.superName <;> rfl

theorem accepts_toJson (d : Descriptor) :
  shape.reader.Accepts d.toJson d
  := by
  obtain ⟨members, hmembers, hfills⟩ := d.fills_toJson
  rw [hmembers]
  apply Json.Shape.accepts_object hfills d.finish_filled

theorem accepts_listToJson (descriptors : List Descriptor) :
  (Reader.list shape.reader).Accepts (listToJson descriptors) descriptors
  := Json.accepts_list accepts_toJson descriptors

end Descriptor

namespace Link

theorem accepts_toJson (l : Link) :
  shape.reader.Accepts l.toJson l
  := by
  have hfills : shape.Fills shape.slots
      [("parent", .string l.parent), ("child", .string l.child)]
      ⟨some l.parent, some l.child⟩ := by
    apply Fills.slot rfl rfl (Json.accepts_string l.parent)
    apply Fills.slot rfl rfl (Json.accepts_string l.child)
    apply Fills.nil
  apply Json.Shape.accepts_object hfills rfl

end Link

namespace Diff

theorem accepts_toJson (diff : Diff) :
  shape.reader.Accepts diff.toJson diff
  := by
  have hfills : shape.Fills shape.slots
      [("sequence", Json.natural diff.sequence.toNat),
        ("added_classes", Json.strings diff.addedClasses),
        ("removed_classes", Json.strings diff.removedClasses),
        ("modified_classes", Json.strings diff.modifiedClasses),
        ("added_links", .array (diff.addedLinks.map Link.toJson)),
        ("removed_links", .array (diff.removedLinks.map Link.toJson))]
      ⟨some diff.sequence, some diff.addedClasses, some diff.removedClasses,
        some diff.modifiedClasses, some diff.addedLinks, some diff.removedLinks⟩ := by
    apply Fills.slot rfl rfl (Json.accepts_natural64 diff.sequence)
    apply Fills.slot rfl rfl (accepts_strings diff.addedClasses)
    apply Fills.slot rfl rfl (accepts_strings diff.removedClasses)
    apply Fills.slot rfl rfl (accepts_strings diff.modifiedClasses)
    apply Fills.slot rfl rfl (Json.accepts_list Link.accepts_toJson diff.addedLinks)
    apply Fills.slot rfl rfl (Json.accepts_list Link.accepts_toJson diff.removedLinks)
    apply Fills.nil
  apply Json.Shape.accepts_object hfills rfl

end Diff

namespace Origin

theorem ofName_name (origin : Origin) :
  ofName origin.name = .ok origin
  := by
  cases origin <;> rfl

theorem takes_readName (origin : Origin) (rest : List Char) :
  Reader.Takes readName (Json.writeString origin.name ++ rest) origin rest
  := by
  obtain ⟨after, hafter, hchars⟩ := Json.exists_writeString_append origin.name rest
  obtain ⟨shorter, hchars⟩ := hchars.eq_ok
  rw [hafter, Reader.Takes, readName, hchars]
  simp only [bind, Except.bind, String.ofList_toList, ofName_name]
  exact ⟨_, rfl, rfl, rfl⟩

theorem accepts_toJson (origin : Origin) :
  reader.Accepts origin.toJson origin
  where
  starts := (Json.accepts_string origin.name).starts
  takes layout text rest htext _ := by
    have hname := origin.takes_readName rest
    obtain ⟨after, hafter, -⟩ := Json.exists_writeString_append origin.name rest
    rw [toJson, Json.write, hafter] at htext
    rw [hafter] at hname
    apply Reader.Takes.afterBlanks
    rw [htext]
    exact hname

end Origin

/-! ### Texts and files -/

theorem listOfText_descriptorText (descriptors : List Descriptor) :
  Descriptor.listOfText (descriptorText descriptors) = .ok descriptors
  := (Descriptor.accepts_listToJson descriptors).run (.pretty 0)

/-- A file with the text of some descriptors is read as these descriptors. -/
theorem readDescriptors_of_read {files : Files} {path : String} {descriptors : List Descriptor}
    (h : files.read path = .ok (descriptorText descriptors)) :
  readDescriptors files path = .ok descriptors
  := by
  rw [readDescriptors, h]
  dsimp only
  rw [listOfText_descriptorText]
  rfl

theorem write_of_writeDescriptors {tree written : FileTree} {path : String}
    {descriptors : List Descriptor}
    (h : writeDescriptors tree path descriptors = .ok written) :
  tree.write path (descriptorText descriptors) = .ok written
  := by
  rw [writeDescriptors] at h
  cases e : tree.write path (descriptorText descriptors) with
  | error cause =>
    rw [e] at h
    cases h
  | ok new =>
    rw [e] at h
    cases h
    rfl

/-- Descriptors are read back from the file they are written to, and from the text of the file;
and every descriptor, link, diff and origin is read back from its text on one line. -/
theorem reads_what_is_written :
  (∀ tree written path descriptors, writeDescriptors tree path descriptors = .ok written →
    readDescriptors written.files path = .ok descriptors) ∧
  (∀ descriptors, Descriptor.listOfText (descriptorText descriptors) = .ok descriptors) ∧
  (∀ d : Descriptor, Descriptor.ofText d.toJson.compact = .ok d) ∧
  (∀ l : Link, Link.ofText l.toJson.compact = .ok l) ∧
  (∀ diff : Diff, Diff.ofText diff.toJson.compact = .ok diff) ∧
  (∀ origin : Origin, Origin.ofText origin.toJson.compact = .ok origin)
  := by
  refine ⟨?_, listOfText_descriptorText, ?_, ?_, ?_, ?_⟩
  · intro tree written path descriptors h
    have hread := FileTree.read_of_write (write_of_writeDescriptors h)
    apply readDescriptors_of_read hread
  · intro d
    apply d.accepts_toJson.run .compact
  · intro l
    apply l.accepts_toJson.run .compact
  · intro diff
    apply diff.accepts_toJson.run .compact
  · intro origin
    apply origin.accepts_toJson.run .compact

/-- A descriptor whose name is a quote, a backslash and two controls is written to a new file
and read back. -/
theorem reads_what_is_written_escaped :
  ∃ written, writeDescriptors .empty "a.json" [⟨"\"\\\n\x01", none, []⟩] = .ok written ∧
    readDescriptors written.files "a.json" = .ok [⟨"\"\\\n\x01", none, []⟩]
  := by
  have hwrites : (writeDescriptors .empty "a.json" [⟨"\"\\\n\x01", none, []⟩]).isOk = true := by
    decide +kernel
  cases h : writeDescriptors .empty "a.json" [⟨"\"\\\n\x01", none, []⟩] with
  | error e =>
    rw [h] at hwrites
    cases hwrites
  | ok written => exact ⟨written, rfl, reads_what_is_written.1 _ _ _ _ h⟩

end Lineage
