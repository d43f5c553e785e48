import Lineage.Diff
import Lineage.Hierarchy.Basic
import Lineage.Json.Printer
import Lineage.Json.Record

/-!
# The JSON forms of descriptors, links, diffs and origins

Each record is written as an object with its fields in their order; a descriptor leaves out
a superclass that it has not and an empty list of interfaces, and is read back without them.
A list of descriptors is what a descriptor file holds.
-/

namespace Lineage

open Json (Reader Shape Field)

/-! ### Descriptors -/

namespace Descriptor

/-- The fields of a descriptor read so far. -/
structure Slots where
  name : Option String
  /-- The superclass, which may have been given as null. -/
  superName : Option (Option String)
  interfaces : Option (List String)

/-- The descriptor that filled slots make; only the name is needed. -/
def Slots.finish (slots : Slots) : Except String Descriptor :=
  match slots.name with
  | none => .error "name"
  | some name => .ok ⟨name, slots.superName.getD none, slots.interfaces.getD []⟩

/-- The shape of descriptors. -/
def shape : Shape Slots Descriptor where
  name := "ClassDescriptor"
  fields := [
    .ofSlot "name" false Slots.name (fun s v => { s with name := some v }) Reader.string,
    .ofSlot "super_name" true Slots.superName (fun s v => { s with superName := some v })
      (Reader.optional Reader.string),
    .ofSlot "interfaces" true Slots.interfaces (fun s v => { s with interfaces := some v })
      (Reader.list Reader.string)]
  slots := ⟨none, none, none⟩
  finish := Slots.finish

/-- A descriptor as a JSON value. -/
def toJson (d : Descriptor) : Json :=
  .object <|
    [("name", .string d.name)] ++
    (match d.superName with
      | none => []
      | some name => [("super_name", .string name)]) ++
    (if d.interfaces.isEmpty then [] else [("interfaces", Json.strings d.interfaces)])

/-- A list of descriptors as a JSON value. -/
def listToJson (descriptors : List Descriptor) : Json := .array (descriptors.map toJson)

/-- The descriptor that a text holds. -/
def ofText (text : String) : Except Json.Fault Descriptor := shape.reader.run text

/-- The list of descriptors that a text holds. -/
def listOfText (text : String) : Except Json.Fault (List Descriptor) :=
  (Reader.list shape.reader).run text

end Descriptor

/-! ### Links -/

namespace Link

/-- The fields of a link read so far. -/
structure Slots where
  parent : Option String
  child : Option String

/-- The link that filled slots make. -/
def Slots.finish (slots : Slots) : Except String Link := do
  let parent ← slots.parent.elim (.error "parent") .ok
  let child ← slots.child.elim (.error "child") .ok
  return ⟨parent, child⟩

/-- The shape of links. -/
def shape : Shape Slots Link where
  name := "InheritanceLink"
  fields := [
    .ofSlot "parent" false Slots.parent (fun s v => { s with parent := some v })
      Reader.string,
    .ofSlot "child" false Slots.child (fun s v => { s with child := some v })
      Reader.string]
  slots := ⟨none, none⟩
  finish := Slots.finish

/-- A link as a JSON value. -/
def toJson (l : Link) : Json :=
  .object [("parent", .string l.parent), ("child", .string l.child)]

/-- The link that a text holds. -/
def ofText (text : String) : Except Json.Fault Link := shape.reader.run text

end Link

/-! ### Diffs -/

namespace Diff

/-- The fields of a diff read so far. -/
structure Slots where
  sequence : Option UInt64
  addedClasses : Option (List String)
  removedClasses : Option (List String)
  modifiedClasses : Option (List String)
  addedLinks : Option (List Link)
  removedLinks : Option (List Link)

/-- The diff that filled slots make. -/
def Slots.finish (slots : Slots) : Except String Diff := do
  let sequence ← slots.sequence.elim (.error "sequence") .ok
  let addedClasses ← slots.addedClasses.elim (.error "added_classes") .ok
  let removedClasses ← slots.removedClasses.elim (.error "removed_classes") .ok
  let modifiedClasses ← slots.modifiedClasses.elim (.error "modified_classes") .ok
  let addedLinks ← slots.addedLinks.elim (.error "added_links") .ok
  let removedLinks ← slots.removedLinks.elim (.error "removed_links") .ok
  return ⟨sequence, addedClasses, removedClasses, modifiedClasses, addedLinks, removedLinks⟩

/-- The shape of diffs. -/
def shape : Shape Slots Diff where
  name := "HierarchyDiff"
  fields := [
    .ofSlot "sequence" false Slots.sequence (fun s v => { s with sequence := some v })
      Reader.natural64,
    .ofSlot "added_classes" false Slots.addedClasses
      (fun s v => { s with addedClasses := some v }) (Reader.list Reader.string),
    .ofSlot "removed_classes" false Slots.removedClasses
      (fun s v => { s with removedClasses := some v }) (Reader.list Reader.string),
    .ofSlot "modified_classes" false Slots.modifiedClasses
      (fun s v => { s with modifiedClasses := some v }) (Reader.list Reader.string),
    .ofSlot "added_links" false Slots.addedLinks
      (fun s v => { s with addedLinks := some v }) (Reader.list Link.shape.reader),
    .ofSlot "removed_links" false Slots.removedLinks
      (fun s v => { s with removedLinks := some v }) (Reader.list Link.shape.reader)]
  slots := ⟨none, none, none, none, none, none⟩
  finish := Slots.finish

/-- A diff as a JSON value. -/
def toJson (diff : Diff) : Json :=
  .object [
    ("sequence", Json.natural diff.sequence.toNat),
    ("added_classes", Json.strings diff.addedClasses),
    ("removed_classes", Json.strings diff.removedClasses),
    ("modified_classes", Json.strings diff.modifiedClasses),
    ("added_links", .array (diff.addedLinks.map Link.toJson)),
    ("removed_links", .array (diff.removedLinks.map Link.toJson))]

/-- The diff that a text holds. -/
def ofText (text : String) : Except Json.Fault Diff := shape.reader.run text

end Diff

/-! ### Origins -/

namespace Origin

/-- The name by which an origin is written. -/
def name : Origin → String
  | .workspace => "Workspace"
  | .runtime => "Runtime"

/-- The origin of a name. -/
def ofName (text : String) : Except Json.Fault Origin :=
  if text = name .workspace then .ok .workspace
  else if text = name .runtime then .ok .runtime
  else .error (.unknownVariant text (name .workspace) (name .runtime))

/-- An origin as a JSON value. -/
def toJson (origin : Origin) : Json := .string origin.name

/-- Read the name of an origin from its opening quote on. -/
def readName (text : List Char) : Except Json.Fault (Text.Parsed Origin text) :=
  match text with
  | [] => .error .truncated
  | '"' :: rest => do
      let read ← Json.readChars rest
      let origin ← ofName (String.ofList read.value)
      .ok (read.map fun _ => origin).behind
  | _ => .error .malformed

/-- Read the brace that closes an object. -/
def readClosing : Reader Unit := Reader.afterBlanks fun text =>
  match text with
  | [] => .error .truncated
  | '\x7d' :: rest => .ok (.head () '\x7d' rest)
  | _ => .error .malformed

/-- Read an origin: its name, or an object with null under the name. -/
def reader : Reader Origin := Reader.afterBlanks fun text =>
  match text with
  | '\x7b' :: rest => do
      let origin ← Reader.afterBlanks readName rest
      let colon ← Json.readColon origin.rest
      let null ← Reader.null colon.rest
      let closing ← readClosing null.rest
      let after := null.andThen (closing.map fun _ => origin.value).remaining
      .ok (origin.andThen (colon.andThen after.remaining).remaining).behind
  | text => readName text

/-- The origin that a text holds. -/
def ofText (text : String) : Except Json.Fault Origin := reader.run text

end Origin

end Lineage
