import Lineage.Json.Reader

/-!
# Reading records

A record is written as an object, with its fields in any order and other fields between
them, or as a list of its fields in their order.  The fields read so far are kept in slots;
in an object a field must not be there twice, and at the end the slots must make a record.
Fields that may be missing are the last ones of a record, so a list may end before them.
-/

namespace Lineage.Json

open Text (Parsed length_of_dropWhile_eq_cons shorter_of_notLonger)

/-- A field of a record, to be read into slots. -/
structure Field (σ : Type) where
  key : String
  /-- Whether the record can do without the field. -/
  optional : Bool
  /-- Whether the field has been read. -/
  filled : σ → Bool
  /-- Read the value of the field into the slots. -/
  read : Reader (σ → σ)

/-- A field that goes into one slot, given by how to look at it and how to fill it. -/
def Field.ofSlot {σ α : Type} (key : String) (optional : Bool) (get : σ → Option α)
    (set : σ → α → σ) (read : Reader α) : Field σ where
  key := key
  optional := optional
  filled slots := (get slots).isSome
  read := read.map fun value slots => set slots value

/-- A shape of records: the name of the shape, its fields, the slots before any is read, and
the record that filled slots make, or else the field that is missing. -/
structure Shape (σ α : Type) where
  name : String
  fields : List (Field σ)
  slots : σ
  finish : σ → Except String α

namespace Shape

variable {σ α : Type}

/-- What a reader of the shape expects. -/
def expected (shape : Shape σ α) : String := "struct " ++ shape.name

/-- What a reader of the shape expects of a list. -/
def expectedLength (shape : Shape σ α) : String :=
  shape.expected ++ " with " ++ toString shape.fields.length ++ " elements"

/-- The record that slots make. -/
def record (shape : Shape σ α) (slots : σ) : Except Fault α :=
  (shape.finish slots).mapError .missingField

/-! ### Records as lists -/

/-- Read the fields of a record from the list of their values, given how many were read. -/
def readPositions (shape : Shape σ α) (slots : σ) (count : Nat) (text : List Char) :
    List (Field σ) → Except Fault (Parsed σ text)
  | [] =>
      match h : skipBlanks text with
      | [] => .error .truncated
      | c :: rest =>
          have lt := length_of_dropWhile_eq_cons h
          if c = ']' then .ok ⟨slots, rest, lt⟩ else .error .malformed
  | field :: fields => do
      match ← Reader.nextElement (count = 0) text with
      | .closing rest lt =>
          match (field :: fields).findIdx? (!·.optional) with
          | some index => .error (.invalidLength (count + index) shape.expectedLength)
          | none => .ok ⟨slots, rest, lt⟩
      | .element start le =>
          let ⟨fill, rest, lt⟩ ← field.read start
          let ⟨slots, last, lt'⟩ ← readPositions shape (fill slots) (count + 1) rest fields
          .ok ⟨slots, last, shorter_of_notLonger le lt lt'⟩

/-! ### Records as objects -/

/-- What comes next in an object. -/
inductive Member (text : List Char) where
  /-- Another key, and what is left after it. -/
  | key (name : String) (rest : List Char) (lt : rest.length < text.length)
  /-- The closing bracket, and what is left after it. -/
  | closing (rest : List Char) (lt : rest.length < text.length)

/-- Read a key, quotes and all. -/
def readKey (text : List Char) : Except Fault (Parsed String text) :=
  match text with
  | [] => .error .truncated
  | '"' :: rest => (readChars rest).map fun p => (p.map String.ofList).behind
  | _ => .error .malformed

/-- The key that was read, as what comes next. -/
def Member.ofKey {text : List Char} (p : Parsed String text) : Member text :=
  .key p.value p.rest p.shorter

/-- Look for the next key of an object, after a comma unless it is the first. -/
def nextMember (first : Bool) (text : List Char) : Except Fault (Member text) :=
  match h : skipBlanks text with
  | [] => .error .truncated
  | c :: rest =>
      have lt := length_of_dropWhile_eq_cons h
      if c = '\x7d' then .ok (.closing rest lt)
      else if first then (readKey (c :: rest)).map fun key => .ofKey (key.widen lt)
      else if c = ',' then do
        let comma : Parsed Unit text := ⟨(), rest, lt⟩
        let key ← readKey (skipBlanks comma.rest)
        .ok (.ofKey (comma.andThen (key.widen (skipBlanks_length_le comma.rest)).remaining))
      else .error .malformed

/-- Read the value under the key `name`: into the slots if it is one of the fields, which
must not have been read before, and otherwise only passing over it. -/
def readMember (shape : Shape σ α) (slots : σ) (name : String) (text : List Char) :
    Except Fault (Parsed σ text) :=
  match shape.fields.find? (·.key = name) with
  | none => do
      let colon ← readColon text
      let value ← skipValue colon.rest
      .ok (colon.andThen (value.map fun _ => slots).remaining)
  | some field =>
      if field.filled slots then .error (.duplicateField name)
      else do
        let colon ← readColon text
        let value ← field.read colon.rest
        .ok (colon.andThen (value.map fun fill => fill slots).remaining)

/-- Read the members of an object up to its closing bracket. -/
def readMembers (shape : Shape σ α) (slots : σ) (first : Bool) (text : List Char) :
    Except Fault (Parsed σ text) := do
  match ← nextMember first text with
  | .closing rest lt => .ok ⟨slots, rest, lt⟩
  | .key name start _ =>
      let ⟨slots, rest, _⟩ ← readMember shape slots name start
      let ⟨slots, last, _⟩ ← readMembers shape slots false rest
      .ok ⟨slots, last, by omega⟩
termination_by text.length

/-- Read a record. -/
def reader (shape : Shape σ α) : Reader α := Reader.afterBlanks fun text => do
  let ⟨slots, rest, lt⟩ ← readSlots text
  let value ← shape.record slots
  .ok ⟨value, rest, lt⟩
where
  /-- Read the fields of a record in either form. -/
  readSlots : Reader σ := fun text =>
    match text with
    | '[' :: rest =>
        (readPositions shape shape.slots 0 rest shape.fields).map Parsed.behind
    | '\x7b' :: rest => (readMembers shape shape.slots true rest).map Parsed.behind
    | text => .error (mismatch shape.expected text)

end Shape

end Lineage.Json
