import Lineage.Json.Skip

/-!
# Readers of JSON values

A reader takes a value of one shape off the front of a text.  It goes through the text from
front to back and stops at the first fault, so of two faults the one that comes first in the
text is reported: a value of the wrong kind is read to the end of its first token and no
further.
-/

namespace Lineage.Json

open Text (Parsed length_of_dropWhile_eq_cons shorter_of_notLonger shorter_trans)

/-- A reader of values of one shape. -/
abbrev Reader (α : Type) : Type := (text : List Char) → Except Fault (Parsed α text)

/-- The fault of a text that starts with a value of another kind than expected. -/
def mismatch (expected : String) (text : List Char) : Fault :=
  match text with
  | [] => .truncated
  | '[' :: _ => .invalidType .sequence expected
  | '\x7b' :: _ => .invalidType .map expected
  | '"' :: rest =>
      match readChars rest with
      | .ok quoted => .invalidType (.string (String.ofList quoted.value)) expected
      | .error fault => fault
  | 'n' :: rest => word ['u', 'l', 'l'] rest .null
  | 't' :: rest => word ['r', 'u', 'e'] rest (.bool true)
  | 'f' :: rest => word ['a', 'l', 's', 'e'] rest (.bool false)
  | c :: rest =>
      if startsNumber c then
        match readNumber (c :: rest) with
        | .ok ⟨.integer value, _, _⟩ => .invalidType (.integer value) expected
        | .ok ⟨.float text, _, _⟩ => .invalidType (.float text) expected
        | .error fault => fault
      else .malformed
where
  /-- The fault once a word is known by its first letter. -/
  word (letters rest : List Char) (found : Found) : Fault :=
    match readLetters letters rest with
    | .ok _ => .invalidType found expected
    | .error fault => fault

namespace Reader

variable {α β : Type}

/-- The reader that starts at the first character that is not blank. -/
def afterBlanks (read : Reader α) : Reader α := fun text =>
  (read (skipBlanks text)).map fun p => p.widen (skipBlanks_length_le text)

/-- The reader followed by a function of its value. -/
def map (f : α → β) (read : Reader α) : Reader β := fun text =>
  (read text).map (Parsed.map f)

/-- Read a string. -/
def string : Reader String := afterBlanks fun text =>
  match text with
  | '"' :: rest =>
      (readChars rest).map fun p => (p.map String.ofList).behind
  | text => .error (mismatch "a string" text)

/-- Read a null. -/
def null : Reader Unit := afterBlanks fun text =>
  match text with
  | 'n' :: rest => readWord ['u', 'l', 'l'] 'n' rest
  | text => .error (mismatch "unit" text)

/-- Read a null, as no value, or else a value. -/
def optional (read : Reader α) : Reader (Option α) := afterBlanks fun text =>
  match text with
  | 'n' :: rest => (readWord ['u', 'l', 'l'] 'n' rest).map (Parsed.map fun _ => none)
  | text => (read text).map (Parsed.map some)

/-- Read an integer of 64 bits without a sign. -/
def natural64 : Reader UInt64 := afterBlanks fun text =>
  match text with
  | [] => .error .truncated
  | c :: rest =>
      if startsNumber c then do
        let read ← readNumber (c :: rest)
        match read.value with
        | .integer value =>
            if 0 ≤ value then .ok (read.map fun _ => UInt64.ofNat value.toNat)
            else .error (.invalidValue (.integer value) "u64")
        | .float text => .error (.invalidType (.float text) "u64")
      else .error (mismatch "u64" (c :: rest))

/-! ### Lists -/

/-- What comes next in a list. -/
inductive Next (text : List Char) where
  /-- Another element, in the text from here on. -/
  | element (rest : List Char) (le : rest.length ≤ text.length)
  /-- The closing bracket, and what is left after it. -/
  | closing (rest : List Char) (lt : rest.length < text.length)

/-- Look for the next element of a list, after a comma unless it is the first. -/
def nextElement (first : Bool) (text : List Char) : Except Fault (Next text) :=
  match h : skipBlanks text with
  | [] => .error .truncated
  | c :: rest =>
      have lt := length_of_dropWhile_eq_cons h
      if c = ']' then .ok (.closing rest lt)
      else if first then .ok (.element (c :: rest) lt)
      else if c = ',' then
        match h' : skipBlanks rest with
        | [] => .error .truncated
        | d :: rest' =>
            have lt' := length_of_dropWhile_eq_cons h'
            if d = ']' then .error .malformed
            else .ok (.element (d :: rest') (shorter_trans lt lt'))
      else .error .malformed

/-- Read the elements of a list up to its closing bracket. -/
def elements (read : Reader α) (first : Bool) (text : List Char) :
    Except Fault (Parsed (List α) text) := do
  match ← nextElement first text with
  | .closing rest lt => .ok ⟨[], rest, lt⟩
  | .element start le =>
      let ⟨value, rest, lt⟩ ← read start
      let ⟨values, last, lt'⟩ ← elements read false rest
      .ok ⟨value :: values, last, shorter_of_notLonger le lt lt'⟩
termination_by text.length

/-- Read a list. -/
def list (read : Reader α) : Reader (List α) := afterBlanks fun text =>
  match text with
  | '[' :: rest => (elements read true rest).map Parsed.behind
  | text => .error (mismatch "a sequence" text)

/-- Read a text that holds one value and nothing else. -/
def run (read : Reader α) (text : String) : Except Fault α := do
  let ⟨value, rest, _⟩ ← read text.toList
  if (skipBlanks rest).isEmpty then .ok value else .error .malformed

end Reader

end Lineage.Json
