import Lineage.Toml.Scalars
import Lineage.Toml.Strings
import Lineage.Toml.Table

/-!
# Reading TOML documents

A document is a list of lines: headers, and keys with their values.  Arrays may go over
several lines, tables between braces may not.  Arrays and tables in each other, and the keys
of a dotted key, number less than eighty.
-/

namespace Lineage.Toml

open Text (Parsed Remaining length_of_dropWhile_eq_cons)

/-- The text from its first character that is not a blank. -/
def skipBlanks (text : List Char) : List Char := text.dropWhile isBlank

theorem skipBlanks_length_le (text : List Char) :
  (skipBlanks text).length ≤ text.length
  := Text.length_dropWhile_le _ _

/-- Read the character `c` after blanks. -/
def readMark (c : Char) : Reader Unit := fun text =>
  match h : skipBlanks text with
  | [] => none
  | d :: rest =>
      have lt := length_of_dropWhile_eq_cons h
      if d = c then some ⟨(), rest, lt⟩ else none

/-! ### Keys -/

/-- The number that nested values and the parts of a key stay below. -/
def limit : Nat := 80

/-- Whether `c` may stand in a key without quotes. -/
def isKeyChar (c : Char) : Bool :=
  ('0' ≤ c && c ≤ '9') || ('a' ≤ c && c ≤ 'z') || ('A' ≤ c && c ≤ 'Z') || c = '_' || c = '-'

/-- Read one part of a key. -/
def readKeyPart (text : List Char) : Option (Parsed String text) :=
  match text with
  | [] => none
  | c :: rest =>
      if c = '"' ∨ c = '\'' then readShortString (c :: rest)
      else if isKeyChar c then
        some ((Text.takeRun isKeyChar rest).map fun run => String.ofList (c :: run)).behind
      else none

/-- Read the parts of a key that are separated by dots, with blanks around any of them. -/
def readKeyParts (text : List Char) : Option (Parsed (List String) text) := do
  have := skipBlanks_length_le text
  let ⟨part, rest, _⟩ ← readKeyPart (skipBlanks text)
  match readMark '.' rest with
  | none => some ⟨[part], skipBlanks rest, by have := skipBlanks_length_le rest; omega⟩
  | some ⟨_, more, _⟩ => do
      let ⟨parts, last, _⟩ ← readKeyParts more
      some ⟨part :: parts, last, by omega⟩
termination_by text.length

/-- A key: the parts on the way, and the last one. -/
structure Key where
  path : List String
  last : String
deriving DecidableEq, Inhabited

/-- Read a key. -/
def readKey : Reader Key := fun text => do
  let ⟨parts, rest, lt⟩ ← readKeyParts text
  let last ← parts.getLast?
  if parts.length < limit then some ⟨⟨parts.dropLast, last⟩, rest, lt⟩ else none

/-! ### Values -/

/-- The text after the characters of a comment, if it starts with one. -/
def skipComment (text : List Char) : List Char :=
  match text with
  | '#' :: rest => rest.dropWhile isPrintable
  | text => text

theorem skipComment_length_le (text : List Char) :
  (skipComment text).length ≤ text.length
  := by
  unfold skipComment
  split
  · exact Nat.le_succ_of_le (Text.length_dropWhile_le _ _)
  · exact Nat.le_refl _

/-- The text after blanks, comments and line breaks. -/
def skipSpace (text : List Char) : List Char :=
  match lineBreak? (skipComment (skipBlanks text)) with
  | none => skipComment (skipBlanks text)
  | some ⟨_, rest, _⟩ => skipSpace rest
termination_by text.length
decreasing_by
  have := skipBlanks_length_le text
  have := skipComment_length_le (skipBlanks text)
  omega

theorem skipSpace_length_le (text : List Char) :
  (skipSpace text).length ≤ text.length
  := by
  have := skipBlanks_length_le text
  have := skipComment_length_le (skipBlanks text)
  fun_induction skipSpace text with
  | case1 => omega
  | case2 text _ rest lt _ ih =>
    have := skipBlanks_length_le rest
    have := skipComment_length_le (skipBlanks rest)
    omega

/-- The characters of a value without quotes and brackets: a run of them, or two runs with a
space between them, if the first is a date and the second starts with a digit. -/
def bareText (text : List Char) : List Char :=
  let first := text.takeWhile isBareChar
  match text.dropWhile isBareChar with
  | ' ' :: c :: rest =>
      if isDate first ∧ Json.isDigit c then first ++ ' ' :: (c :: rest).takeWhile isBareChar
      else first
  | _ => first

/-- Read a value without quotes and brackets. -/
def readBare : Reader Toml := fun text =>
  match text with
  | [] => none
  | c :: rest =>
      let bare := bareText (c :: rest)
      (bare? bare).map fun value => (Remaining.drop value (bare.length - 1) rest).behind

/-- Read the items of an array up to its closing bracket, after a comma unless they are the
first. -/
def readItems (read : Reader Toml) (text : List Char) : Option (Parsed (List Toml) text) :=
  have := skipSpace_length_le text
  match h : skipSpace text with
  | [] => none
  | c :: rest =>
      if c = ']' then
        some ⟨[], rest, by simp only [h, List.length_cons] at this; omega⟩
      else do
        let ⟨item, rest', _⟩ ← read (c :: rest)
        have := skipSpace_length_le rest'
        match h' : skipSpace rest' with
        | [] => none
        | d :: rest'' =>
            if d = ']' then
              some ⟨[item], rest'', by simp only [h, h', List.length_cons] at *; omega⟩
            else if d = ',' then do
              let ⟨items, last, _⟩ ← readItems read rest''
              some ⟨item :: items, last, by simp only [h, h', List.length_cons] at *; omega⟩
            else none
termination_by text.length
decreasing_by
  simp only [h, h', List.length_cons] at *
  omega

/-- Read the entries of a table between braces, from a key on. -/
def readPairs (read : Reader Toml) (table : Table) (text : List Char) :
    Option (Parsed Table text) := do
  let ⟨key, rest, _⟩ ← readKey text
  let ⟨_, rest', _⟩ ← readMark '=' rest
  let ⟨value, rest'', _⟩ ← read (skipBlanks rest')
  have := skipBlanks_length_le rest'
  let table ← table.add key.path key.last value
  match readMark '\x7d' rest'' with
  | some ⟨_, last, _⟩ => some ⟨table, last, by omega⟩
  | none => do
      let ⟨_, rest₃, _⟩ ← readMark ',' rest''
      let ⟨table, last, _⟩ ← readPairs read table rest₃
      some ⟨table, last, by omega⟩
termination_by text.length

/-- Read a table between braces from its first key or closing brace on. -/
def readTable (read : Reader Toml) : Reader Table := fun text =>
  match readMark '\x7d' text with
  | some closing => some (closing.map fun _ => ⟨.closed, []⟩)
  | none => readPairs read ⟨.closed, []⟩ text

/-- Read a value in which arrays and tables may be nested so deep. -/
def readValue : Nat → Reader Toml
  | depth, text =>
      match text with
      | '"' :: rest => (readString ('"' :: rest)).map (Parsed.map .string)
      | '\'' :: rest => (readString ('\'' :: rest)).map (Parsed.map .string)
      | '[' :: rest =>
          match depth with
          | 0 => none
          | depth + 1 =>
              (readItems (readValue depth) rest).map fun p =>
                (p.map Toml.array).behind
      | '\x7b' :: rest =>
          match depth with
          | 0 => none
          | depth + 1 =>
              (readTable (readValue depth) rest).map fun p =>
                (p.map Table.toToml).behind
      | text => readBare text

/-! ### Lines -/

/-- A line of a document that says something. -/
inductive Line where
  /-- A header in brackets. -/
  | header (key : Key)
  /-- A header in doubled brackets. -/
  | item (key : Key)
  /-- A key and its value. -/
  | pair (key : Key) (value : Toml)

/-- Read a closing bracket. -/
def readBracket : Reader Unit := fun text =>
  match text with
  | ']' :: rest => some (.head () ']' rest)
  | _ => none

/-- Read a header, from its bracket on. -/
def readHeader : Reader Line := fun text =>
  match text with
  | '[' :: '[' :: rest => do
      let key ← readKey rest
      let closing ← readBracket key.rest
      let last ← readBracket closing.rest
      let line := last.map fun _ => Line.item key.value
      some (key.andThen (closing.andThen line.remaining).remaining).behind.behind
  | '[' :: rest => do
      let key ← readKey rest
      let closing ← readBracket key.rest
      some (key.andThen (closing.map fun _ => Line.header key.value).remaining).behind
  | _ => none

/-- Read a key and its value. -/
def readPair : Reader Line := fun text => do
  let ⟨key, rest, _⟩ ← readKey text
  let ⟨_, rest', _⟩ ← readMark '=' rest
  let ⟨value, last, _⟩ ← readValue (limit - 1) (skipBlanks rest')
  have := skipBlanks_length_le rest'
  some ⟨.pair key value, last, by omega⟩

/-- Read the end of a line, before which there may be a comment. -/
def endLine (text : List Char) : Option (Remaining Unit text) :=
  have h := Nat.le_trans (skipComment_length_le (skipBlanks text)) (skipBlanks_length_le text)
  match skipComment (skipBlanks text), h with
  | [], h => some ⟨(), [], h⟩
  | c :: rest, h => (lineBreak? (c :: rest)).map fun p => (p.widen h).remaining

/-- Read the lines of a document. -/
def readLines (text : List Char) : Option (List Line) :=
  match _h : skipSpace text with
  | [] => some []
  | c :: rest => do
      let ⟨line, rest', _⟩ ← if c = '[' then readHeader (c :: rest) else readPair (c :: rest)
      let ⟨_, next, _⟩ ← endLine rest'
      let lines ← readLines next
      some (line :: lines)
termination_by text.length
decreasing_by
  have := skipSpace_length_le text
  simp only [_h, List.length_cons] at *
  omega

/-! ### Documents -/

/-- The document so far, and the table that the last header opened. -/
structure Draft where
  root : Table
  header : List String

/-- The document with one more line. -/
def Draft.extend (d : Draft) : Line → Option Draft
  | .header key => do
      let root ← d.root.openTable key.path key.last
      some ⟨root, key.path ++ [key.last]⟩
  | .item key => do
      let root ← d.root.appendTable key.path key.last
      some ⟨root, key.path ++ [key.last]⟩
  | .pair key value => do
      let root ← d.root.addWithin d.header key.path key.last value
      some ⟨root, d.header⟩

/-- The text without the mark of its encoding, if it starts with that. -/
def dropByteOrderMark : List Char → List Char
  | '\ufeff' :: rest => rest
  | text => text

/-- The entries of the document that a text holds. -/
def ofText (text : String) : Option Entries := do
  let lines ← readLines (dropByteOrderMark text.toList)
  let draft ← lines.foldlM Draft.extend ⟨⟨.header, []⟩, []⟩
  some draft.root.entries

end Lineage.Toml
