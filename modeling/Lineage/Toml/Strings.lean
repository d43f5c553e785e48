import Lineage.Json.Strings
import Lineage.Toml.Value

/-!
# Strings of TOML

Strings in double quotes know escapes after a backslash, strings in single quotes none.
Between tripled quotes a string may go over several lines: a line break right after the
opening quotes is dropped, one or two quotes may stand anywhere, also right before the closing
ones, and a backslash at the end of a line joins it to the next text.
-/

namespace Lineage.Toml

open Json (hexDigit)
open Text (Parsed Remaining length_of_dropWhile_eq_cons)

/-- A reader of a document that fails without saying why. -/
abbrev Reader (α : Type) : Type := (text : List Char) → Option (Parsed α text)

/-- Whether `c` is a blank within a line. -/
def isBlank (c : Char) : Bool := c = ' ' || c = '\t'

/-- Whether `c` may stand in a comment, and in strings but for their quotes. -/
def isPrintable (c : Char) : Bool :=
  c = '\t' || (' ' ≤ c && c ≤ '~') || 0x80 ≤ c.toNat

/-- A line break at the front of a text, and what is left after it. -/
def lineBreak? : Reader Unit := fun text =>
  match text with
  | '\n' :: rest => some (.head () '\n' rest)
  | '\r' :: '\n' :: rest => some (Parsed.head () '\n' rest).behind
  | _ => none

/-! ### Escapes -/

/-- The code point that the first `count` characters denote in base sixteen. -/
def hexValue? (count : Nat) (text : List Char) : Option Nat := do
  let digits ← (text.take count).mapM hexDigit
  if digits.length = count then some (digits.foldl (fun n d => n * 16 + d) 0) else none

/-- The character with a code point, unless there is none. -/
def scalar? (code : Nat) : Option Char :=
  if Nat.isValidChar code then some (Char.ofNat code) else none

/-- Read a code point of so many hexadecimal digits. -/
def readCode (count : Nat) (text : List Char) : Option (Remaining Char text) := do
  let c ← (hexValue? count text).bind scalar?
  some (.drop c count text)

/-- The character that a letter stands for after a backslash. -/
def escaped : Char → Option Char
  | 'b' => some '\x08'
  | 't' => some '\t'
  | 'n' => some '\n'
  | 'f' => some '\x0c'
  | 'r' => some '\r'
  | '"' => some '"'
  | '\\' => some '\\'
  | _ => none

/-- The number of hexadecimal digits that follow a letter after a backslash. -/
def codeLength? : Char → Option Nat
  | 'u' => some 4
  | 'U' => some 8
  | _ => none

/-- Read what follows a backslash. -/
def readEscape : Reader Char := fun text =>
  match text with
  | [] => none
  | c :: rest =>
      match escaped c with
      | some d => some (.head d c rest)
      | none => do
          let count ← codeLength? c
          (readCode count rest).map Remaining.behind

/-! ### Strings on one line -/

/-- Whether `c` stands for itself in a string between double quotes. -/
def isBasicChar (c : Char) : Bool := isPrintable c && c ≠ '"' && c ≠ '\\'

/-- Whether `c` may stand in a string between single quotes. -/
def isLiteralChar (c : Char) : Bool := isPrintable c && c ≠ '\''

/-- Read the rest of a string after its double quote. -/
def readBasic (text : List Char) : Option (Parsed (List Char) text) :=
  match h : text.dropWhile isBasicChar with
  | [] => none
  | c :: rest =>
      have hrest := length_of_dropWhile_eq_cons h
      if c = '"' then some ⟨text.takeWhile isBasicChar, rest, hrest⟩
      else if c = '\\' then do
        let ⟨d, left, _⟩ ← readEscape rest
        let ⟨more, last, _⟩ ← readBasic left
        some ⟨text.takeWhile isBasicChar ++ d :: more, last, by omega⟩
      else none
termination_by text.length

/-- Read the rest of a string after its single quote. -/
def readLiteral (text : List Char) : Option (Parsed (List Char) text) :=
  match h : text.dropWhile isLiteralChar with
  | [] => none
  | c :: rest =>
      have hrest := length_of_dropWhile_eq_cons h
      if c = '\'' then some ⟨text.takeWhile isLiteralChar, rest, hrest⟩ else none

/-! ### Strings over several lines -/

/-- The text from its first character that is neither blank nor a line break. -/
def skipLines (text : List Char) : List Char :=
  match text with
  | ' ' :: rest => skipLines rest
  | '\t' :: rest => skipLines rest
  | '\n' :: rest => skipLines rest
  | '\r' :: '\n' :: rest => skipLines rest
  | text => text

theorem skipLines_length_le (text : List Char) :
  (skipLines text).length ≤ text.length
  := by
  fun_induction skipLines text <;> simp_all <;> omega

/-- What is left of a text once a backslash at the end of a line has joined it to the next
text. -/
def joinLines? (text : List Char) : Option (Remaining Unit text) := do
  let blanks := Text.takeRun isBlank text
  let lineBreak ← lineBreak? blanks.rest
  let next : Remaining Unit lineBreak.rest :=
    ⟨(), skipLines lineBreak.rest, skipLines_length_le lineBreak.rest⟩
  some (blanks.andThen (lineBreak.andThen next).remaining)

/-- The text after a line break, if it starts with one. -/
def dropLineBreak (text : List Char) : Remaining Unit text :=
  match lineBreak? text with
  | some lineBreak => lineBreak.remaining
  | none => .whole () text

/-- Read a string up to the quotes that close it, which are three; up to two more may stand
before them.  The escapes are read when `escapes`. -/
def readLong (quote : Char) (escapes : Bool) (text : List Char) :
    Option (Parsed (List Char) text) :=
  let isOwn (c : Char) : Bool := isPrintable c && c ≠ quote && !(escapes && c = '\\')
  match h : text.dropWhile isOwn with
  | [] => none
  | c :: rest =>
      have hrest := length_of_dropWhile_eq_cons h
      let plain := text.takeWhile isOwn
      if c = quote then
        let run := (c :: rest).takeWhile (· = quote)
        if 3 ≤ run.length then
          if run.length ≤ 5 then
            some ⟨plain ++ run.drop 3, rest.drop (run.length - 1), by
              simp only [List.length_drop]; omega⟩
          else none
        else do
          let ⟨more, last, _⟩ ← readLong quote escapes (rest.drop (run.length - 1))
          some ⟨plain ++ run ++ more, last, by simp only [List.length_drop] at *; omega⟩
      else if escapes ∧ c = '\\' then
        match joinLines? rest with
        | some ⟨_, left, _⟩ => do
            let ⟨more, last, _⟩ ← readLong quote escapes left
            some ⟨plain ++ more, last, by omega⟩
        | none => do
            let ⟨d, left, _⟩ ← readEscape rest
            let ⟨more, last, _⟩ ← readLong quote escapes left
            some ⟨plain ++ d :: more, last, by omega⟩
      else
        match lineBreak? (c :: rest) with
        | none => none
        | some ⟨_, left, _⟩ => do
            let ⟨more, last, _⟩ ← readLong quote escapes left
            some ⟨plain ++ '\n' :: more, last, by simp only [List.length_cons] at *; omega⟩
termination_by text.length
decreasing_by
  all_goals
    simp_all only [List.length_drop, List.length_cons]
    omega

/-! ### Strings -/

/-- Read a string on one line. -/
def readShortString : Reader String := fun text =>
  match text with
  | '"' :: rest => (readBasic rest).map fun p => (p.map String.ofList).behind
  | '\'' :: rest => (readLiteral rest).map fun p => (p.map String.ofList).behind
  | _ => none

/-- Read a string over several lines from its fourth character on. -/
def readLongString (quote : Char) : Reader String := fun text => do
  let start := dropLineBreak text
  let p ← readLong quote (quote = '"') start.rest
  some ((p.map String.ofList).widen start.notLonger)

/-- Read a string of any form. -/
def readString : Reader String := fun text =>
  match text with
  | '"' :: '"' :: '"' :: rest => (readLongString '"' rest).map fun p => p.behind.behind.behind
  | '\'' :: '\'' :: '\'' :: rest =>
      (readLongString '\'' rest).map fun p => p.behind.behind.behind
  | text => readShortString text

end Lineage.Toml
