import Lineage.Json.Fault
import Lineage.Text.Parsed

/-!
# Strings in a JSON text

Blanks, words and strings, read off the front of a text.  A string may hold any character
but a quote, a backslash and the controls below U+0020; those are written after a backslash,
by a letter or by their UTF-16 units in four hexadecimal digits each.  A string whose value
is wanted must pair its surrogate units; one that is only passed over need not.
-/

namespace Lineage.Json

open Text (Parsed Remaining length_of_dropWhile_eq_cons)

/-- Whether `c` may stand between the tokens of a text. -/
def isBlank (c : Char) : Bool := c = ' ' || c = '\n' || c = '\t' || c = '\r'

/-- The text from its first character that is not blank. -/
def skipBlanks (text : List Char) : List Char := text.dropWhile isBlank

theorem skipBlanks_length_le (text : List Char) :
  (skipBlanks text).length ≤ text.length
  := Text.length_dropWhile_le _ _

/-- Read the letters of a word, of which the text must have every one. -/
def readLetters : List Char → (text : List Char) → Except Fault (Remaining Unit text)
  | [], text => .ok (.whole () text)
  | _ :: _, [] => .error .truncated
  | letter :: letters, c :: rest =>
      if c = letter then (readLetters letters rest).map fun left => left.behind.remaining
      else .error .malformed

/-! ### Escapes -/

/-- The character that a letter stands for after a backslash. -/
def escaped : Char → Option Char
  | '"' => some '"'
  | '\\' => some '\\'
  | '/' => some '/'
  | 'b' => some '\x08'
  | 'f' => some '\x0c'
  | 'n' => some '\n'
  | 'r' => some '\r'
  | 't' => some '\t'
  | _ => none

/-- The value of a hexadecimal digit. -/
def hexDigit (c : Char) : Option Nat :=
  if '0' ≤ c ∧ c ≤ '9' then some (c.toNat - 48)
  else if 'a' ≤ c ∧ c ≤ 'f' then some (c.toNat - 87)
  else if 'A' ≤ c ∧ c ≤ 'F' then some (c.toNat - 55)
  else none

/-- The value of four hexadecimal digits. -/
def hexUnit (a b c d : Char) : Option Nat := do
  return (((← hexDigit a) * 16 + (← hexDigit b)) * 16 + (← hexDigit c)) * 16 + (← hexDigit d)

/-- The length of a text in bytes. -/
def byteLength (text : List Char) : Nat := text.foldr (fun c n => c.utf8Size + n) 0

/-- Read a UTF-16 unit of four hexadecimal digits.  A text of fewer than four bytes is too
short for one. -/
def readUnit (text : List Char) : Except Fault (Parsed Nat text) :=
  if byteLength (text.take 4) < 4 then .error .truncated
  else
    match text with
    | a :: b :: c :: d :: rest =>
        match hexUnit a b c d with
        | some unit => .ok (Parsed.head unit d rest).behind.behind.behind
        | none => .error .malformed
    | _ => .error .malformed

/-- Whether a unit is the first of a pair that makes one character. -/
def isLeading (unit : Nat) : Bool := 0xD800 ≤ unit && unit < 0xDC00

/-- Whether a unit is the second of a pair that makes one character. -/
def isTrailing (unit : Nat) : Bool := 0xDC00 ≤ unit && unit < 0xE000

/-- The code point of a pair of units. -/
def combine (leading trailing : Nat) : Nat :=
  0x10000 + (leading - 0xD800) * 0x400 + (trailing - 0xDC00)

/-- Read the second unit of a pair, escape and all. -/
def readTrailing (leading : Nat) : (text : List Char) → Except Fault (Parsed Char text)
  | [] => .error .truncated
  | ['\\'] => .error .truncated
  | '\\' :: 'u' :: rest => do
      let trailing ← readUnit rest
      if isTrailing trailing.value then
        .ok (trailing.map fun unit => Char.ofNat (combine leading unit)).behind.behind
      else .error .malformed
  | _ => .error .malformed

/-- Read what follows a backslash in a string whose value is wanted. -/
def readEscape : (text : List Char) → Except Fault (Parsed Char text)
  | [] => .error .truncated
  | c :: rest =>
      match escaped c with
      | some d => .ok (.head d c rest)
      | none =>
          if c = 'u' then do
            let unit ← readUnit rest
            if isTrailing unit.value then .error .malformed
            else if isLeading unit.value then
              let low ← readTrailing unit.value unit.rest
              .ok (unit.andThen low.remaining).behind
            else .ok (unit.map Char.ofNat).behind
          else .error .malformed

/-- Read what follows a backslash in a string that is passed over. -/
def skipEscape : (text : List Char) → Except Fault (Parsed Unit text)
  | [] => .error .truncated
  | c :: rest =>
      if (escaped c).isSome then .ok (.head () c rest)
      else if c = 'u' then (readUnit rest).map fun unit => (unit.map fun _ => ()).behind
      else .error .malformed

/-! ### Strings -/

/-- Whether `c` stands for itself in a string. -/
def isPlain (c : Char) : Bool := c ≠ '"' && c ≠ '\\' && ' ' ≤ c

/-- Read the rest of a string after its opening quote: the characters up to the first that
does not stand for itself, and then what that one calls for. -/
def readChars (text : List Char) : Except Fault (Parsed (List Char) text) :=
  match h : text.dropWhile isPlain with
  | [] => .error .truncated
  | c :: rest =>
      have hrest := length_of_dropWhile_eq_cons h
      if c = '"' then .ok ⟨text.takeWhile isPlain, rest, hrest⟩
      else if c = '\\' then do
        let ⟨d, left, _⟩ ← readEscape rest
        let ⟨more, last, _⟩ ← readChars left
        .ok ⟨text.takeWhile isPlain ++ d :: more, last, by omega⟩
      else .error .malformed
termination_by text.length

/-- Pass over the rest of a string after its opening quote. -/
def skipChars (text : List Char) : Except Fault (Parsed Unit text) :=
  match h : text.dropWhile isPlain with
  | [] => .error .truncated
  | c :: rest =>
      have hrest := length_of_dropWhile_eq_cons h
      if c = '"' then .ok ⟨(), rest, hrest⟩
      else if c = '\\' then do
        let ⟨_, left, _⟩ ← skipEscape rest
        let ⟨_, last, _⟩ ← skipChars left
        .ok ⟨(), last, by omega⟩
      else .error .malformed
termination_by text.length

end Lineage.Json
