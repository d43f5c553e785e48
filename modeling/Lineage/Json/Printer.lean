import Lineage.Json.Value

/-!
# Writing JSON

A value is written either compactly, on one line without blanks, or laid out, with every
item and member on a line of its own, indented by two spaces for each bracket around it.
An empty array or object is written as its two brackets in both layouts.  In a string only
the quote, the backslash and the controls below U+0020 are written after a backslash.
-/

namespace Lineage.Json

/-- The hexadecimal digit of a number below sixteen. -/
def hexChar (n : Nat) : Char := if n < 10 then Char.ofNat (48 + n) else Char.ofNat (87 + n)

/-- The way a character is written in a string. -/
def escapeChar (c : Char) : List Char :=
  match c with
  | '"' => ['\\', '"']
  | '\\' => ['\\', '\\']
  | '\x08' => ['\\', 'b']
  | '\x0c' => ['\\', 'f']
  | '\n' => ['\\', 'n']
  | '\r' => ['\\', 'r']
  | '\t' => ['\\', 't']
  | c =>
      if c < ' ' then ['\\', 'u', '0', '0', hexChar (c.toNat / 16), hexChar (c.toNat % 16)]
      else [c]

/-- A string between its quotes. -/
def writeString (text : String) : List Char :=
  '"' :: (text.toList.flatMap escapeChar ++ ['"'])

/-- How the parts of a value are set apart. -/
inductive Layout where
  /-- On one line, without blanks. -/
  | compact
  /-- On lines of their own, within the given number of brackets. -/
  | pretty (depth : Nat)
deriving DecidableEq, Inhabited

namespace Layout

/-- The layout within one more bracket. -/
def inner : Layout → Layout
  | .compact => .compact
  | .pretty depth => .pretty (depth + 1)

/-- What stands before an item or a closing bracket. -/
def newline : Layout → List Char
  | .compact => []
  | .pretty depth => '\n' :: List.replicate (2 * depth) ' '

/-- What stands between a key and its value. -/
def colon : Layout → List Char
  | .compact => [':']
  | .pretty _ => [':', ' ']

end Layout

mutual

/-- A value in a layout. -/
def write (layout : Layout) : Json → List Char
  | .null => ['n', 'u', 'l', 'l']
  | .bool true => ['t', 'r', 'u', 'e']
  | .bool false => ['f', 'a', 'l', 's', 'e']
  | .number text => text.toList
  | .string text => writeString text
  | .array [] => ['[', ']']
  | .array (item :: items) =>
      '[' :: (layout.inner.newline ++ write layout.inner item ++
        writeItems layout.inner items ++ layout.newline ++ [']'])
  | .object [] => ['\x7b', '\x7d']
  | .object ((key, value) :: members) =>
      '\x7b' :: (layout.inner.newline ++ writeString key ++ layout.colon ++
        write layout.inner value ++ writeMembers layout.inner members ++ layout.newline ++
        ['\x7d'])

/-- The items of an array after the first. -/
def writeItems (layout : Layout) : List Json → List Char
  | [] => []
  | item :: items =>
      ',' :: (layout.newline ++ write layout item ++ writeItems layout items)

/-- The members of an object after the first. -/
def writeMembers (layout : Layout) : List (String × Json) → List Char
  | [] => []
  | (key, value) :: members =>
      ',' :: (layout.newline ++ writeString key ++ layout.colon ++ write layout value ++
        writeMembers layout members)

end

/-- The text of a value on one line. -/
def compact (value : Json) : String := String.ofList (write .compact value)

/-- The text of a value laid out over lines. -/
def pretty (value : Json) : String := String.ofList (write (.pretty 0) value)

end Lineage.Json
