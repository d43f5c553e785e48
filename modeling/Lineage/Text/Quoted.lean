import Lineage.Text.Visible

/-!
# Quoted text

`quoted s` writes `s` between double quotes so that every character can be told on the page:
the quote and the backslash after a backslash, four controls by their letters, and every
other character that does not show by its number.
-/

namespace Lineage.Text

/-- The digits of `n` in base sixteen, lower case and without padding. -/
def hex (n : Nat) : String := String.ofList (Nat.toDigits 16 n)

/-- The way a character is written between quotes. -/
def quotedChar (c : Char) : String :=
  match c with
  | '"' => "\\\""
  | '\\' => "\\\\"
  | '\t' => "\\t"
  | '\n' => "\\n"
  | '\r' => "\\r"
  | c =>
      if c.toNat = 0 then "\\0"
      else if isVisible c then c.toString
      else "\\u\x7b" ++ hex c.toNat ++ "\x7d"

/-- The text `s` between double quotes. -/
def quoted (s : String) : String :=
  "\"" ++ String.join (s.toList.map quotedChar) ++ "\""

/-- Quoted texts, separated by commas and between square brackets. -/
def quotedList (texts : List String) : String :=
  "[" ++ ", ".intercalate (texts.map quoted) ++ "]"

/-- The text of a truth value. -/
def bool (b : Bool) : String := if b then "true" else "false"

/-- A record written out: its name, then its fields and their texts between braces. -/
def record (name : String) (fields : List (String × String)) : String :=
  name ++ " \x7b " ++ ", ".intercalate (fields.map fun field => field.1 ++ ": " ++ field.2) ++
    " \x7d"

end Lineage.Text
