/-!
# JSON values

A JSON value as it is written: a number is kept as the text of its digits, and an object as
the list of its members in their order.
-/

namespace Lineage

/-- A JSON value. -/
inductive Json where
  | null
  | bool (value : Bool)
  /-- A number, by its text. -/
  | number (text : String)
  | string (value : String)
  | array (items : List Json)
  | object (members : List (String × Json))
deriving Inhabited

namespace Json

/-- A natural number as a value. -/
def natural (n : Nat) : Json := .number (toString n)

/-- A list of strings as a value. -/
def strings (texts : List String) : Json := .array (texts.map .string)

end Json

end Lineage
