import Lineage.Text.Quoted

/-!
# Faults of a JSON text

A reader that looks for a value of some shape stops at the first fault it meets.  The text
may break the rules of JSON there, it may end too early, or what it says may have the wrong
shape.  Only a fault of the last kind has a message of its own.
-/

namespace Lineage.Json

/-- What a text has where something else is expected. -/
inductive Found where
  | null
  | bool (value : Bool)
  | integer (value : Int)
  /-- A number that is no integer of the machine, by its text. -/
  | float (text : String)
  | string (value : String)
  | sequence
  | map
deriving DecidableEq, Inhabited

/-- The description of what was found. -/
def Found.text : Found → String
  | .null => "null"
  | .bool value => "boolean `" ++ Text.bool value ++ "`"
  | .integer value => "integer `" ++ toString value ++ "`"
  | .float text => "floating point `" ++ text ++ "`"
  | .string value => "string " ++ Text.quoted value
  | .sequence => "sequence"
  | .map => "map"

/-- The first fault of a text. -/
inductive Fault where
  /-- The text breaks the rules of JSON. -/
  | malformed
  /-- The text ends where more is needed. -/
  | truncated
  /-- A field that a record must have is not there. -/
  | missingField (key : String)
  /-- A field of a record is there twice. -/
  | duplicateField (key : String)
  /-- A value is of the wrong kind. -/
  | invalidType (found : Found) (expected : String)
  /-- A value is of the right kind and yet out of bounds. -/
  | invalidValue (found : Found) (expected : String)
  /-- A record written as a list has too few elements. -/
  | invalidLength (length : Nat) (expected : String)
  /-- A name is none of the two that are known. -/
  | unknownVariant (name first second : String)
deriving DecidableEq, Inhabited

/-- The sorts of faults. -/
inductive Category where
  | malformed
  | truncated
  | shape
deriving DecidableEq, Inhabited

/-- The sort that a fault belongs to. -/
def Fault.category : Fault → Category
  | .malformed => .malformed
  | .truncated => .truncated
  | _ => .shape

/-- The text of a fault. -/
def Fault.message : Fault → String
  | .malformed => "malformed JSON"
  | .truncated => "unexpected end of JSON"
  | .missingField key => "missing field `" ++ key ++ "`"
  | .duplicateField key => "duplicate field `" ++ key ++ "`"
  | .invalidType found expected =>
      "invalid type: " ++ found.text ++ ", expected " ++ expected
  | .invalidValue found expected =>
      "invalid value: " ++ found.text ++ ", expected " ++ expected
  | .invalidLength length expected =>
      "invalid length " ++ toString length ++ ", expected " ++ expected
  | .unknownVariant name first second =>
      "unknown variant `" ++ name ++ "`, expected `" ++ first ++ "` or `" ++ second ++ "`"

end Lineage.Json
