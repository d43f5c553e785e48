/-!
# TOML values

A value of a TOML document.  A table remembers how it came about, because this decides which
later lines may still add to it.
-/

namespace Lineage

/-- How a table of a document came about. -/
inductive Toml.Origin where
  /-- Written as a value between braces; nothing can be added to it. -/
  | closed
  /-- Opened by a header of its own. -/
  | header
  /-- Needed by a header that names a table inside it. -/
  | implied
  /-- Needed by a dotted key that goes through it. -/
  | dotted
deriving DecidableEq, Inhabited

/-- A value of a TOML document. -/
inductive Toml where
  | string (value : String)
  | integer (value : Int)
  /-- A floating-point number, by its text. -/
  | float (text : String)
  | boolean (value : Bool)
  /-- A date, a time, or both, by its text. -/
  | moment (text : String)
  | array (items : List Toml)
  /-- The tables that headers with doubled brackets add one by one. -/
  | tables (items : List Toml)
  | table (origin : Toml.Origin) (entries : List (String × Toml))
deriving Inhabited

end Lineage
