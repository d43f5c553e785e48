import Lineage.Decimal.Shortest
import Lineage.Json.Strings

/-!
# Numbers in a JSON text

A number is read in two steps: `readLiteral` takes its digits off the text, and
`Literal.value?` says which number of the machine they denote.  A number without fraction
and exponent is an integer if it fits into 64 bits, the negative ones with a sign; any other
number is a binary floating-point number, made from the first digits that fit into 64 bits
and one power of ten.
-/

namespace Lineage.Json

open Text (Parsed Remaining)

/-- Whether `c` is a decimal digit. -/
def isDigit (c : Char) : Bool := '0' ≤ c && c ≤ '9'

/-- The number that a list of decimal digits denotes. -/
def digitsValue (digits : List Char) : Nat :=
  digits.foldl (fun n c => n * 10 + (c.toNat - 48)) 0

/-- The parts of a number as it is written. -/
structure Literal where
  negative : Bool
  /-- The digits before the point. -/
  whole : List Char
  /-- The digits after the point, if there is one. -/
  fraction : Option (List Char)
  /-- The sign of the exponent and its digits, if there is one. -/
  exponent : Option (Bool × List Char)
deriving DecidableEq

/-- A number as the machine has it. -/
inductive Number where
  | integer (value : Int)
  /-- A floating-point number, by its text. -/
  | float (text : String)
deriving DecidableEq

/-! ### The value of a number -/

/-- The first digits that fit into 64 bits after those of `n`, as one number with them, and
the digits that remain. -/
def accumulate (n : Nat) : List Char → Nat × List Char
  | [] => (n, [])
  | c :: rest =>
      if n * 10 + (c.toNat - 48) < UInt64.size then accumulate (n * 10 + (c.toNat - 48)) rest
      else (n, c :: rest)

/-- The floating-point number nearest to `10 ^ exponent`. -/
def powerOfTen (exponent : Nat) : Float := Float.ofScientific 1 false exponent

/-- The quotient of `x` by `10 ^ exponent`, taken in steps that the format can hold. -/
def scaleDown (x : Float) (exponent : Nat) : Float :=
  if exponent ≤ 308 then x / powerOfTen exponent
  else if x == 0 then x
  else scaleDown (x / powerOfTen 308) (exponent - 308)
termination_by exponent
decreasing_by omega

/-- The number `significand * 10 ^ exponent`, unless it is beyond the format. -/
def scaled? (significand : Nat) (exponent : Int) : Option Float :=
  let x := (UInt64.ofNat significand).toFloat
  if exponent < 0 then some (scaleDown x exponent.natAbs)
  else if 308 < exponent then (if x == 0 then some x else none)
  else
    let y := x * powerOfTen exponent.natAbs
    if y.isInf then none else some y

/-- Floating-point numbers are written positionally from 0.00001 on and below ten to the
sixteenth, and otherwise with an exponent. -/
def floatNotation : Decimal.Notation := ⟨-5, 15⟩

/-- The text of a floating-point number that is not negative. -/
def floatText (x : Float) : String :=
  String.ofList <|
    if x == 0 then ['0', '.', '0']
    else (Decimal.Rounding.ofBits x.toBits.toNat).shortest.write floatNotation

/-- The floating-point number with a sign before the text of its magnitude. -/
def signed (negative : Bool) (x : Float) : Number :=
  .float ((if negative then "-" else "") ++ floatText x)

/-- The number that a literal denotes, unless it is beyond the format. -/
def Literal.value? (l : Literal) : Option Number :=
  let (significand, dropped) := accumulate 0 l.whole
  if l.fraction.isNone ∧ l.exponent.isNone ∧ dropped = [] ∧
      (!l.negative ∨ significand ≠ 0 ∧ Int64.minValue.toInt ≤ -significand) then
    some (.integer (if l.negative then -significand else significand))
  else
    let (significand, left) := accumulate significand (l.fraction.getD [])
    let taken := (l.fraction.getD []).length - left.length
    let exponent : Int := dropped.length - taken
    match l.exponent with
    | none => (scaled? significand exponent).map (signed l.negative)
    | some (down, digits) =>
        if Int32.maxValue.toInt < digitsValue digits then
          if significand ≠ 0 ∧ !down then none else some (signed l.negative 0)
        else
          let shift : Int := if down then -(digitsValue digits) else digitsValue digits
          (scaled? significand (exponent + shift)).map (signed l.negative)

/-! ### Reading -/

/-- Read one digit or more.  Where there is none, the fault is `missing` at the end of the
text. -/
def readDigits (missing : Fault) (text : List Char) : Except Fault (Parsed (List Char) text) :=
  match text with
  | [] => .error missing
  | c :: rest =>
      if isDigit c then .ok ((Text.takeRun isDigit rest).map (c :: ·)).behind
      else .error .malformed

/-- Read the digits before the point: a zero alone, or digits that do not start with one. -/
def readWhole (missing : Fault) (text : List Char) :
    Except Fault (Parsed (List Char) text) := do
  let digits ← readDigits missing text
  if digits.value.head? = some '0' ∧ digits.value ≠ ['0'] then .error .malformed
  else .ok digits

/-- Read a point and the digits after it, if there is a point. -/
def readFraction (missing : Fault) (text : List Char) :
    Except Fault (Remaining (Option (List Char)) text) :=
  match text with
  | '.' :: rest => (readDigits missing rest).map fun p => (p.map some).behind.remaining
  | text => .ok (.whole none text)

/-- Take a sign off the text, if there is one; a minus sign counts. -/
def readSign (text : List Char) : Remaining Bool text :=
  match text with
  | '+' :: rest => (Parsed.head false '+' rest).remaining
  | '-' :: rest => (Parsed.head true '-' rest).remaining
  | text => .whole false text

/-- Read an exponent, if there is one. -/
def readExponent (missing : Fault) (text : List Char) :
    Except Fault (Remaining (Option (Bool × List Char)) text) :=
  match text with
  | [] => .ok (.whole none [])
  | c :: rest =>
      if c = 'e' ∨ c = 'E' then do
        let sign := readSign rest
        let digits ← readDigits missing sign.rest
        let exponent := digits.remaining.map fun digits => some (sign.value, digits)
        .ok (sign.andThen exponent).behind.remaining
      else .ok (.whole none (c :: rest))

/-- Read a number without its sign.  Where a digit is missing at the end of the text, the
fault is `missing`. -/
def readUnsigned (missing : Fault) (negative : Bool) (text : List Char) :
    Except Fault (Parsed Literal text) := do
  let whole ← readWhole missing text
  let fraction ← readFraction missing whole.rest
  let exponent ← readExponent missing fraction.rest
  let literal := exponent.map fun exponent =>
    Literal.mk negative whole.value fraction.value exponent
  .ok (whole.andThen (fraction.andThen literal))

/-- Read a number. -/
def readLiteral (missing : Fault) (text : List Char) : Except Fault (Parsed Literal text) :=
  match text with
  | '-' :: rest => (readUnsigned missing true rest).map Parsed.behind
  | text => readUnsigned missing false text

/-- Read a number whose value is wanted. -/
def readNumber (text : List Char) : Except Fault (Parsed Number text) := do
  let literal ← readLiteral .truncated text
  match literal.value.value? with
  | some value => .ok (literal.map fun _ => value)
  | none => .error .malformed

/-- Pass over a number: its digits have to be there, but its size does not matter. -/
def skipNumber (text : List Char) : Except Fault (Parsed Unit text) :=
  (readLiteral .malformed text).map (Parsed.map fun _ => ())

end Lineage.Json
