import Lineage.Json.Numbers
import Lineage.Toml.Value

/-!
# Numbers, dates and words of TOML

All values that are written without quotes and brackets: a word, an integer, a
floating-point number, or a date or time.  Each is recognised from its whole text.
-/

namespace Lineage.Toml

open Json (isDigit digitsValue hexDigit)

/-- Whether the text has digits throughout, with single underscores between some of them. -/
def isGrouped (isDigit : Char → Bool) : List Char → Bool
  | [] => false
  | [c] => isDigit c
  | c :: d :: rest =>
      isDigit c && (if d = '_' then isGrouped isDigit rest else isGrouped isDigit (d :: rest))

/-- The digits of a text that may have underscores between them. -/
def ungroup (text : List Char) : List Char := text.filter (· ≠ '_')

/-- Whether the text is a decimal number: grouped digits without a needless leading zero. -/
def isDecimal (text : List Char) : Bool :=
  isGrouped isDigit text && (text = ['0'] || text.head? ≠ some '0')

/-- The sign in front of a text, true for a minus sign, and the text without it. -/
def splitSign : List Char → Bool × List Char
  | '+' :: rest => (false, rest)
  | '-' :: rest => (true, rest)
  | text => (false, text)

/-! ### Integers -/

/-- The number that digits of some base denote. -/
def baseValue (base : Nat) (digits : List Char) : Nat :=
  digits.foldl (fun n c => n * base + (hexDigit c).getD 0) 0

/-- The number as an integer of 64 bits, if it fits. -/
def int64? (value : Int) : Option Int :=
  if Int64.minValue.toInt ≤ value ∧ value ≤ Int64.maxValue.toInt then some value else none

/-- The number that grouped digits of some base denote, if the text has nothing else and the
number fits. -/
def ofBase? (base : Nat) (text : List Char) : Option Int :=
  let isBaseDigit (c : Char) : Bool := (hexDigit c).any (· < base)
  if isGrouped isBaseDigit text then int64? (baseValue base (ungroup text)) else none

/-- The integer that a text denotes: decimal with an optional sign, or hexadecimal, octal or
binary after its mark. -/
def integer? (text : List Char) : Option Int :=
  match text with
  | '0' :: 'x' :: digits => ofBase? 16 digits
  | '0' :: 'o' :: digits => ofBase? 8 digits
  | '0' :: 'b' :: digits => ofBase? 2 digits
  | text =>
      let (negative, digits) := splitSign text
      let magnitude : Int := digitsValue (ungroup digits)
      if isDecimal digits then int64? (if negative then -magnitude else magnitude) else none

/-! ### Floating-point numbers -/

/-- Whether `c` may stand among grouped digits. -/
def isGroupChar (c : Char) : Bool := isDigit c || c = '_'

/-- Whether `significand * 10 ^ exponent` rounds to infinity in the binary format of 64
bits. -/
def overflows (significand : Nat) (exponent : Int) : Bool :=
  let magnitude : Int := (Nat.toDigits 10 significand).length + exponent
  significand ≠ 0 && 309 ≤ magnitude &&
    (310 < magnitude ||
      (Nat.pow 2 1024 - Nat.pow 2 970) * Nat.pow 10 (-exponent).toNat ≤
        significand * Nat.pow 10 exponent.toNat)

/-- Whether a text without its sign is a number with a fraction or an exponent or both; a
positive one must not round to infinity. -/
def isFractional (negative : Bool) (text : List Char) : Bool :=
  let whole := text.takeWhile isGroupChar
  let afterWhole := text.dropWhile isGroupChar
  let (fraction, afterFraction) :=
    match afterWhole with
    | '.' :: rest => (some (rest.takeWhile isGroupChar), rest.dropWhile isGroupChar)
    | rest => (none, rest)
  let exponent :=
    match afterFraction with
    | [] => some none
    | c :: rest => if c = 'e' ∨ c = 'E' then some (some (splitSign rest)) else none
  match exponent with
  | none => false
  | some exponent =>
      let fractionDigits := ungroup (fraction.getD [])
      let shift : Int := match exponent with
        | none => 0
        | some (down, digits) =>
            if down then -(digitsValue (ungroup digits)) else digitsValue (ungroup digits)
      isDecimal whole && (fraction.isSome || exponent.isSome) &&
        fraction.all (isGrouped isDigit) && exponent.all (fun e => isGrouped isDigit e.2) &&
        (negative || !overflows (digitsValue (ungroup whole ++ fractionDigits))
          (shift - fractionDigits.length))

/-- Whether a text is a floating-point number. -/
def isFloat (text : List Char) : Bool :=
  let (negative, magnitude) := splitSign text
  magnitude = ['i', 'n', 'f'] || magnitude = ['n', 'a', 'n'] || isFractional negative magnitude

/-! ### Dates and times -/

/-- The number that a text of exactly so many digits denotes. -/
def digits? (count : Nat) (text : List Char) : Option Nat :=
  if text.length = count ∧ text.all isDigit then some (digitsValue text) else none

/-- Whether a text of exactly two digits denotes a number between two bounds. -/
def isBetween (least greatest : Nat) (text : List Char) : Bool :=
  (digits? 2 text).any fun n => least ≤ n && n ≤ greatest

/-- The number of days of a month. -/
def daysOf (year month : Nat) : Nat :=
  if month = 2 then
    if year % 4 = 0 ∧ (year % 100 ≠ 0 ∨ year % 400 = 0) then 29 else 28
  else if month = 4 ∨ month = 6 ∨ month = 9 ∨ month = 11 then 30
  else 31

/-- Whether a text is a date of the calendar. -/
def isDate (text : List Char) : Bool :=
  match text with
  | [y₁, y₂, y₃, y₄, '-', m₁, m₂, '-', d₁, d₂] =>
      match digits? 4 [y₁, y₂, y₃, y₄], digits? 2 [m₁, m₂] with
      | some year, some month =>
          1 ≤ month && month ≤ 12 && isBetween 1 (daysOf year month) [d₁, d₂]
      | _, _ => false
  | _ => false

/-- Whether a text is nothing, or a point and digits. -/
def isSecondFraction : List Char → Bool
  | [] => true
  | '.' :: rest => !rest.isEmpty && rest.all isDigit
  | _ => false

/-- Whether a text is a time of the day, to the second or finer. -/
def isTime (text : List Char) : Bool :=
  match text with
  | h₁ :: h₂ :: ':' :: m₁ :: m₂ :: ':' :: s₁ :: s₂ :: rest =>
      isBetween 0 23 [h₁, h₂] && isBetween 0 59 [m₁, m₂] && isBetween 0 60 [s₁, s₂] &&
        isSecondFraction rest
  | _ => false

/-- Whether a text is an offset from universal time. -/
def isOffset (text : List Char) : Bool :=
  match text with
  | [c] => c = 'Z' || c = 'z'
  | [sign, h₁, h₂, ':', m₁, m₂] =>
      (sign = '+' || sign = '-') && isBetween 0 23 [h₁, h₂] && isBetween 0 59 [m₁, m₂]
  | _ => false

/-- Whether `c` may stand in a time without offset. -/
def isTimeChar (c : Char) : Bool := isDigit c || c = ':' || c = '.'

/-- Whether a text is a time of the day, with or without an offset. -/
def isTimeWithOffset (text : List Char) : Bool :=
  let offset := text.dropWhile isTimeChar
  isTime (text.takeWhile isTimeChar) && (offset.isEmpty || isOffset offset)

/-- Whether a text is a date, a time, or a date and a time after the letter T or a space. -/
def isMoment (text : List Char) : Bool :=
  isTime text ||
    (isDate (text.take 10) &&
      match text.drop 10 with
      | [] => true
      | c :: rest => (c = 'T' || c = 't' || c = ' ') && isTimeWithOffset rest)

/-! ### Values without quotes -/

/-- Whether `c` may stand in a value that is written without quotes and brackets. -/
def isBareChar (c : Char) : Bool :=
  isDigit c || ('a' ≤ c && c ≤ 'z') || ('A' ≤ c && c ≤ 'Z') ||
    c = '+' || c = '-' || c = '_' || c = '.' || c = ':'

/-- The value that a text without quotes and brackets denotes. -/
def bare? (text : List Char) : Option Toml :=
  if text = ['t', 'r', 'u', 'e'] then some (.boolean true)
  else if text = ['f', 'a', 'l', 's', 'e'] then some (.boolean false)
  else if isMoment text then some (.moment (String.ofList text))
  else if isFloat text then some (.float (String.ofList text))
  else (integer? text).map .integer

end Lineage.Toml
