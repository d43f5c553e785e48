/-!
# The shortest decimal of a binary number

A binary floating-point number is `m * 2 ^ q`.  All reals closer to it than to its
neighbours round to it, and those halfway do so when `m` is even.  The shortest decimal is
the one with the fewest digits among the decimals that round to the number, and the nearest
to it among those.  If some multiple of a power of ten rounds to the number, then one of the
two multiples next to the number does, so only these two are tried for each power.
-/

namespace Lineage

/-- A positive decimal number, `digits * 10 ^ exponent`. -/
structure Decimal where
  digits : Nat
  exponent : Int
deriving DecidableEq, Inhabited

namespace Decimal

/-- A positive number and the ends of the interval of the reals that round to it, as
numerators over one denominator. -/
structure Rounding where
  low : Nat
  value : Nat
  high : Nat
  denominator : Nat
  /-- Whether the ends round to the number as well. -/
  closed : Bool
deriving DecidableEq, Inhabited

/-- The interval around `m * 2 ^ q`; the neighbour below is half as far when `narrow`. -/
def Rounding.ofBinary (m : Nat) (q : Int) (narrow : Bool) : Rounding :=
  let scale := Nat.pow 2 (q - 2).toNat
  { low := (4 * m - if narrow then 1 else 2) * scale
    value := 4 * m * scale
    high := (4 * m + 2) * scale
    denominator := Nat.pow 2 (2 - q).toNat
    closed := m % 2 = 0 }

namespace Rounding

/-- Whether `digits * 10 ^ exponent` rounds to the number. -/
def admits (r : Rounding) (digits : Nat) (exponent : Int) : Bool :=
  let point := digits * Nat.pow 10 exponent.toNat * r.denominator
  let scale := Nat.pow 10 (-exponent).toNat
  if r.closed then r.low * scale ≤ point && point ≤ r.high * scale
  else r.low * scale < point && point < r.high * scale

/-- The whole number of times that `10 ^ exponent` goes into the number. -/
def quotient (r : Rounding) (exponent : Int) : Nat :=
  r.value * Nat.pow 10 (-exponent).toNat / (r.denominator * Nat.pow 10 exponent.toNat)

/-- Whether the number is nearer to `digits * 10 ^ exponent` than to the next multiple up;
halfway, whether `digits` is even. -/
def isNearerBelow (r : Rounding) (digits : Nat) (exponent : Int) : Bool :=
  let twice := 2 * r.value * Nat.pow 10 (-exponent).toNat
  let middle := (2 * digits + 1) * (r.denominator * Nat.pow 10 exponent.toNat)
  twice < middle || (twice = middle && digits % 2 = 0)

/-- The best multiple of `10 ^ exponent` that rounds to the number. -/
def nearest? (r : Rounding) (exponent : Int) : Option Decimal :=
  let below := r.quotient exponent
  let least := below ≠ 0 && r.admits below exponent
  let next := r.admits (below + 1) exponent
  if least && (!next || r.isNearerBelow below exponent) then some ⟨below, exponent⟩
  else if next then some ⟨below + 1, exponent⟩
  else none

/-- The first power of ten, from `exponent` down, of which a multiple rounds to the number. -/
def search (r : Rounding) (exponent : Int) : Nat → Decimal
  | 0 => ⟨r.quotient exponent, exponent⟩
  | steps + 1 => (r.nearest? exponent).getD (search r (exponent - 1) steps)

/-- The shortest decimal of the number, whose powers of ten range from 308 to -324. -/
def shortest (r : Rounding) : Decimal := r.search 309 640

end Rounding

/-- The interval of the positive number with the given bits, in the binary format of 64
bits. -/
def Rounding.ofBits (bits : Nat) : Rounding :=
  let leading := Nat.pow 2 52
  let fraction := bits % leading
  let exponent : Nat := bits / leading % 2048
  if exponent = 0 then .ofBinary fraction (-1074) false
  else .ofBinary (fraction + leading) ((exponent : Int) - 1075) (fraction = 0 && 1 < exponent)

/-! ### Notation -/

/-- How decimals are written: positionally while the exponent of the first digit is in a
range, always with a digit after the point, and otherwise with an exponent that always has
a sign. -/
structure Notation where
  leastExponent : Int
  greatestExponent : Int

/-- The digits of `n` in base ten. -/
def digitsOf (n : Nat) : List Char := Nat.toDigits 10 n

/-- A decimal in positional notation, given its digits and the place of the point counted
from the first of them. -/
def positional (digits : List Char) (point : Int) : List Char :=
  if point ≤ 0 then '0' :: '.' :: (List.replicate (-point).toNat '0' ++ digits)
  else if digits.length ≤ point then
    digits ++ List.replicate (point.toNat - digits.length) '0' ++ ['.', '0']
  else digits.take point.toNat ++ '.' :: digits.drop point.toNat

/-- A decimal in exponential notation, given its digits and the exponent of the first. -/
def exponential (digits : List Char) (exponent : Int) : List Char :=
  digits.take 1 ++ (if digits.length ≤ 1 then [] else '.' :: digits.drop 1) ++
    ['e', if exponent < 0 then '-' else '+'] ++ digitsOf exponent.natAbs

/-- A decimal in the given notation. -/
def write (d : Decimal) (style : Notation) : List Char :=
  let digits := digitsOf d.digits
  let exponent := d.exponent + digits.length - 1
  if style.leastExponent ≤ exponent ∧ exponent ≤ style.greatestExponent then
    positional digits (exponent + 1)
  else exponential digits exponent

end Decimal

end Lineage
