/-!
# Decimal numbers

A decimal is a whole coefficient times a power of ten.  The text forms of all
floating-point numbers in this library go through it: reading scans a decimal
and then rounds its exact value, writing first chooses a decimal and then lays
out its digits.
-/

namespace TopdownMetrics

/-- The number `coefficient * 10 ^ exponent`. -/
structure Decimal where
  coefficient : Nat
  exponent : Int
  deriving DecidableEq, Repr, Inhabited

namespace Decimal

def toRat (d : Decimal) : Rat :=
  (d.coefficient : Rat) * (10 : Rat) ^ d.exponent

/-- The number of decimal digits of `n`; zero has one digit. -/
def digitCount (n : Nat) : Nat :=
  (Nat.toDigits 10 n).length

/-- The digits of the coefficient, most significant first. -/
def digits (d : Decimal) : List Char :=
  Nat.toDigits 10 d.coefficient

/-- How many digits stand before the decimal point when the number is written
positionally; zero or less when the first digit stands after it. -/
def point (d : Decimal) : Int :=
  digitCount d.coefficient + d.exponent

/-- Moves trailing zeros of the coefficient into the exponent, at most `fuel`
of them. -/
def dropTrailingZeros : (fuel : Nat) → Decimal → Decimal
  | 0, d => d
  | fuel + 1, d =>
    if d.coefficient ≠ 0 ∧ d.coefficient % 10 = 0 then
      dropTrailingZeros fuel ⟨d.coefficient / 10, d.exponent + 1⟩
    else
      d

/-- The same number with a coefficient that does not end in zero. -/
def normalize (d : Decimal) : Decimal :=
  dropTrailingZeros (digitCount d.coefficient) d

def ofDigits (cs : List Char) : Nat :=
  cs.foldl (fun n c => 10 * n + (c.toNat - '0'.toNat)) 0

/-- Reads the exponent part `e12`, `E+3` or `e-07` of a decimal; no text at all
is the exponent zero. -/
def exponent? : List Char → Option Int
  | [] => some 0
  | mark :: rest =>
    if mark = 'e' ∨ mark = 'E' then
      let (negative, ds) := match rest with
        | '-' :: ds => (true, ds)
        | '+' :: ds => (false, ds)
        | ds => (false, ds)
      if ds ≠ [] ∧ ds.all Char.isDigit then
        some (if negative then -(ofDigits ds : Int) else ofDigits ds)
      else
        none
    else
      none

/-- Reads an unsigned decimal such as `12`, `.5`, `1.` or `2.5e-3`.  At least one
digit has to stand beside the point. -/
def ofChars? (cs : List Char) : Option Decimal :=
  let whole := cs.takeWhile Char.isDigit
  let (fraction, rest) := match cs.dropWhile Char.isDigit with
    | '.' :: rest => (rest.takeWhile Char.isDigit, rest.dropWhile Char.isDigit)
    | rest => ([], rest)
  if whole = [] ∧ fraction = [] then
    none
  else
    (exponent? rest).map fun e => ⟨ofDigits (whole ++ fraction), e - fraction.length⟩

end Decimal

end TopdownMetrics
