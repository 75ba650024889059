import TopdownMetrics.Json.Value

/-!
# Reading JSON numbers

A number without fraction and exponent that fits into 64 bits is whole.  Any other
number is a double: its leading digits, as many as fit into 64 bits, are scaled by
powers of ten, and each scaling rounds.
-/

namespace TopdownMetrics.Json

/-- A number as it is written: sign, digits in front of the point, digits behind it,
and exponent. -/
structure Numeral where
  negative : Bool
  whole : List Char
  /-- Without a point there is no fraction. -/
  fraction : Option (List Char)
  exponent : Option Int
  deriving DecidableEq, Repr

def maxWord : Nat := UInt64.size - 1

/-- Appends decimal digits to a number as long as it fits into 64 bits, and returns the
digits that are left. -/
def appendDigits (n : Nat) : List Char → Nat × List Char
  | [] => (n, [])
  | c :: cs =>
    let n' := 10 * n + (c.toNat - '0'.toNat)
    if n' ≤ maxWord then appendDigits n' cs else (n, c :: cs)

def powerOfTen (k : Nat) : Rat :=
  ((Binary64.round false ((10 : Rat) ^ k)).toRat?).getD 0

/-- Divides by powers of ten of at most 308 until the exponent is used up or the number
has become zero. -/
def scaleDown : (fuel : Nat) → Binary64 → (exponent : Nat) → Binary64
  | 0, x, _ => x
  | fuel + 1, x, exponent =>
    if exponent ≤ 308 then x.scale (powerOfTen exponent)⁻¹
    else if x.isZero then x
    else scaleDown fuel (x.scale (powerOfTen 308)⁻¹) (exponent - 308)

/-- The double with the given digits and exponent; nothing, if it is too large. -/
def double? (negative : Bool) (digits : Nat) (exponent : Int) : Option Binary64 :=
  let x := Binary64.round negative digits
  if exponent < 0 then
    some (scaleDown 4 x exponent.natAbs)
  else if 308 < exponent then
    if digits = 0 then some x else none
  else
    match x.scale (powerOfTen exponent.toNat) with
    | .finite s m => some (.finite s m)
    | _ => none

def maxExponent : Nat := 0x7FFFFFFF

/-- The number that a numeral stands for; nothing, if it is too large. -/
def Numeral.toNumber? (n : Numeral) : Option Number :=
  let (digits, unused) := appendDigits 0 n.whole
  if n.fraction = none ∧ n.exponent = none ∧ unused = [] then
    if !n.negative then some (.whole digits)
    else if digits ≠ 0 ∧ digits ≤ 0x8000000000000000 then some (.whole (-digits))
    else some (.double (Binary64.round true digits))
  else
    let (digits, used) := match n.fraction with
      | none => (digits, 0)
      | some fraction =>
        let (digits, rest) := appendDigits digits fraction
        (digits, fraction.length - rest.length)
    let start : Int := (unused.length : Int) - used
    match n.exponent with
    | none => (double? n.negative digits start).map .double
    | some e =>
      if maxExponent < e.natAbs then
        if 0 < e ∧ digits ≠ 0 then none
        else some (.double (.finite n.negative 0))
      else
        (double? n.negative digits (start + e)).map .double

/-- Doubles are written with the fewest digits, positionally for exponents from -5 to 15,
always with a fraction or a signed exponent; a tie goes to the even digit. -/
def numberLayout : Layout where
  leastPoint := some (-4)
  greatestPoint := some 16
  wholeFraction := true
  plusSign := true
  tie := .toEven

def Number.render : Number → String
  | .whole n => toString n
  | .double x => numberLayout.render x

end TopdownMetrics.Json
