import TopdownMetrics.Number.Decimal

/-!
# Double-precision numbers

A finite double is kept as its sign and its exact rational magnitude, so every
operation below is an exact operation on rationals followed by one rounding.
`round` chooses the nearest representable number, of two equally near ones the
one with the even significand.
-/

namespace TopdownMetrics

/-- A double-precision number.  The magnitude of a finite one is never negative;
zero carries a sign. -/
inductive Binary64 where
  | nan
  | infinite (negative : Bool)
  | finite (negative : Bool) (magnitude : Rat)
  deriving DecidableEq, Repr, Inhabited

namespace Binary64

/-- The exponent of the grid of doubles around a positive `x`: there the
significand of `x` has 53 bits, unless `x` is so small that the least exponent
is reached first. -/
def gridExponent (x : Rat) : Int :=
  let estimate : Int := (x.num.natAbs.log2 : Int) - (x.den.log2 : Int) - 52
  let exponent :=
    if x < (2 : Rat) ^ (estimate + 52) then estimate - 1 else estimate
  max exponent (-1074)

/-- The nearest natural number to `x ≥ 0`; a half goes to the even neighbour. -/
def roundHalfEven (x : Rat) : Nat :=
  let below := x.floor.toNat
  let excess := x - below
  if excess < 1 / 2 then below
  else if 1 / 2 < excess then below + 1
  else if below % 2 = 0 then below
  else below + 1

/-- The double nearest to `x ≥ 0`, with the given sign. -/
def round (negative : Bool) (x : Rat) : Binary64 :=
  if x = 0 then
    .finite negative 0
  else
    let unit := (2 : Rat) ^ gridExponent x
    let rounded := (roundHalfEven (x / unit) : Rat) * unit
    if (2 : Rat) ^ (1024 : Nat) ≤ rounded then .infinite negative
    else .finite negative rounded

def ofRat (x : Rat) : Binary64 :=
  round (x < 0) (if x < 0 then -x else x)

/-- The double nearest to a decimal.  Numbers beyond every double on either side
are settled by the place of their first digit. -/
def ofDecimal (negative : Bool) (d : Decimal) : Binary64 :=
  if d.coefficient = 0 then .finite negative 0
  else if 310 < d.point then .infinite negative
  else if d.point < -330 then .finite negative 0
  else round negative d.toRat

/-- Reads a signed decimal, or `inf`, `infinity` or `nan` in any letter case. -/
def ofText? (text : String) : Option Binary64 :=
  let (negative, cs) := match text.toList with
    | '-' :: cs => (true, cs)
    | '+' :: cs => (false, cs)
    | cs => (false, cs)
  match Decimal.ofChars? cs with
  | some d => some (ofDecimal negative d)
  | none =>
    let word := String.ofList (cs.map Char.toLower)
    if word = "inf" ∨ word = "infinity" then some (.infinite negative)
    else if word = "nan" then some .nan
    else none

def toRat? : Binary64 → Option Rat
  | .finite negative magnitude => some (if negative then -magnitude else magnitude)
  | _ => none

def isZero (x : Binary64) : Bool :=
  x.toRat? == some 0

def isOne (x : Binary64) : Bool :=
  x.toRat? == some 1

def neg : Binary64 → Binary64
  | .nan => .nan
  | .infinite negative => .infinite !negative
  | .finite negative magnitude => .finite (!negative) magnitude

/-- The rounded difference.  Equal operands differ by positive zero, except that
negative zero less positive zero is negative zero. -/
def sub : Binary64 → Binary64 → Binary64
  | .nan, _ => .nan
  | _, .nan => .nan
  | .infinite a, .infinite b => if a = b then .nan else .infinite a
  | .infinite a, .finite _ _ => .infinite a
  | .finite _ _, .infinite b => .infinite !b
  | .finite a x, .finite b y =>
    let difference := (if a then -x else x) - (if b then -y else y)
    if difference = 0 then .finite (a && !b && x == 0) 0
    else ofRat difference

def scale (factor : Rat) : Binary64 → Binary64
  | .finite negative magnitude => round negative (magnitude * factor)
  | x => x

end Binary64

end TopdownMetrics
