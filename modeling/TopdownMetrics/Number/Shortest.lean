import TopdownMetrics.Number.Binary64

/-!
# The shortest decimal of a double

`shortest` finds the decimal with the fewest digits that reads back as a given
double, and among those the nearest one.  It looks at the grids of one, two, …
seventeen digits; on each grid only the two neighbours of the value matter,
because if any point of the grid rounds to the double, one of them does.
-/

namespace TopdownMetrics

/-- Where an exact tie between two shortest decimals goes. -/
inductive Tie where
  | up
  | toEven
  deriving DecidableEq, Repr

namespace Binary64

/-- The numbers that round to a given double: an interval whose ends belong to it
when the significand is even. -/
structure Neighbourhood where
  low : Rat
  high : Rat
  closed : Bool

def Neighbourhood.contains (n : Neighbourhood) (x : Rat) : Bool :=
  if n.closed then decide (n.low ≤ x ∧ x ≤ n.high) else decide (n.low < x ∧ x < n.high)

/-- The neighbourhood of the positive double `x`.  Below a power of two the next
double is only half as far away, except at the least exponent. -/
def neighbourhood (x : Rat) : Neighbourhood :=
  let exponent := gridExponent x
  let unit := (2 : Rat) ^ exponent
  let significand := (x / unit).num.natAbs
  let below := if significand = 0x10000000000000 ∧ -1074 < exponent then unit / 4 else unit / 2
  ⟨x - below, x + unit / 2, significand % 2 == 0⟩

/-- The exponent of the leading decimal digit of a positive `x`. -/
def leadingExponent (x : Rat) : Int :=
  let estimate : Int :=
    (Decimal.digitCount x.num.natAbs : Int) - (Decimal.digitCount x.den : Int)
  if x < (10 : Rat) ^ estimate then estimate - 1 else estimate

/-- The nearer of the two neighbours of `x` on the grid of the given exponent, as
far as they lie in the neighbourhood. -/
def nearestOnGrid? (tie : Tie) (n : Neighbourhood) (x : Rat) (exponent : Int) :
    Option Decimal :=
  let unit := (10 : Rat) ^ exponent
  let below := (x / unit).floor.toNat
  let fitsBelow := n.contains (below * unit)
  let fitsAbove := n.contains ((below + 1 : Nat) * unit)
  let excess := x / unit - below
  let preferAbove :=
    decide (1 / 2 < excess) ||
      (decide (excess = 1 / 2) && (tie == .up || below % 2 == 1))
  if fitsBelow && fitsAbove then
    some ⟨if preferAbove then below + 1 else below, exponent⟩
  else if fitsBelow then
    some ⟨below, exponent⟩
  else if fitsAbove then
    some ⟨below + 1, exponent⟩
  else
    none

/-- The decimal with the fewest digits that rounds to the positive double `x`. -/
def shortest (tie : Tie) (x : Rat) : Decimal :=
  let n := neighbourhood x
  let leading := leadingExponent x
  let found := (List.range 17).findSome? fun (count : Nat) =>
    nearestOnGrid? tie n x (leading - count)
  (found.getD ⟨0, 0⟩).normalize

end Binary64

end TopdownMetrics
