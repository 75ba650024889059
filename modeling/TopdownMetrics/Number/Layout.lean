import TopdownMetrics.Number.Shortest

/-!
# Laying out the digits of a number

A `Layout` says how the digits of a finite number are written: positionally or
with an exponent, with or without a fraction on whole numbers, and which way a
tie between two shortest decimals goes.
-/

namespace TopdownMetrics

/-- The choices in which number formats differ. -/
structure Layout where
  /-- The least place of the decimal point that is written positionally. -/
  leastPoint : Option Int
  /-- The greatest place of the decimal point that is written positionally. -/
  greatestPoint : Option Int
  /-- Whole numbers written positionally end in `.0`. -/
  wholeFraction : Bool
  /-- Positive exponents carry a sign. -/
  plusSign : Bool
  tie : Tie

namespace Layout

def isPositional (layout : Layout) (point : Int) : Bool :=
  layout.leastPoint.all (fun least => decide (least ≤ point)) &&
    layout.greatestPoint.all (fun greatest => decide (point ≤ greatest))

/-- The digits `ds` with the decimal point after the first `point` of them. -/
def positional (layout : Layout) (ds : List Char) (point : Int) : List Char :=
  if point ≤ 0 then
    '0' :: '.' :: (List.replicate (-point).toNat '0' ++ ds)
  else if ds.length ≤ point.toNat then
    ds ++ List.replicate (point.toNat - ds.length) '0' ++
      (if layout.wholeFraction then ['.', '0'] else [])
  else
    ds.take point.toNat ++ '.' :: ds.drop point.toNat

/-- The digits `ds` with one digit before the point and an exponent. -/
def scientific (layout : Layout) (ds : List Char) (point : Int) : List Char :=
  let mantissa := match ds with
    | [] => []
    | [d] => [d]
    | d :: rest => d :: '.' :: rest
  let exponent := point - 1
  let sign := if layout.plusSign ∧ 0 ≤ exponent then ['+'] else []
  mantissa ++ 'e' :: sign ++ (toString exponent).toList

def decimal (layout : Layout) (d : Decimal) : List Char :=
  if layout.isPositional d.point then layout.positional d.digits d.point
  else layout.scientific d.digits d.point

def render (layout : Layout) : Binary64 → String
  | .nan => "NaN"
  | .infinite negative => if negative then "-inf" else "inf"
  | .finite negative magnitude =>
    let body :=
      if magnitude = 0 then layout.decimal ⟨0, 0⟩
      else layout.decimal (Binary64.shortest layout.tie magnitude)
    String.ofList (if negative then '-' :: body else body)

end Layout

end TopdownMetrics
