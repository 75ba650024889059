import TopdownMetrics.Formula.Expr

/-!
# Algebraic simplification

Three folds, tried at every node from the leaves up:

* a conditional on the literal one or zero becomes the branch it chooses;
* `(a * V) - (b * V)` becomes `(a-b) * V`, also at the end of a sum;
* a literal zero is dropped from a sum.

Each fold makes the tree smaller (`fold?_size_lt`), so passes over the tree can be
repeated until one of them changes nothing.
-/

namespace TopdownMetrics.Formula

/-- The format of computed coefficients: no exponent, and a tie goes up. -/
def coefficientLayout : Layout where
  leastPoint := none
  greatestPoint := none
  wholeFraction := false
  plusSign := false
  tie := .up

/-- The text of a computed coefficient.  Whole numbers of less than sixteen digits
are written exactly and without the sign of zero. -/
def formatNumber (x : Binary64) : String :=
  match x.toRat? with
  | some value =>
    if value.den = 1 ∧ value.num.natAbs < 1000000000000000 then toString value.num
    else coefficientLayout.render x
  | none => coefficientLayout.render x

namespace Expr

def foldConditional? : Expr → Option Expr
  | .cond chosen condition otherwise =>
    if condition.isOne then some chosen
    else if condition.isZero then some otherwise
    else none
  | _ => none

/-- Resolved references: events, metrics and runtime constants. -/
inductive Reference where
  | event (e : EventRef)
  | metric (name : String)
  | context (name : String)
  deriving DecidableEq, Repr

def Reference.toExpr : Reference → Expr
  | .event e => .event e
  | .metric name => .metric name
  | .context name => .context name

def reference? : Expr → Option Reference
  | .event e => some (.event e)
  | .metric name => some (.metric name)
  | .context name => some (.context name)
  | _ => none

/-- The coefficient and the reference of `(a * V)`. -/
def scaledTerm? : Expr → Option (Binary64 × Reference)
  | .paren (.binary .mul (.num text) v) =>
    match (Expr.num text).number?, v.reference? with
    | some a, some r => some (a, r)
    | _, _ => none
  | _ => none

/-- `(a-b) * V`, if both terms scale the same reference. -/
def difference? (minuend subtrahend : Binary64 × Reference) : Option Expr :=
  if minuend.2 = subtrahend.2 then
    some (.binary .mul (.num (formatNumber (minuend.1.sub subtrahend.1))) minuend.2.toExpr)
  else
    none

/-- The folded difference of two scaled terms.  Sums associate to the left, so in
`X + (a * V) - (b * V)` the minuend is the last term of the sum. -/
def foldLinear? : Expr → Option Expr
  | .binary .sub lhs rhs =>
    match rhs.scaledTerm? with
    | none => none
    | some subtrahend =>
      match lhs.scaledTerm? with
      | some minuend => difference? minuend subtrahend
      | none =>
        match lhs with
        | .binary .add front last =>
          match last.scaledTerm? with
          | some minuend => (difference? minuend subtrahend).map (.binary .add front)
          | none => none
        | _ => none
  | _ => none

/-- The other operand of a sum with a literal zero. -/
def dropZero? : Expr → Option Expr
  | .binary .add lhs rhs =>
    if rhs.isZero then some lhs
    else if lhs.isZero then some rhs
    else none
  | _ => none

/-- The first fold that applies to the node. -/
def fold? (e : Expr) : Option Expr :=
  e.foldConditional? <|> e.foldLinear? <|> e.dropZero?

/-- The folded node, and whether there was a fold. -/
def foldNode (e : Expr) : Expr × Bool :=
  match e.fold? with
  | some folded => (folded, true)
  | none => (e, false)

mutual

/-- One pass over the tree from the leaves up, and whether it changed anything. -/
def simplifyOnce : Expr → Expr × Bool
  | .neg operand =>
    let (operand, c) := operand.simplifyOnce
    let (e, folded) := (Expr.neg operand).foldNode
    (e, folded || c)
  | .binary op lhs rhs =>
    let (lhs, c₁) := lhs.simplifyOnce
    let (rhs, c₂) := rhs.simplifyOnce
    let (e, folded) := (Expr.binary op lhs rhs).foldNode
    (e, folded || c₁ || c₂)
  | .call function arguments =>
    let (arguments, c) := simplifyOnceList arguments
    let (e, folded) := (Expr.call function arguments).foldNode
    (e, folded || c)
  | .cond chosen condition otherwise =>
    let (chosen, c₁) := chosen.simplifyOnce
    let (condition, c₂) := condition.simplifyOnce
    let (otherwise, c₃) := otherwise.simplifyOnce
    let (e, folded) := (Expr.cond chosen condition otherwise).foldNode
    (e, folded || c₁ || c₂ || c₃)
  | .paren inner =>
    let (inner, c) := inner.simplifyOnce
    let (e, folded) := (Expr.paren inner).foldNode
    (e, folded || c)
  | e => e.foldNode

def simplifyOnceList : List Expr → List Expr × Bool
  | [] => ([], false)
  | e :: es =>
    let (e, c₁) := e.simplifyOnce
    let (es, c₂) := simplifyOnceList es
    (e :: es, c₁ || c₂)

end

theorem size_toExpr (r : Reference) : r.toExpr.size = 1 := by
  cases r <;> simp [Reference.toExpr, size]

theorem size_of_difference? {m s : Binary64 × Reference} {e : Expr}
    (h : difference? m s = some e) : e.size = 3 := by
  unfold difference? at h
  split at h
  · cases h
    simp [size, size_toExpr]
  · cases h

theorem size_of_scaledTerm? {e : Expr} {t : Binary64 × Reference}
    (h : e.scaledTerm? = some t) : 4 ≤ e.size := by
  unfold scaledTerm? at h
  split at h
  · rename_i text v
    have := one_le_size v
    simp only [size]
    omega
  · cases h

theorem foldConditional?_size_lt {e f : Expr} (h : e.foldConditional? = some f) :
    f.size < e.size := by
  unfold foldConditional? at h
  split at h
  · rename_i chosen condition otherwise
    have h₁ := one_le_size chosen
    have h₂ := one_le_size condition
    simp only [size]
    split at h
    · cases h; omega
    · split at h
      · cases h; omega
      · cases h
  · cases h

theorem dropZero?_size_lt {e f : Expr} (h : e.dropZero? = some f) : f.size < e.size := by
  unfold dropZero? at h
  split at h
  · rename_i lhs rhs
    have h₁ := one_le_size lhs
    simp only [size]
    split at h
    · cases h; omega
    · split at h
      · cases h; omega
      · cases h
  · cases h

theorem foldLinear?_size_lt {e f : Expr} (h : e.foldLinear? = some f) : f.size < e.size := by
  unfold foldLinear? at h
  split at h
  · rename_i lhs rhs
    split at h
    · cases h
    · rename_i subtrahend hs
      have hrhs := size_of_scaledTerm? hs
      simp only [size]
      split at h
      · have := size_of_difference? h
        omega
      · split at h
        · rename_i front last
          split at h
          · rename_i minuend hm
            have hlast := size_of_scaledTerm? hm
            obtain ⟨d, hd, rfl⟩ := Option.map_eq_some_iff.1 h
            have := size_of_difference? hd
            simp only [size]
            omega
          · cases h
        · cases h
  · cases h

theorem fold?_size_lt {e f : Expr} (h : e.fold? = some f) : f.size < e.size := by
  unfold fold? at h
  cases h₁ : e.foldConditional? with
  | some a =>
    simp only [h₁, Option.orElse_eq_orElse, Option.orElse_some, Option.some.injEq] at h
    exact foldConditional?_size_lt (h ▸ h₁)
  | none =>
    cases h₂ : e.foldLinear? with
    | some a =>
      simp only [h₁, h₂, Option.orElse_eq_orElse, Option.orElse_none, Option.orElse_some,
        Option.some.injEq] at h
      exact foldLinear?_size_lt (h ▸ h₂)
    | none =>
      simp only [h₁, h₂, Option.orElse_eq_orElse, Option.orElse_none] at h
      exact dropZero?_size_lt h

theorem foldNode_size (e : Expr) :
    e.foldNode.1.size + e.foldNode.2.toNat ≤ e.size := by
  unfold foldNode
  split
  · rename_i f h
    exact fold?_size_lt h
  · simp

theorem toNat_or_le (a b : Bool) : (a || b).toNat ≤ a.toNat + b.toNat := by
  cases a <;> cases b <;> decide

mutual

/-- A pass never makes the tree larger, and a pass that changes something makes it
smaller. -/
theorem simplifyOnce_size (e : Expr) :
    e.simplifyOnce.1.size + e.simplifyOnce.2.toNat ≤ e.size := by
  cases e with
  | neg operand =>
    have h := simplifyOnce_size operand
    have hf := foldNode_size (.neg operand.simplifyOnce.1)
    simp only [simplifyOnce, size] at *
    refine Nat.le_trans (Nat.add_le_add_left (toNat_or_le _ _) _) ?_
    omega
  | binary op lhs rhs =>
    have h₁ := simplifyOnce_size lhs
    have h₂ := simplifyOnce_size rhs
    have hf := foldNode_size (.binary op lhs.simplifyOnce.1 rhs.simplifyOnce.1)
    simp only [simplifyOnce, size] at *
    refine Nat.le_trans (Nat.add_le_add_left (toNat_or_le _ _) _) ?_
    have := toNat_or_le (Expr.binary op lhs.simplifyOnce.1 rhs.simplifyOnce.1).foldNode.2
      lhs.simplifyOnce.2
    omega
  | call function arguments =>
    have h := simplifyOnceList_size arguments
    have hf := foldNode_size (.call function (simplifyOnceList arguments).1)
    simp only [simplifyOnce, size] at *
    refine Nat.le_trans (Nat.add_le_add_left (toNat_or_le _ _) _) ?_
    omega
  | cond chosen condition otherwise =>
    have h₁ := simplifyOnce_size chosen
    have h₂ := simplifyOnce_size condition
    have h₃ := simplifyOnce_size otherwise
    have hf := foldNode_size
      (.cond chosen.simplifyOnce.1 condition.simplifyOnce.1 otherwise.simplifyOnce.1)
    simp only [simplifyOnce, size] at *
    refine Nat.le_trans (Nat.add_le_add_left (toNat_or_le _ _) _) ?_
    refine Nat.le_trans (Nat.add_le_add_left (Nat.add_le_add_right (toNat_or_le _ _) _) _) ?_
    have := toNat_or_le (Expr.cond chosen.simplifyOnce.1 condition.simplifyOnce.1
      otherwise.simplifyOnce.1).foldNode.2 chosen.simplifyOnce.2
    omega
  | paren inner =>
    have h := simplifyOnce_size inner
    have hf := foldNode_size (.paren inner.simplifyOnce.1)
    simp only [simplifyOnce, size] at *
    refine Nat.le_trans (Nat.add_le_add_left (toNat_or_le _ _) _) ?_
    omega
  | num text => simpa only [simplifyOnce] using foldNode_size (.num text)
  | symbol s => simpa only [simplifyOnce] using foldNode_size (.symbol s)
  | event ev => simpa only [simplifyOnce] using foldNode_size (.event ev)
  | metric name => simpa only [simplifyOnce] using foldNode_size (.metric name)
  | context name => simpa only [simplifyOnce] using foldNode_size (.context name)

theorem simplifyOnceList_size (es : List Expr) :
    sizeList (simplifyOnceList es).1 + (simplifyOnceList es).2.toNat ≤ sizeList es := by
  cases es with
  | nil => simp [simplifyOnceList, sizeList]
  | cons e es =>
    have h₁ := simplifyOnce_size e
    have h₂ := simplifyOnceList_size es
    simp only [simplifyOnceList, sizeList] at *
    refine Nat.le_trans (Nat.add_le_add_left (toNat_or_le _ _) _) ?_
    omega

end

/-- Passes until one changes nothing, and whether any did. -/
def simplify (e : Expr) : Expr × Bool :=
  match _h : e.simplifyOnce with
  | (e', true) => (e'.simplify.1, true)
  | (e', false) => (e', false)
  termination_by e.size
  decreasing_by
    have := simplifyOnce_size e
    rw [_h] at this
    exact this

def simplified (e : Expr) : Expr :=
  e.simplify.1

end Expr

end TopdownMetrics.Formula
