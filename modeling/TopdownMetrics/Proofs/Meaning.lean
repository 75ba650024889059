import TopdownMetrics.Proofs.Coefficient
import TopdownMetrics.Proofs.Rewriting

/-!
# What formulas stand for

`Denotes` reads a formula tree as a rational number, given an interpretation of its
resolved leaves and a meaning of its symbols.  It is a relation and not a function
because a conditional reads the branch that is taken and nothing else, so that the
other branch may have no meaning at all.

The folds of the simplifier keep what a tree denotes, provided that the coefficients
of a linear fold are subtracted exactly.
-/

namespace TopdownMetrics.Formula

/-- What the leaves and the operations of resolved formulas stand for. -/
structure Interpretation where
  event : EventRef → ℚ
  metric : String → ℚ
  /-- The runtime constants. -/
  constant : String → ℚ
  /-- The literals that are not read as finite doubles, such as hexadecimal ones. -/
  literal : String → ℚ
  /-- The quotient of a number by zero. -/
  overZero : ℚ → ℚ
  /-- `%`, the comparisons and the logical operators. -/
  operation : BinaryOp → ℚ → ℚ → ℚ
  call : String → List ℚ → ℚ
  call_max (x y : ℚ) : call "max" [x, y] = max x y

namespace Interpretation

/-- The value of a literal: the double that it is read as, if it is a finite one. -/
def number (ι : Interpretation) (text : String) : ℚ :=
  ((Expr.num text).number?.bind Binary64.toRat?).getD (ι.literal text)

def apply (ι : Interpretation) : BinaryOp → ℚ → ℚ → ℚ
  | .add, x, y => x + y
  | .sub, x, y => x - y
  | .mul, x, y => x * y
  | .div, x, y => if y = 0 then ι.overZero x else x / y
  | op, x, y => ι.operation op x y

def reference (ι : Interpretation) : Expr.Reference → ℚ
  | .event e => ι.event e
  | .metric name => ι.metric name
  | .context name => ι.constant name

end Interpretation

/-- The tree stands for the number, where the symbols stand for what `meaning` says. -/
inductive Denotes (ι : Interpretation) (meaning : Symbol → ℚ → Prop) : Expr → ℚ → Prop where
  | num (text : String) : Denotes ι meaning (.num text) (ι.number text)
  | symbol {s : Symbol} {x : ℚ} (h : meaning s x) : Denotes ι meaning (.symbol s) x
  | event (e : EventRef) : Denotes ι meaning (.event e) (ι.event e)
  | metric (name : String) : Denotes ι meaning (.metric name) (ι.metric name)
  | context (name : String) : Denotes ι meaning (.context name) (ι.constant name)
  | neg {e : Expr} {x : ℚ} (h : Denotes ι meaning e x) : Denotes ι meaning (.neg e) (-x)
  | binary {op : BinaryOp} {lhs rhs : Expr} {x y : ℚ} (hlhs : Denotes ι meaning lhs x)
      (hrhs : Denotes ι meaning rhs y) :
      Denotes ι meaning (.binary op lhs rhs) (ι.apply op x y)
  | call {function : String} {es : List Expr} {xs : List ℚ}
      (h : List.Forall₂ (Denotes ι meaning) es xs) :
      Denotes ι meaning (.call function es) (ι.call function xs)
  /-- A condition other than zero takes the first branch. -/
  | chosen {chosen condition otherwise : Expr} {c x : ℚ}
      (hcondition : Denotes ι meaning condition c) (hc : c ≠ 0)
      (h : Denotes ι meaning chosen x) :
      Denotes ι meaning (.cond chosen condition otherwise) x
  | otherwise {chosen condition otherwise : Expr} {x : ℚ}
      (hcondition : Denotes ι meaning condition 0)
      (h : Denotes ι meaning otherwise x) :
      Denotes ι meaning (.cond chosen condition otherwise) x
  | paren {e : Expr} {x : ℚ} (h : Denotes ι meaning e x) : Denotes ι meaning (.paren e) x

mutual

/-- The value of a tree, where each symbol stands for one number. -/
def Expr.value (ι : Interpretation) (symbols : Symbol → ℚ) : Expr → ℚ
  | .num text => ι.number text
  | .symbol s => symbols s
  | .event e => ι.event e
  | .metric name => ι.metric name
  | .context name => ι.constant name
  | .neg operand => -operand.value ι symbols
  | .binary op lhs rhs => ι.apply op (lhs.value ι symbols) (rhs.value ι symbols)
  | .call function arguments => ι.call function (Expr.values ι symbols arguments)
  | .cond chosen condition otherwise =>
    if condition.value ι symbols = 0 then otherwise.value ι symbols
    else chosen.value ι symbols
  | .paren inner => inner.value ι symbols

def Expr.values (ι : Interpretation) (symbols : Symbol → ℚ) : List Expr → List ℚ
  | [] => []
  | e :: es => e.value ι symbols :: Expr.values ι symbols es

end

section

variable {ι : Interpretation} {meaning : Symbol → ℚ → Prop}

/-! ## Inversion -/

theorem denotes_num_iff {text : String} {x : ℚ} :
    Denotes ι meaning (.num text) x ↔ x = ι.number text := by
  constructor
  · rintro ⟨⟩
    rfl
  · rintro rfl
    exact .num text

theorem denotes_symbol_iff {s : Symbol} {x : ℚ} :
    Denotes ι meaning (.symbol s) x ↔ meaning s x := by
  constructor
  · rintro ⟨⟩
    assumption
  · exact .symbol

theorem denotes_toExpr_iff {r : Expr.Reference} {x : ℚ} :
    Denotes ι meaning r.toExpr x ↔ x = ι.reference r := by
  constructor
  · intro h
    cases r <;> cases h <;> rfl
  · rintro rfl
    cases r
    · exact .event _
    · exact .metric _
    · exact .context _

theorem denotes_neg_iff {e : Expr} {x : ℚ} :
    Denotes ι meaning (.neg e) x ↔ ∃ y, Denotes ι meaning e y ∧ x = -y := by
  constructor
  · rintro ⟨⟩
    exact ⟨_, by assumption, rfl⟩
  · rintro ⟨y, hy, rfl⟩
    exact .neg hy

theorem denotes_binary_iff {op : BinaryOp} {lhs rhs : Expr} {x : ℚ} :
    Denotes ι meaning (.binary op lhs rhs) x ↔
      ∃ y z, Denotes ι meaning lhs y ∧ Denotes ι meaning rhs z ∧ x = ι.apply op y z := by
  constructor
  · rintro ⟨⟩
    exact ⟨_, _, by assumption, by assumption, rfl⟩
  · rintro ⟨y, z, hy, hz, rfl⟩
    exact .binary hy hz

theorem denotes_call_iff {function : String} {es : List Expr} {x : ℚ} :
    Denotes ι meaning (.call function es) x ↔
      ∃ ys, List.Forall₂ (Denotes ι meaning) es ys ∧ x = ι.call function ys := by
  constructor
  · rintro ⟨⟩
    exact ⟨_, by assumption, rfl⟩
  · rintro ⟨ys, hys, rfl⟩
    exact .call hys

theorem denotes_cond_iff {chosen condition otherwise : Expr} {x : ℚ} :
    Denotes ι meaning (.cond chosen condition otherwise) x ↔
      (∃ c, Denotes ι meaning condition c ∧ c ≠ 0 ∧ Denotes ι meaning chosen x) ∨
        (Denotes ι meaning condition 0 ∧ Denotes ι meaning otherwise x) := by
  constructor
  · intro h
    cases h with
    | chosen hcondition hc h => exact .inl ⟨_, hcondition, hc, h⟩
    | otherwise hcondition h => exact .inr ⟨hcondition, h⟩
  · rintro (⟨c, hcondition, hc, h⟩ | ⟨hcondition, h⟩)
    · exact .chosen hcondition hc h
    · exact .otherwise hcondition h

theorem denotes_paren_iff {e : Expr} {x : ℚ} :
    Denotes ι meaning (.paren e) x ↔ Denotes ι meaning e x := by
  constructor
  · rintro ⟨⟩
    assumption
  · exact .paren

theorem denotes_bracket_iff {e : Expr} {x : ℚ} :
    Denotes ι meaning e.bracket x ↔ Denotes ι meaning e x := by
  unfold Expr.bracket
  split_ifs
  · rfl
  · exact denotes_paren_iff

/-! ## Denoting the same -/

/-- Two trees that stand for the same numbers. -/
def SameMeaning (ι : Interpretation) (meaning : Symbol → ℚ → Prop) (e e' : Expr) : Prop :=
  ∀ x, Denotes ι meaning e x ↔ Denotes ι meaning e' x

theorem forall₂_denotes_iff {es es' : List Expr}
    (h : List.Forall₂ (SameMeaning ι meaning) es es') (xs : List ℚ) :
    List.Forall₂ (Denotes ι meaning) es xs ↔ List.Forall₂ (Denotes ι meaning) es' xs := by
  induction h generalizing xs with
  | nil => rfl
  | cons he _ ih =>
    cases xs with
    | nil => simp
    | cons x xs => rw [List.forall₂_cons, List.forall₂_cons, he x, ih xs]

theorem congruence_sameMeaning : Congruence (SameMeaning ι meaning) where
  refl _ _ := Iff.rfl
  trans h h' x := (h x).trans (h' x)
  neg h x := by simp only [denotes_neg_iff, h _]
  binary _ := by
    intro _ _ _ _ h h' x
    simp only [denotes_binary_iff, h _, h' _]
  call _ := by
    intro _ _ h x
    simp only [denotes_call_iff, forall₂_denotes_iff h]
  cond h h' h'' x := by simp only [denotes_cond_iff, h _, h' _, h'' _]
  paren h x := by rw [denotes_paren_iff, denotes_paren_iff, h x]

/-! ## Literals -/

theorem denotes_iff_of_number? {e : Expr} {b : Binary64} {q x : ℚ}
    (hnumber : e.number? = some b) (hq : b.toRat? = some q) :
    Denotes ι meaning e x ↔ x = q := by
  match e with
  | .num text =>
    have hvalue : ι.number text = q := by simp [Interpretation.number, hnumber, hq]
    rw [denotes_num_iff, hvalue]
  | .paren inner =>
    rw [Expr.number?] at hnumber
    rw [denotes_paren_iff, denotes_iff_of_number? hnumber hq]
  | .symbol _ | .event _ | .metric _ | .context _ | .neg _ | .binary .. | .call .. | .cond .. =>
    cases hnumber

theorem denotes_iff_of_isZero {e : Expr} (h : e.isZero = true) {x : ℚ} :
    Denotes ι meaning e x ↔ x = 0 := by
  obtain ⟨b, hnumber, hzero⟩ := (Option.any_eq_true _ _).1 h
  exact denotes_iff_of_number? hnumber (beq_iff_eq.1 hzero)

theorem denotes_iff_of_isOne {e : Expr} (h : e.isOne = true) {x : ℚ} :
    Denotes ι meaning e x ↔ x = 1 := by
  obtain ⟨b, hnumber, hone⟩ := (Option.any_eq_true _ _).1 h
  exact denotes_iff_of_number? hnumber (beq_iff_eq.1 hone)

/-! ## Folds -/

/-- The difference of two finite coefficients is not rounded. -/
def Expr.Difference.Exact (d : Expr.Difference) : Prop :=
  ∃ p q, d.minuend.toRat? = some p ∧ d.subtrahend.toRat? = some q ∧
    (d.minuend.sub d.subtrahend).toRat? = some (p - q)

theorem number_coefficient {d : Expr.Difference} {p q : ℚ}
    (h : (d.minuend.sub d.subtrahend).toRat? = some (p - q)) :
    ι.number d.coefficient = p - q := by
  have hread := toRat?_number?_formatNumber (Binary64.isRounded_sub _ _) h
  rw [Interpretation.number, Expr.Difference.coefficient, hread, Option.getD_some]

theorem denotes_scaled_iff {text : String} {r : Expr.Reference} {x : ℚ} :
    Denotes ι meaning (Expr.scaled text r) x ↔ x = ι.number text * ι.reference r := by
  simp [Expr.scaled, denotes_paren_iff, denotes_binary_iff, denotes_num_iff,
    denotes_toExpr_iff, Interpretation.apply]

theorem number_of_number? {text : String} {b : Binary64} {q : ℚ}
    (hnumber : (Expr.num text).number? = some b) (hq : b.toRat? = some q) :
    ι.number text = q := by
  simp [Interpretation.number, hnumber, hq]

/-- A fold keeps the meaning of the node, if the coefficients are subtracted
exactly. -/
theorem sameMeaning_of_folds {e f : Expr} {ds : List Expr.Difference} (h : e.Folds ds f)
    (hexact : ∀ d ∈ ds, d.Exact) : SameMeaning ι meaning e f := by
  intro x
  cases h with
  | chosen hone => simp [denotes_cond_iff, denotes_iff_of_isOne hone]
  | otherwise hzero => simp [denotes_cond_iff, denotes_iff_of_isZero hzero]
  | linear hminuend hsubtrahend =>
    obtain ⟨p, q, hp, hq, hdifference⟩ := hexact _ List.mem_cons_self
    have hcoefficient : ι.number _ = p - q := number_coefficient hdifference
    simp [denotes_binary_iff, denotes_scaled_iff, denotes_num_iff, denotes_toExpr_iff,
      Interpretation.apply, number_of_number? hminuend hp, number_of_number? hsubtrahend hq,
      hcoefficient, sub_mul]
  | linearTail hminuend hsubtrahend =>
    obtain ⟨p, q, hp, hq, hdifference⟩ := hexact _ List.mem_cons_self
    have hcoefficient : ι.number _ = p - q := number_coefficient hdifference
    simp [denotes_binary_iff, denotes_scaled_iff, denotes_num_iff, denotes_toExpr_iff,
      Interpretation.apply, number_of_number? hminuend hp, number_of_number? hsubtrahend hq,
      hcoefficient, sub_mul, add_sub_assoc]
  | zeroRight hzero =>
    simp [denotes_binary_iff, denotes_iff_of_isZero hzero, Interpretation.apply]
  | zeroLeft hzero =>
    simp [denotes_binary_iff, denotes_iff_of_isZero hzero, Interpretation.apply]

end

/-! ## Values -/

section

variable {ι : Interpretation} {meaning : Symbol → ℚ → Prop}

mutual

/-- A tree without symbols stands for its value and for nothing else. -/
theorem denotes_iff_value (symbols : Symbol → ℚ) {e : Expr} (he : e.hasSymbols = false)
    {x : ℚ} : Denotes ι meaning e x ↔ x = e.value ι symbols := by
  match e with
  | .symbol _ => cases he
  | .num _ => exact denotes_num_iff
  | .event event => exact denotes_toExpr_iff (r := .event event)
  | .metric name => exact denotes_toExpr_iff (r := .metric name)
  | .context name => exact denotes_toExpr_iff (r := .context name)
  | .neg operand =>
    rw [Expr.hasSymbols] at he
    simp [denotes_neg_iff, denotes_iff_value symbols he, Expr.value]
  | .binary op lhs rhs =>
    rw [Expr.hasSymbols, Bool.or_eq_false_iff] at he
    simp [denotes_binary_iff, denotes_iff_value symbols he.1, denotes_iff_value symbols he.2,
      Expr.value]
  | .call function arguments =>
    rw [Expr.hasSymbols] at he
    simp [denotes_call_iff, forall₂_denotes_iff_values symbols he, Expr.value]
  | .cond chosen condition otherwise =>
    rw [Expr.hasSymbols, Bool.or_eq_false_iff, Bool.or_eq_false_iff] at he
    obtain ⟨⟨hchosen, hcondition⟩, hotherwise⟩ := he
    rw [denotes_cond_iff, Expr.value]
    simp only [denotes_iff_value symbols hchosen, denotes_iff_value symbols hcondition,
      denotes_iff_value symbols hotherwise]
    split_ifs with hzero
    · simp [hzero]
    · simp [hzero, Ne.symm hzero]
  | .paren inner =>
    rw [Expr.hasSymbols] at he
    rw [denotes_paren_iff, denotes_iff_value symbols he, Expr.value]

theorem forall₂_denotes_iff_values (symbols : Symbol → ℚ) {es : List Expr}
    (hes : Expr.hasSymbolsList es = false) {xs : List ℚ} :
    List.Forall₂ (Denotes ι meaning) es xs ↔ xs = Expr.values ι symbols es := by
  match es, xs with
  | [], [] => simp [Expr.values]
  | [], _ :: _ => simp [Expr.values]
  | _ :: _, [] => simp [Expr.values]
  | e :: es, x :: xs =>
    rw [Expr.hasSymbolsList, Bool.or_eq_false_iff] at hes
    rw [List.forall₂_cons, denotes_iff_value symbols hes.1,
      forall₂_denotes_iff_values symbols hes.2, Expr.values, List.cons_eq_cons]

end

end

end TopdownMetrics.Formula
