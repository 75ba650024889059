import TopdownMetrics.Proofs.ResolvedMeaning

/-!
# The value of a simplified tree

The folds look at literals, sums, products and conditionals only.  So they keep the value of
every tree, whatever its symbols and its calls stand for: each fold keeps the value of the node
it replaces, and the value of a tree depends on its parts through their values.

A linear fold subtracts two coefficients.  It is harmless if the difference is not rounded,
which is so for whole numbers that are less than `2 ^ 53` apart.
-/

namespace TopdownMetrics

namespace Binary64

theorem round_natCast {n : ℕ} (hpos : 0 < n) (hlt : n < 2 ^ 53) (negative : Bool) :
    round negative n = .finite negative n := by
  have hn : (0 : ℚ) < n := by exact_mod_cast hpos
  have hbinade := binade_gridExponent hn
  generalize gridExponent (n : ℚ) = g at hbinade
  have hbelow : (n : ℚ) < 2 ^ (53 : ℤ) := by exact_mod_cast hlt
  have hg : g ≤ 0 := by
    rcases hbinade.le with hleast | hle
    · omega
    · have hexponent := two_zpow_lt_iff.1 (hle.trans_lt hbelow)
      omega
  obtain ⟨k, rfl⟩ : ∃ k : ℕ, g = -k := ⟨g.natAbs, by omega⟩
  have hunits : (n : ℚ) = (n * 2 ^ k : ℕ) * 2 ^ (-(k : ℤ)) := by
    rw [zpow_neg, zpow_natCast]
    push_cast
    field_simp
  have hunit := two_zpow_pos (-(k : ℤ))
  have hfinite : (n : ℚ) < 2 ^ 1024 :=
    hbelow.trans (by rw [zpow_ofNat]; exact pow_lt_pow_right₀ (by norm_num) (by norm_num))
  refine hbinade.round_of_near hn hunits hfinite ?_ ?_ negative
  · rw [sub_self, abs_zero]
    linarith
  · rw [sub_self, abs_zero]
    intro htie
    linarith

theorem toRat?_ofRat_intCast {z : ℤ} (hz : z ≠ 0) (hlt : |z| < 2 ^ 53) :
    (ofRat z).toRat? = some (z : ℚ) := by
  unfold ofRat
  rcases lt_or_gt_of_ne hz with hneg | hpos
  · have hcast : (z : ℚ) < 0 := by exact_mod_cast hneg
    have habs : -(z : ℚ) = (z.natAbs : ℚ) := by
      rw [Nat.cast_natAbs, abs_of_neg hneg]
      push_cast
      rfl
    rw [if_pos hcast, habs, round_natCast (by omega) (by rw [Int.abs_eq_natAbs] at hlt; omega)]
    simp [toRat?, hcast, ← habs]
  · have hcast : (0 : ℚ) < z := by exact_mod_cast hpos
    have habs : (z : ℚ) = (z.natAbs : ℚ) := by
      rw [Nat.cast_natAbs, abs_of_pos hpos]
    rw [if_neg hcast.not_gt, habs,
      round_natCast (by omega) (by rw [Int.abs_eq_natAbs] at hlt; omega)]
    simp [toRat?, ← habs, hcast.not_gt]

end Binary64

namespace Formula

/-! ## Exact differences -/

/-- Both coefficients are whole numbers, less than `2 ^ 53` apart. -/
def Expr.Difference.IsWhole (d : Expr.Difference) : Prop :=
  ∃ p q : ℤ, d.minuend.toRat? = some (p : ℚ) ∧ d.subtrahend.toRat? = some (q : ℚ) ∧
    |p - q| < 2 ^ 53

theorem Expr.Difference.IsWhole.exact {d : Expr.Difference} (h : d.IsWhole) : d.Exact := by
  obtain ⟨p, q, hp, hq, hlt⟩ := h
  obtain ⟨minuend, subtrahend⟩ := d
  refine ⟨p, q, hp, hq, ?_⟩
  cases minuend with
  | nan => cases hp
  | infinite _ => cases hp
  | finite a x =>
    cases subtrahend with
    | nan => cases hq
    | infinite _ => cases hq
    | finite b y =>
      have hp : (if a = true then -x else x) = (p : ℚ) := Option.some.inj hp
      have hq : (if b = true then -y else y) = (q : ℚ) := Option.some.inj hq
      simp only [Binary64.sub, hp, hq]
      rcases eq_or_ne p q with rfl | hne
      · simp [Binary64.toRat?]
      · have hdifference : (p : ℚ) - q = ((p - q : ℤ) : ℚ) := by push_cast; rfl
        have hcast : ((p - q : ℤ) : ℚ) ≠ 0 := by exact_mod_cast sub_ne_zero.2 hne
        rw [hdifference, if_neg hcast, Binary64.toRat?_ofRat_intCast (sub_ne_zero.2 hne) hlt]

/-! ## Values -/

section

variable (ι : Interpretation) (call : String → List ℚ → ℚ) (symbols : Symbol → ℚ)

mutual

/-- The value of a tree whose calls are read by `call`, of which nothing is known. -/
def Expr.valueWith : Expr → ℚ
  | .num text => ι.number text
  | .symbol s => symbols s
  | .event e => ι.event e
  | .metric name => ι.metric name
  | .context name => ι.constant name
  | .neg operand => -operand.valueWith
  | .binary op lhs rhs => ι.apply op lhs.valueWith rhs.valueWith
  | .call function arguments => call function (Expr.valuesWith arguments)
  | .cond chosen condition otherwise =>
    if condition.valueWith = 0 then otherwise.valueWith else chosen.valueWith
  | .paren inner => inner.valueWith

def Expr.valuesWith : List Expr → List ℚ
  | [] => []
  | e :: es => e.valueWith :: Expr.valuesWith es

end

variable {ι call symbols}

theorem congruence_valueWith :
    Congruence fun e e' => e.valueWith ι call symbols = e'.valueWith ι call symbols where
  refl _ := rfl
  trans := Eq.trans
  neg h := by rw [Expr.valueWith, Expr.valueWith, h]
  binary op := by
    intro _ _ _ _ hlhs hrhs
    rw [Expr.valueWith, Expr.valueWith, hlhs, hrhs]
  call function := by
    intro es es' hes
    rw [Expr.valueWith, Expr.valueWith]
    congr 1
    induction hes with
    | nil => rfl
    | cons he _ ih => rw [Expr.valuesWith, Expr.valuesWith, he, ih]
  cond hchosen hcondition hotherwise := by
    rw [Expr.valueWith, Expr.valueWith, hchosen, hcondition, hotherwise]
  paren h := by rw [Expr.valueWith, Expr.valueWith, h]

theorem valueWith_toExpr (r : Expr.Reference) :
    r.toExpr.valueWith ι call symbols = ι.reference r := by
  cases r <;> rfl

theorem valueWith_scaled (text : String) (r : Expr.Reference) :
    (Expr.scaled text r).valueWith ι call symbols = ι.number text * ι.reference r := by
  simp only [Expr.scaled, Expr.valueWith, valueWith_toExpr, Interpretation.apply]

theorem valueWith_of_number? {e : Expr} {b : Binary64} {q : ℚ} (hnumber : e.number? = some b)
    (hq : b.toRat? = some q) : e.valueWith ι call symbols = q := by
  match e with
  | .num text => exact number_of_number? hnumber hq
  | .paren inner =>
    rw [Expr.number?] at hnumber
    rw [Expr.valueWith, valueWith_of_number? hnumber hq]
  | .symbol _ | .event _ | .metric _ | .context _ | .neg _ | .binary .. | .call .. | .cond .. =>
    cases hnumber

theorem valueWith_of_isZero {e : Expr} (h : e.isZero = true) :
    e.valueWith ι call symbols = 0 := by
  obtain ⟨b, hnumber, hzero⟩ := (Option.any_eq_true _ _).1 h
  exact valueWith_of_number? hnumber (beq_iff_eq.1 hzero)

theorem valueWith_of_isOne {e : Expr} (h : e.isOne = true) :
    e.valueWith ι call symbols = 1 := by
  obtain ⟨b, hnumber, hone⟩ := (Option.any_eq_true _ _).1 h
  exact valueWith_of_number? hnumber (beq_iff_eq.1 hone)

/-- A fold keeps the value of the node, if the coefficients are subtracted exactly. -/
theorem valueWith_of_folds {e f : Expr} {ds : List Expr.Difference} (h : e.Folds ds f)
    (hexact : ∀ d ∈ ds, d.Exact) :
    e.valueWith ι call symbols = f.valueWith ι call symbols := by
  cases h with
  | chosen hone => rw [Expr.valueWith, valueWith_of_isOne hone, if_neg one_ne_zero]
  | otherwise hzero => rw [Expr.valueWith, valueWith_of_isZero hzero, if_pos rfl]
  | linear hminuend hsubtrahend =>
    obtain ⟨p, q, hp, hq, hdifference⟩ := hexact _ List.mem_cons_self
    have hcoefficient : ι.number _ = p - q := number_coefficient hdifference
    simp only [Expr.valueWith, valueWith_scaled, valueWith_toExpr, Interpretation.apply,
      number_of_number? hminuend hp, number_of_number? hsubtrahend hq, hcoefficient, sub_mul]
  | linearTail hminuend hsubtrahend =>
    obtain ⟨p, q, hp, hq, hdifference⟩ := hexact _ List.mem_cons_self
    have hcoefficient : ι.number _ = p - q := number_coefficient hdifference
    simp only [Expr.valueWith, valueWith_scaled, valueWith_toExpr, Interpretation.apply,
      number_of_number? hminuend hp, number_of_number? hsubtrahend hq, hcoefficient, sub_mul,
      add_sub_assoc]
  | zeroRight hzero =>
    rw [Expr.valueWith, valueWith_of_isZero hzero]
    exact add_zero _
  | zeroLeft hzero =>
    rw [Expr.valueWith, valueWith_of_isZero hzero]
    exact zero_add _

/-- Simplification keeps the value of every tree, whatever its leaves, its calls and the other
operations stand for, if the linear folds on the way subtract exactly or subtract whole
numbers. -/
theorem valueWith_simplify (ι : Interpretation) (call : String → List ℚ → ℚ)
    (symbols : Symbol → ℚ) (e : Expr)
    (hdifferences : ∀ d ∈ e.differences, d.Exact ∨ d.IsWhole) :
    e.simplify.1.valueWith ι call symbols = e.valueWith ι call symbols := by
  have hexact : ∀ d ∈ e.differences, d.Exact := by
    intro d hd
    rcases hdifferences d hd with hexact | hwhole
    · exact hexact
    · exact hwhole.exact
  exact (congruence_valueWith.simplified valueWith_of_folds e hexact).symm

end

/-- The tree `min(((0 + ((5 * V) - (3 * V))) - (1 * V)) if (1) else Loop)`, in which each fold
makes room for the next. -/
def nestedFolds : Expr :=
  let clocks : Expr.Reference := .event (.plain "Clocks")
  .call "min" [.cond
    (.binary .sub
      (.paren (.binary .add (.num "0")
        (.binary .sub (Expr.scaled "5" clocks) (Expr.scaled "3" clocks))))
      (Expr.scaled "1" clocks))
    (.paren (.num "1")) (.symbol (.bare "Loop"))]

/-- Nothing but the clocks is left, and they count as before. -/
theorem valueWith_nestedFolds :
    (∀ d ∈ nestedFolds.differences, d.Exact ∨ d.IsWhole) ∧
      nestedFolds.simplify.1 =
        .call "min" [.binary .mul (.num "1") (.event (.plain "Clocks"))] ∧
      nestedFolds.simplify.1.valueWith cyclicInterpretation (fun _ xs => xs.sum) (fun _ => 7) =
        nestedFolds.valueWith cyclicInterpretation (fun _ xs => xs.sum) (fun _ => 7) := by
  have hdifferences : nestedFolds.differences =
      [⟨.finite false 5, .finite false 3⟩, ⟨.finite false 2, .finite false 1⟩] := by
    decide +kernel
  have hwhole : ∀ d ∈ nestedFolds.differences, d.Exact ∨ d.IsWhole := by
    rw [hdifferences]
    intro d hd
    rcases List.mem_pair.1 hd with rfl | rfl
    · exact .inr ⟨5, 3, by decide +kernel, by decide +kernel, by norm_num⟩
    · exact .inr ⟨2, 1, by decide +kernel, by decide +kernel, by norm_num⟩
  exact ⟨hwhole, by decide +kernel, valueWith_simplify _ _ _ nestedFolds hwhole⟩

end Formula

end TopdownMetrics
