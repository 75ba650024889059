import TopdownMetrics.Formula.Simplify
import TopdownMetrics.Proofs.Shortest
import Mathlib.Data.List.TakeWhile

/-!
# Coefficients read back

The linear fold writes the difference of two coefficients as a literal, and later
folds and perf read that literal.  Whatever the difference is, as long as it is a
finite double, the literal reads as this double again: small whole numbers are written
exactly, and every other number as its shortest decimal, digit by digit.
-/

namespace TopdownMetrics

/-! ## Reading digits -/

namespace Decimal

theorem ofDigits_eq_ofDigitChars (cs : List Char) :
    ofDigits cs = Nat.ofDigitChars 10 cs 0 :=
  (Nat.ofDigitChars_eq_foldl).symm

@[simp] theorem ofDigits_toDigits (n : ℕ) : ofDigits (Nat.toDigits 10 n) = n := by
  rw [ofDigits_eq_ofDigitChars, Nat.ofDigitChars_ten_toDigits]

theorem ofDigits_replicate_append (k : ℕ) (cs : List Char) :
    ofDigits (List.replicate k '0' ++ cs) = ofDigits cs := by
  simp [ofDigits_eq_ofDigitChars, Nat.ofDigitChars_append]

theorem ofDigits_append_replicate (k : ℕ) (cs : List Char) :
    ofDigits (cs ++ List.replicate k '0') = 10 ^ k * ofDigits cs := by
  simp [ofDigits_eq_ofDigitChars, Nat.ofDigitChars_append]

/-- The characters are decimal digits. -/
def AllDigits (cs : List Char) : Prop :=
  ∀ c ∈ cs, c.isDigit = true

theorem allDigits_digits (d : Decimal) : AllDigits d.digits :=
  fun _ hc => Nat.isDigit_of_mem_toDigits (by decide) (by decide) hc

theorem allDigits_replicate (k : ℕ) : AllDigits (List.replicate k '0') := by
  intro c hc
  rw [List.eq_of_mem_replicate hc]
  rfl

theorem AllDigits.append {cs cs' : List Char} (h : AllDigits cs) (h' : AllDigits cs') :
    AllDigits (cs ++ cs') :=
  List.forall_mem_append.2 ⟨h, h'⟩

theorem AllDigits.takeWhile_eq {cs : List Char} (h : AllDigits cs) :
    cs.takeWhile Char.isDigit = cs :=
  List.takeWhile_eq_self_iff.2 h

theorem AllDigits.dropWhile_eq {cs : List Char} (h : AllDigits cs) :
    cs.dropWhile Char.isDigit = [] :=
  List.dropWhile_eq_nil_iff.2 h

theorem ofChars?_of_allDigits {cs : List Char} (h : AllDigits cs) (hne : cs ≠ []) :
    ofChars? cs = some ⟨ofDigits cs, 0⟩ := by
  simp [ofChars?, h.takeWhile_eq, h.dropWhile_eq, hne, exponent?]

theorem ofChars?_of_point {whole fraction : List Char} (hwhole : AllDigits whole)
    (hfraction : AllDigits fraction) (hne : whole ≠ []) :
    ofChars? (whole ++ '.' :: fraction) =
      some ⟨ofDigits (whole ++ fraction), -(fraction.length : ℤ)⟩ := by
  have htake : (whole ++ '.' :: fraction).takeWhile Char.isDigit = whole := by
    rw [List.takeWhile_append_of_pos hwhole]
    simp [show Char.isDigit '.' = false from rfl]
  have hdrop : (whole ++ '.' :: fraction).dropWhile Char.isDigit = '.' :: fraction := by
    rw [List.dropWhile_append_of_pos hwhole]
    simp [show Char.isDigit '.' = false from rfl]
  simp [ofChars?, htake, hdrop, hfraction.takeWhile_eq, hfraction.dropWhile_eq, hne, exponent?]

theorem digits_ne_nil (d : Decimal) : d.digits ≠ [] :=
  Nat.toDigits_ne_nil

/-- Digits that are laid out positionally are read as the same number. -/
theorem exists_ofChars?_positional {layout : Layout} (hfraction : layout.wholeFraction = false)
    (d : Decimal) :
    ∃ d', ofChars? (layout.positional d.digits d.point) = some d' ∧ d'.toRat = d.toRat := by
  have hlength : d.point = d.digits.length + d.exponent := rfl
  have hdigits := d.allDigits_digits
  rw [Layout.positional, hfraction]
  simp only [Bool.false_eq_true, if_false, List.append_nil]
  split_ifs with hsmall hlarge
  · -- zeros stand between the point and the digits
    have hzeros := (allDigits_replicate (-d.point).toNat).append hdigits
    refine ⟨_, ofChars?_of_point (allDigits_replicate 1) hzeros (List.cons_ne_nil _ _), ?_⟩
    have hvalue : ofDigits (List.replicate 1 '0' ++ (List.replicate (-d.point).toNat '0' ++ d.digits)) =
        d.coefficient := by
      have hfront := ofDigits_replicate_append ((-d.point).toNat + 1) d.digits
      rw [List.replicate_succ, List.cons_append] at hfront
      exact hfront.trans (ofDigits_toDigits d.coefficient)
    have hexponent :
        -((List.replicate (-d.point).toNat '0' ++ d.digits).length : ℤ) = d.exponent := by
      simp only [List.length_append, List.length_replicate, Nat.cast_add]
      omega
    rw [hvalue, hexponent]
  · -- zeros stand behind the digits
    have hall := hdigits.append (allDigits_replicate (d.point.toNat - d.digits.length))
    refine ⟨_, ofChars?_of_allDigits hall (by simp [digits_ne_nil]), ?_⟩
    have hexponent : ((d.point.toNat - d.digits.length : ℕ) : ℤ) = d.exponent := by omega
    rw [ofDigits_append_replicate, digits, ofDigits_toDigits, toRat, toRat, ← digits,
      ← hexponent, zpow_natCast, zpow_zero]
    push_cast
    ring
  · -- the point stands between two digits
    have htake : AllDigits (d.digits.take d.point.toNat) := fun c hc =>
      hdigits c (List.mem_of_mem_take hc)
    have hdrop : AllDigits (d.digits.drop d.point.toNat) := fun c hc =>
      hdigits c (List.mem_of_mem_drop hc)
    have hne : d.digits.take d.point.toNat ≠ [] := by
      simp [List.take_eq_nil_iff, digits_ne_nil]
      omega
    refine ⟨_, ofChars?_of_point htake hdrop hne, ?_⟩
    have hexponent : -((d.digits.drop d.point.toNat).length : ℤ) = d.exponent := by
      rw [List.length_drop]
      omega
    rw [List.take_append_drop, hexponent, digits, ofDigits_toDigits]

/-! ## Reading a signed decimal -/

theorem ofChars?_eq_none_of_sign {c : Char} (hc : c = '-' ∨ c = '+') (cs : List Char) :
    ofChars? (c :: cs) = none := by
  rcases hc with rfl | rfl <;> simp [ofChars?]

theorem ofChars?_eq_none_of_hex (cs : List Char) : ofChars? ('0' :: 'x' :: cs) = none := by
  simp [ofChars?, exponent?]

theorem between_point {d : Decimal} (hd : d.coefficient ≠ 0) :
    (10 : ℚ) ^ (d.point - 1) ≤ d.toRat ∧ d.toRat < 10 ^ d.point := by
  obtain ⟨hle, hlt⟩ := Binary64.between_digitCount hd
  have hunit := Binary64.ten_zpow_pos d.exponent
  rw [sub_add_cancel] at hlt
  rw [point, toRat, add_sub_right_comm, zpow_add₀ (by norm_num), zpow_add₀ (by norm_num)]
  exact ⟨mul_le_mul_of_nonneg_right hle hunit.le, mul_lt_mul_of_pos_right hlt hunit⟩

end Decimal

namespace Binary64

theorem ofText?_of_ofChars? {cs : List Char} {d : Decimal} (h : Decimal.ofChars? cs = some d)
    (negative : Bool) :
    ofText? (String.ofList (if negative then '-' :: cs else cs)) =
      some (ofDecimal negative d) := by
  cases negative with
  | true => simp [ofText?, h]
  | false =>
    have hminus (cs' : List Char) : cs ≠ '-' :: cs' := by
      rintro rfl
      rw [Decimal.ofChars?_eq_none_of_sign (.inl rfl)] at h
      cases h
    have hplus (cs' : List Char) : cs ≠ '+' :: cs' := by
      rintro rfl
      rw [Decimal.ofChars?_eq_none_of_sign (.inr rfl)] at h
      cases h
    simp [ofText?, h]

theorem IsDouble.ofDecimal_eq {x : ℚ} {m : ℕ} {g : ℤ} (h : IsDouble x m g) {d : Decimal}
    (hd : (neighbourhood x).contains d.toRat = true) (negative : Bool) :
    ofDecimal negative d = .finite negative x := by
  obtain ⟨hlow, hhigh⟩ := h.half_unit_le_of_contains hd
  have hunit := two_zpow_pos g
  have hcoefficient : d.coefficient ≠ 0 := by
    intro hzero
    rw [Decimal.toRat, hzero] at hlow
    simp only [Nat.cast_zero, zero_mul] at hlow
    linarith
  obtain ⟨hle, hlt⟩ := Decimal.between_point hcoefficient
  have hnotHuge : ¬310 < d.point := by
    intro hhuge
    have hpow : (10 : ℚ) ^ (310 : ℤ) ≤ 10 ^ (d.point - 1) :=
      zpow_le_zpow_right₀ (by norm_num) (by omega)
    have hbound : 2 * (2 : ℚ) ^ 1024 < 10 ^ 310 := by
      have hnat : 2 * 2 ^ 1024 < 10 ^ 310 := by decide +kernel
      exact_mod_cast hnat
    have hlarge : (10 : ℚ) ^ 310 ≤ 2 * x := hpow.trans (hle.trans hhigh)
    have hsmall : 2 * x < 2 * (2 : ℚ) ^ 1024 := mul_lt_mul_of_pos_left h.finite two_pos
    exact absurd (hlarge.trans_lt hsmall) hbound.not_gt
  have hnotTiny : ¬d.point < -330 := by
    intro htiny
    have hpow : (10 : ℚ) ^ d.point ≤ 10 ^ (-330 : ℤ) :=
      zpow_le_zpow_right₀ (by norm_num) (by omega)
    have hleast : (2 : ℚ) ^ (-1074 : ℤ) ≤ 2 ^ g := two_zpow_le_iff.2 h.binade.least
    have hbound : (10 : ℚ) ^ (-330 : ℤ) < 2 ^ (-1074 : ℤ) / 2 := by
      have hnat : 2 ^ 1075 < 10 ^ 330 := by decide +kernel
      have hrat : (2 : ℚ) ^ 1075 < 10 ^ 330 := by exact_mod_cast hnat
      calc (10 : ℚ) ^ (-330 : ℤ) = 1 / 10 ^ 330 := by rw [zpow_neg, one_div]; rfl
        _ < 1 / 2 ^ 1075 := one_div_lt_one_div_of_lt (pow_pos two_pos _) hrat
        _ = 2 ^ (-1074 : ℤ) / 2 := by
          rw [pow_succ, ← div_div, zpow_neg, one_div]
          rfl
    linarith
  rw [ofDecimal, if_neg hcoefficient, if_neg hnotHuge, if_neg hnotTiny,
    h.round_of_contains hd]

/-- A number as it comes out of an operation: its magnitude is that of a double. -/
def IsRounded : Binary64 → Prop
  | .finite _ magnitude => magnitude = 0 ∨ ∃ m g, IsDouble magnitude m g
  | _ => True

theorem isRounded_round {x : ℚ} (hx : 0 < x) (negative : Bool) :
    (round negative x).IsRounded := by
  cases hround : round negative x with
  | finite negative' magnitude => exact (isDouble_of_round hx hround).2
  | _ => trivial

theorem isRounded_sub (a b : Binary64) : (a.sub b).IsRounded := by
  cases a with
  | nan => cases b <;> trivial
  | infinite negative =>
    cases b with
    | infinite negative' =>
      simp only [sub]
      split_ifs <;> trivial
    | _ => trivial
  | finite negative magnitude =>
    cases b with
    | nan => trivial
    | infinite => trivial
    | finite negative' magnitude' =>
      simp only [sub]
      generalize (if negative = true then -magnitude else magnitude) -
        (if negative' = true then -magnitude' else magnitude') = difference
      split_ifs with hzero
      · exact .inl rfl
      · unfold ofRat
        rcases lt_or_gt_of_ne hzero with hneg | hpos
        · simp only [hneg, if_true]
          exact isRounded_round (by linarith) _
        · simp only [hpos.not_gt, if_false]
          exact isRounded_round hpos _

end Binary64

namespace Formula

open Binary64

theorem Expr.number?_of_ofChars? {cs : List Char} {d : Decimal}
    (h : Decimal.ofChars? cs = some d) (negative : Bool) :
    (Expr.num (String.ofList (if negative then '-' :: cs else cs))).number? =
      some (ofDecimal negative d) := by
  rw [Expr.number?]
  split
  · rename_i hhex
    cases negative with
    | true => simp at hhex
    | false =>
      rw [String.toList_ofList, if_neg Bool.false_ne_true] at hhex
      rw [hhex, Decimal.ofChars?_eq_none_of_hex] at h
      cases h
  · exact ofText?_of_ofChars? h negative

theorem toString_int_eq (z : ℤ) :
    toString z = String.ofList
      (if decide (z < 0) then '-' :: Nat.toDigits 10 z.natAbs else Nat.toDigits 10 z.natAbs) := by
  cases z with
  | ofNat n =>
    have hn : ¬(n : ℤ) < 0 := by omega
    simp [hn, toString, Int.repr, Nat.repr_eq_ofList_toDigits]
  | negSucc n =>
    apply String.toList_injective
    simp [toString, Int.repr, Nat.repr_eq_ofList_toDigits, Int.negSucc_lt_zero]

theorem number?_toString {magnitude : ℚ} {m : ℕ} {g : ℤ} (h : IsDouble magnitude m g)
    {negative : Bool} {z : ℤ} (hz : (z : ℚ) = if negative then -magnitude else magnitude) :
    (Expr.num (toString z)).number? = some (.finite negative magnitude) := by
  have hpos := h.value_pos
  have hsign : decide (z < 0) = negative := by
    cases negative with
    | true =>
      have hneg : (z : ℚ) < 0 := by simpa [hz] using hpos
      exact decide_eq_true (by exact_mod_cast hneg)
    | false =>
      have hnonneg : ¬(z : ℚ) < 0 := by simpa [hz] using hpos.le
      exact decide_eq_false (by exact_mod_cast hnonneg)
  have habs : ((z.natAbs : ℕ) : ℚ) = magnitude := by
    rw [Nat.cast_natAbs, Int.cast_abs, hz]
    cases negative <;> simp [abs_of_pos hpos]
  have hread := Decimal.ofChars?_of_allDigits
    (Decimal.allDigits_digits ⟨z.natAbs, 0⟩) Nat.toDigits_ne_nil
  have hvalue : (⟨Decimal.ofDigits (Decimal.digits ⟨z.natAbs, 0⟩), 0⟩ : Decimal).toRat =
      magnitude := by
    rw [Decimal.digits, Decimal.ofDigits_toDigits, Decimal.toRat, zpow_zero, mul_one, habs]
  rw [toString_int_eq, hsign]
  refine (Expr.number?_of_ofChars? hread negative).trans (congrArg some ?_)
  exact h.ofDecimal_eq (hvalue ▸ h.contains_self) negative

theorem number?_render {magnitude : ℚ} {m : ℕ} {g : ℤ} (h : IsDouble magnitude m g)
    (negative : Bool) :
    (Expr.num (coefficientLayout.render (.finite negative magnitude))).number? =
      some (.finite negative magnitude) := by
  have hcontains := h.contains_shortest coefficientLayout.tie
  obtain ⟨d, hread, hd⟩ := Decimal.exists_ofChars?_positional
    (show coefficientLayout.wholeFraction = false from rfl)
    (shortest coefficientLayout.tie magnitude)
  rw [← hd] at hcontains
  rw [Layout.render, if_neg h.value_pos.ne']
  exact (Expr.number?_of_ofChars? hread negative).trans
    (congrArg some (h.ofDecimal_eq hcontains negative))

/-- A written coefficient reads as the number for which it is written. -/
theorem toRat?_number?_formatNumber {x : Binary64} (hx : x.IsRounded) {value : ℚ}
    (hvalue : x.toRat? = some value) :
    (Expr.num (formatNumber x)).number?.bind Binary64.toRat? = some value := by
  cases x with
  | nan => cases hvalue
  | infinite => cases hvalue
  | finite negative magnitude =>
    have hsigned : (if negative = true then -magnitude else magnitude) = value :=
      Option.some.inj hvalue
    rw [formatNumber, hvalue]
    simp only
    rcases hx with rfl | ⟨m, g, h⟩
    · obtain rfl : 0 = value := by simpa using hsigned
      rw [if_pos (by decide)]
      decide +kernel
    · split_ifs with hwhole
      · have hnum : (value.num : ℚ) = value := Rat.coe_int_num_of_den_eq_one hwhole.1
        rw [number?_toString h (hnum.trans hsigned.symm)]
        exact hvalue
      · rw [number?_render h]
        exact hvalue

end Formula

end TopdownMetrics
