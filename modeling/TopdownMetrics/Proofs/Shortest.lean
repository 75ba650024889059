import TopdownMetrics.Proofs.Rounding

/-!
# Shortest decimals read back

A number in the neighbourhood of a double is rounded to that double.  The search for
the shortest decimal only answers with numbers from the neighbourhood, and it finds
one: the grid of seventeen digits has a point within half a step of any number, and
half a step is less than the distance to the ends of the neighbourhood.
-/

namespace TopdownMetrics.Binary64

/-! ## The neighbourhood of a double -/

/-- How far the neighbourhood of a double reaches down. -/
def reachBelow (m : ℕ) (g : ℤ) : ℚ :=
  if m = 2 ^ 52 ∧ -1074 < g then 2 ^ g / 4 else 2 ^ g / 2

variable {x y : ℚ} {m : ℕ} {g : ℤ}

theorem IsDouble.neighbourhood_eq (h : IsDouble x m g) :
    neighbourhood x = ⟨x - reachBelow m g, x + 2 ^ g / 2, m % 2 == 0⟩ := by
  have hunit := two_zpow_pos g
  have hquotient : x / 2 ^ g = (m : ℚ) := by
    rw [h.eq, mul_div_cancel_right₀ _ hunit.ne']
  have hsignificand : ((m : ℚ)).num.natAbs = m := by simp
  simp only [neighbourhood, h.binade.gridExponent_eq h.value_pos, hquotient, hsignificand]
  rfl

theorem reachBelow_le (m : ℕ) (g : ℤ) : reachBelow m g ≤ 2 ^ g / 2 := by
  have hunit := two_zpow_pos g
  unfold reachBelow
  split_ifs <;> linarith

theorem IsDouble.contains_iff (h : IsDouble x m g) :
    (neighbourhood x).contains y = true ↔
      if m % 2 = 0 then x - reachBelow m g ≤ y ∧ y ≤ x + 2 ^ g / 2
      else x - reachBelow m g < y ∧ y < x + 2 ^ g / 2 := by
  rw [h.neighbourhood_eq, Neighbourhood.contains]
  rcases Nat.mod_two_eq_zero_or_one m with heven | hodd
  · simp [heven]
  · simp [hodd]

theorem IsDouble.within_of_contains (h : IsDouble x m g)
    (hy : (neighbourhood x).contains y = true) :
    (x - reachBelow m g ≤ y ∧ y ≤ x + 2 ^ g / 2) ∧
      (y = x - reachBelow m g ∨ y = x + 2 ^ g / 2 → m % 2 = 0) := by
  rw [h.contains_iff] at hy
  split_ifs at hy with heven
  · exact ⟨hy, fun _ => heven⟩
  · exact ⟨⟨hy.1.le, hy.2.le⟩, fun hend => absurd hend (not_or.2 ⟨hy.1.ne', hy.2.ne⟩)⟩

theorem IsDouble.unit_le (h : IsDouble x m g) : 2 ^ g ≤ x := by
  have hm : (1 : ℚ) ≤ m := by exact_mod_cast h.pos
  rw [h.eq]
  exact le_mul_of_one_le_left (two_zpow_pos g).le hm

theorem IsDouble.half_unit_le_of_contains (h : IsDouble x m g)
    (hy : (neighbourhood x).contains y = true) : 2 ^ g / 2 ≤ y ∧ y ≤ 2 * x := by
  obtain ⟨⟨hlow, hhigh⟩, -⟩ := h.within_of_contains hy
  have hreach := reachBelow_le m g
  have hunit := h.unit_le
  have hpos := two_zpow_pos g
  constructor <;> linarith

theorem IsDouble.round_of_contains_of_binade (h : IsDouble x m g)
    (hy : (neighbourhood x).contains y = true) (hbinade : Binade y g) (negative : Bool) :
    round negative y = .finite negative x := by
  obtain ⟨⟨hlow, hhigh⟩, hend⟩ := h.within_of_contains hy
  have hunit := two_zpow_pos g
  have hypos : 0 < y := by linarith [(h.half_unit_le_of_contains hy).1]
  have hreach := reachBelow_le m g
  have hnear : |y - x| ≤ 2 ^ g / 2 := abs_le.2 ⟨by linarith, by linarith⟩
  refine hbinade.round_of_near hypos h.eq h.finite hnear (fun htie => hend ?_) negative
  rcases abs_choice (y - x) with hsign | hsign
  · rw [hsign] at htie
    exact .inr (by linarith)
  · rw [hsign] at htie
    exact .inl (by linarith)

/-- Only a power of two has numbers of the binade below in its neighbourhood. -/
theorem IsDouble.eq_of_contains_of_lt (h : IsDouble x m g)
    (hy : (neighbourhood x).contains y = true) (hg : g ≠ -1074) (hlt : y < 2 ^ (g + 52)) :
    m = 2 ^ 52 ∧ reachBelow m g = 2 ^ g / 4 := by
  obtain ⟨⟨hlow, -⟩, -⟩ := h.within_of_contains hy
  have hreach := reachBelow_le m g
  have hunit := two_zpow_pos g
  have hle : m ≤ 2 ^ 52 := by
    by_contra hgt
    have hgt : ((2 ^ 52 : ℕ) : ℚ) + 1 ≤ m := by exact_mod_cast not_le.1 hgt
    have hscaled := mul_le_mul_of_nonneg_right hgt hunit.le
    rw [two_zpow_add_ofNat] at hlt
    linarith [h.eq]
  obtain rfl : m = 2 ^ 52 := le_antisymm hle (h.le_significand hg)
  exact ⟨rfl, if_pos ⟨rfl, lt_of_le_of_ne h.binade.least (Ne.symm hg)⟩⟩

/-- Below a power of two the grid is twice as fine. -/
theorem IsDouble.round_of_contains_of_lt (h : IsDouble x m g)
    (hy : (neighbourhood x).contains y = true) (hg : g ≠ -1074) (hlt : y < 2 ^ (g + 52))
    (negative : Bool) : round negative y = .finite negative x := by
  obtain ⟨⟨hlow, -⟩, -⟩ := h.within_of_contains hy
  obtain ⟨rfl, hreach⟩ := h.eq_of_contains_of_lt hy hg hlt
  have hunit := two_zpow_pos (g - 1)
  have hhalf : (2 : ℚ) ^ g = 2 * 2 ^ (g - 1) := by
    rw [← zpow_one_add₀ (by norm_num), add_sub_cancel]
  have hx : x = (2 ^ 53 : ℕ) * 2 ^ (g - 1) := by
    rw [h.eq, hhalf]
    push_cast
    ring
  have hlt' : y < x := by rwa [two_zpow_add_ofNat, ← h.eq] at hlt
  rw [hreach, hhalf] at hlow
  have hypos : 0 < y := by linarith [(h.half_unit_le_of_contains hy).1, two_zpow_pos g]
  have hleast := h.binade.least
  have hbinade : Binade y (g - 1) := by
    refine ⟨by omega, ?_, .inr ?_⟩
    · rw [two_zpow_add_ofNat, ← hx]
      exact hlt'
    · rw [two_zpow_add_ofNat]
      push_cast at hx ⊢
      linarith
  have hnear : |y - x| ≤ 2 ^ (g - 1) / 2 := abs_le.2 ⟨by linarith, by linarith⟩
  exact hbinade.round_of_near hypos hx h.finite hnear (fun _ => by norm_num) negative

/-- What lies in the neighbourhood of a double is rounded to it. -/
theorem IsDouble.round_of_contains (h : IsDouble x m g)
    (hy : (neighbourhood x).contains y = true) (negative : Bool) :
    round negative y = .finite negative x := by
  by_cases hbelow : g ≠ -1074 ∧ y < 2 ^ (g + 52)
  · exact h.round_of_contains_of_lt hy hbelow.1 hbelow.2 negative
  · have hle : g = -1074 ∨ 2 ^ (g + 52) ≤ y := by
      rwa [not_and_or, not_not, not_lt] at hbelow
    have hlt : y < 2 ^ (g + 53) := by
      obtain ⟨⟨-, hhigh⟩, -⟩ := h.within_of_contains hy
      have hunit := two_zpow_pos g
      have hm : (m : ℚ) + 1 ≤ (2 ^ 53 : ℕ) := by exact_mod_cast h.significand_lt
      have hscaled := mul_le_mul_of_nonneg_right hm hunit.le
      rw [two_zpow_add_ofNat]
      linarith [h.eq]
    exact h.round_of_contains_of_binade hy ⟨h.binade.least, hlt, hle⟩ negative

/-- Seventeen digits are enough to stay in the neighbourhood. -/
theorem IsDouble.contains_of_close (h : IsDouble x m g)
    (hy : |y - x| ≤ x / (2 * 10 ^ 16)) : (neighbourhood x).contains y = true := by
  have hunit := two_zpow_pos g
  have hlt : (m : ℚ) < 2 ^ 53 := by exact_mod_cast h.significand_lt
  have hscaled : x < 2 ^ 53 * 2 ^ g := by
    rw [h.eq]
    exact mul_lt_mul_of_pos_right hlt hunit
  obtain ⟨hlow, hhigh⟩ := abs_le.1 hy
  have hreach : x / (2 * 10 ^ 16) < reachBelow m g := by
    unfold reachBelow
    split_ifs with hpower
    · rw [h.eq, hpower.1]
      push_cast
      linarith
    · linarith
  have hupper : y < x + 2 ^ g / 2 := by linarith
  have hlower : x - reachBelow m g < y := by linarith
  rw [h.contains_iff]
  split_ifs
  · exact ⟨hlower.le, hupper.le⟩
  · exact ⟨hlower, hupper⟩

theorem IsDouble.contains_self (h : IsDouble x m g) : (neighbourhood x).contains x = true := by
  refine h.contains_of_close ?_
  rw [sub_self, abs_zero]
  exact (div_pos h.value_pos (by norm_num)).le

/-! ## Decimal grids -/

theorem ten_zpow_pos (n : ℤ) : (0 : ℚ) < 10 ^ n :=
  zpow_pos (by norm_num) n

theorem digitCount_pos (n : ℕ) : 0 < Decimal.digitCount n :=
  Nat.length_toDigits_pos

theorem between_digitCount {n : ℕ} (hn : n ≠ 0) :
    (10 : ℚ) ^ ((Decimal.digitCount n : ℤ) - 1) ≤ n ∧
      (n : ℚ) < 10 ^ ((Decimal.digitCount n : ℤ) - 1 + 1) := by
  obtain ⟨k, hk⟩ : ∃ k, Decimal.digitCount n = k + 1 :=
    Nat.exists_eq_succ_of_ne_zero (digitCount_pos n).ne'
  have hlt : n < 10 ^ (k + 1) :=
    (Nat.length_toDigits_le_iff (by norm_num) (by omega)).1 hk.le
  have hle : 10 ^ k ≤ n := by
    rcases Nat.eq_zero_or_pos k with rfl | hpos
    · simpa using Nat.one_le_iff_ne_zero.2 hn
    · by_contra hgt
      have hshort := (Nat.length_toDigits_le_iff (by norm_num) hpos).2 (not_le.1 hgt)
      have hlength : (Nat.toDigits 10 n).length = k + 1 := hk
      omega
  rw [hk, Nat.cast_succ, add_sub_cancel_right, ← Nat.cast_succ, zpow_natCast, zpow_natCast]
  exact ⟨by exact_mod_cast hle, by exact_mod_cast hlt⟩

theorem between_leadingExponent (hx : 0 < x) :
    (10 : ℚ) ^ leadingExponent x ≤ x ∧ x < 10 ^ (leadingExponent x + 1) := by
  have hnum : x.num.natAbs ≠ 0 := by simpa using hx.ne'
  obtain ⟨hle, hlt⟩ := quotient_between (by norm_num) (between_digitCount hnum).1
    (between_digitCount hnum).2 (between_digitCount x.den_nz).1 (between_digitCount x.den_nz).2
  rw [num_div_den_of_pos hx, sub_sub_sub_cancel_right] at hle hlt
  unfold leadingExponent
  generalize (Decimal.digitCount x.num.natAbs : ℤ) - (Decimal.digitCount x.den : ℤ) = estimate
    at hle hlt
  simp only
  split_ifs with hsmall
  · exact ⟨hle, by rwa [sub_add_cancel]⟩
  · exact ⟨not_lt.1 hsmall, hlt⟩

theorem contains_of_nearestOnGrid? {tie : Tie} {n : Neighbourhood} {exponent : ℤ} {d : Decimal}
    (h : nearestOnGrid? tie n x exponent = some d) : n.contains d.toRat = true := by
  unfold nearestOnGrid? at h
  simp only [Bool.and_eq_true] at h
  split_ifs at h with hboth hprefer hbelow habove <;> cases h
  · exact hboth.2
  · exact hboth.1
  · exact hbelow
  · exact habove

theorem exists_nearestOnGrid? {n : Neighbourhood} {exponent : ℤ} (hx : 0 < x)
    (hclose : ∀ y, |y - x| ≤ 10 ^ exponent / 2 → n.contains y = true) (tie : Tie) :
    ∃ d, nearestOnGrid? tie n x exponent = some d := by
  have hunit := ten_zpow_pos exponent
  have hquotient : 0 ≤ x / 10 ^ exponent := (div_pos hx hunit).le
  obtain ⟨hle, hlt⟩ := toNat_floor_le_and_lt hquotient
  simp only [nearestOnGrid?]
  generalize (x / 10 ^ exponent).floor.toNat = below at hle hlt
  rw [le_div_iff₀ hunit] at hle
  rw [div_lt_iff₀ hunit] at hlt
  -- one of the two neighbours is at most half a step away
  have hfits : n.contains (below * 10 ^ exponent) = true ∨
      n.contains ((below + 1 : ℕ) * 10 ^ exponent) = true := by
    rcases le_total (x - below * 10 ^ exponent) (10 ^ exponent / 2) with hnear | hfar
    · refine .inl (hclose _ (abs_le.2 ⟨by linarith, by linarith⟩))
    · refine .inr (hclose _ (abs_le.2 ⟨?_, ?_⟩)) <;> push_cast <;> linarith
  split_ifs with hboth hprefer hbelow habove
  · exact ⟨_, rfl⟩
  · exact ⟨_, rfl⟩
  · exact ⟨_, rfl⟩
  · exact ⟨_, rfl⟩
  · exact absurd hfits (not_or.2 ⟨hbelow, habove⟩)

/-! ## The shortest decimal -/

theorem toRat_dropTrailingZeros (fuel : ℕ) (d : Decimal) :
    (Decimal.dropTrailingZeros fuel d).toRat = d.toRat := by
  induction fuel generalizing d with
  | zero => rfl
  | succ fuel ih =>
    rw [Decimal.dropTrailingZeros]
    split_ifs with hzero
    · have hdivides : ((d.coefficient / 10 * 10 : ℕ) : ℚ) = d.coefficient := by
        exact_mod_cast Nat.div_mul_cancel (Nat.dvd_of_mod_eq_zero hzero.2)
      rw [ih, Decimal.toRat, Decimal.toRat, ← hdivides, zpow_add_one₀ (by norm_num)]
      push_cast
      ring
    · rfl

theorem IsDouble.contains_shortest (h : IsDouble x m g) (tie : Tie) :
    (neighbourhood x).contains (shortest tie x).toRat = true := by
  have hclose : ∀ y, |y - x| ≤ 10 ^ (leadingExponent x - (16 : ℕ)) / 2 →
      (neighbourhood x).contains y = true := by
    intro y hy
    refine h.contains_of_close (hy.trans ?_)
    have hle := (between_leadingExponent h.value_pos).1
    rw [zpow_sub₀ (by norm_num), zpow_natCast, div_div, mul_comm]
    gcongr
  obtain ⟨d₁₆, h₁₆⟩ := exists_nearestOnGrid? h.value_pos hclose tie
  unfold shortest
  cases hfound : (List.range 17).findSome? fun (count : ℕ) =>
      nearestOnGrid? tie (neighbourhood x) x (leadingExponent x - count) with
  | none =>
    have hnone := List.findSome?_eq_none_iff.1 hfound 16 (by simp)
    rw [h₁₆] at hnone
    cases hnone
  | some d =>
    obtain ⟨count, -, hd⟩ := List.exists_of_findSome?_eq_some hfound
    simp only [hfound, Option.getD_some]
    rw [Decimal.normalize, toRat_dropTrailingZeros]
    exact contains_of_nearestOnGrid? hd

end TopdownMetrics.Binary64
