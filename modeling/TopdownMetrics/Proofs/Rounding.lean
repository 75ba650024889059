import TopdownMetrics.Number.Shortest
import Mathlib.Tactic
import Mathlib.Data.Rat.Floor

/-!
# Rounding to doubles

A positive number belongs to exactly one binade, and its grid of doubles is that of
the binade.  From this follows what `round` answers: its results are doubles, and a
number in the neighbourhood of a double is rounded to that double.
-/

namespace TopdownMetrics.Binary64

/-! ## Binades -/

/-- The grid of doubles with the unit `2 ^ g` is the one around `x`. -/
structure Binade (x : ℚ) (g : ℤ) : Prop where
  least : -1074 ≤ g
  lt : x < 2 ^ (g + 53)
  le : g = -1074 ∨ 2 ^ (g + 52) ≤ x

theorem two_zpow_pos (n : ℤ) : (0 : ℚ) < 2 ^ n :=
  zpow_pos (by norm_num) n

theorem two_zpow_le_iff {m n : ℤ} : (2 : ℚ) ^ m ≤ 2 ^ n ↔ m ≤ n :=
  zpow_le_zpow_iff_right₀ (by norm_num)

theorem two_zpow_lt_iff {m n : ℤ} : (2 : ℚ) ^ m < 2 ^ n ↔ m < n :=
  zpow_lt_zpow_iff_right₀ (by norm_num)

theorem two_zpow_add_ofNat (g : ℤ) (n : ℕ) [n.AtLeastTwo] :
    (2 : ℚ) ^ (g + (ofNat(n) : ℤ)) = (2 ^ n : ℕ) * 2 ^ g := by
  rw [zpow_add₀ (by norm_num), zpow_ofNat, mul_comm]
  norm_cast

/-- The lengths of numerator and denominator determine a quotient up to one digit. -/
theorem quotient_between {b : ℚ} (hb : 1 < b) {num den : ℕ} {k l : ℤ}
    (hnumLe : b ^ k ≤ num) (hnumLt : (num : ℚ) < b ^ (k + 1))
    (hdenLe : b ^ l ≤ den) (hdenLt : (den : ℚ) < b ^ (l + 1)) :
    b ^ (k - l - 1) ≤ (num : ℚ) / den ∧ (num : ℚ) / den < b ^ (k - l + 1) := by
  have hb0 : 0 < b := by linarith
  have hpow (n : ℤ) : 0 < b ^ n := zpow_pos hb0 n
  have hden : (0 : ℚ) < den := (hpow l).trans_le hdenLe
  constructor
  · rw [sub_sub, zpow_sub₀ hb0.ne']
    calc b ^ k / b ^ (l + 1) ≤ num / b ^ (l + 1) := div_le_div_of_nonneg_right hnumLe (hpow _).le
      _ ≤ num / den := div_le_div_of_nonneg_left (Nat.cast_nonneg num) hden hdenLt.le
  · rw [sub_add_eq_add_sub, zpow_sub₀ hb0.ne']
    calc (num : ℚ) / den < b ^ (k + 1) / den := div_lt_div_of_pos_right hnumLt hden
      _ ≤ b ^ (k + 1) / b ^ l := div_le_div_of_nonneg_left (hpow _).le (hpow l) hdenLe

theorem num_div_den_of_pos {x : ℚ} (hx : 0 < x) : (x.num.natAbs : ℚ) / x.den = x := by
  rw [Nat.cast_natAbs, abs_of_pos (Rat.num_pos.2 hx), Rat.num_div_den]

theorem between_log2 {n : ℕ} (hn : n ≠ 0) :
    (2 : ℚ) ^ (n.log2 : ℤ) ≤ n ∧ (n : ℚ) < 2 ^ ((n.log2 : ℤ) + 1) := by
  rw [← Nat.cast_succ, zpow_natCast, zpow_natCast]
  exact ⟨by exact_mod_cast Nat.log2_self_le hn, by exact_mod_cast Nat.lt_log2_self⟩

theorem binade_gridExponent {x : ℚ} (hx : 0 < x) : Binade x (gridExponent x) := by
  have hnum : x.num.natAbs ≠ 0 := by simpa using hx.ne'
  obtain ⟨hle, hlt⟩ := quotient_between one_lt_two (between_log2 hnum).1 (between_log2 hnum).2
    (between_log2 x.den_nz).1 (between_log2 x.den_nz).2
  rw [num_div_den_of_pos hx] at hle hlt
  unfold gridExponent
  generalize (x.num.natAbs.log2 : ℤ) - (x.den.log2 : ℤ) = bits at hle hlt
  simp only [sub_add_cancel]
  -- before the least exponent is imposed
  have hfree : ∃ g : ℤ, (if x < 2 ^ bits then bits - 52 - 1 else bits - 52) = g ∧
      x < 2 ^ (g + 53) ∧ (2 : ℚ) ^ (g + 52) ≤ x := by
    split_ifs with hx
    · have hbelow : bits - 52 - 1 + 53 = bits := by omega
      have habove : bits - 52 - 1 + 52 = bits - 1 := by omega
      exact ⟨_, rfl, by rwa [hbelow], by rwa [habove]⟩
    · have hbelow : bits - 52 + 53 = bits + 1 := by omega
      have habove : bits - 52 + 52 = bits := by omega
      exact ⟨_, rfl, by rwa [hbelow], by rw [habove]; exact not_lt.1 hx⟩
  obtain ⟨g, hg, hltg, hleg⟩ := hfree
  rw [hg]
  rcases le_total (-1074) g with hleast | hleast
  · rw [max_eq_left hleast]
    exact ⟨hleast, hltg, .inr hleg⟩
  · rw [max_eq_right hleast]
    exact ⟨le_rfl, hltg.trans_le (two_zpow_le_iff.2 (by omega)), .inl rfl⟩

theorem Binade.le_of_binade {x : ℚ} {g g' : ℤ} (h : Binade x g) (h' : Binade x g') :
    g ≤ g' := by
  rcases h.le with hg | hle
  · exact hg ▸ h'.least
  · have hlt := two_zpow_lt_iff.1 (hle.trans_lt h'.lt)
    omega

theorem Binade.gridExponent_eq {x : ℚ} {g : ℤ} (h : Binade x g) (hx : 0 < x) :
    gridExponent x = g :=
  le_antisymm ((binade_gridExponent hx).le_of_binade h) (h.le_of_binade (binade_gridExponent hx))

/-! ## The nearest natural number -/

/-- The number `n` is nearest to `y`, and even if another one is as near. -/
def NearestEven (y : ℚ) (n : ℕ) : Prop :=
  |y - n| ≤ 1 / 2 ∧ (|y - n| = 1 / 2 → n % 2 = 0)

theorem toNat_floor_le_and_lt {y : ℚ} (hy : 0 ≤ y) :
    (y.floor.toNat : ℚ) ≤ y ∧ y < y.floor.toNat + 1 := by
  have hfloor : ((y.floor.toNat : ℕ) : ℤ) = y.floor :=
    Int.toNat_of_nonneg (Rat.le_floor_iff.2 (by exact_mod_cast hy))
  have hcast : (y.floor.toNat : ℚ) = y.floor := by
    rw [← hfloor]
    norm_cast
  rw [hcast]
  exact ⟨Rat.floor_le y, by exact_mod_cast Rat.lt_floor_add_one y⟩

theorem nearestEven_roundHalfEven {y : ℚ} (hy : 0 ≤ y) : NearestEven y (roundHalfEven y) := by
  obtain ⟨hle, hlt⟩ := toNat_floor_le_and_lt hy
  unfold roundHalfEven NearestEven
  generalize y.floor.toNat = below at hle hlt
  simp only
  split_ifs with hsmall hlarge heven
  · rw [abs_of_nonneg (by linarith)]
    exact ⟨hsmall.le, fun h => absurd h hsmall.ne⟩
  · rw [abs_of_nonpos (by push_cast; linarith)]
    push_cast
    exact ⟨by linarith, fun h => absurd h (by linarith)⟩
  · rw [abs_of_nonneg (by linarith)]
    exact ⟨not_lt.1 hlarge, fun _ => heven⟩
  · rw [abs_of_nonpos (by push_cast; linarith)]
    push_cast
    exact ⟨by linarith, fun _ => by omega⟩

theorem NearestEven.eq {y : ℚ} {m n : ℕ} (hm : NearestEven y m) (hn : NearestEven y n) :
    m = n := by
  wlog hle : m ≤ n generalizing m n
  · exact (this hn hm (le_of_not_ge hle)).symm
  have hm' := abs_le.1 hm.1
  have hn' := abs_le.1 hn.1
  have hnear : (n : ℚ) ≤ m + 1 := by linarith [hm'.2, hn'.1]
  have hnear : n ≤ m + 1 := by exact_mod_cast hnear
  rcases Nat.lt_or_ge m n with hlt | hge
  · -- both are half a unit away, so both would be even
    obtain rfl : n = m + 1 := by omega
    push_cast at hn'
    have hy : y = m + 1 / 2 := by linarith [hm'.2, hn'.1]
    have hevenm := hm.2 (by rw [hy, add_sub_cancel_left]; norm_num)
    have hevenn := hn.2 (by rw [hy]; push_cast; ring_nf; norm_num)
    omega
  · omega

/-- Rounding does not leave an interval that ends in natural numbers. -/
theorem NearestEven.le {y : ℚ} {m n : ℕ} (hm : NearestEven y m) (hn : y ≤ n) : m ≤ n := by
  have hm' := abs_le.1 hm.1
  by_contra hlt
  have hlt : (n : ℚ) + 1 ≤ m := by exact_mod_cast not_le.1 hlt
  linarith [hm'.1]

theorem NearestEven.ge {y : ℚ} {m n : ℕ} (hm : NearestEven y m) (hn : n ≤ y) : n ≤ m := by
  have hm' := abs_le.1 hm.1
  by_contra hlt
  have hlt : (m : ℚ) + 1 ≤ n := by exact_mod_cast not_le.1 hlt
  linarith [hm'.2]

/-! ## The nearest double -/

theorem round_of_pos {y : ℚ} (hy : 0 < y) (negative : Bool) :
    round negative y =
      if (2 : ℚ) ^ (1024 : ℕ) ≤ roundHalfEven (y / 2 ^ gridExponent y) * 2 ^ gridExponent y then
        .infinite negative
      else
        .finite negative (roundHalfEven (y / 2 ^ gridExponent y) * 2 ^ gridExponent y) := by
  rw [round, if_neg hy.ne']

theorem Binade.round_eq {y : ℚ} {g : ℤ} {n : ℕ} (h : Binade y g) (hy : 0 < y)
    (hn : NearestEven (y / 2 ^ g) n) (hfinite : (n : ℚ) * 2 ^ g < 2 ^ 1024) (negative : Bool) :
    round negative y = .finite negative (n * 2 ^ g) := by
  have hround : roundHalfEven (y / 2 ^ g) = n :=
    (nearestEven_roundHalfEven (div_nonneg hy.le (two_zpow_pos g).le)).eq hn
  rw [round_of_pos hy, h.gridExponent_eq hy, hround, if_neg (not_le.2 hfinite)]

/-- A number is rounded to a double that is at most half a unit away, and to an even one
if it is as far away as that. -/
theorem Binade.round_of_near {x y : ℚ} {g : ℤ} {n : ℕ} (h : Binade y g) (hy : 0 < y)
    (hx : x = n * 2 ^ g) (hfinite : x < 2 ^ 1024) (hnear : |y - x| ≤ 2 ^ g / 2)
    (htie : |y - x| = 2 ^ g / 2 → n % 2 = 0) (negative : Bool) :
    round negative y = .finite negative x := by
  subst hx
  have hunit := two_zpow_pos g
  have hdistance : |y / 2 ^ g - n| = |y - n * 2 ^ g| / 2 ^ g := by
    rw [← abs_of_pos hunit, ← abs_div, abs_of_pos hunit, sub_div, mul_div_cancel_right₀ _ hunit.ne']
  refine h.round_eq hy ⟨?_, fun heq => htie ?_⟩ hfinite negative
  · rw [hdistance, div_le_iff₀ hunit]
    linarith
  · rw [hdistance, div_eq_iff hunit.ne'] at heq
    linarith

/-- The positive double `x` with the significand `m` and the unit `2 ^ g`. -/
structure IsDouble (x : ℚ) (m : ℕ) (g : ℤ) : Prop where
  eq : x = m * 2 ^ g
  pos : 0 < m
  binade : Binade x g
  finite : x < 2 ^ 1024

theorem IsDouble.value_pos {x : ℚ} {m : ℕ} {g : ℤ} (h : IsDouble x m g) : 0 < x := by
  rw [h.eq]
  exact mul_pos (by exact_mod_cast h.pos) (two_zpow_pos g)

theorem IsDouble.significand_lt {x : ℚ} {m : ℕ} {g : ℤ} (h : IsDouble x m g) :
    m < 2 ^ 53 := by
  have hlt := h.binade.lt
  rw [h.eq, two_zpow_add_ofNat,
    mul_lt_mul_iff_left₀ (two_zpow_pos g)] at hlt
  exact_mod_cast hlt

theorem IsDouble.le_significand {x : ℚ} {m : ℕ} {g : ℤ} (h : IsDouble x m g)
    (hg : g ≠ -1074) : 2 ^ 52 ≤ m := by
  have hle := h.binade.le.resolve_left hg
  rw [h.eq, two_zpow_add_ofNat,
    mul_le_mul_iff_left₀ (two_zpow_pos g)] at hle
  exact_mod_cast hle

/-- A natural number of units is a double, unless it has too many digits. -/
theorem exists_isDouble {n : ℕ} {g : ℤ} (hpos : 0 < n) (hle : n ≤ 2 ^ 53)
    (hge : g = -1074 ∨ 2 ^ 52 ≤ n) (hleast : -1074 ≤ g) (hfinite : (n : ℚ) * 2 ^ g < 2 ^ 1024) :
    ∃ m g', IsDouble (n * 2 ^ g) m g' := by
  have hunit := two_zpow_pos g
  rcases hle.lt_or_eq with hlt | rfl
  · refine ⟨n, g, rfl, hpos, ⟨hleast, ?_, hge.imp_right fun hge => ?_⟩, hfinite⟩
    · rw [two_zpow_add_ofNat]
      gcongr
    · rw [two_zpow_add_ofNat]
      gcongr
  · -- the next power of two starts the next binade
    have hnext : ((2 ^ 53 : ℕ) : ℚ) * 2 ^ g = (2 ^ 52 : ℕ) * 2 ^ (g + 1) := by
      rw [zpow_add_one₀ (by norm_num)]
      push_cast
      ring
    rw [hnext] at hfinite ⊢
    refine ⟨2 ^ 52, g + 1, rfl, by norm_num, ⟨by omega, ?_, .inr ?_⟩, hfinite⟩
    · rw [two_zpow_add_ofNat (g + 1) 53]
      exact mul_lt_mul_of_pos_right (by norm_num) (two_zpow_pos _)
    · rw [two_zpow_add_ofNat]

/-- Rounding a positive number gives zero, a double, or infinity. -/
theorem isDouble_of_round {y x : ℚ} {negative negative' : Bool} (hy : 0 < y)
    (h : round negative y = .finite negative' x) :
    negative' = negative ∧ (x = 0 ∨ ∃ m g, IsDouble x m g) := by
  have hbinade := binade_gridExponent hy
  rw [round_of_pos hy] at h
  generalize gridExponent y = g at hbinade h
  have hunit := two_zpow_pos g
  have hnearest := nearestEven_roundHalfEven (div_nonneg hy.le hunit.le)
  generalize roundHalfEven (y / 2 ^ g) = n at hnearest h
  split_ifs at h with hfinite
  obtain ⟨rfl, rfl⟩ := Binary64.finite.inj h
  refine ⟨rfl, ?_⟩
  rcases Nat.eq_zero_or_pos n with rfl | hpos
  · exact .inl (by simp)
  · have hle : n ≤ 2 ^ 53 := by
      refine hnearest.le ?_
      rw [div_le_iff₀ hunit, ← two_zpow_add_ofNat]
      exact hbinade.lt.le
    have hge : g = -1074 ∨ 2 ^ 52 ≤ n := by
      refine hbinade.le.imp_right fun hle => hnearest.ge ?_
      rw [le_div_iff₀ hunit, ← two_zpow_add_ofNat]
      exact hle
    exact .inr (exists_isDouble hpos hle hge hbinade.least (not_le.1 hfinite))

end TopdownMetrics.Binary64
