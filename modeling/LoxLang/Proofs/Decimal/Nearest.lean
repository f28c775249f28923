import LoxLang.Proofs.Decimal.Rounding
/-!
# The nearest float

A number rounds to a float if no other float is nearer to it; between two floats that
are equally near, the one with the even mantissa is taken. The interval around a float
reaches half way to its neighbours, so it holds exactly the numbers that round to it.
-/
namespace LoxLang.Decimal

/-- Of all floats `m · 2 ^ q` is nearest to `x`, and `m` is even if another one is as near. The
exponents have no upper bound, so a number that is too large rounds to no finite float. -/
structure Nearest (m : Nat) (q : Int) (x : ℚ) : Prop where
  le : ∀ m' q', Canonical m' q' → |x - m * 2 ^ q| ≤ |x - m' * 2 ^ q'|
  even : ∀ m' q', Canonical m' q' → (m' : ℚ) * 2 ^ q' ≠ m * 2 ^ q →
    |x - m * 2 ^ q| = |x - m' * 2 ^ q'| → m % 2 = 0

/-! ## Distances -/

section
variable (x a b : ℚ)

private theorem sq_sub_sq_eq_mul : (x - b) ^ 2 - (x - a) ^ 2 = (b - a) * (a + b - 2 * x) := by
  ring

private theorem abs_sub_le_abs_sub_iff : |x - a| ≤ |x - b| ↔ 0 ≤ (b - a) * (a + b - 2 * x) := by
  rw [← sq_le_sq, ← sub_nonneg, sq_sub_sq_eq_mul]

private theorem abs_sub_eq_abs_sub_iff : |x - a| = |x - b| ↔ (b - a) * (a + b - 2 * x) = 0 := by
  rw [← sq_eq_sq_iff_abs_eq_abs, eq_comm, ← sub_eq_zero, sq_sub_sq_eq_mul]

end

section
variable {m m' : Nat} {q q' : Int}

/-! ## Neighbours -/

/-- A float with a larger exponent is a multiple of the unit of a smaller one. -/
theorem exists_multiple (m' : Nat) (hq : q ≤ q') :
    ∃ k : Nat, (m' : ℚ) * 2 ^ q' = (4 * k : Nat) * 2 ^ (q - 2) := by
  obtain ⟨n, rfl⟩ := Int.le.dest hq
  refine ⟨m' * 2 ^ n, ?_⟩
  rw [zpow_add₀ two_ne_zero, zpow_eq_quarters q, zpow_natCast]
  push_cast
  ring

namespace Canonical

/-- Floats with a smaller exponent end below the floats with a larger one. -/
theorem le_of_exponent_lt (h' : Canonical m' q') (hq : q' < q) :
    (m' : ℚ) * 2 ^ q' ≤ (2 ^ 54 - 2 : Nat) * 2 ^ (q - 2) := by
  have hunit : (2 : ℚ) ^ q' ≤ 2 * 2 ^ (q - 2) := by
    rw [← zpow_one_add₀ two_ne_zero]
    exact zpow_le_zpow_right₀ one_le_two (by omega)
  have hlt : m' ≤ 2 ^ 53 - 1 := by
    have := h'.lt
    omega
  calc (m' : ℚ) * 2 ^ q' ≤ (2 ^ 53 - 1 : Nat) * (2 * 2 ^ (q - 2)) := by gcongr
    _ = (2 ^ 54 - 2 : Nat) * 2 ^ (q - 2) := by
      rw [← mul_assoc]
      norm_num

/-- The interval ends half way to the next float. -/
theorem exists_next (h : Canonical m q) : ∃ m' q', Canonical m' q' ∧
    (m : ℚ) * 2 ^ q < m' * 2 ^ q' ∧
    (m : ℚ) * 2 ^ q + m' * 2 ^ q' = 2 * ((Interval.around m q).high * 2 ^ (q - 2)) := by
  have hhigh : (Interval.around m q).high = 4 * m + 2 := rfl
  have hunit : (0 : ℚ) < 2 ^ (q - 2) := by positivity
  have hvalue := zpow_eq_quarters q
  by_cases hm : m + 1 < 2 ^ 53
  · refine ⟨m + 1, q, ⟨hm, h.low, fun hq => (h.normal hq).trans (Nat.le_succ m)⟩, ?_, ?_⟩
    · rw [hvalue]
      push_cast
      linarith
    · rw [hvalue, hhigh]
      push_cast
      ring
  · have hmax : (m : ℚ) = 2 ^ 53 - 1 := by
      have : m = 2 ^ 53 - 1 := by
        have := h.lt
        omega
      rw [this]
      norm_num
    have hnext : (2 : ℚ) ^ (q + 1) = 8 * 2 ^ (q - 2) := by
      rw [zpow_add_one₀ two_ne_zero, hvalue]
      ring
    refine ⟨2 ^ 52, q + 1, ⟨by norm_num, by have := h.low; omega, fun _ => le_rfl⟩, ?_, ?_⟩
    · rw [hvalue, hnext, hmax]
      push_cast
      linarith
    · rw [hvalue, hnext, hhigh]
      push_cast
      rw [hmax]
      ring

private theorem exists_previous (h : Canonical m q) (hpos : 0 < m) : ∃ m' q', Canonical m' q' ∧
    (m' : ℚ) * 2 ^ q' < m * 2 ^ q ∧
    (m : ℚ) * 2 ^ q + m' * 2 ^ q' = 2 * ((Interval.around m q).low * 2 ^ (q - 2)) := by
  have hunit : (0 : ℚ) < 2 ^ (q - 2) := by positivity
  have hvalue := zpow_eq_quarters q
  by_cases hpower : m = 2 ^ 52 ∧ q ≠ -1074
  · obtain ⟨rfl, hq⟩ := hpower
    have hlow : (Interval.around (2 ^ 52) q).low = 2 ^ 54 - 1 := by
      simp [Interval.around, hq]
    have hprevious : (2 : ℚ) ^ (q - 1) = 2 * 2 ^ (q - 2) := by
      rw [← zpow_one_add₀ two_ne_zero]
      congr 1
      omega
    refine ⟨2 ^ 53 - 1, q - 1, ⟨by norm_num, by have := h.low; omega, fun _ => by norm_num⟩, ?_, ?_⟩
    · rw [hvalue, hprevious]
      norm_num
      linarith
    · rw [hvalue, hprevious, hlow]
      norm_num
      ring
  · have hlow : (Interval.around m q).low = 4 * m - 2 := if_neg hpower
    have hnormal : q ≠ -1074 → 2 ^ 52 ≤ m - 1 := by
      intro hq
      have := h.normal hq
      omega
    have hlt := h.lt
    have hcast : ((m - 1 : Nat) : ℚ) = m - 1 := Nat.cast_pred hpos
    have hcast' : ((4 * m - 2 : Nat) : ℚ) = 4 * m - 2 := by
      rw [Nat.cast_sub (by omega)]
      push_cast
      ring
    refine ⟨m - 1, q, ⟨by omega, h.low, hnormal⟩, ?_, ?_⟩
    · rw [hcast, hvalue]
      linarith
    · rw [hlow, hcast', hcast, hvalue]
      ring

private theorem high_le (h : Canonical m q) (h' : Canonical m' q')
    (hlt : (m : ℚ) * 2 ^ q < m' * 2 ^ q') :
    2 * (((Interval.around m q).high : ℚ) * 2 ^ (q - 2)) ≤ m * 2 ^ q + m' * 2 ^ q' := by
  have hhigh : (Interval.around m q).high = 4 * m + 2 := rfl
  have hunit : (0 : ℚ) < 2 ^ (q - 2) := by positivity
  have hvalue := zpow_eq_quarters q
  rcases le_or_gt q q' with hq | hq
  · obtain ⟨k, hk⟩ := exists_multiple m' hq
    have hmk : m < k := by
      rw [hk, hvalue, ← mul_assoc, mul_lt_mul_iff_of_pos_right hunit] at hlt
      have : m * 4 < 4 * k := by exact_mod_cast hlt
      omega
    have hsum : 2 * (4 * m + 2) ≤ 4 * m + 4 * k := by omega
    rw [hk, hvalue, hhigh]
    have := mul_le_mul_of_nonneg_right (Nat.cast_le (α := ℚ).mpr hsum) hunit.le
    push_cast at this ⊢
    linarith
  · have hbound := h'.le_of_exponent_lt hq
    have hnormal := h.normal (by have := h'.low; omega)
    have hless : ((2 ^ 54 - 2 : Nat) : ℚ) * 2 ^ (q - 2) ≤ m * 2 ^ q := by
      rw [hvalue, ← mul_assoc]
      gcongr
      have : 2 ^ 54 - 2 ≤ m * 4 := by omega
      exact_mod_cast this
    linarith

private theorem le_low (h : Canonical m q) (h' : Canonical m' q')
    (hlt : (m' : ℚ) * 2 ^ q' < m * 2 ^ q) :
    (m : ℚ) * 2 ^ q + m' * 2 ^ q' ≤ 2 * ((Interval.around m q).low * 2 ^ (q - 2)) := by
  have hunit : (0 : ℚ) < 2 ^ (q - 2) := by positivity
  have hvalue := zpow_eq_quarters q
  rcases le_or_gt q q' with hq | hq
  · obtain ⟨k, hk⟩ := exists_multiple m' hq
    have hmk : k < m := by
      rw [hk, hvalue, ← mul_assoc, mul_lt_mul_iff_of_pos_right hunit] at hlt
      have : 4 * k < m * 4 := by exact_mod_cast hlt
      omega
    have hsum : 4 * m + 4 * k ≤ 2 * (Interval.around m q).low := by
      simp only [Interval.around]
      split <;> omega
    rw [hk, hvalue]
    have := mul_le_mul_of_nonneg_right (Nat.cast_le (α := ℚ).mpr hsum) hunit.le
    push_cast at this ⊢
    linarith
  · have hbound := h'.le_of_exponent_lt hq
    have hne : q ≠ -1074 := by
      have := h'.low
      omega
    have hnormal := h.normal hne
    have hsum : 4 * m + (2 ^ 54 - 2) ≤ 2 * (Interval.around m q).low := by
      simp only [Interval.around, Nat.pow_eq]
      split <;> omega
    have := mul_le_mul_of_nonneg_right (Nat.cast_le (α := ℚ).mpr hsum) hunit.le
    rw [hvalue]
    push_cast at this hbound ⊢
    linarith

end Canonical

/-! ## Intervals -/

theorem RoundsTo.nearest {x : ℚ} (hm : Canonical m q) (h : RoundsTo m q x) : Nearest m q x := by
  have hlow := h.low
  have hhigh := h.high
  constructor
  · intro m' q' hm'
    rw [abs_sub_le_abs_sub_iff]
    rcases lt_trichotomy ((m' : ℚ) * 2 ^ q') (m * 2 ^ q) with hlt | heq | hlt
    · have := hm.le_low hm' hlt
      exact mul_nonneg_of_nonpos_of_nonpos (by linarith) (by linarith)
    · rw [heq, sub_self, zero_mul]
    · have := hm.high_le hm' hlt
      exact mul_nonneg (by linarith) (by linarith)
  · intro m' q' hm' hne htie
    -- In the middle between two floats `x` is an end of the interval.
    rw [abs_sub_eq_abs_sub_iff, mul_eq_zero, or_iff_right (sub_ne_zero.mpr hne)] at htie
    by_contra hodd
    obtain ⟨hlow', hhigh'⟩ := h.odd (by omega)
    rcases lt_or_gt_of_ne hne with hlt | hlt
    · linarith [hm.le_low hm' hlt]
    · linarith [hm.high_le hm' hlt]

theorem Nearest.roundsTo {x : ℚ} (hm : Canonical m q) (hx : 0 ≤ x) (h : Nearest m q x) :
    RoundsTo m q x := by
  have hhigh : x ≤ (Interval.around m q).high * 2 ^ (q - 2) ∧
      (m % 2 = 1 → x ≠ (Interval.around m q).high * 2 ^ (q - 2)) := by
    obtain ⟨m', q', hm', hlt, hsum⟩ := hm.exists_next
    have hle := (abs_sub_le_abs_sub_iff _ _ _).mp (h.le m' q' hm')
    rw [mul_nonneg_iff_of_pos_left (sub_pos.mpr hlt), hsum] at hle
    refine ⟨by linarith, fun hodd heq => ?_⟩
    have htie : |x - m * 2 ^ q| = |x - m' * 2 ^ q'| := by
      rw [abs_sub_eq_abs_sub_iff, hsum, heq, sub_self, mul_zero]
    exact absurd (h.even m' q' hm' hlt.ne' htie) (by omega)
  have hlow : ((Interval.around m q).low : ℚ) * 2 ^ (q - 2) ≤ x ∧
      (m % 2 = 1 → (Interval.around m q).low * 2 ^ (q - 2) ≠ x) := by
    rcases Nat.eq_zero_or_pos m with rfl | hpos
    · exact ⟨by simpa [Interval.around] using hx, fun hodd => absurd hodd (by decide)⟩
    obtain ⟨m', q', hm', hlt, hsum⟩ := hm.exists_previous hpos
    have hle := nonpos_of_mul_nonneg_right
      ((abs_sub_le_abs_sub_iff _ _ _).mp (h.le m' q' hm')) (sub_neg.mpr hlt)
    rw [hsum] at hle
    refine ⟨by linarith, fun hodd heq => ?_⟩
    have htie : |x - m * 2 ^ q| = |x - m' * 2 ^ q'| := by
      rw [abs_sub_eq_abs_sub_iff, hsum, ← heq, sub_self, mul_zero]
    exact absurd (h.even m' q' hm' hlt.ne htie) (by omega)
  exact ⟨hlow.1, hhigh.1, fun hodd =>
    ⟨lt_of_le_of_ne hlow.1 (hlow.2 hodd), lt_of_le_of_ne hhigh.1 (hhigh.2 hodd)⟩⟩

/-- The interval around a float holds the numbers that round to it. -/
theorem roundsTo_iff_nearest {x : ℚ} (hm : Canonical m q) (hx : 0 ≤ x) :
    RoundsTo m q x ↔ Nearest m q x :=
  ⟨RoundsTo.nearest hm, Nearest.roundsTo hm hx⟩

end

end LoxLang.Decimal
