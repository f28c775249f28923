import LoxLang.Decimal.Shortest
import Mathlib.Algebra.Order.Field.Power
import Mathlib.Tactic.Linarith
import Mathlib.Tactic.Ring
/-!
# Decimals that round to a float

Every positive finite float `m · 2 ^ q` has an interval of numbers that round to it.
The search for its shortest decimal finds a number of that interval within seventeen
tries, and the intervals of two floats have no number in common. So the float can be
told from the decimal.
-/
namespace LoxLang.Decimal

/-- Mantissas and exponents of the finite floats. All but the smallest have a mantissa of 53
bits. -/
structure Canonical (m : Nat) (q : Int) : Prop where
  lt : m < 2 ^ 53
  low : -1074 ≤ q
  normal : q ≠ -1074 → 2 ^ 52 ≤ m

structure RoundsTo (m : Nat) (q : Int) (x : ℚ) : Prop where
  low : ((Interval.around m q).low : ℚ) * 2 ^ (q - 2) ≤ x
  high : x ≤ ((Interval.around m q).high : ℚ) * 2 ^ (q - 2)
  odd : m % 2 = 1 → ((Interval.around m q).low : ℚ) * 2 ^ (q - 2) < x ∧
    x < ((Interval.around m q).high : ℚ) * 2 ^ (q - 2)

/-! ## Powers of two and of ten on a common scale -/

private theorem zpow_mul_pow_toNat {b : ℚ} (hb : b ≠ 0) (n : Int) :
    b ^ n * b ^ (-n).toNat = b ^ n.toNat := by
  rw [← zpow_natCast, ← zpow_natCast, ← zpow_add₀ hb]
  congr 1
  omega

theorem zpow_eq_quarters (q : Int) : (2 : ℚ) ^ q = 4 * 2 ^ (q - 2) := by
  have h := zpow_add₀ (two_ne_zero (α := ℚ)) 2 (q - 2)
  rw [add_sub_cancel] at h
  rw [h]
  norm_num

section
variable (a b : Nat) (p r : Int)

/-- What makes both `2 ^ r` and `10 ^ p` whole. -/
def scale (p r : Int) : ℚ :=
  10 ^ (-p).toNat * 2 ^ (-r).toNat

private theorem scale_pos : 0 < scale p r := by
  unfold scale
  positivity

private theorem binary_mul_scale : (a : ℚ) * 2 ^ r * scale p r =
    ((a * (Nat.pow 2 r.toNat * Nat.pow 10 (-p).toNat) : Nat) : ℚ) := by
  have h := zpow_mul_pow_toNat (b := 2) (by norm_num) r
  simp only [Nat.pow_eq, scale]
  push_cast
  rw [← h]
  ring

private theorem decimal_mul_scale : (b : ℚ) * 10 ^ p * scale p r =
    ((b * (Nat.pow 10 p.toNat * Nat.pow 2 (-r).toNat) : Nat) : ℚ) := by
  have h := zpow_mul_pow_toNat (b := 10) (by norm_num) p
  simp only [Nat.pow_eq, scale]
  push_cast
  rw [← h]
  ring

/-- Binary and decimal numbers are compared by comparing whole numbers. -/
theorem binary_le_decimal_iff : (a : ℚ) * 2 ^ r ≤ b * 10 ^ p ↔
    a * (Nat.pow 2 r.toNat * Nat.pow 10 (-p).toNat) ≤
      b * (Nat.pow 10 p.toNat * Nat.pow 2 (-r).toNat) := by
  rw [← mul_le_mul_iff_of_pos_right (scale_pos p r), binary_mul_scale, decimal_mul_scale,
    Nat.cast_le]

private theorem decimal_le_binary_iff : (b : ℚ) * 10 ^ p ≤ a * 2 ^ r ↔
    b * (Nat.pow 10 p.toNat * Nat.pow 2 (-r).toNat) ≤
      a * (Nat.pow 2 r.toNat * Nat.pow 10 (-p).toNat) := by
  rw [← mul_le_mul_iff_of_pos_right (scale_pos p r), binary_mul_scale, decimal_mul_scale,
    Nat.cast_le]

end

/-! ## Intervals in whole numbers -/

theorem RoundsTo.of_lt {m : Nat} {q : Int} {x : ℚ}
    (hlow : ((Interval.around m q).low : ℚ) * 2 ^ (q - 2) < x)
    (hhigh : x < ((Interval.around m q).high : ℚ) * 2 ^ (q - 2)) : RoundsTo m q x :=
  ⟨hlow.le, hhigh.le, fun _ => ⟨hlow, hhigh⟩⟩

namespace Interval

section
variable (m c : Nat) (q p : Int)

/-- Where the parts of the interval stand, on the scale of `point` and `unit`. -/
theorem binary_le_point_iff (a : Nat) : (a : ℚ) * 2 ^ (q - 2) ≤ c * 10 ^ p ↔
    a * ((around m q).up * Nat.pow 10 (-p).toNat) ≤
      c * Nat.pow 10 p.toNat * (around m q).down := by
  rw [binary_le_decimal_iff, neg_sub, ← Nat.mul_assoc c]
  rfl

private theorem point_le_binary_iff (a : Nat) : (c : ℚ) * 10 ^ p ≤ a * 2 ^ (q - 2) ↔
    c * Nat.pow 10 p.toNat * (around m q).down ≤
      a * ((around m q).up * Nat.pow 10 (-p).toNat) := by
  rw [decimal_le_binary_iff, neg_sub, ← Nat.mul_assoc c]
  rfl

theorem contains_iff : (around m q).contains c p = true ↔ RoundsTo m q (c * 10 ^ p) := by
  have hlow := binary_le_point_iff m c q p (around m q).low
  have hhigh := point_le_binary_iff m c q p (around m q).high
  have hlow' := point_le_binary_iff m c q p (around m q).low
  have hhigh' := binary_le_point_iff m c q p (around m q).high
  have hclosed : (around m q).closed = decide (m % 2 = 0) := rfl
  rw [contains, hclosed]
  by_cases hm : m % 2 = 0
  · simp only [hm, decide_true, if_true, Bool.and_eq_true, decide_eq_true_eq, ← hlow, ← hhigh]
    refine ⟨fun h => ⟨h.1, h.2, fun hodd => by omega⟩, fun h => ⟨h.low, h.high⟩⟩
  · have hodd : m % 2 = 1 := by omega
    simp only [hm, decide_false, Bool.false_eq_true, if_false, Bool.and_eq_true,
      decide_eq_true_eq, ← not_le, ← hlow', ← hhigh']
    simp only [not_le]
    exact ⟨fun h => ⟨h.1.le, h.2.le, fun _ => h⟩, fun h => h.odd hodd⟩

end

/-! ## The search -/

variable {m : Nat} {q p : Int}

private theorem contains_of_nearest? {i : Interval} {c : Nat} (h : i.nearest? p = some c) :
    i.contains c p = true := by
  simp only [nearest?] at h
  cases hbelow : i.contains (i.target p / i.step p) p <;>
    cases habove : i.contains (i.target p / i.step p + 1) p <;>
    simp only [hbelow, habove, reduceCtorEq, Option.some.injEq] at h
  · exact h ▸ habove
  · exact h ▸ hbelow
  · split at h
    · exact h ▸ hbelow
    · exact h ▸ habove

theorem not_contains_of_nearest? {i : Interval} (h : i.nearest? p = none) :
    i.contains (i.target p / i.step p) p = false ∧
      i.contains (i.target p / i.step p + 1) p = false := by
  simp only [nearest?] at h
  cases hbelow : i.contains (i.target p / i.step p) p <;>
    cases habove : i.contains (i.target p / i.step p + 1) p <;>
    simp [hbelow, habove] at h ⊢

theorem value_between (m : Nat) (q p : Int) :
    (((around m q).target p / (around m q).step p : Nat) : ℚ) * 10 ^ p ≤
        (4 * m : Nat) * 2 ^ (q - 2) ∧
      ((4 * m : Nat) : ℚ) * 2 ^ (q - 2) <
        ((around m q).target p / (around m q).step p + 1 : Nat) * 10 ^ p := by
  have hstep : 0 < (around m q).step p := by
    simp only [step, around, Nat.pow_eq]
    positivity
  have hle := Nat.div_mul_le_self ((around m q).target p) ((around m q).step p)
  have hlt := Nat.lt_mul_div_succ ((around m q).target p) hstep
  constructor
  · rw [point_le_binary_iff m, Nat.mul_assoc]
    exact hle
  · rw [Nat.mul_comm] at hlt
    rw [← not_le, point_le_binary_iff m, not_le, Nat.mul_assoc (_ / _ + 1)]
    exact hlt

private theorem low_le (m : Nat) (q : Int) : (around m q).low ≤ 4 * m := by
  simp only [around]
  split <;> omega

/-- A grid that is finer than the interval is wide has a number in it. -/
theorem nearest?_ne_none (h : (10 : ℚ) ^ p <
    (((around m q).high : ℚ) - (around m q).low) * 2 ^ (q - 2)) :
    (around m q).nearest? p ≠ none := by
  intro hnone
  obtain ⟨hbelow, habove⟩ := not_contains_of_nearest? hnone
  obtain ⟨hle, hlt⟩ := value_between m q p
  rw [Bool.eq_false_iff, ne_eq, contains_iff] at hbelow habove
  set below := (around m q).target p / (around m q).step p
  have hlow : ((around m q).low : ℚ) * 2 ^ (q - 2) ≤ (4 * m : Nat) * 2 ^ (q - 2) := by
    gcongr
    exact low_le m q
  have hhigh : ((4 * m : Nat) : ℚ) * 2 ^ (q - 2) < (around m q).high * 2 ^ (q - 2) := by
    gcongr
    exact Nat.lt_add_of_pos_right (Nat.zero_lt_succ 1)
  -- The neighbour below is too low, so the one above is not too high.
  have hout : (below : ℚ) * 10 ^ p ≤ (around m q).low * 2 ^ (q - 2) := by
    by_contra hin
    exact hbelow (.of_lt (not_le.mp hin) (hle.trans_lt hhigh))
  have hnext : ((below + 1 : Nat) : ℚ) * 10 ^ p = below * 10 ^ p + 10 ^ p := by
    push_cast
    ring
  refine habove (.of_lt (hlow.trans_lt hlt) ?_)
  rw [hnext]
  linarith

/-- The first decimal grid, from `start` downwards, with a number of the interval on it. -/
structure First (i : Interval) (start : Int) (c : Nat) (p : Int) : Prop where
  found : i.nearest? p = some c
  le : p ≤ start
  first : ∀ r, p < r → r ≤ start → i.nearest? r = none

theorem First.roundsTo {start : Int} {c : Nat} (h : (around m q).First start c p) :
    RoundsTo m q (c * 10 ^ p) :=
  (contains_iff m c q p).mp (contains_of_nearest? h.found)

private theorem search_first {i : Interval} {n k : Nat} (hk : k < n)
    (h : i.nearest? (p - k) ≠ none) :
    i.First p (i.search n p).1 (i.search n p).2 := by
  induction n generalizing p k with
  | zero => exact absurd hk (Nat.not_lt_zero k)
  | succ n ih =>
    rw [search]
    cases hnearest : i.nearest? p with
    | some c => exact ⟨hnearest, le_refl p, fun r hr hle => absurd hle (not_le.mpr hr)⟩
    | none =>
      cases k with
      | zero =>
        rw [Nat.cast_zero, sub_zero] at h
        exact absurd hnearest h
      | succ k =>
        rw [Nat.cast_succ, add_comm, ← sub_sub] at h
        have hfirst := ih (Nat.lt_of_succ_lt_succ hk) h
        refine ⟨hfirst.found, hfirst.le.trans (by omega), fun r hr hle => ?_⟩
        rcases eq_or_lt_of_le hle with rfl | hlt
        · exact hnearest
        · exact hfirst.first r hr (by omega)

end Interval

/-! ## Seventeen digits -/

theorem pow_digitCount_le {n : Nat} (h : 0 < n) : 10 ^ (digitCount n - 1) ≤ n := by
  by_contra hlt
  have hpos : 0 < digitCount n - 1 := by
    by_contra hzero
    rw [Nat.eq_zero_of_not_pos hzero] at hlt
    omega
  have hlength := (Nat.length_toDigits_le_iff (by decide) hpos).mpr (Nat.lt_of_not_le hlt)
  unfold digitCount at hlength hpos
  omega

theorem lt_pow_digitCount (n : Nat) : n < 10 ^ digitCount n :=
  (Nat.length_toDigits_le_iff (by decide) Nat.length_toDigits_pos).mp (Nat.le_refl _)

theorem digitCount_pos (n : Nat) : 0 < digitCount n :=
  Nat.length_toDigits_pos

private theorem zpow_leadingExponent_le {a b : Nat} (ha : 0 < a) (hb : 0 < b) :
    (10 : ℚ) ^ leadingExponent a b ≤ a / b := by
  have hb' : (0 : ℚ) < b := Nat.cast_pos.mpr hb
  rw [le_div_iff₀ hb']
  unfold leadingExponent
  split
  · rename_i hle
    have hexponent : ((digitCount (a / b) : Int) - 1) = (digitCount (a / b) - 1 : Nat) := by
      have := digitCount_pos (a / b)
      omega
    have hpow := pow_digitCount_le (Nat.div_pos hle hb)
    rw [hexponent, zpow_natCast]
    exact_mod_cast (Nat.mul_le_mul_right b hpow).trans (Nat.div_mul_le_self a b)
  · have hlt : (b - 1) / a + 1 ≤ 10 ^ digitCount ((b - 1) / a) := lt_pow_digitCount _
    have hceil : b ≤ ((b - 1) / a + 1) * a := by
      have : b - 1 < (b - 1) / a * a + a := Nat.lt_div_mul_add ha
      rw [Nat.add_mul, Nat.one_mul]
      omega
    rw [zpow_neg, zpow_natCast, inv_mul_le_iff₀ (by positivity)]
    exact_mod_cast hceil.trans (Nat.mul_le_mul_right a hlt)

theorem value_eq_div (m : Nat) (q : Int) :
    ((m * Nat.pow 2 q.toNat : Nat) : ℚ) / (Nat.pow 2 (-q).toNat : Nat) =
      (4 * m : Nat) * 2 ^ (q - 2) := by
  have h := zpow_mul_pow_toNat (b := 2) (by norm_num) q
  rw [div_eq_iff (by simp)]
  simp only [Nat.pow_eq]
  push_cast
  rw [← h, zpow_eq_quarters q]
  ring

def leading (m : Nat) (q : Int) : Int :=
  leadingExponent (m * Nat.pow 2 q.toNat) (Nat.pow 2 (-q).toNat)

theorem zpow_leading_le {m : Nat} (q : Int) (hpos : 0 < m) :
    (10 : ℚ) ^ leading m q ≤ (4 * m : Nat) * 2 ^ (q - 2) := by
  rw [← value_eq_div]
  exact zpow_leadingExponent_le (Nat.mul_pos hpos (Nat.pow_pos (by decide)))
    (Nat.pow_pos (by decide))

/-- The width of the interval, in quarters of the last place. -/
theorem Interval.high_eq {m : Nat} (q : Int) (h : 0 < m) :
    (around m q).high = (around m q).low + if m = 2 ^ 52 ∧ q ≠ -1074 then 3 else 4 := by
  simp only [around, Nat.pow_eq]
  split <;> omega

/-- Sixteen digits after the leading one, the grid is finer than the interval is wide. -/
theorem zpow_lt_width {m : Nat} {q leading : Int} (h : Canonical m q) (hpos : 0 < m)
    (hleading : (10 : ℚ) ^ leading ≤ (4 * m : Nat) * 2 ^ (q - 2)) :
    (10 : ℚ) ^ (leading - 16) <
      (((Interval.around m q).high : ℚ) - (Interval.around m q).low) * 2 ^ (q - 2) := by
  have hsixteen : (10 : ℚ) ^ (leading - 16) = 10 ^ leading / 10 ^ 16 := by
    rw [zpow_sub₀ (by norm_num)]
    norm_num
  have hfits : 4 * m < (if m = 2 ^ 52 ∧ q ≠ -1074 then 3 else 4) * 10 ^ 16 := by
    have hlt := h.lt
    split <;> omega
  rw [hsixteen, div_lt_iff₀ (by norm_num), Interval.high_eq q hpos, Nat.cast_add,
    add_sub_cancel_left, mul_right_comm]
  refine hleading.trans_lt ?_
  gcongr
  exact_mod_cast hfits

/-- The decimal of a positive float is on the first grid that has a number which rounds to it. -/
theorem exists_first {m : Nat} {q : Int} (h : Canonical m q) (hpos : 0 < m) :
    ∃ (c : Nat) (p : Int), (Interval.around m q).First (leading m q) c p ∧
      ∀ negative, shortest negative m q =
        ⟨negative, significantDigits c, p + digitCount c - 1⟩ := by
  have hnearest := Interval.nearest?_ne_none (zpow_lt_width h hpos (zpow_leading_le q hpos))
  refine ⟨_, _, Interval.search_first (n := 17) (k := 16) (by decide) hnearest,
    fun negative => ?_⟩
  rw [shortest, if_neg hpos.ne']
  rfl

/-! ## Intervals of different floats -/

section
variable {m m' : Nat} {q q' : Int} {x : ℚ}

/-- The larger of two neighbours begins where the smaller ends, and at most one of them has that
number, the one with the even mantissa. -/
theorem RoundsTo.not_lt_mantissa (h : RoundsTo m q x) (h' : RoundsTo m' q x) : ¬ m < m' := by
  intro hlt
  have hends : (Interval.around m q).high ≤ (Interval.around m' q).low := by
    simp only [Interval.around]
    split <;> omega
  have hends' : ((Interval.around m q).high : ℚ) * 2 ^ (q - 2) ≤
      (Interval.around m' q).low * 2 ^ (q - 2) := by
    gcongr
  have hodd : m % 2 = 0 ∧ m' % 2 = 0 := by
    constructor
    · by_contra hm
      have := (h.odd (by omega)).2
      linarith [h'.low]
    · by_contra hm
      have := (h'.odd (by omega)).1
      linarith [h.high]
  have hstrict : (Interval.around m q).high < (Interval.around m' q).low := by
    simp only [Interval.around]
    split <;> omega
  have hstrict' : ((Interval.around m q).high : ℚ) * 2 ^ (q - 2) <
      (Interval.around m' q).low * 2 ^ (q - 2) := by
    gcongr
  linarith [h.high, h'.low]

private theorem RoundsTo.not_lt_exponent (hm : Canonical m q) (hm' : Canonical m' q')
    (h : RoundsTo m q x) (h' : RoundsTo m' q' x) : ¬ q < q' := by
  intro hlt
  have hfirst := hm.low
  have hlow : 2 ^ 54 - 1 ≤ (Interval.around m' q').low := by
    have hnormal := hm'.normal (by omega)
    simp only [Interval.around, Nat.pow_eq]
    split <;> omega
  have hdouble : 2 * (2 : ℚ) ^ (q - 2) ≤ 2 ^ (q' - 2) := by
    rw [← zpow_one_add₀ (by norm_num)]
    exact zpow_le_zpow_right₀ (by norm_num) (by omega)
  have hmiddle : ((2 ^ 55 - 2 : Nat) : ℚ) * 2 ^ (q - 2) ≤ x := by
    calc ((2 ^ 55 - 2 : Nat) : ℚ) * 2 ^ (q - 2)
        = ((2 ^ 54 - 1 : Nat) : ℚ) * (2 * 2 ^ (q - 2)) := by norm_num; ring
      _ ≤ ((Interval.around m' q').low : ℚ) * 2 ^ (q' - 2) := by gcongr
      _ ≤ x := h'.low
  have hhigh : (Interval.around m q).high = 4 * m + 2 := rfl
  have hmax := hm.lt
  by_cases hodd : m % 2 = 1
  · -- Only the largest mantissa reaches the middle between the exponents, and it is odd.
    have hle : ((Interval.around m q).high : ℚ) * 2 ^ (q - 2) ≤
        ((2 ^ 55 - 2 : Nat) : ℚ) * 2 ^ (q - 2) := by
      rw [hhigh]
      gcongr
      omega
    linarith [(h.odd hodd).2]
  · have hlt : ((Interval.around m q).high : ℚ) * 2 ^ (q - 2) <
        ((2 ^ 55 - 2 : Nat) : ℚ) * 2 ^ (q - 2) := by
      rw [hhigh]
      gcongr
      omega
    linarith [h.high]

/-- No number rounds to two floats. -/
theorem RoundsTo.unique (hm : Canonical m q) (hm' : Canonical m' q') (h : RoundsTo m q x)
    (h' : RoundsTo m' q' x) : m = m' ∧ q = q' := by
  have hq := h.not_lt_exponent hm hm' h'
  have hq' := h'.not_lt_exponent hm' hm h
  obtain rfl : q = q' := by omega
  have hlt := h.not_lt_mantissa h'
  have hlt' := h'.not_lt_mantissa h
  exact ⟨by omega, rfl⟩

end

end LoxLang.Decimal
