import LoxLang.Proofs.Decimal.Nearest
import LoxLang.Proofs.Decimal.Numerals
import Mathlib.Data.Int.Log
import Mathlib.Data.List.Induction
import Mathlib.Data.Rat.Floor
/-!
# Decimals without needless digits

The decimal of a float stands on the first grid, from the leading digit of the float
on, that has a number which rounds to it. A decimal with fewer digits would stand on a
coarser grid, and those have no such number.
-/
namespace LoxLang.Decimal
open Lexeme

/-- A decimal that rounds to the float `m · 2 ^ q` and has no more digits than any other that does.
Its exponent is that of its leading digit. -/
structure IsShortest (d : Decimal) (m : Nat) (q : Int) : Prop where
  numeric : d.Numeric
  nonempty : d.digits ≠ []
  exponent_eq : d.exponent = Int.log 10 d.magnitude
  nearest : Nearest m q d.magnitude
  length_le : ∀ other : Decimal, other.Numeric → other.digits ≠ [] →
    Nearest m q other.magnitude → d.digits.length ≤ other.digits.length

/-! ## Numbers of digits -/

private theorem digitsValue_lt {row : List Char} (h : ∀ c ∈ row, c.isDigit = true) :
    digitsValue row < 10 ^ row.length := by
  induction row using List.reverseRecOn with
  | nil => decide
  | append_singleton front last ih =>
    obtain ⟨hfront, hlast⟩ := List.forall_mem_append.mp h
    have hdigit : digitsValue [last] ≤ 9 := by
      have hle := (Char.isDigit_iff_toNat.mp (hlast last (List.mem_singleton_self last))).2
      simpa [digitsValue] using hle
    have hvalue := ih hfront
    rw [digitsValue_append, List.length_append, List.length_singleton, pow_one, pow_succ]
    omega

private theorem significantDigits_mul_ten {c : Nat} (hc : 0 < c) :
    significantDigits (10 * c) = significantDigits c := by
  have hdigits : Nat.toDigits 10 (10 * c) = Nat.toDigits 10 c ++ ['0'] :=
    (Nat.toDigits_append_toDigits (b := 10) (d := 0) (by decide) hc (by decide)).symm
  simp [significantDigits, hdigits]

private theorem significantDigits_ten_pow (n : Nat) : significantDigits (10 ^ n) = ['1'] := by
  induction n with
  | zero => decide
  | succ n ih => rw [pow_succ', significantDigits_mul_ten (Nat.pow_pos (by decide)), ih]

private theorem length_significantDigits_le {c n : Nat} (hn : 0 < n) (h : c ≤ 10 ^ n) :
    (significantDigits c).length ≤ n := by
  rcases eq_or_lt_of_le h with rfl | hlt
  · rw [significantDigits_ten_pow]
    exact hn
  · obtain ⟨k, hk⟩ := significantDigits_append_zeros c
    have hlength := (Nat.length_toDigits_le_iff (by decide) hn).mpr hlt
    rw [← hk, List.length_append] at hlength
    omega

private theorem log_mul_zpow {c : Nat} (hc : 0 < c) (p : Int) :
    Int.log 10 ((c : ℚ) * 10 ^ p) = p + digitCount c - 1 := by
  have hpos : (0 : ℚ) < c * 10 ^ p := by positivity
  have hcount := digitCount_pos c
  refine le_antisymm ?_ ?_
  · rw [Int.le_sub_one_iff, ← Int.lt_zpow_iff_log_lt (by decide) hpos, zpow_add₀ (by norm_num),
      mul_comm, zpow_natCast]
    have hlt : (c : ℚ) < 10 ^ digitCount c := by exact_mod_cast lt_pow_digitCount c
    push_cast
    gcongr
  · have hexponent : p + digitCount c - 1 = p + (digitCount c - 1 : Nat) := by omega
    rw [hexponent, ← Int.zpow_le_iff_le_log (by decide) hpos, zpow_add₀ (by norm_num), mul_comm,
      zpow_natCast]
    have hle : (10 : ℚ) ^ (digitCount c - 1) ≤ c := by exact_mod_cast pow_digitCount_le hc
    push_cast
    gcongr

/-! ## Grids -/

section
variable {m : Nat} {q p : Int} {x y z : ℚ}

theorem RoundsTo.between (hx : RoundsTo m q x) (hz : RoundsTo m q z) (hxy : x ≤ y) (hyz : y ≤ z) :
    RoundsTo m q y :=
  ⟨hx.low.trans hxy, hyz.trans hz.high, fun hodd =>
    ⟨(hx.odd hodd).1.trans_le hxy, hyz.trans_lt (hz.odd hodd).2⟩⟩

private theorem RoundsTo.factor_pos {k : Nat} (h : RoundsTo m q (k * 10 ^ p)) (hpos : 0 < m) :
    0 < k := by
  have hlt := h.pos hpos
  rw [mul_pos_iff_of_pos_right (by positivity)] at hlt
  exact_mod_cast hlt

private theorem roundsTo_value (q : Int) (hpos : 0 < m) :
    RoundsTo m q ((4 * m : Nat) * 2 ^ (q - 2)) := by
  have hlow : (Interval.around m q).low < 4 * m := by
    simp only [Interval.around]
    split <;> omega
  have hhigh : 4 * m < (Interval.around m q).high := Nat.lt_add_of_pos_right Nat.two_pos
  have hunit : (0 : ℚ) < 2 ^ (q - 2) := by positivity
  refine .of_lt ?_ ?_
  · gcongr
  · gcongr

/-- If some number of a grid rounds to a float, then one of the two around the float does. -/
theorem Interval.nearest?_ne_none_of_roundsTo {k : Nat} (hpos : 0 < m)
    (h : RoundsTo m q (k * 10 ^ p)) : (Interval.around m q).nearest? p ≠ none := by
  intro hnone
  obtain ⟨hbelow, habove⟩ := Interval.not_contains_of_nearest? hnone
  obtain ⟨hle, hlt⟩ := Interval.value_between m q p
  rw [Bool.eq_false_iff, ne_eq, Interval.contains_iff] at hbelow habove
  have hvalue := roundsTo_value q hpos
  rcases Nat.lt_or_ge ((Interval.around m q).target p / (Interval.around m q).step p) k with
    hk | hk
  · refine habove (hvalue.between h hlt.le ?_)
    gcongr
    exact hk
  · refine hbelow (h.between hvalue ?_ hle)
    gcongr

private theorem Interval.le_of_nearest? {i : Interval} {c : Nat} (h : i.nearest? p = some c) :
    c ≤ i.target p / i.step p + 1 := by
  simp only [Interval.nearest?] at h
  split at h
  · split at h <;> cases h <;> omega
  · cases h
    omega
  · cases h
    exact le_rfl
  · cases h

/-! ## The first grid -/

private theorem lt_zpow_leadingExponent {a b : Nat} (ha : 0 < a) (hb : 0 < b) :
    (a : ℚ) / b < 10 ^ (leadingExponent a b + 1) := by
  have hb' : (0 : ℚ) < b := Nat.cast_pos.mpr hb
  rw [div_lt_iff₀ hb']
  unfold leadingExponent
  split
  · have hpow := Nat.mul_le_mul_left b (Nat.succ_le_of_lt (lt_pow_digitCount (a / b)))
    rw [sub_add_cancel, zpow_natCast, mul_comm]
    exact_mod_cast (Nat.lt_mul_div_succ a hb).trans_le hpow
  · rename_i hlt
    have hquotient : 0 < (b - 1) / a := Nat.div_pos (by omega) ha
    have hexponent : -(digitCount ((b - 1) / a) : Int) + 1 =
        -((digitCount ((b - 1) / a) - 1 : Nat) : Int) := by
      have := digitCount_pos ((b - 1) / a)
      omega
    have hpow := Nat.mul_le_mul_left a (pow_digitCount_le hquotient)
    have hfloor := Nat.mul_div_le (b - 1) a
    rw [hexponent, zpow_neg, zpow_natCast, lt_inv_mul_iff₀ (by positivity), mul_comm]
    exact_mod_cast (show a * 10 ^ (digitCount ((b - 1) / a) - 1) < b by omega)

private theorem lt_zpow_leading (q : Int) (hpos : 0 < m) :
    ((4 * m : Nat) : ℚ) * 2 ^ (q - 2) < 10 ^ (leading m q + 1) := by
  rw [← value_eq_div]
  exact lt_zpow_leadingExponent (Nat.mul_pos hpos (Nat.pow_pos (by decide)))
    (Nat.pow_pos (by decide))

/-- If no number on the grid of the leading digit rounds to a float, then the numbers that do have
their leading digit at the same place. -/
theorem RoundsTo.within_decade (h : RoundsTo m q x) (hpos : 0 < m)
    (hnone : (Interval.around m q).nearest? (leading m q) = none) :
    10 ^ leading m q ≤ x ∧ x < 10 ^ (leading m q + 1) := by
  have hvalue := roundsTo_value q hpos
  constructor
  · by_contra hsmall
    refine Interval.nearest?_ne_none_of_roundsTo (k := 1) hpos (h.between hvalue ?_ ?_) hnone
    · rw [Nat.cast_one, one_mul]
      exact (not_le.mp hsmall).le
    · rw [Nat.cast_one, one_mul]
      exact zpow_leading_le q hpos
  · by_contra hlarge
    have hten : ((10 : Nat) : ℚ) * 10 ^ leading m q = 10 ^ (leading m q + 1) := by
      rw [zpow_add_one₀ (by norm_num), mul_comm, Nat.cast_ofNat]
    refine Interval.nearest?_ne_none_of_roundsTo (k := 10) hpos (hvalue.between h ?_ ?_) hnone
    · rw [hten]
      exact (lt_zpow_leading q hpos).le
    · rw [hten]
      exact not_lt.mp hlarge

variable {c : Nat} (hpos : 0 < m) (h : (Interval.around m q).First (leading m q) c p)
include hpos h

private theorem Interval.First.le_pow : c ≤ 10 ^ (leading m q + 1 - p).toNat := by
  have hle := h.le
  have hlt := (Interval.value_between m q p).1.trans_lt (lt_zpow_leading q hpos)
  have hexponent : leading m q + 1 = ((leading m q + 1 - p).toNat : Int) + p := by omega
  rw [hexponent, zpow_add₀ (by norm_num), zpow_natCast,
    mul_lt_mul_iff_of_pos_right (by positivity)] at hlt
  refine (Interval.le_of_nearest? h.found).trans ?_
  exact_mod_cast hlt

/-- Any number that rounds to the float needs as many digits. -/
theorem Interval.First.le_length {row : List Char} {r : Int} (hrow : ∀ d ∈ row, d.isDigit = true)
    (hrounds : RoundsTo m q (digitsValue row * 10 ^ r)) :
    leading m q + 1 - p ≤ row.length := by
  have hten : (1 : ℚ) < 10 := by norm_num
  have hlt := digitsValue_lt hrow
  have hk := hrounds.factor_pos hpos
  by_cases hnone : (Interval.around m q).nearest? (leading m q) = none
  · obtain ⟨hlow, hhigh⟩ := hrounds.within_decade hpos hnone
    have hr : r < leading m q + 1 := by
      rw [← zpow_lt_zpow_iff_right₀ hten]
      exact (le_mul_of_one_le_left (by positivity) (Nat.one_le_cast.mpr hk)).trans_lt hhigh
    have hdigits : leading m q < row.length + r := by
      rw [← zpow_lt_zpow_iff_right₀ hten]
      refine hlow.trans_lt ?_
      rw [zpow_add₀ (by norm_num), zpow_natCast]
      gcongr
      exact_mod_cast hlt
    -- The grid of the row has a number that rounds to the float, so the search went no further.
    have hgrid : r ≤ p := by
      by_contra hfine
      exact Interval.nearest?_ne_none_of_roundsTo hpos hrounds
        (h.first r (not_le.mp hfine) (Int.lt_add_one_iff.mp hr))
    omega
  · have hp : leading m q ≤ p := by
      by_contra hfine
      exact hnone (h.first _ (not_le.mp hfine) le_rfl)
    have hlength : row.length ≠ 0 := by
      intro hnil
      rw [hnil, pow_zero] at hlt
      omega
    omega

end

/-- The decimal of a float is a shortest one. -/
theorem isShortest_shortest {m : Nat} {q : Int} (h : Canonical m q) (negative : Bool) :
    (shortest negative m q).IsShortest m q := by
  rcases Nat.eq_zero_or_pos m with rfl | hpos
  · have hzero : (shortest negative 0 q).magnitude = 0 := by
      simp [shortest_zero, magnitude, digitsValue]
    refine ⟨numeric_shortest _ _ _, List.cons_ne_nil _ _, ?_, ?_, ?_⟩
    · rw [hzero, Int.log_zero_right]
      rfl
    · rw [hzero]
      refine ⟨fun m' q' _ => ?_, fun _ _ _ _ _ => rfl⟩
      rw [Nat.cast_zero, zero_mul, sub_zero, abs_zero]
      exact abs_nonneg _
    · exact fun other _ hne _ => List.length_pos_of_ne_nil hne
  · obtain ⟨c, p, hfirst, hshortest⟩ := exists_first h hpos
    have hmagnitude : (shortest negative m q).magnitude = c * 10 ^ p := by
      rw [hshortest, magnitude_significantDigits]
    refine ⟨numeric_shortest _ _ _, digits_shortest_ne_nil h _, ?_, ?_, ?_⟩
    · rw [hmagnitude, log_mul_zpow (hfirst.roundsTo.factor_pos hpos), hshortest]
    · rw [← roundsTo_iff_nearest h (magnitude_nonneg _), hmagnitude]
      exact hfirst.roundsTo
    · intro other hnumeric _ hnearest
      rw [← roundsTo_iff_nearest h (magnitude_nonneg _)] at hnearest
      have hlength := hfirst.le_length hpos hnumeric hnearest
      have hstart := hfirst.le
      have hdigits := length_significantDigits_le (by omega) (hfirst.le_pow hpos)
      rw [hshortest]
      exact hdigits.trans (Int.toNat_le.mpr hlength)

end LoxLang.Decimal
