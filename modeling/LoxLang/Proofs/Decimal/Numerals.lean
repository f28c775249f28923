import LoxLang.Proofs.Decimal.Rounding
import LoxLang.Proofs.Layout.Skipped

namespace LoxLang

namespace Lexeme

/-! ## Values of rows of digits -/

private theorem digitsValue_eq_ofDigitChars (row : List Char) :
    digitsValue row = Nat.ofDigitChars 10 row 0 :=
  Nat.ofDigitChars_eq_foldl.symm

theorem digitsValue_append (front back : List Char) :
    digitsValue (front ++ back) = digitsValue front * 10 ^ back.length + digitsValue back := by
  simp only [digitsValue_eq_ofDigitChars]
  rw [Nat.ofDigitChars_append, Nat.ofDigitChars_eq_ofDigitChars_zero, Nat.mul_comm]

theorem digitsValue_toDigits (n : Nat) : digitsValue (Nat.toDigits 10 n) = n := by
  rw [digitsValue_eq_ofDigitChars, Nat.ofDigitChars_ten_toDigits]

/-! ## Text up to a character -/

section
variable {c : Char} {body : List Char} (h : c ∉ body) (rest : List Char)
include h

theorem takeWhile_ne : (body ++ c :: rest).takeWhile (· ≠ c) = body :=
  takeWhile_stops (forall_ne_of_notMem h) (by simp)

theorem dropWhile_ne : (body ++ c :: rest).dropWhile (· ≠ c) = c :: rest :=
  dropWhile_stops (forall_ne_of_notMem h) (by simp)

end

end Lexeme

namespace Decimal
open Lexeme

theorem digitsValue_zeros (n : Nat) : digitsValue (zeros n) = 0 := by
  rw [zeros, digitsValue_eq_ofDigitChars, Nat.ofDigitChars_replicate_zero, Nat.mul_zero]

theorem significantDigits_append_zeros (c : Nat) :
    ∃ k, significantDigits c ++ zeros k = Nat.toDigits 10 c := by
  set row := (Nat.toDigits 10 c).reverse
  have hzeros : ∀ d ∈ (row.takeWhile (· = '0')).reverse, d = '0' := by
    intro d hd
    simpa using List.mem_takeWhile_imp (List.mem_reverse.mp hd)
  refine ⟨(row.takeWhile (· = '0')).length, ?_⟩
  rw [zeros, ← List.length_reverse, ← List.eq_replicate_of_mem hzeros, significantDigits,
    ← List.reverse_append, List.takeWhile_append_dropWhile, List.reverse_reverse]

/-- The number that a decimal stands for, without its sign. -/
def magnitude (d : Decimal) : ℚ :=
  digitsValue d.digits * 10 ^ (d.exponent + 1 - d.digits.length)

theorem magnitude_nonneg (d : Decimal) : 0 ≤ d.magnitude := by
  unfold magnitude
  positivity

theorem magnitude_significantDigits (negative : Bool) (c : Nat) (p : Int) :
    magnitude ⟨negative, significantDigits c, p + digitCount c - 1⟩ = c * 10 ^ p := by
  obtain ⟨k, hk⟩ := significantDigits_append_zeros c
  have hlength : (significantDigits c).length + k = digitCount c := by
    rw [digitCount, ← hk, List.length_append, zeros, List.length_replicate]
  have hvalue : digitsValue (significantDigits c) * 10 ^ k = c := by
    have hdigits := digitsValue_toDigits c
    rwa [← hk, digitsValue_append, digitsValue_zeros, zeros, List.length_replicate,
      Nat.add_zero] at hdigits
  have hexponent : p + digitCount c - 1 + 1 - (significantDigits c).length = k + p := by
    omega
  rw [magnitude, hexponent, zpow_add₀ (by norm_num), zpow_natCast, ← mul_assoc]
  exact_mod_cast congrArg (fun n : Nat => (n : ℚ) * 10 ^ p) hvalue

/-! ## Plain text -/

def pointValue (text : List Char) : ℚ :=
  let fraction := (text.dropWhile (· ≠ '.')).tail
  digitsValue (text.takeWhile (· ≠ '.') ++ fraction) * 10 ^ (-fraction.length : Int)

private theorem pointValue_whole {whole : List Char} (h : '.' ∉ whole) :
    pointValue whole = digitsValue whole := by
  have htake : whole.takeWhile (· ≠ '.') = whole :=
    List.takeWhile_eq_self_iff.mpr (forall_ne_of_notMem h)
  have hdrop : whole.dropWhile (· ≠ '.') = [] :=
    List.dropWhile_eq_nil_iff.mpr (forall_ne_of_notMem h)
  rw [pointValue, htake, hdrop]
  simp

private theorem pointValue_point {whole fraction : List Char} (h : '.' ∉ whole) :
    pointValue (whole ++ '.' :: fraction) =
      digitsValue (whole ++ fraction) * 10 ^ (-fraction.length : Int) := by
  rw [pointValue, takeWhile_ne h, dropWhile_ne h, List.tail_cons]

def Numeric (d : Decimal) : Prop :=
  ∀ c ∈ d.digits, c.isDigit = true

theorem point_notMem {row : List Char} (h : ∀ c ∈ row, c.isDigit = true) : '.' ∉ row := by
  intro hmem
  exact absurd (h '.' hmem) (by decide)

theorem isDigit_zeros (n : Nat) : ∀ c ∈ zeros n, c.isDigit = true := by
  intro c hc
  rw [List.eq_of_mem_replicate hc]
  rfl

/-- Where the point is: before all digits, behind them, or between two of them. -/
theorem plain_cases (d : Decimal) :
    (d.exponent < 0 ∧
      d.plain = ['0'] ++ '.' :: (zeros (-d.exponent - 1).toNat ++ d.digits)) ∨
    (0 ≤ d.exponent ∧ d.digits.length ≤ d.exponent.toNat + 1 ∧
      d.plain = d.digits ++ zeros (d.exponent.toNat + 1 - d.digits.length)) ∨
    (0 ≤ d.exponent ∧ d.exponent.toNat + 1 < d.digits.length ∧
      d.plain = d.digits.take (d.exponent.toNat + 1) ++
        '.' :: d.digits.drop (d.exponent.toNat + 1)) := by
  simp only [plain]
  split
  · rename_i hneg
    exact .inl ⟨hneg, rfl⟩
  · rename_i hneg
    split
    · rename_i hle
      exact .inr (.inl ⟨by omega, hle, rfl⟩)
    · rename_i hlt
      exact .inr (.inr ⟨by omega, by omega, rfl⟩)

theorem pointValue_plain {d : Decimal} (h : d.Numeric) : pointValue d.plain = d.magnitude := by
  have hpoint : '.' ∉ d.digits := point_notMem h
  have hzeros (n : Nat) : '.' ∉ zeros n := point_notMem (isDigit_zeros n)
  rcases plain_cases d with ⟨hneg, htext⟩ | ⟨hpos, hle, htext⟩ | ⟨hpos, hlt, htext⟩
  · have hvalue : digitsValue (['0'] ++ (zeros (-d.exponent - 1).toNat ++ d.digits)) =
        digitsValue d.digits := by
      rw [← List.append_assoc, digitsValue_append, digitsValue_append, digitsValue_zeros]
      simp [digitsValue]
    have hexponent : -((zeros (-d.exponent - 1).toNat ++ d.digits).length : Int) =
        d.exponent + 1 - d.digits.length := by
      simp only [zeros, List.length_append, List.length_replicate]
      omega
    rw [htext, pointValue_point (by decide), hvalue, hexponent, magnitude]
  · have hexponent : d.exponent + 1 - d.digits.length =
        ((d.exponent.toNat + 1 - d.digits.length : Nat) : Int) := by
      omega
    rw [htext, pointValue_whole (by simp [hpoint, hzeros]), digitsValue_append,
      digitsValue_zeros, magnitude, hexponent, zpow_natCast, zeros, List.length_replicate]
    push_cast
    ring
  · have hexponent : d.exponent + 1 - d.digits.length =
        -((d.digits.drop (d.exponent.toNat + 1)).length : Int) := by
      rw [List.length_drop]
      omega
    rw [htext, pointValue_point fun hmem => hpoint (List.mem_of_mem_take hmem),
      List.take_append_drop, magnitude, hexponent]

theorem plain_characters {d : Decimal} (h : d.Numeric) :
    ∃ first others, d.plain = first :: others ∧ first.isDigit = true ∧
      ∀ c ∈ others, c.isDigit = true ∨ c = '.' := by
  have hsplit {front back : List Char} (hne : front ≠ []) (hfront : ∀ c ∈ front, c.isDigit = true)
      (hback : ∀ c ∈ back, c.isDigit = true ∨ c = '.') : ∃ first others,
      front ++ back = first :: others ∧ first.isDigit = true ∧
        ∀ c ∈ others, c.isDigit = true ∨ c = '.' := by
    obtain ⟨first, others, rfl⟩ := List.exists_cons_of_ne_nil hne
    obtain ⟨hfirst, hothers⟩ := List.forall_mem_cons.mp hfront
    refine ⟨first, others ++ back, rfl, hfirst, List.forall_mem_append.mpr ⟨?_, hback⟩⟩
    exact fun c hc => .inl (hothers c hc)
  rcases plain_cases d with ⟨hneg, htext⟩ | ⟨hpos, hle, htext⟩ | ⟨hpos, hlt, htext⟩
  · rw [htext]
    refine hsplit (by simp) (List.all_eq_true.mp rfl) (List.forall_mem_cons.mpr ⟨.inr rfl, ?_⟩)
    exact List.forall_mem_append.mpr
      ⟨fun c hc => .inl (isDigit_zeros _ c hc), fun c hc => .inl (h c hc)⟩
  · have hne : d.digits ++ zeros (d.exponent.toNat + 1 - d.digits.length) ≠ [] := by
      rw [← List.length_pos_iff]
      simp only [zeros, List.length_append, List.length_replicate]
      omega
    rw [htext, ← List.append_nil (_ ++ _)]
    exact hsplit hne (List.forall_mem_append.mpr ⟨h, isDigit_zeros _⟩) (by simp)
  · rw [htext]
    refine hsplit ?_ (fun c hc => h c (List.mem_of_mem_take hc))
      (List.forall_mem_cons.mpr ⟨.inr rfl, fun c hc => .inl (h c (List.mem_of_mem_drop hc))⟩)
    rw [← List.length_pos_iff, List.length_take]
    omega

/-! ## Decimals of floats -/

private theorem numeric_significantDigits (negative : Bool) (c : Nat) (exponent : Int) :
    Numeric ⟨negative, significantDigits c, exponent⟩ := by
  obtain ⟨k, hk⟩ := significantDigits_append_zeros c
  intro d hd
  have hmem : d ∈ Nat.toDigits 10 c := hk ▸ List.mem_append_left _ hd
  exact Nat.isDigit_of_mem_toDigits (by decide) (by decide) hmem

section
variable {m m' : Nat} {q q' : Int}

theorem shortest_zero (negative : Bool) (q : Int) : shortest negative 0 q = ⟨negative, ['0'], 0⟩ :=
  rfl

theorem negative_shortest (negative : Bool) (m : Nat) (q : Int) :
    (shortest negative m q).negative = negative := by
  unfold shortest
  split <;> rfl

theorem numeric_shortest (negative : Bool) (m : Nat) (q : Int) :
    (shortest negative m q).Numeric := by
  unfold shortest
  split
  · intro d hd
    rw [List.mem_singleton.mp hd]
    rfl
  · exact numeric_significantDigits _ _ _

/-- Zero is written as zero, and any other float as a number that rounds to it. -/
theorem magnitude_shortest (h : Canonical m q) (negative : Bool) :
    m = 0 ∧ (shortest negative m q).magnitude = 0 ∨
      0 < m ∧ RoundsTo m q (shortest negative m q).magnitude := by
  rcases Nat.eq_zero_or_pos m with rfl | hpos
  · refine .inl ⟨rfl, ?_⟩
    simp [shortest_zero, magnitude, digitsValue]
  · obtain ⟨c, p, hfirst, hshortest⟩ := exists_first h hpos
    rw [hshortest, magnitude_significantDigits]
    exact .inr ⟨hpos, hfirst.roundsTo⟩

theorem RoundsTo.pos {x : ℚ} (h : RoundsTo m q x) (hpos : 0 < m) : 0 < x := by
  have hlow : 0 < (Interval.around m q).low := by
    simp only [Interval.around]
    split <;> omega
  have hunit : (0 : ℚ) < 2 ^ (q - 2) := by positivity
  exact lt_of_lt_of_le (mul_pos (Nat.cast_pos.mpr hlow) hunit) h.low

theorem digits_shortest_ne_nil (h : Canonical m q) (negative : Bool) :
    (shortest negative m q).digits ≠ [] := by
  rcases magnitude_shortest h negative with ⟨rfl, -⟩ | ⟨hpos, hrounds⟩
  · exact List.cons_ne_nil _ _
  · intro hnil
    refine (hrounds.pos hpos).ne' ?_
    simp [magnitude, hnil, digitsValue]

private theorem Canonical.exponent_zero (h : Canonical 0 q) : q = -1074 := by
  by_contra hq
  exact absurd (h.normal hq) (by decide)

theorem eq_of_magnitude_eq (h : Canonical m q) (h' : Canonical m' q') {negative negative' : Bool}
    (heq : (shortest negative m q).magnitude = (shortest negative' m' q').magnitude) :
    m = m' ∧ q = q' := by
  rcases magnitude_shortest h negative with ⟨rfl, hzero⟩ | ⟨hpos, hrounds⟩ <;>
    rcases magnitude_shortest h' negative' with ⟨rfl, hzero'⟩ | ⟨hpos', hrounds'⟩
  · exact ⟨rfl, h.exponent_zero.trans h'.exponent_zero.symm⟩
  · exact absurd (heq.symm.trans hzero) (hrounds'.pos hpos').ne'
  · exact absurd (heq.trans hzero') (hrounds.pos hpos).ne'
  · rw [← heq] at hrounds'
    exact hrounds.unique h h' hrounds'

end

end Decimal

end LoxLang
