import LoxLang.Proofs.Decimal.Numerals

namespace LoxLang.Decimal
open Lexeme

/-! ## The reader -/

/-- At least one digit, and nothing else. -/
def isRow (text : List Char) : Bool :=
  !text.isEmpty && text.all Char.isDigit

/-- A row of digits, or two rows with a point between them. -/
def isPointed (text : List Char) : Bool :=
  match text.dropWhile (· ≠ '.') with
  | [] => isRow text
  | _ :: fraction => isRow (text.takeWhile (· ≠ '.')) && isRow fraction

def readPoint? (text : List Char) : Option ℚ :=
  if isPointed text then some (pointValue text) else none

def readPower? : List Char → Option Int
  | '-' :: row => if isRow row then some (-digitsValue row) else none
  | '+' :: row => if isRow row then some (digitsValue row) else none
  | row => if isRow row then some (digitsValue row) else none

/-- Reads a number without a sign, times a power of ten if an `e` follows it. -/
def readMagnitude? (text : List Char) : Option ℚ :=
  match text.dropWhile (· ≠ 'e') with
  | [] => readPoint? text
  | _ :: power => do
    let number ← readPoint? (text.takeWhile (· ≠ 'e'))
    let exponent ← readPower? power
    return number * 10 ^ exponent

/-- Reads a decimal: whether it has a minus sign, and the number behind the sign. -/
def read? : List Char → Option (Bool × ℚ)
  | '-' :: text => (readMagnitude? text).map (true, ·)
  | text => (readMagnitude? text).map (false, ·)

/-! ## Rows of digits -/

private theorem isRow_iff {row : List Char} :
    isRow row = true ↔ row ≠ [] ∧ ∀ c ∈ row, c.isDigit = true := by
  simp [isRow]

private theorem isPointed_row {row : List Char} (h : isRow row = true) : isPointed row = true := by
  have hpoint : '.' ∉ row := point_notMem (isRow_iff.mp h).2
  have hdrop : row.dropWhile (· ≠ '.') = [] :=
    List.dropWhile_eq_nil_iff.mpr (forall_ne_of_notMem hpoint)
  rw [isPointed, hdrop]
  exact h

private theorem isPointed_rows {whole fraction : List Char} (hwhole : isRow whole = true)
    (hfraction : isRow fraction = true) : isPointed (whole ++ '.' :: fraction) = true := by
  have hpoint : '.' ∉ whole := point_notMem (isRow_iff.mp hwhole).2
  rw [isPointed, takeWhile_ne hpoint, dropWhile_ne hpoint]
  exact (Bool.and_eq_true _ _).mpr ⟨hwhole, hfraction⟩

/-! ## Plain text -/

section
variable {d : Decimal} (h : d.Numeric)
include h

private theorem e_notMem_plain : 'e' ∉ d.plain := by
  obtain ⟨first, others, htext, hfirst, hothers⟩ := plain_characters h
  rw [htext]
  intro hmem
  rcases List.mem_cons.mp hmem with rfl | hmem
  · exact absurd hfirst (by decide)
  · exact absurd (hothers 'e' hmem) (by decide)

variable (hne : d.digits ≠ [])
include hne

private theorem isPointed_plain : isPointed d.plain = true := by
  rcases plain_cases d with ⟨-, htext⟩ | ⟨-, -, htext⟩ | ⟨-, hlt, htext⟩
  · rw [htext]
    refine isPointed_rows rfl (isRow_iff.mpr ⟨by simp [hne], ?_⟩)
    exact List.forall_mem_append.mpr ⟨isDigit_zeros _, h⟩
  · rw [htext]
    refine isPointed_row (isRow_iff.mpr ⟨by simp [hne], ?_⟩)
    exact List.forall_mem_append.mpr ⟨h, isDigit_zeros _⟩
  · rw [htext]
    refine isPointed_rows (isRow_iff.mpr ⟨by simp [hne], ?_⟩) (isRow_iff.mpr ⟨?_, ?_⟩)
    · exact fun c hc => h c (List.mem_of_mem_take hc)
    · rw [← List.length_pos_iff, List.length_drop]
      omega
    · exact fun c hc => h c (List.mem_of_mem_drop hc)

private theorem readPoint?_plain : readPoint? d.plain = some d.magnitude := by
  rw [readPoint?, if_pos (isPointed_plain h hne), pointValue_plain h]

private theorem readMagnitude?_plain : readMagnitude? d.plain = some d.magnitude := by
  have hdrop : d.plain.dropWhile (· ≠ 'e') = [] :=
    List.dropWhile_eq_nil_iff.mpr (forall_ne_of_notMem (e_notMem_plain h))
  rw [readMagnitude?, hdrop]
  exact readPoint?_plain h hne

end

/-! ## Text with an exponent -/

theorem exponentText_eq (e : Int) : ∃ row, exponentText e = (if e < 0 then '-' else '+') :: row ∧
    isRow row = true ∧ 2 ≤ row.length ∧ digitsValue row = e.natAbs := by
  set digits := Nat.toDigits 10 e.natAbs with hdigits
  refine ⟨zeros (2 - digits.length) ++ digits, rfl, isRow_iff.mpr ⟨?_, ?_⟩, ?_, ?_⟩
  · simp [hdigits]
  · refine List.forall_mem_append.mpr ⟨isDigit_zeros _, fun c hc => ?_⟩
    exact Nat.isDigit_of_mem_toDigits (by decide) (by decide) hc
  · rw [zeros, List.length_append, List.length_replicate]
    omega
  · rw [digitsValue_append, digitsValue_zeros, hdigits, digitsValue_toDigits, Nat.zero_mul,
      Nat.zero_add]

private theorem readPower?_exponentText (e : Int) : readPower? (exponentText e) = some e := by
  obtain ⟨row, htext, hrow, -, hvalue⟩ := exponentText_eq e
  rw [htext]
  split
  · rw [readPower?, if_pos hrow, hvalue]
    congr 1
    omega
  · rw [readPower?, if_pos hrow, hvalue]
    congr 1
    omega

/-- The digits before the exponent are those of the decimal with a point behind the first one. -/
theorem scientific_eq {d : Decimal} (hne : d.digits ≠ []) :
    d.scientific = plain { d with exponent := 0 } ++ 'e' :: exponentText d.exponent := by
  obtain ⟨first, others, hdigits⟩ := List.exists_cons_of_ne_nil hne
  cases others with
  | nil => simp [scientific, plain, hdigits, zeros]
  | cons second rest => simp [scientific, plain, hdigits]

section
variable {d : Decimal} (h : d.Numeric) (hne : d.digits ≠ [])
include h hne

private theorem readMagnitude?_scientific : readMagnitude? d.scientific = some d.magnitude := by
  have hnumeric : Numeric { d with exponent := 0 } := h
  have he := e_notMem_plain hnumeric
  have hmagnitude : magnitude { d with exponent := 0 } * 10 ^ d.exponent = d.magnitude := by
    simp only [magnitude]
    rw [mul_assoc, ← zpow_add₀ (by norm_num)]
    congr 2
    omega
  rw [scientific_eq hne, readMagnitude?, takeWhile_ne he, dropWhile_ne he]
  simp only [readPoint?_plain hnumeric hne, readPower?_exponentText]
  exact congrArg some hmagnitude

/-! ## All formats -/

private theorem body_head (format : Format) : ∃ first others,
    (if format.isPlain d.exponent then d.plain else d.scientific) = first :: others ∧
      first.isDigit = true := by
  split
  · obtain ⟨first, others, htext, hfirst, -⟩ := plain_characters h
    exact ⟨first, others, htext, hfirst⟩
  · have hnumeric : Numeric { d with exponent := 0 } := h
    obtain ⟨first, others, htext, hfirst, -⟩ := plain_characters hnumeric
    refine ⟨first, others ++ 'e' :: exponentText d.exponent, ?_, hfirst⟩
    rw [scientific_eq hne, htext, List.cons_append]

/-- The text of a decimal is read as the sign and the magnitude of the decimal. -/
theorem read?_render (format : Format) :
    read? (d.render format) = some (d.negative, d.magnitude) := by
  obtain ⟨first, others, htext, hfirst⟩ := body_head h hne format
  have hvalue : readMagnitude? (first :: others) = some d.magnitude := by
    rw [← htext]
    split
    · exact readMagnitude?_plain h hne
    · exact readMagnitude?_scientific h hne
  have hsign : first ≠ '-' := by
    rintro rfl
    exact absurd hfirst (by decide)
  simp only [render, htext]
  cases hneg : d.negative with
  | true => simp [read?, hvalue]
  | false => simp [read?, hsign, hvalue]

omit h in
theorem render_of_not_isPlain {format : Format} (hformat : format.isPlain d.exponent = false) :
    ∃ front, d.render format = front ++ 'e' :: exponentText d.exponent := by
  cases hneg : d.negative with
  | true =>
    refine ⟨'-' :: plain { d with exponent := 0 }, ?_⟩
    simp [render, hformat, hneg, scientific_eq hne]
  | false =>
    refine ⟨plain { d with exponent := 0 }, ?_⟩
    simp [render, hformat, hneg, scientific_eq hne]

/-- A text has an exponent exactly if the format does not write the decimal plainly. -/
theorem e_mem_render_iff (format : Format) :
    'e' ∈ d.render format ↔ format.isPlain d.exponent = false := by
  cases hformat : format.isPlain d.exponent with
  | true => cases hneg : d.negative <;> simp [render, hformat, hneg, e_notMem_plain h]
  | false =>
    obtain ⟨front, htext⟩ := render_of_not_isPlain hne hformat
    simp [htext]

end

end LoxLang.Decimal
