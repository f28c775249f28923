import LoxLang.Machine.Value
import LoxLang.Proofs.Decimal.Floats
import LoxLang.Proofs.Decimal.Shortest

namespace LoxLang

namespace Decimal

/-- A text of a decimal, with an exponent only below `1e-4` and from `1e16` on; the exponent has a
sign and at least two digits. -/
structure Written (d : Decimal) (text : List Char) : Prop where
  reads : read? text = some (d.negative, d.magnitude)
  exponent_iff : 'e' ∈ text ↔ d.exponent < -4 ∨ 16 ≤ d.exponent
  exponent_digits : 'e' ∈ text → ∃ front sign row, text = front ++ 'e' :: sign :: row ∧
    (sign = '+' ∨ sign = '-') ∧ isRow row = true ∧ 2 ≤ row.length

private theorem written_render {d : Decimal} (h : d.Numeric) (hne : d.digits ≠ []) :
    d.Written (d.render Value.numberFormat) := by
  have hiff := e_mem_render_iff h hne Value.numberFormat
  refine ⟨read?_render h hne _, hiff.trans ?_, fun he => ?_⟩
  · simp only [Value.numberFormat, Format.isPlain, Bool.and_eq_false_iff, decide_eq_false_iff_not]
    omega
  · obtain ⟨front, htext⟩ := render_of_not_isPlain hne (hiff.mp he)
    obtain ⟨row, hexponent, hrow, hlength, -⟩ := exponentText_eq d.exponent
    refine ⟨front, _, row, htext.trans (by rw [hexponent]), ?_, hrow, hlength⟩
    split
    · exact .inr rfl
    · exact .inl rfl

end Decimal

open Decimal

/-- Printed numbers can be read back. A finite float is printed as its shortest decimal, with the
sign of the float also where it is zero; and two floats that are printed as the same text are the
same, unless they are undefined. -/
theorem printed_numbers_read_back (ε : Type) :
    (∀ x : Float, x.isNaN = false → x.isInf = false → ∃ (m : Nat) (q : Int) (d : Decimal),
      Magnitude.ofFloat x = .finite m q ∧ d = shortest (signBit x) m q ∧
      d.negative = signBit x ∧ d.IsShortest m q ∧
      d.Written (Value.number x : Value ε).display.toList) ∧
    ∀ x y : Float, x.isNaN = false → y.isNaN = false → x ≠ y →
      (Value.number x : Value ε).display ≠ (Value.number y : Value ε).display := by
  constructor
  · intro x hnan hinf
    obtain ⟨m, q, hx⟩ := Magnitude.exists_finite hnan hinf
    have hshortest := isShortest_shortest (Magnitude.canonical hx) (signBit x)
    have htext : (Value.number x : Value ε).display.toList =
        (shortest (signBit x) m q).render Value.numberFormat := ofFloat_of_finite _ hx
    refine ⟨m, q, _, hx, rfl, negative_shortest _ _ _, hshortest, ?_⟩
    rw [htext]
    exact written_render hshortest.numeric hshortest.nonempty
  · intro x y hx hy hne htext
    exact hne (ofFloat_inj_of_isNaN hx hy htext)

/-- A small negative number, and the two zeros. -/
theorem printed_numbers_read_back_small :
    ((-1.5e-7 : Float).isNaN = false ∧ (-1.5e-7 : Float).isInf = false ∧
      ∃ (m : Nat) (q : Int) (d : Decimal), Magnitude.ofFloat (-1.5e-7) = .finite m q ∧
        d.negative = true ∧ d.IsShortest m q ∧ d.Written "-1.5e-07".toList) ∧
    (0.0 : Float).isNaN = false ∧ (-0.0 : Float).isNaN = false ∧ (0.0 : Float) ≠ -0.0 ∧
      (Value.number 0.0 : Value Unit).display ≠ (Value.number (-0.0) : Value Unit).display := by
  have htext : (Value.number (-1.5e-7) : Value Unit).display = "-1.5e-07" := by decide +kernel
  have hsign : signBit (-1.5e-7) = true := by decide +kernel
  have hnan : (-1.5e-7 : Float).isNaN = false := by decide +kernel
  have hinf : (-1.5e-7 : Float).isInf = false := by decide +kernel
  have hzero : (0.0 : Float).isNaN = false := by decide +kernel
  have hzero' : (-0.0 : Float).isNaN = false := by decide +kernel
  have hne : (0.0 : Float) ≠ -0.0 := by decide +kernel
  obtain ⟨hread, hdistinct⟩ := printed_numbers_read_back Unit
  obtain ⟨m, q, d, hx, -, hnegative, hshortest, hwritten⟩ := hread _ hnan hinf
  rw [htext] at hwritten
  exact ⟨⟨hnan, hinf, m, q, d, hx, hnegative.trans hsign, hshortest, hwritten⟩,
    hzero, hzero', hne, hdistinct _ _ hzero hzero' hne⟩

end LoxLang
