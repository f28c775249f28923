import LoxLang.Proofs.Decimal.Reading
import Mathlib
/-!
# Floats as text

The magnitude of a float is read off its bits, and the sign bit and the magnitude
together determine the float. Hence a float that is not undefined can be told from its
text in any format. The number of a literal is a quotient of two numbers that are finite
or too large, so it is never undefined.
-/
namespace LoxLang

open Float.Model Float.Model.UnpackedFloat

/-! ## Bits -/

def Magnitude.ofUnpacked : UnpackedFloat → Magnitude
  | .notANumber => .nan
  | .infinity _ => .infinite
  | .zero _ => .finite 0 (-1074)
  | .finite _ m q _ => .finite m q

section
variable (b : BitVec Format.binary64.numBits)

private theorem toNat_unpackExponent :
    (unpackExponent b).toNat = b.toNat / 2 ^ 52 % 2 ^ 11 := by
  simp [unpackExponent, Nat.shiftRight_eq_div_pow]

private theorem toNat_unpackMantissa :
    (unpackMantissa b).toNat = b.toNat % 2 ^ 52 := by
  simp [unpackMantissa]

private theorem ofUnpacked_unpack : Magnitude.ofUnpacked (UnpackedFloat.unpack Format.binary64 b) =
    if b.toNat / 2 ^ 52 % 2 ^ 11 = 2 ^ 11 - 1 then
      if b.toNat % 2 ^ 52 = 0 then .infinite else .nan
    else if b.toNat / 2 ^ 52 % 2 ^ 11 = 0 then .finite (b.toNat % 2 ^ 52) (-1074)
    else .finite (2 ^ 52 + b.toNat % 2 ^ 52) ((b.toNat / 2 ^ 52 % 2 ^ 11 : Nat) - 1075) := by
  have hspecial : unpackExponent b = -1#_ ↔
      b.toNat / 2 ^ 52 % 2 ^ 11 = 2 ^ 11 - 1 := by
    rw [← toNat_unpackExponent, ← BitVec.toNat_inj]
    rfl
  have hsubnormal : unpackExponent b = 0#_ ↔
      b.toNat / 2 ^ 52 % 2 ^ 11 = 0 := by
    rw [← toNat_unpackExponent, ← BitVec.toNat_inj]
    rfl
  have hzero : unpackMantissa b = 0#_ ↔ b.toNat % 2 ^ 52 = 0 := by
    rw [← toNat_unpackMantissa, ← BitVec.toNat_inj]
    rfl
  have hbias : (Format.binary64.exponentBias : Int) + (52 : Nat) = 1075 := rfl
  have himplicit : (1#1 ++ unpackMantissa b).toNat =
      2 ^ 52 + b.toNat % 2 ^ 52 := by
    rw [BitVec.toNat_append, toNat_unpackMantissa,
      ← Nat.shiftLeft_add_eq_or_of_lt (Nat.mod_lt _ (by decide))]
    rfl
  rw [UnpackedFloat.unpack]
  simp only [hspecial, hsubnormal, hzero, himplicit, toNat_unpackExponent, toNat_unpackMantissa,
    hbias]
  split
  · split <;> rfl
  split
  · rename_i hexponent
    split
    · rename_i hmantissa
      rw [hmantissa]
      rfl
    · rw [hexponent]
      rfl
  · rfl

end

private theorem Magnitude.ofFloat_eq (x : Float) :
    Magnitude.ofFloat x = .ofUnpacked x.toModel.unpack :=
  (ofUnpacked_unpack x.toBits.toBitVec).symm

private theorem Magnitude.ne_nan {x : Float} (h : x.isNaN = false) :
    Magnitude.ofFloat x ≠ .nan := by
  rw [ofFloat_eq]
  have h' : x.toModel.unpack.isNaN = false := h
  cases hunpack : x.toModel.unpack with
  | notANumber => simp [hunpack, UnpackedFloat.isNaN] at h'
  | _ => exact Magnitude.noConfusion

private theorem Magnitude.ne_infinite {x : Float} (h : x.isInf = false) :
    Magnitude.ofFloat x ≠ .infinite := by
  rw [ofFloat_eq]
  have h' : x.toModel.unpack.isInf = false := h
  cases hunpack : x.toModel.unpack with
  | infinity _ => simp [hunpack, UnpackedFloat.isInf] at h'
  | _ => exact Magnitude.noConfusion

theorem Magnitude.exists_finite {x : Float} (hnan : x.isNaN = false) (hinf : x.isInf = false) :
    ∃ m q, Magnitude.ofFloat x = .finite m q := by
  cases hx : Magnitude.ofFloat x with
  | nan => exact absurd hx (ne_nan hnan)
  | infinite => exact absurd hx (ne_infinite hinf)
  | finite m q => exact ⟨m, q, rfl⟩

private theorem Magnitude.ofFloat_infinite {x : Float} (h : Magnitude.ofFloat x = .infinite) :
    x.toBits.toNat / 2 ^ 52 % 2 ^ 11 = 2 ^ 11 - 1 ∧ x.toBits.toNat % 2 ^ 52 = 0 := by
  simp only [ofFloat, Nat.pow_eq] at h
  split at h
  · rename_i hspecial
    split at h
    · rename_i hzero
      exact ⟨hspecial, hzero⟩
    · cases h
  · split at h <;> cases h

private theorem Magnitude.ofFloat_finite {x : Float} {m : Nat} {q : Int}
    (h : Magnitude.ofFloat x = .finite m q) :
    x.toBits.toNat / 2 ^ 52 % 2 ^ 11 < 2 ^ 11 - 1 ∧
      (x.toBits.toNat / 2 ^ 52 % 2 ^ 11 = 0 ∧ m = x.toBits.toNat % 2 ^ 52 ∧ q = -1074 ∨
        0 < x.toBits.toNat / 2 ^ 52 % 2 ^ 11 ∧ m = 2 ^ 52 + x.toBits.toNat % 2 ^ 52 ∧
          q = (x.toBits.toNat / 2 ^ 52 % 2 ^ 11 : Nat) - 1075) := by
  have hlt : x.toBits.toNat / 2 ^ 52 % 2 ^ 11 < 2 ^ 11 := Nat.mod_lt _ (by decide)
  simp only [ofFloat, Nat.pow_eq] at h
  split at h
  · split at h <;> cases h
  · rename_i hspecial
    refine ⟨by omega, ?_⟩
    split at h
    · rename_i hzero
      obtain ⟨rfl, rfl⟩ := Magnitude.finite.inj h
      exact .inl ⟨hzero, rfl, rfl⟩
    · rename_i hzero
      obtain ⟨rfl, rfl⟩ := Magnitude.finite.inj h
      exact .inr ⟨Nat.pos_of_ne_zero hzero, rfl, rfl⟩

theorem Magnitude.canonical {x : Float} {m : Nat} {q : Int}
    (h : Magnitude.ofFloat x = .finite m q) : Decimal.Canonical m q := by
  have hfraction : x.toBits.toNat % 2 ^ 52 < 2 ^ 52 := Nat.mod_lt _ (by decide)
  obtain ⟨-, ⟨-, hm, hq⟩ | ⟨hpos, hm, hq⟩⟩ := ofFloat_finite h <;>
    exact ⟨by omega, by omega, fun hnormal => by omega⟩

private theorem eq_of_ofFloat_eq {x y : Float} (hsign : signBit x = signBit y)
    (hnan : Magnitude.ofFloat x ≠ .nan) (h : Magnitude.ofFloat x = Magnitude.ofFloat y) :
    x = y := by
  have hltx := x.toBits.toNat_lt
  have hlty := y.toBits.toNat_lt
  have hsigns : x.toBits.toNat / 2 ^ 63 = 1 ↔ y.toBits.toNat / 2 ^ 63 = 1 := by
    simpa [signBit] using hsign
  refine Float.toBits_inj.mp (UInt64.toNat_inj.mp ?_)
  cases hx : Magnitude.ofFloat x with
  | nan => exact absurd hx hnan
  | infinite =>
    have hfx := Magnitude.ofFloat_infinite hx
    have hfy := Magnitude.ofFloat_infinite (h.symm.trans hx)
    omega
  | finite m q =>
    have hfx := Magnitude.ofFloat_finite hx
    have hfy := Magnitude.ofFloat_finite (h.symm.trans hx)
    omega

/-! ## Texts of floats -/

namespace Decimal

theorem ofFloat_of_finite {x : Float} {m : Nat} {q : Int} (format : Format)
    (h : Magnitude.ofFloat x = .finite m q) :
    (ofFloat format x).toList = (shortest (signBit x) m q).render format := by
  rw [ofFloat, h, String.toList_ofList]

/-- The text of a finite float is read as its decimal. -/
theorem read?_ofFloat {x : Float} {m : Nat} {q : Int} (format : Format)
    (h : Magnitude.ofFloat x = .finite m q) : read? (ofFloat format x).toList =
      some (signBit x, (shortest (signBit x) m q).magnitude) := by
  rw [ofFloat_of_finite format h, read?_render (numeric_shortest _ _ _)
    (digits_shortest_ne_nil (Magnitude.canonical h) _), negative_shortest]

theorem ofFloat_inj {format : Format} {x y : Float} {m m' : Nat} {q q' : Int}
    (hx : Magnitude.ofFloat x = .finite m q) (hy : Magnitude.ofFloat y = .finite m' q')
    (h : ofFloat format x = ofFloat format y) : x = y := by
  have hvalue := read?_ofFloat format hx
  rw [h, read?_ofFloat format hy, Option.some.injEq, Prod.mk.injEq] at hvalue
  obtain ⟨rfl, rfl⟩ :=
    eq_of_magnitude_eq (Magnitude.canonical hx) (Magnitude.canonical hy) hvalue.2.symm
  exact eq_of_ofFloat_eq hvalue.1.symm (by simp [hx]) (hx.trans hy.symm)

/-- No decimal is read from the text of an infinite float. -/
theorem read?_ofFloat_infinite {x : Float} (format : Format)
    (h : Magnitude.ofFloat x = .infinite) : read? (ofFloat format x).toList = none := by
  simp only [ofFloat, h]
  cases signBit x <;> decide +kernel

/-- Floats that are not undefined have different texts. -/
theorem ofFloat_inj_of_isNaN {format : Format} {x y : Float} (hx : x.isNaN = false)
    (hy : y.isNaN = false) (h : ofFloat format x = ofFloat format y) : x = y := by
  have hreads := congrArg (fun text => read? text.toList) h
  cases hmx : Magnitude.ofFloat x with
  | nan => exact absurd hmx (Magnitude.ne_nan hx)
  | infinite =>
    cases hmy : Magnitude.ofFloat y with
    | nan => exact absurd hmy (Magnitude.ne_nan hy)
    | infinite =>
      have hsign : signBit x = signBit y := by
        rw [ofFloat, ofFloat, hmx, hmy] at h
        cases hsx : signBit x <;> cases hsy : signBit y <;> simp [hsx, hsy] at h ⊢
      exact eq_of_ofFloat_eq hsign (by simp [hmx]) (hmx.trans hmy.symm)
    | finite _ _ => simp [read?_ofFloat_infinite format hmx, read?_ofFloat format hmy] at hreads
  | finite _ _ =>
    cases hmy : Magnitude.ofFloat y with
    | nan => exact absurd hmy (Magnitude.ne_nan hy)
    | infinite => simp [read?_ofFloat format hmx, read?_ofFloat_infinite format hmy] at hreads
    | finite _ _ => exact ofFloat_inj hmx hmy h

theorem ofFloat_characters {x : Float} {m : Nat} {q : Int}
    (hx : Magnitude.ofFloat x = .finite m q) :
    ∃ first others, (ofFloat .always x).toList = first :: others ∧
      (first.isDigit = true ∨ first = '-') ∧ ∀ c ∈ others, c.isDigit = true ∨ c = '.' := by
  obtain ⟨first, others, htext, hfirst, hothers⟩ :=
    plain_characters (numeric_shortest (signBit x) m q)
  have hrender := ofFloat_of_finite .always hx
  rw [render, negative_shortest, Format.isPlain, if_pos rfl, htext] at hrender
  split at hrender
  · exact ⟨'-', first :: others, hrender, .inr rfl,
      List.forall_mem_cons.mpr ⟨.inl hfirst, hothers⟩⟩
  · exact ⟨first, others, hrender, .inl hfirst, hothers⟩

end Decimal

/-! ## Numbers in a source -/

private theorem unpackMantissa_pack {f : UnpackedFloat} (h : f.isNaN = false)
    (hexponent : unpackExponent (UnpackedFloat.pack Format.binary64 f) = -1#_) :
    unpackMantissa (UnpackedFloat.pack Format.binary64 f) = 0#_ := by
  revert hexponent
  fun_cases UnpackedFloat.pack Format.binary64 f with
  | case1 => cases h
  | case2 s => simp [packedInfinity]
  | case3 s => simp [packedZero]
  | case4 s m q hm biased hlarge => simp [packedInfinity]
  | case5 s m q hm bits biased hlarge hnormal =>
    intro hexponent
    rw [unpackExponent_packComponents, ← BitVec.toNat_inj, BitVec.toNat_ofNat] at hexponent
    have hsmall : biased < 2 ^ 11 - 1 := by
      simp only at hlarge
      omega
    rw [Nat.mod_eq_of_lt (by omega)] at hexponent
    exact absurd hexponent (Nat.ne_of_lt hsmall)
  | case6 s m q hm bits biased hlarge hnormal => simp

private theorem isNaN_unpack {b : BitVec Format.binary64.numBits}
    (h : unpackExponent b = -1#_ → unpackMantissa b = 0#_) :
    (UnpackedFloat.unpack Format.binary64 b).isNaN = false := by
  simp only [UnpackedFloat.unpack]
  split
  · rename_i hexponent
    rw [if_pos (h hexponent)]
    rfl
  split
  · split <;> rfl
  · rfl

private theorem isNaN_pack {f : UnpackedFloat} (h : f.isNaN = false) :
    (Float.Model.pack f).isNaN = false :=
  isNaN_unpack (unpackMantissa_pack h)

private theorem isNaN_roundWithAccuracy (sign : Sign) (m : Nat) (q : Int) (accuracy : Accuracy) :
    (roundWithAccuracy Format.binary64 sign m q accuracy).isNaN = false := by
  simp only [roundWithAccuracy]
  split <;> rfl

private theorem isNaN_ofUInt64 (n : UInt64) :
    (UnpackedFloat.ofUInt64 Format.binary64 n).isNaN = false := by
  simp only [UnpackedFloat.ofUInt64, UnpackedFloat.ofNat, UnpackedFloat.ofInt,
    UnpackedFloat.normalize]
  split
  · exact isNaN_roundWithAccuracy ..
  · rfl
  · exact isNaN_roundWithAccuracy ..

def isNonzero : UnpackedFloat → Bool
  | .finite .. => true
  | _ => false

private theorem isNaN_div {a b : UnpackedFloat} (ha : a.isNaN = false) (hb : isNonzero b = true) :
    (UnpackedFloat.div Format.binary64 a b).isNaN = false := by
  cases b with
  | finite s m q hm =>
    cases a with
    | notANumber => cases ha
    | infinity _ => rfl
    | zero _ => rfl
    | finite _ _ _ _ => exact isNaN_roundWithAccuracy ..
  | _ => cases hb

private theorem isNonzero_powersOfTen : ∀ x ∈ Float.exactlyRepresentablePowersOfTen.toList,
    isNonzero x.toModel.unpack = true := by
  decide +kernel

private theorem isNaN_unpackedOfScientific (n : Nat) (e : Int) :
    (UnpackedFloat.ofScientific Format.binary64 n e).isNaN = false := by
  unfold UnpackedFloat.ofScientific
  split
  · rfl
  split
  · rfl
  split
  · rfl
  split <;> exact isNaN_roundWithAccuracy ..

/-- A number in a source is not undefined. -/
theorem Lexeme.isNaN_numberValue (whole fraction : List Char) :
    (numberValue whole fraction).isNaN = false := by
  unfold numberValue Float.ofScientific
  split
  · refine isNaN_pack (isNaN_div (isNaN_pack (isNaN_ofUInt64 _)) ?_)
    exact isNonzero_powersOfTen _ (Array.getElem_mem_toList ..)
  · exact isNaN_pack (isNaN_unpackedOfScientific _ _)

end LoxLang
