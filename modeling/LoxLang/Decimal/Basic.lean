/-!
# Decimal numbers as text

A decimal is a sign, a row of digits and an exponent: the number `d.ddd` times a
power of ten. It is written plainly or with an exponent; a format says which.
-/
namespace LoxLang

/-- The number `± d₁.d₂d₃… · 10 ^ exponent`. -/
structure Decimal where
  negative : Bool
  digits : List Char
  exponent : Int
deriving DecidableEq, Inhabited

namespace Decimal

def zeros (n : Nat) : List Char :=
  List.replicate n '0'

/-- All digits in their places, without an exponent; a point only if digits follow it. -/
def plain (d : Decimal) : List Char :=
  if d.exponent < 0 then
    '0' :: '.' :: zeros (-d.exponent - 1).toNat ++ d.digits
  else
    let whole := d.exponent.toNat + 1
    if d.digits.length ≤ whole then d.digits ++ zeros (whole - d.digits.length)
    else d.digits.take whole ++ '.' :: d.digits.drop whole

def exponentText (e : Int) : List Char :=
  let digits := Nat.toDigits 10 e.natAbs
  (if e < 0 then '-' else '+') :: zeros (2 - digits.length) ++ digits

def scientific (d : Decimal) : List Char :=
  let mantissa := match d.digits with
    | first :: second :: rest => first :: '.' :: second :: rest
    | digits => digits
  mantissa ++ 'e' :: exponentText d.exponent

/-- Which numbers are written plainly: all, or those with an exponent in a half-open range. -/
inductive Format
  | always
  | within (low high : Int)
deriving DecidableEq

def Format.isPlain (exponent : Int) : Format → Bool
  | always => true
  | within low high => low ≤ exponent && exponent < high

def render (format : Format) (d : Decimal) : List Char :=
  let body := if format.isPlain d.exponent then d.plain else d.scientific
  if d.negative then '-' :: body else body

end Decimal

end LoxLang
