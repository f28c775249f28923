import LoxLang.Decimal.Basic
/-!
# Shortest decimals of floats

The decimal of a float has the fewest digits that still read back as the float.
A finite float is `m · 2 ^ q`; the numbers that round to it form an interval
around it, closed if `m` is even. On ever finer decimal grids the two neighbours
of the float are tried, in exact arithmetic, until one lies in the interval; of
two that do, the nearer is taken, and the larger one if both are equally near.
-/
namespace LoxLang

/-- A binary floating-point number without its sign. -/
inductive Magnitude
  | nan
  | infinite
  | finite (m : Nat) (q : Int)
deriving DecidableEq

namespace Magnitude

def ofFloat (x : Float) : Magnitude :=
  let bits := x.toBits.toNat
  let fraction := bits % Nat.pow 2 52
  let exponent : Nat := bits / Nat.pow 2 52 % Nat.pow 2 11
  if exponent = Nat.pow 2 11 - 1 then if fraction = 0 then infinite else nan
  else if exponent = 0 then finite fraction (-1074)
  else finite (Nat.pow 2 52 + fraction) ((exponent : Int) - 1075)

end Magnitude

def signBit (x : Float) : Bool :=
  x.toBits.toNat / Nat.pow 2 63 = 1

namespace Decimal

def digitCount (n : Nat) : Nat :=
  (Nat.toDigits 10 n).length

/-- The exponent of the leading decimal digit of `a / b`, for positive `a` and `b`. -/
def leadingExponent (a b : Nat) : Int :=
  if b ≤ a then digitCount (a / b) - 1 else -(digitCount ((b - 1) / a))

/-- The interval of numbers that round to `value`: all three are counted in units of
`up / down`, and the ends belong to it if `closed`. -/
structure Interval where
  low : Nat
  value : Nat
  high : Nat
  closed : Bool
  up : Nat
  down : Nat

namespace Interval

/-- The interval around `m · 2 ^ q`, in quarters of the last place. Just above a power of two the
floats below are twice as close. -/
def around (m : Nat) (q : Int) : Interval where
  low := if m = Nat.pow 2 52 ∧ q ≠ -1074 then 4 * m - 1 else 4 * m - 2
  value := 4 * m
  high := 4 * m + 2
  closed := m % 2 = 0
  up := Nat.pow 2 (q - 2).toNat
  down := Nat.pow 2 (2 - q).toNat

/-- Whether `c · 10 ^ p` lies in the interval. -/
def contains (i : Interval) (c : Nat) (p : Int) : Bool :=
  let point := c * Nat.pow 10 p.toNat * i.down
  let unit := i.up * Nat.pow 10 (-p).toNat
  if i.closed then i.low * unit ≤ point && point ≤ i.high * unit
  else i.low * unit < point && point < i.high * unit

def step (i : Interval) (p : Int) : Nat :=
  Nat.pow 10 p.toNat * i.down

def target (i : Interval) (p : Int) : Nat :=
  i.value * (i.up * Nat.pow 10 (-p).toNat)

/-- The multiple of `10 ^ p` in the interval that is nearest to the value, if there is one. -/
def nearest? (i : Interval) (p : Int) : Option Nat :=
  let below := i.target p / i.step p
  match i.contains below p, i.contains (below + 1) p with
  | true, true => some (if 2 * (i.target p % i.step p) < i.step p then below else below + 1)
  | true, false => some below
  | false, true => some (below + 1)
  | false, false => none

/-- The first multiple of a power of ten, from `10 ^ p` downwards, that lies in the interval; after
`n` failures the multiple just below the value. -/
def search (i : Interval) : Nat → Int → Nat × Int
  | 0, p => (i.target p / i.step p, p)
  | n + 1, p =>
    match i.nearest? p with
    | some c => (c, p)
    | none => search i n (p - 1)

end Interval

def significantDigits (c : Nat) : List Char :=
  ((Nat.toDigits 10 c).reverse.dropWhile (· = '0')).reverse

/-- The shortest decimal of `m · 2 ^ q`. Seventeen digits are always enough. -/
def shortest (negative : Bool) (m : Nat) (q : Int) : Decimal :=
  if m = 0 then ⟨negative, ['0'], 0⟩
  else
    let leading := leadingExponent (m * Nat.pow 2 q.toNat) (Nat.pow 2 (-q).toNat)
    let (c, p) := (Interval.around m q).search 17 leading
    ⟨negative, significantDigits c, p + digitCount c - 1⟩

/-- A float as text: its shortest decimal in the given format, or a word. -/
def ofFloat (format : Format) (x : Float) : String :=
  match Magnitude.ofFloat x with
  | .nan => "nan"
  | .infinite => if signBit x then "-inf" else "inf"
  | .finite m q => String.ofList ((shortest (signBit x) m q).render format)

end Decimal

end LoxLang
