/-
The shortest decimal text of a binary number.

Among the decimals that round to the number, the fewest digits win and
of those the nearest. The candidates on a grid of so many digits are
the two neighbours of the number; the first grid that holds one inside
the rounding interval decides. Everything is compared as exact ratios.
-/
import ControlLoop.Number.Binary

namespace ControlLoop.Number

/-- The decimal number `digits · 10 ^ exponent`. -/
structure Decimal where
  digits : Nat
  exponent : Int
  deriving DecidableEq, Repr

/-- How many decimal digits a whole number has; zero has none. -/
def digitCount (n : Nat) : Nat := if n = 0 then 0 else (Nat.toDigits 10 n).length

/-- The decimal exponent of the leading digit of a positive ratio. -/
def leadingExponent (num den : Nat) : Int :=
  if den ≤ num then (digitCount (num / den) : Int) - 1 else -(digitCount ((den - 1) / num) : Int)

/-- A ratio times a power of ten, as a ratio. -/
def scaledTen (num den : Nat) (k : Int) : Nat × Nat :=
  if 0 ≤ k then (num * Nat.pow 10 k.toNat, den) else (num, den * Nat.pow 10 (-k).toNat)

/-- The reals that round to a positive number, as numerators over a common denominator. -/
structure Interval where
  low : Nat
  value : Nat
  high : Nat
  den : Nat
  /-- Whether the two ends belong to it. -/
  closed : Bool

/-- Halfway to either neighbour; below a power of two the neighbour is half as far. -/
def roundingInterval (fmt : Format) (x : Binary) : Interval :=
  let m := 4 * x.significand
  let below :=
    if x.significand = Nat.pow 2 (fmt.precision - 1) ∧ fmt.minExponent < x.exponent then 1 else 2
  let (unit, den) := scaled 1 1 (x.exponent - 2)
  ⟨(m - below) * unit, m * unit, (m + 2) * unit, den, x.significand % 2 = 0⟩

namespace Interval

/-- Whether `n · 10 ^ k` lies in the interval. -/
def holds (i : Interval) (n : Nat) (k : Int) : Bool :=
  let (p, q) := scaledTen n 1 k
  let low := i.low * q
  let high := i.high * q
  let at_ := p * i.den
  if i.closed then low ≤ at_ && at_ ≤ high else low < at_ && at_ < high

/-- The nearest point of the grid of step `10 ^ k` that lies in the interval; of two that are as
near as each other, the even one. -/
def onGrid (i : Interval) (k : Int) : Option Decimal :=
  let (p, q) := scaledTen i.value i.den (-k)
  let down := p / q
  match i.holds down k && down ≠ 0, i.holds (down + 1) k with
  | true, true => some ⟨roundDiv p q, k⟩
  | true, false => some ⟨down, k⟩
  | false, true => some ⟨down + 1, k⟩
  | false, false => none

/-- Try grids from coarse to fine. -/
def search (i : Interval) (k : Int) : Nat → Decimal
  | 0 => ⟨i.value / i.den, 0⟩
  | fuel + 1 => (i.onGrid k).getD (i.search (k - 1) fuel)

end Interval

/-- The shortest decimal that rounds to the absolute value of a number. The first grid is one
step coarser than the leading digit, for a number just below a power of ten; twenty digits are
more than the formats in use ever need. -/
def shortest (fmt : Format) (x : Binary) : Decimal :=
  if x.significand = 0 then ⟨0, 0⟩
  else
    let i := roundingInterval fmt x
    i.search (leadingExponent i.value i.den + 1) 21

end ControlLoop.Number
