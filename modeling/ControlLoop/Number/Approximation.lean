/-
A decimal text of a binary number found with 64 bits of precision.

The number and the ends of its rounding interval are multiplied by a
power of ten, all of them cut to 64 bits, and the interval is narrowed
by one unit at either end for what the cuts may have lost. The coarsest
decimal grid with a point in what is left decides. So the decimal
rounds to the number and has nearly always the fewest digits; among
many digits the last one need not be the nearest.
-/
import ControlLoop.Number.Shortest

namespace ControlLoop.Number

/-- A wide enough format with significands of 64 bits. -/
def wide : Format := ⟨64, -4096, 4096⟩

/-- The power of ten `10 ^ k`, rounded to 64 bits. -/
def widePower (k : Int) : Option Binary :=
  let (num, den) := scaledTen 1 1 k
  wide.round false num den

/-- The upper half of a product of two numbers of 64 bits, a half of its unit rounded up. -/
def upperProduct (a b : Nat) : Nat := (a * b + Nat.pow 2 63) / Nat.pow 2 64

/-- The exponent of the power of ten that brings a number of 64 bits with this binary exponent
to a whole part of at most nine digits. Powers are taken in steps of eight. -/
def scalingPower (exponent : Int) : Int :=
  let digits := -((exponent + 61) * 30103 / 100000)
  8 * ((digits + 347) / 8 + 1) - 348

-- ====================================================== windows

/-- A narrowed rounding interval on a scale with so many units to one. -/
structure Window where
  /-- The upper end. -/
  high : Nat
  width : Nat
  /-- How far the number lies below the upper end. -/
  gap : Nat
  unit : Nat

namespace Window

/-- The window at a power of ten: a number with a significand that fills 64 bits, the two ends
with the same exponent, and the rounded power. -/
def scaled (low value high : Nat) (exponent : Int) (power : Binary) : Window :=
  let top := upperProduct high power.significand - 1
  let bottom := upperProduct low power.significand + 1
  { high := top
    width := top - bottom
    gap := top - upperProduct value power.significand
    unit := Nat.pow 2 (-(exponent + power.exponent + 64)).toNat }

/-- How many steps the multiple of a step in the window that is nearest to the number stands above
zero; from halfway the upper one. -/
def nearest (w : Window) (step : Nat) : Nat :=
  let rest := w.high % step
  let lower := Nat.min ((w.width - rest) / step)
    ((2 * w.gap + step - 2 * rest - 1) / (2 * step))
  w.high / step - lower

/-- The most decimal places to which the place of the number in the window is followed. -/
def trackedPlaces : Nat := 8

/-- The window on a scale finer by so many places. Beyond the places that are tracked the number
counts as the upper end. -/
def finer (w : Window) (places : Nat) : Window :=
  let scale := Nat.pow 10 places
  { high := w.high * scale
    width := w.width * scale
    gap := if places ≤ trackedPlaces then w.gap * scale else 0
    unit := w.unit }

/-- A whole number in the window, with as many zeros at its end as there can be, up to a bound. -/
def whole? (w : Window) : Nat → Option Decimal
  | 0 => none
  | zeros + 1 =>
    let step := w.unit * Nat.pow 10 zeros
    if w.high % step ≤ w.width then some ⟨w.nearest step, zeros⟩ else w.whole? zeros

/-- A number in the window with as few places as there can be, but at least so many. -/
def fraction (w : Window) (places : Nat) : Nat → Decimal
  | 0 => ⟨w.high / w.unit, 0⟩
  | fuel + 1 =>
    let f := w.finer places
    if f.high % f.unit < f.width then ⟨f.nearest f.unit, -places⟩
    else w.fraction (places + 1) fuel

/-- A number in the window with few digits. A unit is less than twenty places long. -/
def decimal (w : Window) : Decimal :=
  (w.whole? (digitCount (w.high / w.unit))).getD (w.fraction 1 20)

end Window

-- ================================================= the decimal

/-- A decimal that rounds to the absolute value of a number of 64 bits. Halfway to either
neighbour the interval ends; below a power of two the neighbour is half as far. -/
def approximate (x : Binary) : Decimal :=
  let shift := 63 - x.significand.log2
  let exponent := x.exponent - shift
  let value := x.significand * Nat.pow 2 shift
  let half := Nat.pow 2 (shift - 1)
  let below := if x.significand = Nat.pow 2 52 then half / 2 else half
  let k := scalingPower exponent
  match widePower k with
  | some power =>
    if x.significand = 0 then ⟨0, 0⟩
    else
      let d := (Window.scaled (value - below) value (value + half) exponent power).decimal
      ⟨d.digits, d.exponent - k⟩
  | none => shortest binary64 x

end ControlLoop.Number
