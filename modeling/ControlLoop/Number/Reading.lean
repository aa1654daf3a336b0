/-
Reading a decimal number as a binary one.

The digits are rounded to a number first and then multiplied or divided
by a power of ten that is itself rounded, so a number with many digits
or a far exponent may land beside the nearest one.
-/
import ControlLoop.Number.Binary

namespace ControlLoop.Number

/-- The greatest power of ten that the format of 64 bits holds. -/
def maxPower : Nat := 308

/-- A power of ten up to the greatest, rounded. -/
def powerOfTen (k : Nat) : Option Binary := Binary.ofNat binary64 (Nat.pow 10 k)

/-- Scale a number by a power of ten, through the greatest power while the exponent is lower
still; after three rounds nothing is left of any significand. -/
def scaleByTen (x : Binary) (exponent : Int) : Nat → Option Binary
  | 0 => some x
  | rounds + 1 =>
    if exponent.natAbs ≤ maxPower then
      (powerOfTen exponent.natAbs).bind fun p =>
        if 0 ≤ exponent then x.mul binary64 p else x.div binary64 p
    else if x.isZero then some x
    else if 0 ≤ exponent then none
    else
      ((powerOfTen maxPower).bind (x.div binary64 ·)).bind fun y =>
        scaleByTen y (exponent + maxPower) rounds

/-- The number written as `digits · 10 ^ exponent`; `none` when it is too large. -/
def ofDecimal (negative : Bool) (digits : Nat) (exponent : Int) : Option Binary :=
  ((Binary.ofNat binary64 digits).bind (scaleByTen · exponent 4)).map fun x =>
    if negative then x.neg else x

end ControlLoop.Number
