/-
Binary floating numbers of a given precision, computed exactly.

A finite number is a sign, a significand and a power of two. Every
operation takes the exact rational result and rounds it once, to the
nearest number of the format and from halfway to the even significand;
a result beyond the format is `none`.
-/

namespace ControlLoop.Number

/-- Which significands and exponents a floating format holds. -/
structure Format where
  /-- Bits of a significand. -/
  precision : Nat
  /-- Exponent of the smallest positive number. -/
  minExponent : Int
  /-- Exponent of the unit in the last place of the largest numbers. -/
  maxExponent : Int

/-- The usual format of 64 bits. -/
def binary64 : Format := ⟨53, -1074, 971⟩

/-- The usual format of 32 bits. -/
def binary32 : Format := ⟨24, -149, 104⟩

/-- The finite number `± significand · 2 ^ exponent`. Zero keeps its sign. -/
structure Binary where
  negative : Bool
  significand : Nat
  exponent : Int
  deriving DecidableEq, Repr

/-- A quotient rounded to the nearest whole number, from halfway to the even one. -/
def roundDiv (num den : Nat) : Nat :=
  let q := num / den
  let twice := 2 * (num % den)
  if twice < den then q
  else if den < twice then q + 1
  else if q % 2 = 0 then q
  else q + 1

/-- A ratio times a power of two, as a ratio. -/
def scaled (num den : Nat) (e : Int) : Nat × Nat :=
  if 0 ≤ e then (num * Nat.pow 2 e.toNat, den) else (num, den * Nat.pow 2 (-e).toNat)

namespace Format

/-- The exponent at which a positive ratio fills the significand: the quotient by that power of
two has exactly `precision` bits. -/
def fillingExponent (fmt : Format) (num den : Nat) : Int :=
  let guess : Int := (num.log2 : Int) - den.log2 - (fmt.precision - 1 : Nat)
  let (n, d) := scaled num den (-guess)
  if n < d * Nat.pow 2 (fmt.precision - 1) then guess - 1 else guess

/-- The nearest number to a signed ratio, or `none` beyond the largest. -/
def round (fmt : Format) (negative : Bool) (num den : Nat) : Option Binary :=
  if num = 0 then some ⟨negative, 0, fmt.minExponent⟩
  else
    let e := max fmt.minExponent (fmt.fillingExponent num den)
    let (n, d) := scaled num den (-e)
    let m := roundDiv n d
    let (m, e) :=
      if m = Nat.pow 2 fmt.precision then (Nat.pow 2 (fmt.precision - 1), e + 1) else (m, e)
    if fmt.maxExponent < e then none else some ⟨negative, m, e⟩

end Format

namespace Binary

def isZero (x : Binary) : Bool := x.significand = 0

/-- The absolute value as a ratio. -/
def ratio (x : Binary) : Nat × Nat := scaled x.significand 1 x.exponent

/-- The same value in another format. -/
def convert (fmt : Format) (x : Binary) : Option Binary :=
  let (n, d) := x.ratio
  fmt.round x.negative n d

/-- A whole number, rounded. -/
def ofNat (fmt : Format) (n : Nat) : Option Binary := fmt.round false n 1

def neg (x : Binary) : Binary := { x with negative := !x.negative }

def mul (fmt : Format) (x y : Binary) : Option Binary :=
  let (n, d) := scaled (x.significand * y.significand) 1 (x.exponent + y.exponent)
  fmt.round (x.negative != y.negative) n d

/-- The quotient by a number other than zero. -/
def div (fmt : Format) (x y : Binary) : Option Binary :=
  let (n, d) := scaled x.significand y.significand (x.exponent - y.exponent)
  fmt.round (x.negative != y.negative) n d

/-- The signed significand at a lower exponent. -/
def aligned (x : Binary) (e : Int) : Int :=
  let m : Int := x.significand * Nat.pow 2 (x.exponent - e).toNat
  if x.negative then -m else m

/-- The sum; a sum of zero is negative only if both numbers are. -/
def add (fmt : Format) (x y : Binary) : Option Binary :=
  let e := min x.exponent y.exponent
  let total := x.aligned e + y.aligned e
  let (n, d) := scaled total.natAbs 1 e
  fmt.round (if total = 0 then x.negative && y.negative else total < 0) n d

/-- The order of the values; the two zeros are equal. -/
def cmp (x y : Binary) : Ordering :=
  let e := min x.exponent y.exponent
  compare (x.aligned e) (y.aligned e)

def le (x y : Binary) : Bool := (x.cmp y).isLE

end Binary

end ControlLoop.Number
