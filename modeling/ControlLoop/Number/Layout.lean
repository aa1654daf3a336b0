/-
How the digits of a decimal number are laid out as text: positional
near one, with an exponent far from it, and always recognisable as a
number with a fraction.
-/
import ControlLoop.Number.Shortest

namespace ControlLoop.Number

/-- Where positional text ends and how an exponent is written. -/
structure Layout where
  /-- The least decimal exponent of the leading digit written positionally. -/
  least : Int
  /-- The greatest one. -/
  greatest : Int
  /-- What precedes an exponent that is not negative. -/
  plus : String

/-- JSON text: positional from `1e-5` below `1e16`, exponents signed. -/
def jsonLayout : Layout := ⟨-5, 15, "+"⟩

/-- Numbers of 32 bits in JSON text: positional from `1e-6` below `1e13`, exponents signed. -/
def jsonSingleLayout : Layout := ⟨-6, 12, "+"⟩

/-- Measurements: positional from `1e-6` below `1e21`, positive exponents unsigned. -/
def measurementLayout : Layout := ⟨-6, 20, ""⟩

/-- A decimal number that is not negative, as text. -/
def Decimal.text (layout : Layout) (d : Decimal) : String :=
  let digits := (Nat.toDigits 10 d.digits)
  let lead : Int := d.exponent + (digits.length : Int) - 1
  if d.digits = 0 then "0.0"
  else if layout.least ≤ lead ∧ lead ≤ layout.greatest then
    if 0 ≤ d.exponent then
      String.ofList (digits ++ List.replicate d.exponent.toNat '0' ++ ['.', '0'])
    else if 0 ≤ lead then
      let whole := lead.toNat + 1
      String.ofList (digits.take whole ++ '.' :: digits.drop whole)
    else
      String.ofList (['0', '.'] ++ List.replicate (-lead - 1).toNat '0' ++ digits)
  else
    let mantissa := match digits with
      | [] => []
      | [c] => [c]
      | c :: rest => c :: '.' :: rest
    let sign := if 0 ≤ lead then layout.plus else "-"
    String.ofList mantissa ++ "e" ++ sign ++ toString lead.natAbs

/-- The shortest text of a number in a layout. -/
def Binary.text (fmt : Format) (layout : Layout) (x : Binary) : String :=
  (if x.negative then "-" else "") ++ (shortest fmt x).text layout

end ControlLoop.Number
