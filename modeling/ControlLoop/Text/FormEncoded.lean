/-
The form encoding of a text (`application/x-www-form-urlencoded`), in
which query parameters are sent.
-/
import ControlLoop.Text.Bytes

namespace ControlLoop.Text

/-- The digit of a value below sixteen, letters in upper case. -/
def upperHexDigit (n : Nat) : Char := (Nat.digitChar n).toUpper

/-- A letter, a digit or one of `*-._`: sent as it is. -/
def isFormPlain (b : UInt8) : Bool :=
  let c := Char.ofNat b.toNat
  b < 128 && (c.isAlphanum || c = '*' || c = '-' || c = '.' || c = '_')

/-- Plain bytes stay, a space becomes a plus, and any other byte is written by its code. -/
def formByte (b : UInt8) : List Char :=
  if isFormPlain b then [Char.ofNat b.toNat]
  else if b = 0x20 then ['+']
  else ['%', upperHexDigit (b.toNat / 16), upperHexDigit (b.toNat % 16)]

/-- The form encoding of a text. -/
def formEncoded (s : String) : String := String.ofList ((utf8 s).flatMap formByte)

end ControlLoop.Text
