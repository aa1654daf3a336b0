/-
Passing over JSON values that nobody wants.

Nothing is kept of a value that is passed over, so it need not stand
for anything: its numbers may be too large, its texts may hold halves
of surrogate pairs, and it may nest to any depth. Only the grammar is
looked at, and where it is broken, not always the same fault shows as
when the value is read.
-/
import ControlLoop.Json.Parser

namespace ControlLoop.Json

-- ================================================== numbers

/-- Whether a digit comes next. -/
def startsWithDigit (cs : List Char) : Bool := cs.head?.any Char.isDigit

/-- At least one digit. -/
def skipDigits (cs : List Char) : Except Stop (List Char) :=
  if startsWithDigit cs then .ok (cs.dropWhile Char.isDigit) else stopBefore .badNumber cs

/-- An exponent, if there is one. -/
def skipExponent : List Char → Except Stop (List Char)
  | 'e' :: cs | 'E' :: cs =>
    match cs with
    | '+' :: cs | '-' :: cs => skipDigits cs
    | cs => skipDigits cs
  | cs => .ok cs

/-- A fraction and an exponent, where they are. -/
def skipFraction : List Char → Except Stop (List Char)
  | '.' :: cs => do skipExponent (← skipDigits cs)
  | cs => skipExponent cs

/-- A number behind its sign. A zero in front ends its digits. -/
def skipNumber : List Char → Except Stop (List Char)
  | '0' :: cs => if startsWithDigit cs then stopBefore .badNumber cs else skipFraction cs
  | cs => do skipFraction (← skipDigits cs)

-- ================================================== strings

/-- What may follow a backslash, but for an escape by code. -/
def plainEscapes : List Char := ['"', '\\', '/', 'b', 'f', 'n', 'r', 't']

/-- A string behind its opening quote. -/
def skipString : List Char → Except Stop (List Char)
  | [] => stopAt .endInString []
  | '"' :: cs => .ok cs
  | ['\\'] => stopAt .endInString []
  | '\\' :: 'u' :: a :: b :: c :: d :: cs =>
    if [a, b, c, d].all fun x => (hexValue x).isSome then skipString cs
    else stopInHex (a :: b :: c :: d :: cs)
  | '\\' :: 'u' :: cs => stopInHex cs
  | '\\' :: c :: cs =>
    if plainEscapes.contains c then skipString cs else stopBefore .badEscape (c :: cs)
  | c :: cs => if c.toNat < 0x20 then stopAt .controlInString (c :: cs) else skipString cs

-- ================================================== values

/-- The text behind the quote that opens the next key. -/
def skipToKey (cs : List Char) : Except Stop (List Char) :=
  match skipSpace cs with
  | [] => stopBefore .endInObject []
  | '"' :: cs => .ok cs
  | cs => stopBefore .keyNotString cs

mutual

/-- A value. Every character costs at most two rounds, so twice the length of the text and two more
is fuel enough. -/
def skipValue : Nat → List Char → Except Stop (List Char)
  | 0, cs => stopBefore .endInValue cs
  | fuel + 1, cs =>
    match skipSpace cs with
    | [] => stopBefore .endInValue []
    | 'n' :: cs => readIdent ['u', 'l', 'l'] cs
    | 't' :: cs => readIdent ['r', 'u', 'e'] cs
    | 'f' :: cs => readIdent ['a', 'l', 's', 'e'] cs
    | '-' :: cs => skipNumber cs
    | '"' :: cs => skipString cs
    | '[' :: cs => skipItems true fuel cs
    | '\x7b' :: cs => skipFields true fuel cs
    | c :: cs => if c.isDigit then skipNumber (c :: cs) else stopBefore .noValue (c :: cs)

/-- The items of a list up to its bracket. -/
def skipItems (first : Bool) : Nat → List Char → Except Stop (List Char)
  | 0, cs => stopBefore .endInList cs
  | fuel + 1, cs =>
    match skipSpace cs with
    | [] => stopBefore .endInList []
    | ']' :: cs => .ok cs
    | c :: cs => do
      let cs ←
        if first then .ok (c :: cs)
        else if c = ',' then .ok cs
        else stopBefore .noListComma (c :: cs)
      skipItems false fuel (← skipValue fuel cs)

/-- The fields of an object up to its brace. -/
def skipFields (first : Bool) : Nat → List Char → Except Stop (List Char)
  | 0, cs => stopBefore .endInObject cs
  | fuel + 1, cs =>
    match skipSpace cs with
    | [] => stopBefore .endInObject []
    | '\x7d' :: cs => .ok cs
    | c :: cs => do
      let cs ←
        if first then .ok (c :: cs)
        else if c = ',' then .ok cs
        else stopBefore .noObjectComma (c :: cs)
      let cs ← readColon (← skipString (← skipToKey cs))
      skipFields false fuel (← skipValue fuel cs)

end

end ControlLoop.Json
