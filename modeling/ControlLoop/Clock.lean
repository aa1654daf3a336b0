/-
A clock that never shows the same time twice.

What is written at a time is compared with what is stored, so two
readings must differ even where they are taken in one second. A reading
is the second of the clock, with a fraction that grows from reading to
reading, and an offset from universal time, by which it is told apart
from a stored moment.
-/
import ControlLoop.Timestamp

namespace ControlLoop

/-- A clock, by its second and by how often it was read. -/
structure Clock where
  second : Timestamp
  readings : Nat

namespace Clock

/-- A clock that was not read yet. -/
def start (second : Timestamp) : Clock := ⟨second, 0⟩

/-- The digits in which a fraction is written, unless it needs more. -/
def fractionWidth : Nat := 9

/-- The offset of universal time. -/
def offsetText : String := "+00:00"

/-- The time that the clock shows. -/
def text (c : Clock) : String :=
  c.second.timeText ++ ("." ++ (Timestamp.padded fractionWidth c.readings ++ offsetText))

/-- Read the clock. -/
def read (c : Clock) : String × Clock := (c.text, { c with readings := c.readings + 1 })

/-- The form of a date and a time. A zero stands for any digit. -/
def form : List Char := "0000-00-00T00:00:00".toList

/-- What a character is in the form. -/
def formOf (c : Char) : Char := if c.isDigit then '0' else if Timestamp.isGap c then 'T' else c

/-- Whether a text has the form of a reading: a moment in which no digit is left out, perhaps with a
fraction of its second, in universal time. -/
def isReading (s : String) : Bool :=
  let cs := s.toList
  let rest := match cs.drop form.length with
    | '.' :: cs => cs.dropWhile Char.isDigit
    | cs => cs
  (cs.take form.length).map formOf == form && rest == offsetText.toList
    && (Timestamp.parse s).toBool

end Clock

end ControlLoop
