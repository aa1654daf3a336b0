/-
Spans of time, to the nanosecond.

A span holds whole seconds of 64 bits and a fraction of a second, so
there is a longest one.
-/
import ControlLoop.Number.Binary

namespace ControlLoop

/-- Nanoseconds in a second. -/
def nanosPerSecond : Nat := 1000000000

/-- A span of time. -/
structure Duration where
  seconds : Nat
  nanos : Nat
  deriving DecidableEq, Repr, Inhabited

namespace Duration

def ofSeconds (n : Nat) : Duration := ⟨n, 0⟩

def zero : Duration := ⟨0, 0⟩

def isZero (d : Duration) : Bool := d.seconds = 0 && d.nanos = 0

/-- The span in nanoseconds. -/
def toNanos (d : Duration) : Nat := d.seconds * nanosPerSecond + d.nanos

def ofNanos (n : Nat) : Duration := ⟨n / nanosPerSecond, n % nanosPerSecond⟩

/-- Nanoseconds in a millisecond. -/
def nanosPerMilli : Nat := 1000000

def ofMillis (n : Nat) : Duration := ofNanos (n * nanosPerMilli)

/-- How long a wait for the span takes: the clock ticks once in a millisecond, and a wait ends at
the first tick that is not too early. -/
def waitMillis (d : Duration) : Nat := (d.toNanos + (nanosPerMilli - 1)) / nanosPerMilli

/-- The most seconds a span can hold. -/
def maxSeconds : Nat := 0xffffffffffffffff

/-- A span of so many nanoseconds, if it is not too long. -/
def ofNanos? (n : Nat) : Option Duration :=
  if n / nanosPerSecond ≤ maxSeconds then some (ofNanos n) else none

/-- Shorter spans first. -/
def le (d e : Duration) : Bool :=
  d.seconds < e.seconds || (d.seconds = e.seconds && d.nanos ≤ e.nanos)

/-- The shorter of two spans. -/
def min (d e : Duration) : Duration := if d.le e then d else e

/-- The seconds as a floating number: whole seconds and fraction are rounded apart and added. -/
def toBinary (d : Duration) : Option Number.Binary := do
  let whole ← Number.Binary.ofNat Number.binary64 d.seconds
  let nanos ← Number.Binary.ofNat Number.binary64 d.nanos
  let billion ← Number.Binary.ofNat Number.binary64 nanosPerSecond
  let fraction ← nanos.div Number.binary64 billion
  whole.add Number.binary64 fraction

/-- The digits of a fraction of so many places, less the zeros at its end. -/
def fractionDigits (n places : Nat) : List Char :=
  let digits := Nat.toDigits 10 n
  let padded := List.replicate (places - digits.length) '0' ++ digits
  (padded.reverse.dropWhile (· = '0')).reverse

/-- A whole number and a fraction of so many places, with a unit. -/
def decimalText (whole fraction places : Nat) (unit : String) : String :=
  let point := if fraction = 0 then [] else '.' :: fractionDigits fraction places
  toString whole ++ String.ofList point ++ unit

/-- The span in the largest unit that it fills, exactly. -/
def text (d : Duration) : String :=
  if 0 < d.seconds then decimalText d.seconds d.nanos 9 "s"
  else if 1000000 ≤ d.nanos then decimalText (d.nanos / 1000000) (d.nanos % 1000000) 6 "ms"
  else if 1000 ≤ d.nanos then decimalText (d.nanos / 1000) (d.nanos % 1000) 3 "µs"
  else decimalText d.nanos 0 0 "ns"

end Duration

end ControlLoop
