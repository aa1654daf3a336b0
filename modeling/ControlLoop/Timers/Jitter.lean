/-
Spreading timers out: a period is stretched or shrunk by a factor drawn
evenly from three quarters up to, not including, five quarters.

A draw takes random words of 64 bits until one gives a factor below the
end; only rounding can bring a factor up to it. The product with the
period may be longer than any span of time.
-/
import ControlLoop.Duration

namespace ControlLoop.Timers

open Number (Binary binary64)

/-- The factor that a random word stands for: its upper 52 bits as a fraction of the range. -/
def factorOf (word : Nat) : Option Binary :=
  binary64.round false (word / Nat.pow 2 12 + 3 * Nat.pow 2 51) (Nat.pow 2 53)

/-- The end of the range of factors. -/
def factorEnd : Binary := ⟨false, 5 * Nat.pow 2 50, -52⟩

/-- The factor of a word, unless the word must be drawn again. -/
def accepted? (word : Nat) : Option Binary :=
  (factorOf word).filter fun x => x.cmp factorEnd = .lt

/-- The factor of the word zero. -/
def leastFactor : Binary := ⟨false, 3 * Nat.pow 2 51, -53⟩

/-- Draw a factor from a list of words, followed by zeros for ever. The number tells how many
words were taken. -/
def drawFactor (taken : Nat) : List Nat → Binary × Nat
  | [] => (leastFactor, taken + 1)
  | word :: words =>
    (accepted? word).elim (drawFactor (taken + 1) words) fun x => (x, taken + 1)

/-- A span of so many seconds, rounded to the nanosecond, if it is not too long. -/
def durationOf (seconds : Binary) : Option Duration :=
  let (n, d) := seconds.ratio
  Duration.ofNanos? (Number.roundDiv (n * nanosPerSecond) d)

/-- A period scaled by a factor. -/
def scaled (period : Duration) (factor : Binary) : Option Duration := do
  let seconds ← period.toBinary
  durationOf (← factor.mul binary64 seconds)

/-- A period scaled by a factor drawn from words, and how many words that took. -/
def jittered (period : Duration) (words : List Nat) : Option Duration × Nat :=
  let (factor, taken) := drawFactor 0 words
  (scaled period factor, taken)

end ControlLoop.Timers
