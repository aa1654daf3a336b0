/-
Moments on the calendar, to the second, in universal time.

A moment is written as a date, a time and an offset from universal
time. Reading is more tolerant than writing: blanks may stand before
numbers and marks, leading zeros may be missing, a space may part date
and time, and a fraction of a second is passed over.
-/
import ControlLoop.Text.Blank

namespace ControlLoop

/-- A second of a day. A leap second is the second number sixty of its minute. -/
structure Timestamp where
  year : Int
  month : Nat
  day : Nat
  hour : Nat
  minute : Nat
  second : Nat
  deriving DecidableEq, Repr

namespace Timestamp

-- ====================================================== calendar

/-- The years that are kept. -/
def inCalendar (year : Int) : Bool := -262143 ≤ year && year ≤ 262142

def isLeapYear (year : Int) : Bool := year % 4 = 0 && (year % 100 ≠ 0 || year % 400 = 0)

/-- The days of a month; none for a number that is no month. -/
def daysIn (year : Int) (month : Nat) : Nat :=
  if month = 2 then (if isLeapYear year then 29 else 28)
  else if month ∈ [4, 6, 9, 11] then 30
  else if 1 ≤ month ∧ month ≤ 12 then 31
  else 0

/-- The same time a day before. -/
def dayBefore (t : Timestamp) : Timestamp :=
  if 1 < t.day then { t with day := t.day - 1 }
  else if 1 < t.month then { t with month := t.month - 1, day := daysIn t.year (t.month - 1) }
  else { t with year := t.year - 1, month := 12, day := 31 }

/-- The same time a day after. -/
def dayAfter (t : Timestamp) : Timestamp :=
  if t.day < daysIn t.year t.month then { t with day := t.day + 1 }
  else if t.month < 12 then { t with month := t.month + 1, day := 1 }
  else { t with year := t.year + 1, month := 1, day := 1 }

def minutesPerDay : Int := 1440

/-- Move by less than a day, given in minutes. -/
def addMinutes (t : Timestamp) (minutes : Int) : Timestamp :=
  let total := 60 * (t.hour : Int) + t.minute + minutes
  let (t, total) :=
    if total < 0 then (t.dayBefore, total + minutesPerDay)
    else if minutesPerDay ≤ total then (t.dayAfter, total - minutesPerDay)
    else (t, total)
  { t with hour := (total / 60).toNat, minute := (total % 60).toNat }

-- ======================================================= writing

/-- A number in at least so many digits. -/
def padded (width n : Nat) : String :=
  let digits := Nat.toDigits 10 n
  String.ofList (List.replicate (width - digits.length) '0' ++ digits)

/-- Four digits, and a sign outside of the years that have four. -/
def yearText (year : Int) : String :=
  let digits := padded 4 year.natAbs
  if year < 0 then "-" ++ digits else if 9999 < year then "+" ++ digits else digits

/-- Padding hides no number. -/
theorem padded_inj {width m n : Nat} (h : padded width m = padded width n) : m = n := by
  have value (k n : Nat) :
      Nat.ofDigitChars 10 (List.replicate k '0' ++ Nat.toDigits 10 n) 0 = n := by
    induction k with
    | zero => exact Nat.ofDigitChars_toDigits (by omega) (by omega)
    | succ k ih => simpa [List.replicate_succ, Nat.ofDigitChars_cons] using ih
  have h := congrArg (Nat.ofDigitChars 10 · 0) (String.ofList_inj.1 h)
  simpa only [value] using h

/-- The date and the time of a moment. -/
def timeText (t : Timestamp) : String :=
  let two := padded 2
  s!"{yearText t.year}-{two t.month}-{two t.day}T{two t.hour}:{two t.minute}:{two t.second}"

/-- The text of a moment, in universal time. -/
def text (t : Timestamp) : String := t.timeText ++ "Z"

-- ======================================================= reading

/-- Why a text is no moment. -/
inductive Fault where
  /-- A number is too large or too small for its place. -/
  | outOfRange
  /-- The moment lies outside of the calendar in universal time. -/
  | impossible
  | invalid
  | tooShort
  | tooLong
  deriving DecidableEq, Repr

def Fault.message : Fault → String
  | .outOfRange => "input is out of range"
  | .impossible => "no possible date and time matching input"
  | .invalid => "input contains invalid characters"
  | .tooShort => "premature end of input"
  | .tooLong => "trailing input"

def skipBlank (cs : List Char) : List Char := cs.dropWhile Text.isBlank

/-- What stands for something else in front of a text. -/
def unexpected : List Char → Fault
  | [] => .tooShort
  | _ => .invalid

/-- The end of the numbers that can be read. -/
def numberBound : Nat := 0x8000000000000000

/-- At least one digit and at most so many, as a number. -/
def readDigits (most : Nat) (cs : List Char) : Except Fault (Nat × List Char) :=
  let digits := (cs.takeWhile Char.isDigit).take most
  let n := digits.foldl (fun n c => 10 * n + (c.toNat - '0'.toNat)) 0
  if digits.isEmpty then .error (unexpected cs)
  else if n < numberBound then .ok (n, cs.drop digits.length)
  else .error .outOfRange

/-- A number of at most two digits in a range. -/
def readPart (least most : Nat) (cs : List Char) : Except Fault (Nat × List Char) := do
  let (n, cs) ← readDigits 2 (skipBlank cs)
  if least ≤ n ∧ n ≤ most then .ok (n, cs) else .error .outOfRange

/-- The end of the years that can be read. -/
def yearBound : Int := 0x80000000

/-- A year: up to four digits, or any number of them behind a sign. -/
def readYear (cs : List Char) : Except Fault (Int × List Char) := do
  let (year, cs) ← match skipBlank cs with
    | '-' :: cs => (readDigits cs.length cs).map fun (n, cs) => (-(n : Int), cs)
    | '+' :: cs => (readDigits cs.length cs).map fun (n, cs) => ((n : Int), cs)
    | cs => (readDigits 4 cs).map fun (n, cs) => ((n : Int), cs)
  if -yearBound ≤ year ∧ year < yearBound then .ok (year, cs) else .error .outOfRange

/-- A mark, with blanks before it. -/
def readMark (mark : Char) (cs : List Char) : Except Fault (List Char) :=
  let cs := skipBlank cs
  if cs.head? = some mark then .ok cs.tail else .error (unexpected cs)

/-- What may part date and time. -/
def isGap (c : Char) : Bool := c = 'T' || c = 't' || c = ' '

def readGap (cs : List Char) : Except Fault (List Char) :=
  if cs.head?.any isGap then .ok cs.tail else .error (unexpected cs)

/-- The fraction of a second, if there is one. -/
def skipFraction : List Char → Except Fault (List Char)
  | '.' :: cs => (readDigits 1 cs).map fun (_, cs) => cs.dropWhile Char.isDigit
  | cs => .ok cs

/-- Two digits with nothing before them. A text of less than two bytes is too short. -/
def readPair (cs : List Char) : Except Fault (Nat × List Char) :=
  match cs with
  | a :: b :: rest =>
    if a.isDigit && b.isDigit then (readDigits 2 [a, b]).map fun (n, _) => (n, rest)
    else .error .invalid
  | cs => .error (if (String.ofList cs).utf8ByteSize < 2 then .tooShort else .invalid)

/-- Hours and minutes of an offset, in minutes. -/
def readShift (cs : List Char) : Except Fault (Int × List Char) := do
  let (hours, cs) ← readPair cs
  let (minutes, cs) ← readPair (cs.dropWhile fun c => c = ':' || Text.isBlank c)
  if minutes < 60 then .ok (60 * hours + minutes, cs) else .error .outOfRange

/-- An offset from universal time, in minutes. -/
def readOffset (cs : List Char) : Except Fault (Int × List Char) :=
  match cs with
  | 'Z' :: cs | 'z' :: cs => .ok (0, cs)
  | '+' :: cs => readShift cs
  | '-' :: cs | '−' :: cs => (readShift cs).map fun (n, cs) => (-n, cs)
  | cs =>
    if (cs.take 3).map Char.toUpper = ['U', 'T', 'C'] then .ok (0, cs.drop 3)
    else .error (unexpected cs)

/-- Read a moment that fills a text up to the blanks at its end. -/
def ofChars (cs : List Char) : Except Fault Timestamp := do
  let (year, cs) ← readYear cs
  let (month, cs) ← readPart 1 12 (← readMark '-' cs)
  let (day, cs) ← readPart 1 31 (← readMark '-' cs)
  let (hour, cs) ← readPart 0 23 (← readGap cs)
  let (minute, cs) ← readPart 0 59 (← readMark ':' cs)
  let (second, cs) ← readPart 0 60 (← readMark ':' cs)
  let (offset, cs) ← readOffset (skipBlank (← skipFraction cs))
  let t := (Timestamp.mk year month day hour minute second).addMinutes (-offset)
  if !(skipBlank cs).isEmpty then .error .tooLong
  else if !inCalendar year || daysIn year month < day || 1440 ≤ offset.natAbs then
    .error .outOfRange
  else if inCalendar t.year then .ok t
  else .error .impossible

/-- Read a moment. -/
def parse (s : String) : Except Fault Timestamp := ofChars s.toList

end Timestamp

end ControlLoop
