/-
The settings of a controller: their defaults, what makes them
unusable, and the short form in which spans of time are given.
-/
import ControlLoop.Error
import ControlLoop.Text.Blank

namespace ControlLoop

inductive LogFormat where
  | text
  | json
  deriving DecidableEq, Repr

/-- The settings of a controller. -/
structure Config where
  /-- The most objects that are reconciled at the same time. -/
  maxConcurrent : Nat
  /-- How often an object is looked at again without an event. -/
  resyncPeriod : Duration
  /-- How long a pass may take. -/
  reconcileTimeout : Duration
  /-- The name under which writes are recorded. -/
  fieldManager : String
  logFormat : LogFormat
  deriving DecidableEq

namespace Config

/-- The settings without any flag. -/
def default : Config :=
  ⟨10, Duration.ofSeconds 600, Duration.ofSeconds 120, "dbcluster-operator", .text⟩

/-- Why settings cannot be used. -/
inductive Invalid where
  | noConcurrency
  | noResyncPeriod
  | noTimeout
  | noFieldManager
  deriving DecidableEq, Repr

def Invalid.message : Invalid → String
  | .noConcurrency => "max-concurrent-reconciles must be at least 1"
  | .noResyncPeriod => "resync-period must be positive"
  | .noTimeout => "reconcile-timeout must be positive"
  | .noFieldManager => "field-manager must not be empty"

/-- The first reason why settings cannot be used. -/
def invalid? (c : Config) : Option Invalid :=
  if c.maxConcurrent = 0 then some .noConcurrency
  else if c.resyncPeriod.isZero then some .noResyncPeriod
  else if c.reconcileTimeout.isZero then some .noTimeout
  else if c.fieldManager.isEmpty then some .noFieldManager
  else none

/-- Refuse settings that cannot be used. -/
def validate (c : Config) : Except Error Unit :=
  match c.invalid? with
  | some reason => .error (.config reason.message)
  | none => .ok ()

end Config

-- ================================================ spans of time

namespace Duration

/-- Why a text is no span of time. -/
inductive Unparsed where
  /-- There is no number in front, or it is too large. -/
  | badNumber (value : String)
  | unknownUnit (unit value : String)
  deriving DecidableEq, Repr

def Unparsed.message : Unparsed → String
  | .badNumber value => "invalid duration " ++ Text.quoted value
  | .unknownUnit unit value =>
    "unknown duration unit " ++ Text.quoted unit ++ " in " ++ Text.quoted value

/-- The value of decimal digits. -/
def digitsValue (digits : List Char) : Nat :=
  digits.foldl (fun n c => 10 * n + (c.toNat - '0'.toNat)) 0

/-- How many seconds a unit has. A number without a unit counts seconds. -/
def unitSeconds? (unit : List Char) : Option Nat :=
  if unit = [] ∨ unit = ['s'] then some 1
  else if unit = ['m'] then some 60
  else if unit = ['h'] then some 3600
  else none

/-- Read digits and a unit: `90`, `90s`, `5m` or `1h`. White space around them is passed over,
and a product that is too large counts as the longest span. -/
def parse (s : String) : Except Unparsed Duration :=
  let cs := Text.trimBlank s.toList
  let digits := cs.takeWhile Char.isDigit
  let unit := cs.dropWhile Char.isDigit
  if digits = [] ∨ maxSeconds < digitsValue digits then .error (.badNumber (String.ofList cs))
  else
    match unitSeconds? unit with
    | none => .error (.unknownUnit (String.ofList unit) (String.ofList cs))
    | some seconds => .ok (ofSeconds (Nat.min (digitsValue digits * seconds) maxSeconds))

end Duration

end ControlLoop
