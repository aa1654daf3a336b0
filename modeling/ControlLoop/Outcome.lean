/-
The outcome of a pass, and how the outcomes of its steps add up.

The steps of a pass are independent: all of them run, the first error
is kept, a wish to come back at once wins over every delay, and of two
delays the shorter one counts.
-/
import ControlLoop.Error

namespace ControlLoop

/-- How a pass, or a step of one, went. -/
structure Outcome where
  error : Option Error
  /-- Come back at once. -/
  requeueNow : Bool
  /-- Come back after a delay. -/
  requeueAfter : Option Duration

/-- When an object is looked at again without an event. -/
inductive Action where
  | requeue (after : Duration)
  | awaitChange
  deriving DecidableEq, Repr

def Action.text : Action → String
  | .requeue after => "Action \x7b requeue_after: Some(" ++ after.text ++ ") \x7d"
  | .awaitChange => "Action \x7b requeue_after: None \x7d"

namespace Outcome

/-- Done, with nothing to come back for. -/
def ok : Outcome := ⟨none, false, none⟩

instance : Inhabited Outcome := ⟨ok⟩

def ofError (e : Error) : Outcome := ⟨some e, false, none⟩

def now : Outcome := ⟨none, true, none⟩

def after (delay : Duration) : Outcome := ⟨none, false, some delay⟩

/-- A step that yields nothing but success or an error. -/
def ofExcept : Except Error Unit → Outcome
  | .ok () => ok
  | .error e => ofError e

/-- The shorter of two delays that may be missing. -/
def shorterDelay : Option Duration → Option Duration → Option Duration
  | some a, some b => some (a.min b)
  | some a, none => some a
  | none, b => b

/-- The outcome of two steps, the first one first. -/
def merge (a b : Outcome) : Outcome :=
  let requeueNow := a.requeueNow || b.requeueNow
  { error := a.error <|> b.error
    requeueNow
    requeueAfter :=
      if requeueNow then none else shorterDelay a.requeueAfter b.requeueAfter }

/-- Keep an error, unless there is an earlier one. -/
def mergeError (a : Outcome) (e : Error) : Outcome := { a with error := a.error <|> some e }

/-- The outcome of many steps. -/
def mergeAll (outcomes : List Outcome) : Outcome := outcomes.foldl merge ok

def isOk (a : Outcome) : Bool := a.error.isNone

/-- What the outcome asks of the loop that runs the passes. -/
def action (a : Outcome) : Except Error Action :=
  match a.error with
  | some e => .error e
  | none =>
    if a.requeueNow then .ok (.requeue Duration.zero)
    else
      match a.requeueAfter with
      | some delay => .ok (.requeue delay)
      | none => .ok .awaitChange

end Outcome

end ControlLoop
