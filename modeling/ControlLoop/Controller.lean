/-
A controller: what is checked before it starts, and how each of its
passes is watched over.

A pass has a deadline. Whatever it comes to is recorded under one word,
and the object goes back on the resync timer, or off it if it is going
away. After an error the object is looked at again soon, or less soon
where nothing is likely to have changed.
-/
import ControlLoop.Config
import ControlLoop.Object.Metadata
import ControlLoop.Outcome
import ControlLoop.Resync

namespace ControlLoop.Controller

-- ======================================================== starting

/-- How the start of a controller went. -/
structure Startup where
  /-- The settings were fit for use, and the controller was set up with them. -/
  configured : Bool
  /-- Why it does not run. -/
  refusal : Option Error

/-- Start a controller for some time: its settings are checked first, and then whether the server
knows its kind. The server takes a moment to answer, so without any time no answer is seen. -/
def start (config : Config) (kind : String) (available : Except ClientError Unit)
    (span : Duration) : Startup :=
  match config.validate with
  | .error e => ⟨false, some e⟩
  | .ok () =>
    match available with
    | .error cause => ⟨true, if span.isZero then none else some (Error.ofClient cause kind)⟩
    | .ok () => ⟨true, none⟩

-- ========================================================== passes

/-- A pass, if nothing stops it: how long it takes and what it comes to. -/
structure Pass where
  takes : Duration
  result : Except Error Action

/-- What is known of a pass when it is over. -/
structure Report where
  result : Except Error Action
  took : Duration
  /-- What is said to the resync loop. -/
  command : Resync.Command

/-- The word under which a pass is counted. -/
def Report.label (r : Report) : String :=
  match r.result with
  | .ok _ => "success"
  | .error e => e.label

/-- What is said to the resync loop after a pass over an object. -/
def resyncCommand (m : Metadata) : Resync.Command :=
  if m.isTerminating then .dequeue m.key else .enqueue m.key

/-- Run a pass over an object up to a deadline. A pass that ends on the tick of the deadline is
in time. -/
def supervise (timeout : Duration) (m : Metadata) (pass : Pass) : Report :=
  if pass.takes.waitMillis ≤ timeout.waitMillis then
    ⟨pass.result, Duration.ofMillis pass.takes.waitMillis, resyncCommand m⟩
  else ⟨.error (.timeout timeout), Duration.ofMillis timeout.waitMillis, resyncCommand m⟩

/-- How soon to look again after an error that may mend itself. -/
def retryDelay : Duration := Duration.ofSeconds 15

/-- How soon to look again after any other error. -/
def errorDelay : Duration := Duration.ofSeconds 60

/-- What follows an error. -/
def errorPolicy (e : Error) : Action := .requeue (if e.isRetriable then retryDelay else errorDelay)

/-- What follows a pass. -/
def Report.action (r : Report) : Action :=
  match r.result with
  | .ok action => action
  | .error e => errorPolicy e

end ControlLoop.Controller
