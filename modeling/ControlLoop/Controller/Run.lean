/-
A controller with one object, on a clock that ticks in milliseconds.

The first pass begins at once. A pass begins again when the delay that
the last one asked for is over, or when the resync timer fires,
whichever comes first; on one tick the delay comes first. A timer that
fires during a pass counts when the pass ends, and a new one begins at
once. The run stops at a given tick: a pass may still begin there, but
not one for the timer, and no pass that ends there is reported.
-/
import ControlLoop.Controller

namespace ControlLoop.Controller

open Duration (nanosPerMilli)

/-- Where a run stands. -/
structure Run where
  /-- The keys that the resync timer hands out lead to the object. -/
  reachable : Bool
  resync : Resync
  /-- The tick up to which the run has come. -/
  clock : Nat
  /-- The tick at which the next pass begins, unless the resync timer fires before. -/
  due : Option Nat
  /-- The ticks at which passes began, oldest first. -/
  starts : List Nat
  /-- The passes that are over, oldest first. -/
  reports : List Report

namespace Run

/-- Nothing has happened yet to an object, and the first pass is due. -/
def fresh (m : Metadata) : Run := ⟨m.isFoundByKey, Resync.start, 0, some 0, [], []⟩

/-- The first tick not before an instant. -/
def tickOf (nanos : Nat) : Nat := (nanos + (nanosPerMilli - 1)) / nanosPerMilli

/-- The tick at which the resync timer fires for the object. -/
def resyncTick? (r : Run) : Option Nat :=
  if r.reachable && r.resync.running then r.resync.timers.firstDeadline?.map tickOf else none

/-- What makes a pass begin, and when. -/
inductive Cue where
  /-- The delay that the last pass asked for is over. -/
  | delay (tick : Nat)
  /-- The resync timer fires. -/
  | timer (tick : Nat)

/-- The cue for the next pass of a run that stops at a tick. -/
def nextCue? (last : Nat) (r : Run) : Option Cue :=
  let timer := (r.resyncTick?.filter (· < last)).map Cue.timer
  match r.due with
  | none => timer
  | some due =>
    if r.resyncTick?.any (· < due) then timer
    else if due ≤ last then some (.delay due)
    else none

/-- Let the time pass up to a tick: whether the resync timer fired for the object, and the
run. -/
def advance (delay : Option Duration) (tick : Nat) (r : Run) : Bool × Run :=
  let ((keys, _), resync) :=
    (r.resync.advance (r.clock * nanosPerMilli) (tick * nanosPerMilli) delay).receive
  (r.reachable && !keys.isEmpty, { r with resync, clock := tick })

/-- Begin a pass: the tick, and the run. A timer that makes it begin has fired by then. -/
def begin (delay : Option Duration) (r : Run) : Cue → Nat × Run
  | .delay tick => (tick, { r with due := none, starts := r.starts ++ [tick] })
  | .timer tick =>
    let r := (r.advance delay tick).2
    (tick, { r with due := none, starts := r.starts ++ [tick] })

/-- The tick at which the next pass is due after one that ended. -/
def dueAfter (tick : Nat) : Action → Option Nat
  | .requeue wait => some (tick + wait.waitMillis)
  | .awaitChange => none

/-- End a pass. -/
def finish (delay : Option Duration) (tick : Nat) (report : Report) (r : Run) : Run :=
  let (fired, r) := r.advance delay tick
  { r with
    resync := (r.resync.send report.command).settle (tick * nanosPerMilli) delay
    due := if fired then some tick else dueAfter tick report.action
    reports := r.reports ++ [report] }

/-- Make passes as they fall due, one after the other, the last of the list again and again. The
number bounds how many are made. -/
def passes (config : Config) (m : Metadata) (delay : Option Duration) (last : Nat) :
    Nat → List Pass → Run → Run
  | 0, _, r => r
  | _, [], r => r
  | bound + 1, pass :: rest, r =>
    match r.nextCue? last with
    | none => r
    | some cue =>
      let report := supervise config.reconcileTimeout m pass
      let (tick, r) := r.begin delay cue
      let endTick := tick + report.took.waitMillis
      if last ≤ endTick then r
      else
        passes config m delay last bound (if rest.isEmpty then [pass] else rest)
          (r.finish delay endTick report)

end Run

/-- The course of a controller for some time, the jittered resync period being `delay`; a
controller whose start was refused does nothing, and nothing happens in no time. Every pass of the
list but the last may take no time; that the last one and its delay together take a tick, and that
the timer adds at most one pass to a tick, bounds the number of passes. -/
def Startup.run (startup : Startup) (config : Config) (m : Metadata) (delay : Option Duration)
    (span : Duration) (passes : List Pass) : Run :=
  if startup.refusal.isSome || span.isZero then Run.fresh m
  else
    (Run.fresh m).passes config m delay span.waitMillis
      (passes.length + 2 * span.waitMillis + 2) passes

end ControlLoop.Controller
