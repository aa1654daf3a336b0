/-
Looking at every object again, some time after the last look.

Some state shows in no event, so each object that was looked at is
queued for another look, one jittered period later; queueing it again
starts its wait anew. One loop owns the timers. It takes commands in
the order they were sent, and when the first timer is due it hands out
every key that is due at that moment. It stops when all who could send
commands are gone, when nobody takes the keys any more, or when a
deadline lies beyond the end of the clock.
-/
import ControlLoop.Duration
import ControlLoop.Object.Key
import ControlLoop.Timers.Heap

namespace ControlLoop

/-- What the loop is asked to do. -/
inductive Resync.Command where
  /-- Look at the object again after a period. -/
  | enqueue (key : Key)
  /-- Forget the object. -/
  | dequeue (key : Key)
  deriving DecidableEq

/-- The loop and its two channels. -/
structure Resync where
  timers : TimerHeap Key
  /-- Commands that were sent and not taken yet, oldest first. -/
  commands : List Resync.Command
  /-- Keys that were handed out and not received yet, oldest first. -/
  events : List Key
  /-- The loop still runs. -/
  running : Bool
  /-- Someone can still send commands. -/
  hasSender : Bool
  /-- Someone still takes the keys. -/
  hasReceiver : Bool

namespace Resync

def start : Resync := ⟨TimerHeap.empty, [], [], true, true, true⟩

/-- The last second of the clock. -/
def lastSecond : Nat := 0x7fffffffffffffff

/-- The instant a span after another, if the clock gets there. -/
def deadline? (now : Nat) (delay : Duration) : Option Nat :=
  let at_ := now + delay.toNanos
  if at_ / nanosPerSecond ≤ lastSecond then some at_ else none

-- ======================================================== steps

/-- Send a command; without a loop it is lost. -/
def send (r : Resync) (c : Command) : Resync :=
  if r.running && r.hasSender then { r with commands := r.commands ++ [c] } else r

/-- No more commands can come. -/
def dropSender (r : Resync) : Resync := { r with hasSender := false }

/-- Nobody takes the keys any more. -/
def dropReceiver (r : Resync) : Resync := { r with hasReceiver := false, events := [] }

/-- Carry out a command at an instant, the jittered period being `delay`. -/
def handle (r : Resync) (now : Nat) (delay : Option Duration) : Command → Resync
  | .enqueue key =>
    match delay.bind (deadline? now) with
    | some at_ => { r with timers := r.timers.push key at_ }
    | none => { r with running := false }
  | .dequeue key => { r with timers := (r.timers.remove key).2 }

/-- Hand out every key that is due; without a receiver the loop stops. -/
def fire (r : Resync) (now : Nat) : Resync :=
  let (keys, timers) := r.timers.popDue now
  if keys.isEmpty then r
  else if r.hasReceiver then { r with timers, events := r.events ++ keys }
  else { r with timers, running := false }

/-- Take the commands that were sent, and stop if no more can come. -/
def takeCommands (r : Resync) (now : Nat) (delay : Option Duration) : Resync :=
  let r := r.commands.foldl (fun r c => if r.running then r.handle now delay c else r)
    { r with commands := [] }
  if r.hasSender then r else { r with running := false }

/-- Let the loop do everything it can do at an instant. -/
def settle (r : Resync) (now : Nat) (delay : Option Duration) : Resync :=
  if r.running then
    let r := r.takeCommands now delay
    if r.running then r.fire now else r
  else r

/-- Fire the timers that become due, each at its instant, up to and including an instant. Every
round takes a timer out, so as many rounds as there are timers are enough. -/
def fireUntil (r : Resync) (until_ : Nat) : Nat → Resync
  | 0 => r
  | rounds + 1 =>
    match r.timers.firstDeadline? with
    | some at_ =>
      if r.running && at_ ≤ until_ then (r.fire at_).fireUntil until_ rounds else r
    | none => r

/-- Let the time pass from one instant to another. -/
def advance (r : Resync) (now until_ : Nat) (delay : Option Duration) : Resync :=
  let r := r.settle now delay
  r.fireUntil until_ r.timers.size

/-- The keys handed out, and whether no more can come. -/
def receive (r : Resync) : (List Key × Bool) × Resync :=
  if r.hasReceiver then ((r.events, !r.running), { r with events := [] })
  else (([], true), r)

end Resync

end ControlLoop
