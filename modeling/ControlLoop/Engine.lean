/-
Bringing the children of a parent to what is wanted.

For every key that is wanted or taken by a child, the engine creates,
updates, schedules a disruptive update, recreates or turns down. The
children of a parent are the objects in its namespace that it owns and
that carry every label of the selector; nothing else is touched.

Keys are handled in order and apart from each other: a failure at one
key never stops the next, and the first hard error is what the pass
reports. An object that was not there or a write that lost a race means
that someone else was faster, and the pass comes back soon.
-/
import ControlLoop.Engine.Change
import ControlLoop.Object.Ownership
import ControlLoop.Outcome
import ControlLoop.Rollout
import ControlLoop.Strategy

namespace ControlLoop

/-- What is counted of a pass. -/
inductive ChildOperation where
  | create
  | update
  /-- A disruptive change was found and waits to be released. -/
  | schedule
  /-- A child was deleted to be created anew. -/
  | recreate
  | delete
  /-- A child was kept from going. -/
  | orphan
  deriving DecidableEq, Repr

def ChildOperation.text : ChildOperation → String
  | .create => "create"
  | .update => "update"
  | .schedule => "schedule"
  | .recreate => "recreate"
  | .delete => "delete"
  | .orphan => "orphan"

/-- What a pass changes: the store, the state of the strategy, and the counted operations. -/
structure PassState (σ τ : Type) where
  store : σ
  strategy : τ
  /-- Oldest first. -/
  operations : List ChildOperation

/-- Whose children are reconciled, where they are stored, and what they should be. -/
structure Reconciler (σ τ β : Type) where
  store : Store σ β
  strategy : Strategy τ β
  parent : Parent
  selector : TextMap

/-- What an update of a child comes to. -/
inductive UpdatePlan (β : Type) where
  /-- Delete it, so that it is created anew. -/
  | recreate
  /-- Store this instead, unless nothing differs. The flag tells whether a disruptive change was
  found that is not scheduled yet, or is scheduled with another description. -/
  | write (next : Object β) (schedules : Bool)

namespace Reconciler

/-- How long to wait for a deleted child to be gone. -/
def recreateDelay : Duration := Duration.ofSeconds 5

/-- How soon to come back after losing a race. -/
def conflictDelay : Duration := Duration.ofSeconds 5

/-- The outcome of a call that failed. -/
def failure (e : Error) : Outcome :=
  if e.isNotFound || e.isConflict then .after conflictDelay else .ofError e

variable {σ τ β : Type}

/-- Whether an object is one of the children. -/
def selects (r : Reconciler σ τ β) (o : Object β) : Bool :=
  r.parent.owns o.metadata && o.metadata.matchesLabels r.selector

-- ============================================== bookkeeping

def record (op : ChildOperation) (s : PassState σ τ) : PassState σ τ :=
  { s with operations := s.operations ++ [op] }

/-- Show an object to the strategy. -/
def observe (r : Reconciler σ τ β) (k : Key) (o : Object β) (s : PassState σ τ) :
    PassState σ τ :=
  { s with strategy := r.strategy.status k o s.strategy }

-- =================================================== creating

/-- An object under a key, with the labels of the selector and the owner. -/
def claimed (r : Reconciler σ τ β) (k : Key) (o : Object β) : Object β :=
  o.modifyMetadata fun m =>
    r.parent.adopt
      ({ m with name := some k.name, space := some k.space }.addLabels r.selector)

/-- The name is taken. By a child: someone else created it, and all is well soon. By anything
else: the name will not become free by itself. -/
def createConflict (r : Reconciler σ τ β) (k : Key) (e : Error) (s : PassState σ τ) :
    Outcome × PassState σ τ :=
  match r.store.get k s.store with
  | (.ok (some holder), st) =>
    if r.selects holder then (failure e, { s with store := st })
    else
      (.ofError (.conflict
          s!"{k.text}: name taken by an object not owned by {r.parent.name}"),
        { s with store := st })
  | (.ok none, st) => (failure e, { s with store := st })
  | (.error e', st) => (failure e', { s with store := st })

def create (r : Reconciler σ τ β) (k : Key) (s : PassState σ τ) : Outcome × PassState σ τ :=
  let (o, t) := r.strategy.newObject k s.strategy
  let s := { s with strategy := t }
  match r.store.create (r.claimed k o) s.store with
  | (.ok created, st) =>
    (.ok, r.observe k created (record .create { s with store := st }))
  | (.error e, st) =>
    if e.isConflict then r.createConflict k e { s with store := st }
    else (failure e, { s with store := st })

-- =================================================== deleting

/-- Show a child for the last time and delete it: what is counted if this succeeds, and what comes
of it. -/
def remove (r : Reconciler σ τ β) (op : ChildOperation) (done : Outcome) (k : Key)
    (current : Object β) (s : PassState σ τ) : Outcome × PassState σ τ :=
  let s := r.observe k current s
  match r.store.delete k (r.strategy.propagation s.strategy) s.store with
  | (.ok (), st) => (done, record op { s with store := st })
  | (.error e, st) => (failure e, { s with store := st })

-- =================================================== updating

/-- An object with no change pending. -/
def unflagged (o : Object β) : Object β :=
  o.modifyMetadata fun m => Rollout.unrelease (Rollout.unschedule m)

/-- What becomes of a child, given its next state without and with the disruptive changes: those
wait until the child is released. -/
def planFor [DecidableEq β] [Resource β] (mode : UpdateMode) (current next rolled : Object β) :
    UpdatePlan β :=
  if rolled = next then .write (unflagged next) false
  else if Rollout.isReleased current.metadata then
    match mode with
    | .recreate => .recreate
    | .inPlace => .write (unflagged rolled) false
  else
    let description := Change.describe next.toJson rolled.toJson
    .write (next.modifyMetadata (Rollout.schedule description))
      (current.metadata.annotation? Rollout.scheduledMark != some description)

/-- What becomes of a child: the strategy changes it, first in ways that disturb nobody. -/
def plan [DecidableEq β] [Resource β] (r : Reconciler σ τ β) (k : Key) (current : Object β)
    (t : τ) : UpdatePlan β × τ :=
  let (next, t) := r.strategy.updateInPlace k current t
  let mode := r.strategy.updateMode t
  let (rolled, t) := r.strategy.roll mode k next t
  (planFor mode current next rolled, t)

/-- Delete a child so that a later pass creates it anew. -/
def recreate (r : Reconciler σ τ β) : Key → Object β → PassState σ τ → Outcome × PassState σ τ :=
  r.remove .recreate (.after recreateDelay)

/-- Store the next state of a child, if it differs from the current one. -/
def write [DecidableEq β] (r : Reconciler σ τ β) (k : Key) (current next : Object β)
    (s : PassState σ τ) : Outcome × PassState σ τ :=
  if next = current then (.ok, r.observe k current s)
  else
    match r.store.replace next s.store with
    | (.ok updated, st) =>
      (.ok, r.observe k updated (record .update { s with store := st }))
    | (.error e, st) => (failure e, r.observe k current { s with store := st })

def update [DecidableEq β] [Resource β] (r : Reconciler σ τ β) (k : Key) (current : Object β)
    (s : PassState σ τ) : Outcome × PassState σ τ :=
  if current.metadata.isTerminating then (.ok, r.observe k current s)
  else
    let (plan, t) := r.plan k current s.strategy
    let s := { s with strategy := t }
    match plan with
    | .recreate => r.recreate k current s
    | .write next schedules =>
      r.write k current next (if schedules then record .schedule s else s)

-- =============================================== turning down

/-- Delete a child that nobody wants. -/
def deleteUnwanted (r : Reconciler σ τ β) :
    Key → Object β → PassState σ τ → Outcome × PassState σ τ :=
  r.remove .delete .ok

/-- Delete a child that nobody wants, unless the strategy has a reason to keep it. -/
def turnDown (r : Reconciler σ τ β) (k : Key) (current : Object β) (s : PassState σ τ) :
    Outcome × PassState σ τ :=
  if current.metadata.isTerminating then (.ok, r.observe k current s)
  else
    match r.strategy.prepareTurndown k current s.strategy with
    | (some orphan, t) =>
      let t := r.strategy.orphanStatus k current orphan t
      (.ok, r.observe k current (record .orphan { s with strategy := t }))
    | (none, t) => r.deleteUnwanted k current { s with strategy := t }

-- ===================================================== passes

variable [DecidableEq β] [Resource β]

/-- Handle one key. -/
def passKey (r : Reconciler σ τ β) (k : Key) (wanted : Bool) (current : Option (Object β))
    (s : PassState σ τ) : Outcome × PassState σ τ :=
  match wanted, current with
  | true, none => r.create k s
  | true, some o => r.update k o s
  | false, some o => r.turnDown k o s
  | false, none => (.ok, s)

/-- The children among the objects of a listing, by key. -/
def children (r : Reconciler σ τ β) (objects : List (Object β)) : SortedMap Key (Object β) :=
  SortedMap.ofList ((objects.filter r.selects).map fun o => (o.key, o))

/-- The keys that a pass handles: those wanted and those taken by a child, in order. -/
def passKeys (desired : SortedSet Key) (existing : SortedMap Key (Object β)) : List Key :=
  (desired.union (existing.keys |> SortedMap.ofKeys)).keys

/-- Handle keys one after the other: their outcomes, and the state in the end. -/
def passAll (r : Reconciler σ τ β) (desired : SortedSet Key)
    (existing : SortedMap Key (Object β)) :
    List Key → PassState σ τ → List Outcome × PassState σ τ
  | [], s => ([], s)
  | k :: ks, s =>
    let (outcome, s) := r.passKey k (desired.contains k) (existing.get? k) s
    let (outcomes, s) := r.passAll desired existing ks s
    (outcome :: outcomes, s)

/-- Bring the children of the parent to exactly the wanted keys. -/
def reconcileSet (r : Reconciler σ τ β) (desired : SortedSet Key) (s : PassState σ τ) :
    Outcome × PassState σ τ :=
  match r.store.list r.parent.space r.selector s.store with
  | (.error e, st) => (.ofError e, { s with store := st })
  | (.ok objects, st) =>
    let existing := r.children objects
    let (outcomes, s) :=
      r.passAll desired existing (passKeys desired existing) { s with store := st }
    (Outcome.mergeAll outcomes, s)

/-- Bring one child to what is wanted: that it exists, or that it does not. -/
def reconcileObject (r : Reconciler σ τ β) (k : Key) (wanted : Bool) (s : PassState σ τ) :
    Outcome × PassState σ τ :=
  match r.store.get k s.store with
  | (.ok current, st) => r.passKey k wanted (current.filter r.selects) { s with store := st }
  | (.error e, st) =>
    if e.isNotFound then r.passKey k wanted none { s with store := st }
    else (failure e, { s with store := st })

end Reconciler

end ControlLoop
