/-
A store that is watched: every call is noted with how it went, and
calls can be made to fail, or to answer from what is hidden or frozen.

A call that is made to fail does not reach the store behind. A frozen
read sees the objects as they were at some moment, and a hidden name is
left out of what is read. So a reader can be shown a store that lags
behind the one it writes to.
-/
import ControlLoop.Store

namespace ControlLoop

/-- The five operations of a store. -/
inductive CallKind where
  | list
  | get
  | create
  | replace
  | delete
  deriving DecidableEq, Repr

/-- Calls that are made to fail: those of a kind, for one name or for all. A listing has no
name. -/
structure Fault where
  call : CallKind
  name : Option String
  error : Error

namespace Fault

/-- Whether a call is made to fail. -/
def hits (f : Fault) (call : CallKind) (name : Option String) : Bool :=
  f.call = call && (f.name.isNone || f.name = name)

/-- The error of a call: that of the first fault that hits it. -/
def find? (faults : List Fault) (call : CallKind) (name : Option String) : Option Error :=
  (faults.find? (·.hits call name)).map (·.error)

end Fault

/-- A call, and how it went. -/
inductive Call where
  | list (space selector : String) (error : Option Error)
  /-- The answer tells whether there was an object. -/
  | get (k : Key) (answer : Except Error Bool)
  | create (k : Key) (error : Option Error)
  | replace (k : Key) (error : Option Error)
  | delete (k : Key) (propagation : Propagation) (error : Option Error)

/-- A state of the store behind, what is noted of it, and what is done to its calls. -/
structure Watched (σ β : Type) where
  inner : σ
  /-- Oldest first. -/
  calls : List Call
  faults : List Fault
  hiddenFromLists : SortedSet String
  hiddenFromGets : SortedSet String
  /-- What listings see instead of the store. -/
  frozenLists : Option (SortedMap Key (Object β))
  /-- What reads of one object see instead of the store. -/
  frozenGets : Option (SortedMap Key (Object β))

namespace Watched

variable {σ β : Type}

/-- Begin to watch a store. -/
def start (inner : σ) : Watched σ β := ⟨inner, [], [], ∅, ∅, none, none⟩

/-- Undo everything that is done to the calls. -/
def clear (w : Watched σ β) : Watched σ β := { start w.inner with calls := w.calls }

/-- Forget the calls. -/
def forget (w : Watched σ β) : Watched σ β := { w with calls := [] }

def addFault (w : Watched σ β) (f : Fault) : Watched σ β := { w with faults := w.faults ++ [f] }

/-- The error of an answer. -/
def errorOf (answer : Except Error α) : Option Error :=
  match answer with
  | .ok _ => none
  | .error e => some e

/-- Make a call, unless it is made to fail, and note it. -/
def call (kind : CallKind) (name : Option String) (note : Except Error α → Call)
    (reach : Watched σ β → Except Error α × Watched σ β) (w : Watched σ β) :
    Except Error α × Watched σ β :=
  let reached := match Fault.find? w.faults kind name with
    | some e => (Except.error e, w)
    | none => reach w
  (reached.1, { reached.2 with calls := reached.2.calls ++ [note reached.1] })

/-- Go on to the store behind. -/
def through (f : σ → Except Error α × σ) (w : Watched σ β) : Except Error α × Watched σ β :=
  let (answer, inner) := f w.inner
  (answer, { w with inner })

-- ========================================================== reads

/-- A listing: of the frozen objects or of the store, less what is hidden. -/
def list (inner : Store σ β) (space : String) (selector : TextMap) (w : Watched σ β) :
    Except Error (List (Object β)) × Watched σ β :=
  let shown := match w.frozenLists with
    | some objects => (Except.ok (Object.matching objects space selector), w)
    | none => w.through (inner.list space selector)
  (shown.1.map (·.filter fun o => !w.hiddenFromLists.contains o.key.name), shown.2)

/-- A read of one object: nothing where it is hidden, else from the frozen objects or from the
store. -/
def get (inner : Store σ β) (k : Key) (w : Watched σ β) :
    Except Error (Option (Object β)) × Watched σ β :=
  if w.hiddenFromGets.contains k.name then (.ok none, w)
  else
    match w.frozenGets with
    | some objects => (.ok (objects.get? k), w)
    | none => w.through (inner.get k)

/-- The watched store in front of another. -/
def store (inner : Store σ β) : Store (Watched σ β) β where
  list space selector :=
    call .list none (fun a => .list space (selectorText selector) (errorOf a))
      (list inner space selector)
  get k := call .get (some k.name) (fun a => .get k (a.map (·.isSome))) (get inner k)
  create o :=
    call .create (some o.key.name) (fun a => .create o.key (errorOf a)) (through (inner.create o))
  replace o :=
    call .replace (some o.key.name) (fun a => .replace o.key (errorOf a))
      (through (inner.replace o))
  delete k p :=
    call .delete (some k.name) (fun a => .delete k p (errorOf a)) (through (inner.delete k p))

end Watched

end ControlLoop
