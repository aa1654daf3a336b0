/-
The calls that the engine makes, each with what it was answered.

A logged store is a recorded one that notes every call as it is, together
with the answer. What code makes of the answers that it gets can so be
told from the answers themselves, whatever store it was that gave them.

A pass looks at what is there and then makes the calls for one key after
the other (`exchangesFor`). The engine on a logged store logs these and
does everything else as before (`reconcileSet_logged`,
`reconcileObject_logged`).
-/
import ControlLoop.Proofs.Engine.Frame
import ControlLoop.Proofs.Store.Answers

namespace ControlLoop

variable {σ τ β : Type}

-- ========================================================== exchanges

/-- The error that a call was answered with, if it failed. -/
def Exchange.fault? : Exchange β → Option Error
  | .list answer => faultOf answer
  | .get _ answer => faultOf answer
  | .create _ answer => faultOf answer
  | .replace _ answer => faultOf answer
  | .delete _ _ answer => faultOf answer

/-- The same reconciler on a store that logs its calls. -/
def Reconciler.logged (r : Reconciler σ τ β) : Reconciler (σ × List (Exchange β)) τ β :=
  r.recorded fun x => [x]

/-- The state of a pass on a logged store that has logged some calls. -/
def PassState.logging (s : PassState σ τ) (xs : List (Exchange β)) :
    PassState (σ × List (Exchange β)) τ :=
  s.recording xs

@[simp] theorem PassState.logging_store (s : PassState σ τ) (xs : List (Exchange β)) :
    (s.logging xs).store = (s.store, xs) := rfl

namespace Reconciler

@[simp] theorem logged_store_get (r : Reconciler σ τ β) (k : Key) (st : σ)
    (xs : List (Exchange β)) :
    r.logged.store.get k (st, xs)
      = ((r.store.get k st).1, (r.store.get k st).2, xs ++ [.get k (r.store.get k st).1]) := rfl

variable [DecidableEq β] [Resource β]

/-- Handling a key makes its calls, and on a logged store does everything else as before. -/
theorem passKey_logged (r : Reconciler σ τ β) (k : Key) (s : PassState σ τ)
    (xs : List (Exchange β)) (wanted : Bool) (current : Option (Object β)) :
    r.logged.passKey k wanted current (s.logging xs)
      = ((r.passKey k wanted current s).1, (r.passKey k wanted current s).2.logging
          (xs ++ r.exchangesFor k wanted current s)) := by
  have hrec := r.passKey_recorded (fun x => [x]) k s xs wanted current
  rwa [List.flatMap_singleton'] at hrec

-- ================================================= the calls of a pass

/-- The calls that a pass makes, in order. -/
def exchanges (r : Reconciler σ τ β) (desired : SortedSet Key) (s : PassState σ τ) :
    List (Exchange β) :=
  (r.logged.reconcileSet desired (s.logging [])).2.store.2

/-- The calls that a pass over one child makes, in order. -/
def objectExchanges (r : Reconciler σ τ β) (k : Key) (wanted : Bool) (s : PassState σ τ) :
    List (Exchange β) :=
  (r.logged.reconcileObject k wanted (s.logging [])).2.store.2

section

variable (r : Reconciler σ τ β) (desired : SortedSet Key) {s : PassState σ τ} {st : σ}

theorem reconcileSet_logged_of_error {e : Error}
    (h : r.store.list r.parent.space r.selector s.store = (.error e, st)) :
    r.logged.reconcileSet desired (s.logging [])
      = ((r.reconcileSet desired s).1,
        (r.reconcileSet desired s).2.logging [.list (.error e)]) :=
  r.reconcileSet_recorded_of_error (fun x => [x]) desired h

theorem reconcileSet_logged_of_ok {objects : List (Object β)}
    (h : r.store.list r.parent.space r.selector s.store = (.ok objects, st)) :
    r.logged.reconcileSet desired (s.logging [])
      = ((r.reconcileSet desired s).1, (r.reconcileSet desired s).2.logging
          (.list (.ok objects) :: r.along desired (r.children objects)
            (fun k s => r.exchangesFor k (desired.contains k) ((r.children objects).get? k) s)
            (passKeys desired (r.children objects)) { s with store := st })) := by
  have hrun := r.reconcileSet_recorded_of_ok (fun x => [x]) desired h
  simp only [List.flatMap_singleton'] at hrun
  exact hrun

/-- On a logged store a pass logs its calls and does everything else as before. -/
theorem reconcileSet_logged (s : PassState σ τ) :
    r.logged.reconcileSet desired (s.logging [])
      = ((r.reconcileSet desired s).1,
        (r.reconcileSet desired s).2.logging (r.exchanges desired s)) := by
  rcases hlist : r.store.list r.parent.space r.selector s.store with ⟨e | objects, st⟩
  · rw [exchanges, r.reconcileSet_logged_of_error desired hlist]
    rfl
  · rw [exchanges, r.reconcileSet_logged_of_ok desired hlist]
    rfl

variable (k : Key) (wanted : Bool)

theorem reconcileObject_logged_of_ok {current : Option (Object β)}
    (h : r.store.get k s.store = (.ok current, st)) :
    r.logged.reconcileObject k wanted (s.logging [])
      = ((r.reconcileObject k wanted s).1, (r.reconcileObject k wanted s).2.logging
          (.get k (.ok current)
            :: r.exchangesFor k wanted (current.filter r.selects) { s with store := st })) := by
  have hrun := r.passKey_logged k { s with store := st } [.get k (.ok current)] wanted
    (current.filter r.selects)
  simp only [reconcileObject, PassState.logging_store, logged_store_get, h]
  exact hrun

theorem reconcileObject_logged_of_error {e : Error}
    (h : r.store.get k s.store = (.error e, st)) :
    r.logged.reconcileObject k wanted (s.logging [])
      = ((r.reconcileObject k wanted s).1, (r.reconcileObject k wanted s).2.logging
          (.get k (.error e) :: if e.isNotFound
            then r.exchangesFor k wanted none { s with store := st } else [])) := by
  have hrun := r.passKey_logged k { s with store := st } [.get k (.error e)] wanted none
  simp only [reconcileObject, PassState.logging_store, logged_store_get, h]
  by_cases hgone : e.isNotFound = true
  · simp only [if_pos hgone]
    exact hrun
  · simp only [if_neg hgone]
    rfl

/-- On a logged store a pass over one child logs its calls and does everything else as before. -/
theorem reconcileObject_logged (s : PassState σ τ) :
    r.logged.reconcileObject k wanted (s.logging [])
      = ((r.reconcileObject k wanted s).1,
        (r.reconcileObject k wanted s).2.logging (r.objectExchanges k wanted s)) := by
  rcases hget : r.store.get k s.store with ⟨e | current, st⟩
  · rw [objectExchanges, r.reconcileObject_logged_of_error k wanted hget]
    rfl
  · rw [objectExchanges, r.reconcileObject_logged_of_ok k wanted hget]
    rfl

end

end Reconciler

end ControlLoop
