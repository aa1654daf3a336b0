/-
The calls that a store gets, as data.

A recorded store answers as the store that it wraps does and keeps, beside
that store's state, notes of the calls that it got and of what it answered.
A traced store is one that notes every write it was asked for, whether it
landed or was refused. What code does to a store can so be told from what
it tried to do, and what it makes of the answers from the answers
themselves.

For a store in memory what was tried and what was done are close: a write
leaves a state that depends on nothing but the write and the state before
(`Memory.after`), so a list of writes is also the whole effect of the code
that asked for them.
-/
import ControlLoop.Proofs.Store.Versions

namespace ControlLoop

variable {σ β : Type}

-- ============================================================ writes

/-- A write that a store is asked for. -/
inductive Write (β : Type) where
  | create (o : Object β)
  | replace (o : Object β)
  | delete (k : Key) (p : Propagation)
  deriving DecidableEq

/-- The key that a write is about. -/
def Write.key : Write β → Key
  | .create o => o.key
  | .replace o => o.key
  | .delete k _ => k

/-- As what a write is remembered. -/
def Write.kind : Write β → WriteKind
  | .create _ => .create
  | .replace _ => .replace
  | .delete _ _ => .delete

/-- What a write leaves. -/
def Store.after (S : Store σ β) (st : σ) : Write β → σ
  | .create o => (S.create o st).2
  | .replace o => (S.replace o st).2
  | .delete k p => (S.delete k p st).2

/-- A call of a store with its answer. -/
inductive Exchange (β : Type) where
  | list (answer : Except Error (List (Object β)))
  | get (k : Key) (answer : Except Error (Option (Object β)))
  | create (o : Object β) (answer : Except Error (Object β))
  | replace (o : Object β) (answer : Except Error (Object β))
  | delete (k : Key) (p : Propagation) (answer : Except Error Unit)

/-- The write that a call asks for. -/
def Exchange.writes : Exchange β → List (Write β)
  | .list _ => []
  | .get _ _ => []
  | .create o _ => [.create o]
  | .replace o _ => [.replace o]
  | .delete k p _ => [.delete k p]

/-- A store that takes notes of every call and of its answer. -/
def Store.recorded {α : Type} (S : Store σ β) (note : Exchange β → List α) :
    Store (σ × List α) β where
  list space selector s :=
    let (answer, st) := S.list space selector s.1
    (answer, st, s.2 ++ note (.list answer))
  get k s :=
    let (answer, st) := S.get k s.1
    (answer, st, s.2 ++ note (.get k answer))
  create o s :=
    let (answer, st) := S.create o s.1
    (answer, st, s.2 ++ note (.create o answer))
  replace o s :=
    let (answer, st) := S.replace o s.1
    (answer, st, s.2 ++ note (.replace o answer))
  delete k p s :=
    let (answer, st) := S.delete k p s.1
    (answer, st, s.2 ++ note (.delete k p answer))

/-- A store that notes every write it is asked for. -/
def Store.traced (S : Store σ β) : Store (σ × List (Write β)) β where
  list space selector s :=
    let (objects, st) := S.list space selector s.1
    (objects, st, s.2)
  get k s :=
    let (found, st) := S.get k s.1
    (found, st, s.2)
  create o s :=
    let (created, st) := S.create o s.1
    (created, st, s.2 ++ [.create o])
  replace o s :=
    let (updated, st) := S.replace o s.1
    (updated, st, s.2 ++ [.replace o])
  delete k p s :=
    let (gone, st) := S.delete k p s.1
    (gone, st, s.2 ++ [.delete k p])

/-- To trace is to note the writes. -/
theorem Store.traced_eq_recorded (S : Store σ β) : S.traced = S.recorded Exchange.writes := by
  simp only [traced, recorded, Exchange.writes, List.append_nil]

/-- What a store answers to a write. -/
def Store.exchangeOf (S : Store σ β) (st : σ) : Write β → Exchange β
  | .create o => .create o (S.create o st).1
  | .replace o => .replace o (S.replace o st).1
  | .delete k p => .delete k p (S.delete k p st).1

section

variable {α : Type} (S : Store σ β) (note : Exchange β → List α) (st : σ) (xs : List α)

@[simp] theorem Store.recorded_get (k : Key) :
    (S.recorded note).get k (st, xs)
      = ((S.get k st).1, (S.get k st).2, xs ++ note (.get k (S.get k st).1)) := rfl

@[simp] theorem Store.recorded_create (o : Object β) :
    (S.recorded note).create o (st, xs)
      = ((S.create o st).1, (S.create o st).2, xs ++ note (S.exchangeOf st (.create o))) := rfl

@[simp] theorem Store.recorded_replace (o : Object β) :
    (S.recorded note).replace o (st, xs)
      = ((S.replace o st).1, (S.replace o st).2, xs ++ note (S.exchangeOf st (.replace o))) := rfl

@[simp] theorem Store.recorded_delete (k : Key) (p : Propagation) :
    (S.recorded note).delete k p (st, xs)
      = ((S.delete k p st).1, (S.delete k p st).2,
        xs ++ note (S.exchangeOf st (.delete k p))) := rfl

end

-- =================================================== stores in memory

namespace Memory

/-- What a write leaves. -/
def after (m : Memory β) : Write β → Memory β
  | .create o => (m.create o).2
  | .replace o => (m.replace o).2
  | .delete k _ => (m.delete k).2

theorem Reachable.after {m : Memory β} (h : m.Reachable) (w : Write β) : (m.after w).Reachable := by
  cases w with
  | create o => exact h.create o
  | replace o => exact h.replace o
  | delete k p => exact h.delete k

theorem Reachable.foldl_after {m : Memory β} (h : m.Reachable) (ws : List (Write β)) :
    (ws.foldl Memory.after m).Reachable := by
  induction ws generalizing m with
  | nil => exact h
  | cons w ws ih => exact ih (h.after w)

/-- A write touches its own key alone, and so do many writes touch theirs. -/
theorem agreesExcept_after (m : Memory β) (w : Write β) : AgreesExcept w.key m (m.after w) := by
  cases w with
  | create o => exact agreesExcept_create m o
  | replace o => exact agreesExcept_replace m o
  | delete k p => exact agreesExcept_delete m k

theorem object?_foldl_after (m : Memory β) {ws : List (Write β)} {k : Key}
    (h : ∀ w ∈ ws, w.key ≠ k) : (ws.foldl Memory.after m).object? k = m.object? k := by
  induction ws generalizing m with
  | nil => rfl
  | cons w ws ih =>
      have hne : k ≠ w.key := fun heq => h w List.mem_cons_self heq.symm
      rw [List.foldl_cons, ih (m.after w) fun w' hw' => h w' (List.mem_cons_of_mem _ hw'),
        (agreesExcept_after m w).object? hne]

end Memory

end ControlLoop
