/-
What the turn of a key comes to, on any store and for any strategy.

Handling a key ends in one of a dozen ways. Which of them it is can be
told from the calls that were made with their answers, and decides both
what the strategy is shown and the outcome (`Ends`, `ends_passKey`).

The turns of a pass follow one another in the order of the keys
(`turns`), and all that a pass calls, shows and reports is what its turns
do (`exchanges_of_listing`, `notices_of_listing`, `reconcileSet_fst_of_listing`).
So what holds of each end holds of every turn of every pass
(`ends_of_mem_turns`), and a property of a pass is a statement about a list
of turns.
-/
import ControlLoop.Proofs.Engine.Attempts
import ControlLoop.Proofs.Engine.Exchanges
import ControlLoop.Proofs.Engine.Notices

namespace ControlLoop

variable {σ τ β : Type}

namespace Reconciler

-- ============================================================= one key

/-- The ends of handling a key: the calls with their answers, what the strategy is shown and asked,
and the outcome. -/
inductive Ends (r : Reconciler σ τ β) (k : Key) :
    Bool → Option (Object β) → List (Exchange β) → List (Notice β) → Outcome → Prop
  /-- Nobody wants it, and it is not there. -/
  | nothing : Ends r k false none [] [] .ok
  | created {o stored : Object β} (ho : o.key = k) :
    Ends r k true none [.create o (.ok stored)] [.status k stored] .ok
  | refused {o : Object β} {e : Error} (ho : o.key = k) (he : e.isConflict = false) :
    Ends r k true none [.create o (.error e)] [] (failure e)
  /-- Someone else's object has the name. -/
  | taken {o holder : Object β} {e : Error} (ho : o.key = k) (he : e.isConflict = true)
    (hh : r.selects holder = false) :
    Ends r k true none [.create o (.error e), .get k (.ok (some holder))] []
      (.ofError (r.nameTaken k))
  /-- The name was taken, and is free again or a child's. -/
  | raced {o : Object β} {e : Error} {holder : Option (Object β)} (ho : o.key = k)
    (he : e.isConflict = true) (hh : holder.all r.selects = true) :
    Ends r k true none [.create o (.error e), .get k (.ok holder)] [] (failure e)
  /-- The name was taken, and there was no telling by whom. -/
  | unseen {o : Object β} {e e' : Error} (ho : o.key = k) (he : e.isConflict = true) :
    Ends r k true none [.create o (.error e), .get k (.error e')] [] (failure e')
  /-- It is going already, or is as it should be. -/
  | untouched {wanted : Bool} {o : Object β} : Ends r k wanted (some o) [] [.status k o] .ok
  | replaced {o next stored : Object β} :
    Ends r k true (some o) [.replace next (.ok stored)] [.status k stored] .ok
  | notReplaced {o next : Object β} {e : Error} :
    Ends r k true (some o) [.replace next (.error e)] [.status k o] (failure e)
  /-- It is deleted to be created anew. -/
  | recreated {o : Object β} {p : Propagation} :
    Ends r k true (some o) [.delete k p (.ok ())] [.status k o] (.after recreateDelay)
  | notRecreated {o : Object β} {p : Propagation} {e : Error} :
    Ends r k true (some o) [.delete k p (.error e)] [.status k o] (failure e)
  /-- Nobody wants it, and there is a reason to keep it. -/
  | kept {o : Object β} (reason : OrphanStatus) :
    Ends r k false (some o) [] [.asked k o (some reason), .kept k o reason, .status k o] .ok
  | deleted {o : Object β} {p : Propagation} :
    Ends r k false (some o) [.delete k p (.ok ())] [.asked k o none, .status k o] .ok
  | notDeleted {o : Object β} {p : Propagation} {e : Error} :
    Ends r k false (some o) [.delete k p (.error e)] [.asked k o none, .status k o] (failure e)

section

variable (r : Reconciler σ τ β) (k : Key) (s : PassState σ τ)

theorem ends_createConflict {o : Object β} {e : Error} (ho : o.key = k)
    (he : e.isConflict = true) :
    Ends r k true none [.create o (.error e), .get k (r.store.get k s.store).1] []
      (r.createConflict k e s).1 := by
  unfold createConflict
  rcases r.store.get k s.store with ⟨e' | _ | holder, st⟩
  · exact .unseen ho he
  · exact .raced ho he rfl
  · by_cases h : r.selects holder = true
    · simp only [if_pos h]
      exact .raced ho he h
    · simp only [if_neg h]
      exact .taken ho he (Bool.eq_false_iff.2 h)

theorem ends_create :
    Ends r k true none (r.exchangesForCreate k s) (r.noticesForCreate k s) (r.create k s).1 := by
  rcases hnew : r.strategy.newObject k s.strategy with ⟨o, t⟩
  have ho : (r.claimed k o).key = k := r.key_claimed k o
  simp only [exchangesForCreate, noticesForCreate, create, hnew]
  rcases r.store.create (r.claimed k o) s.store with ⟨e | stored, st⟩
  · by_cases he : e.isConflict = true
    · simp only [if_pos he]
      exact r.ends_createConflict k { s with store := st, strategy := t } ho he
    · simp only [if_neg he]
      exact .refused ho (Bool.eq_false_iff.2 he)
  · exact .created ho

/-- A deletion ends in the way it does where it lands, or in the way it does where it fails. -/
theorem ends_remove {wanted : Bool} {o : Object β} {notices : List (Notice β)} {done : Outcome}
    {p : Propagation} (hp : r.strategy.propagation (r.strategy.status k o s.strategy) = p)
    (hlands : Ends r k wanted (some o) [.delete k p (.ok ())] notices done)
    (hfails : ∀ e, Ends r k wanted (some o) [.delete k p (.error e)] notices (failure e))
    (op : ChildOperation) :
    Ends r k wanted (some o) [r.store.exchangeOf s.store (.delete k p)] notices
      (r.remove op done k o s).1 := by
  subst hp
  simp only [remove, observe, Store.exchangeOf]
  rcases r.store.delete k _ s.store with ⟨e | _, st⟩
  · exact hfails e
  · exact hlands

theorem ends_turnDown (o : Object β) :
    Ends r k false (some o)
      ((r.writeForTurnDown k o s.strategy).map (r.store.exchangeOf s.store)).toList
      (r.noticesForTurnDown k o s.strategy) (r.turnDown k o s).1 := by
  by_cases hterm : o.metadata.isTerminating = true
  · simp only [turnDown, writeForTurnDown, noticesForTurnDown, if_pos hterm]
    exact .untouched
  · simp only [turnDown, writeForTurnDown, noticesForTurnDown, if_neg hterm]
    rcases r.strategy.prepareTurndown k o s.strategy with ⟨_ | reason, t⟩
    · exact r.ends_remove k { s with strategy := t } rfl .deleted (fun _ => .notDeleted) .delete
    · exact .kept reason

variable [DecidableEq β]

theorem ends_write (o next : Object β) :
    Ends r k true (some o)
      ((if next = o then none else some (.replace next)).map (r.store.exchangeOf s.store)).toList
      (if next = o then [.status k o]
        else match (r.store.replace next s.store).1 with
          | .ok stored => [.status k stored]
          | .error _ => [.status k o])
      (r.write k o next s).1 := by
  by_cases h : next = o
  · simp only [write, if_pos h]
    exact .untouched
  · simp only [write, if_neg h, Option.map_some, Store.exchangeOf]
    rcases r.store.replace next s.store with ⟨e | stored, st⟩
    · exact .notReplaced
    · exact .replaced

variable [Resource β]

theorem ends_update (o : Object β) :
    Ends r k true (some o)
      ((r.writeForUpdate k o s.strategy).map (r.store.exchangeOf s.store)).toList
      (r.noticesForUpdate k o s) (r.update k o s).1 := by
  by_cases hterm : o.metadata.isTerminating = true
  · simp only [update, writeForUpdate, noticesForUpdate, if_pos hterm]
    exact .untouched
  · simp only [update, writeForUpdate, noticesForUpdate, if_neg hterm]
    rcases r.plan k o s.strategy with ⟨_ | ⟨next, schedules⟩, t⟩
    · exact r.ends_remove k { s with strategy := t } rfl .recreated (fun _ => .notRecreated)
        .recreate
    · cases schedules with
      | false => exact r.ends_write k { s with strategy := t } o next
      | true => exact r.ends_write k (record .schedule { s with strategy := t }) o next

/-- Handling a key ends in one of these ways. -/
theorem ends_passKey (wanted : Bool) (current : Option (Object β)) :
    Ends r k wanted current (r.exchangesFor k wanted current s)
      (r.noticesFor k wanted current s) (r.passKey k wanted current s).1 := by
  cases wanted with
  | true =>
      cases current with
      | none => exact r.ends_create k s
      | some o => exact r.ends_update k s o
  | false =>
      cases current with
      | none => exact .nothing
      | some o => exact r.ends_turnDown k s o

end

end Reconciler

-- ============================================================= the turns

/-- The turn of a key in a pass. -/
structure Turn (β : Type) where
  key : Key
  /-- The child that the listing showed, if there is one. -/
  current : Option (Object β)
  calls : List (Exchange β)
  notices : List (Notice β)
  outcome : Outcome

namespace Reconciler

variable [DecidableEq β] [Resource β]

/-- The turns of a run over keys, in order. -/
def turnsFor (r : Reconciler σ τ β) (desired : SortedSet Key)
    (existing : SortedMap Key (Object β)) : List Key → PassState σ τ → List (Turn β) :=
  r.along desired existing fun k s =>
    [⟨k, existing.get? k, r.exchangesFor k (desired.contains k) (existing.get? k) s,
      r.noticesFor k (desired.contains k) (existing.get? k) s,
      (r.passKey k (desired.contains k) (existing.get? k) s).1⟩]

/-- The turns of a pass after a listing. -/
def turns (r : Reconciler σ τ β) (desired : SortedSet Key) (objects : List (Object β))
    (s : PassState σ τ) : List (Turn β) :=
  r.turnsFor desired (r.children objects) (passKeys desired (r.children objects)) s

section

variable (r : Reconciler σ τ β) (desired : SortedSet Key) (existing : SortedMap Key (Object β))
  (ks : List Key) (s : PassState σ τ)

theorem map_key_turnsFor : (r.turnsFor desired existing ks s).map (·.key) = ks := by
  induction ks generalizing s with
  | nil => rfl
  | cons k ks ih => exact congrArg (k :: ·) (ih _)

theorem map_outcome_turnsFor :
    (r.turnsFor desired existing ks s).map (·.outcome) = (r.passAll desired existing ks s).1 := by
  induction ks generalizing s with
  | nil => rfl
  | cons k ks ih => exact congrArg (_ :: ·) (ih _)

/-- What is gathered from one thing of each turn is gathered from the turns. -/
theorem flatMap_along_singleton {γ δ : Type} (thing : Key → PassState σ τ → γ) (f : γ → List δ) :
    (r.along desired existing (fun k s => [thing k s]) ks s).flatMap f
      = r.along desired existing (fun k s => f (thing k s)) ks s := by
  induction ks generalizing s with
  | nil => rfl
  | cons k ks ih => exact congrArg (_ ++ ·) (ih _)

theorem flatMap_calls_turnsFor :
    (r.turnsFor desired existing ks s).flatMap (·.calls)
      = r.along desired existing
          (fun k s => r.exchangesFor k (desired.contains k) (existing.get? k) s) ks s :=
  r.flatMap_along_singleton desired existing ks s _ _

theorem flatMap_notices_turnsFor :
    (r.turnsFor desired existing ks s).flatMap (·.notices)
      = r.along desired existing
          (fun k s => r.noticesFor k (desired.contains k) (existing.get? k) s) ks s :=
  r.flatMap_along_singleton desired existing ks s _ _

variable {r desired existing ks s}

/-- Each turn ends in one of the ways in which handling a key does. -/
theorem ends_of_mem_turnsFor {t : Turn β} (ht : t ∈ r.turnsFor desired existing ks s) :
    t.current = existing.get? t.key
      ∧ r.Ends t.key (desired.contains t.key) t.current t.calls t.notices t.outcome := by
  induction ks generalizing s with
  | nil => cases ht
  | cons k ks ih =>
      rcases List.mem_append.1 ht with ht | ht
      · obtain rfl := List.mem_singleton.1 ht
        exact ⟨rfl, r.ends_passKey k s _ _⟩
      · exact ih ht

theorem waitsOnly_of_mem_turnsFor {t : Turn β} (ht : t ∈ r.turnsFor desired existing ks s) :
    t.outcome.WaitsOnly recreateDelay := by
  refine r.waitsOnly_passAll s desired existing ks t.outcome ?_
  rw [← map_outcome_turnsFor]
  exact List.mem_map_of_mem ht

end

section

variable {r : Reconciler σ τ β} {desired : SortedSet Key} {objects : List (Object β)}
  {s : PassState σ τ} {st : σ}
  (h : r.store.list r.parent.space r.selector s.store = (.ok objects, st))

include h

theorem reconcileSet_fst_of_listing :
    (r.reconcileSet desired s).1
      = Outcome.mergeAll ((r.turns desired objects { s with store := st }).map (·.outcome)) := by
  rw [turns, map_outcome_turnsFor]
  simp only [reconcileSet, h]

theorem exchanges_of_listing :
    r.exchanges desired s
      = .list (.ok objects)
        :: (r.turns desired objects { s with store := st }).flatMap (·.calls) := by
  rw [turns, flatMap_calls_turnsFor, exchanges, r.reconcileSet_logged_of_ok desired h]
  rfl

theorem notices_of_listing :
    r.notices desired s
      = (r.turns desired objects { s with store := st }).flatMap (·.notices) := by
  rw [turns, flatMap_notices_turnsFor, notices, r.reconcileSet_noted_of_ok desired h]
  rfl

end

end Reconciler

end ControlLoop
