/-
What the engine does to a store, whichever store it is.

Handling a key changes the state of the store in one of three ways: not
at all, by the one write that is asked for, or by that write and a look
at who has the name that a creation found taken (`calls_passKey`). All
that a pass does to a store is a chain of these, one for each key after
the listing, so what each of them keeps is kept by the pass
(`passAll_induction`). Nothing here depends on how the store answers:
it may be a store in memory, or one that others write to in between.
-/
import ControlLoop.Proofs.Engine.Writes

namespace ControlLoop

variable {σ τ β : Type}

/-- What becomes of a store when handling a key asks for a write, or for none. -/
inductive Calls (S : Store σ β) (k : Key) (st : σ) : Option (Write β) → σ → Prop
  | nothing : Calls S k st none st
  | write (w : Write β) : Calls S k st (some w) (S.after st w)
  /-- The name was taken, so the engine looks who has it. -/
  | look (o : Object β) : Calls S k st (some (.create o)) (S.get k (S.after st (.create o))).2

theorem Calls.of_eq {S : Store σ β} {k : Key} {st st' : σ} {w : Write β}
    (h : st' = S.after st w) : Calls S k st (some w) st' := h ▸ .write w

/-- A store in memory is not changed by looking. -/
theorem Calls.eq_foldl_after {k : Key} {m m' : Memory β} {w : Option (Write β)}
    (h : Calls Memory.store k m w m') : m' = w.toList.foldl Memory.after m := by
  cases h with
  | nothing => rfl
  | look o => rfl
  | write w => cases w <;> rfl

namespace Reconciler

section

variable (r : Reconciler σ τ β) (k : Key) (s : PassState σ τ)

theorem createConflict_store (e : Error) :
    (r.createConflict k e s).2.store = (r.store.get k s.store).2 := by
  unfold createConflict
  rcases r.store.get k s.store with ⟨_ | _ | holder, st⟩
  · rfl
  · rfl
  · by_cases h : r.selects holder = true
    · simp only [if_pos h]
    · simp only [if_neg h]

theorem calls_create :
    Calls r.store k s.store (some (.create (r.claimed k (r.strategy.newObject k s.strategy).1)))
      (r.create k s).2.store := by
  rcases hnew : r.strategy.newObject k s.strategy with ⟨o, t⟩
  rcases hcreate : r.store.create (r.claimed k o) s.store with ⟨e | created, st⟩
  · by_cases h : e.isConflict = true
    · have hlook : Calls r.store k s.store (some (.create (r.claimed k o))) _ := .look _
      simp only [Store.after, hcreate] at hlook
      simp only [create, hnew, hcreate, if_pos h, createConflict_store]
      exact hlook
    · simp only [create, hnew, hcreate, if_neg h]
      exact .of_eq (congrArg Prod.snd hcreate).symm
  · simp only [create, hnew, hcreate]
    exact .of_eq (congrArg Prod.snd hcreate).symm

theorem remove_store (op : ChildOperation) (done : Outcome) (current : Object β) :
    (r.remove op done k current s).2.store = r.store.after s.store
      (.delete k (r.strategy.propagation (r.strategy.status k current s.strategy))) := by
  simp only [remove, observe, Store.after]
  rcases r.store.delete k _ s.store with ⟨e | _, st⟩
  · rfl
  · rfl

theorem calls_turnDown (current : Object β) :
    Calls r.store k s.store (r.writeForTurnDown k current s.strategy)
      (r.turnDown k current s).2.store := by
  by_cases hterm : current.metadata.isTerminating = true
  · simp only [turnDown, writeForTurnDown, if_pos hterm]
    exact .nothing
  · simp only [turnDown, writeForTurnDown, if_neg hterm]
    rcases r.strategy.prepareTurndown k current s.strategy with ⟨_ | orphan, t⟩
    · exact .of_eq (r.remove_store k { s with strategy := t } .delete .ok current)
    · exact .nothing

variable [DecidableEq β]

theorem calls_write (current next : Object β) :
    Calls r.store k s.store (if next = current then none else some (.replace next))
      (r.write k current next s).2.store := by
  by_cases h : next = current
  · simp only [write, if_pos h]
    exact .nothing
  · simp only [write, if_neg h]
    rcases hreplace : r.store.replace next s.store with ⟨e | updated, st⟩
    · exact .of_eq (congrArg Prod.snd hreplace).symm
    · exact .of_eq (congrArg Prod.snd hreplace).symm

variable [Resource β]

theorem calls_update (current : Object β) :
    Calls r.store k s.store (r.writeForUpdate k current s.strategy)
      (r.update k current s).2.store := by
  by_cases hterm : current.metadata.isTerminating = true
  · simp only [update, writeForUpdate, if_pos hterm]
    exact .nothing
  · simp only [update, writeForUpdate, if_neg hterm]
    rcases r.plan k current s.strategy with ⟨_ | ⟨next, schedules⟩, t⟩
    · exact .of_eq (r.remove_store k { s with strategy := t } .recreate _ current)
    · cases schedules with
      | false => exact r.calls_write k { s with strategy := t } current next
      | true => exact r.calls_write k (record .schedule { s with strategy := t }) current next

/-- Handling a key makes the calls for its one write, and no others. -/
theorem calls_passKey (wanted : Bool) (current : Option (Object β)) :
    Calls r.store k s.store (r.writeFor k wanted current s.strategy)
      (r.passKey k wanted current s).2.store := by
  cases wanted with
  | true =>
      cases current with
      | none => exact r.calls_create k s
      | some o => exact r.calls_update k s o
  | false =>
      cases current with
      | none => exact .nothing
      | some o => exact r.calls_turnDown k s o

end

variable [DecidableEq β] [Resource β]

/-- What the calls for each key keep, when the keys before it have been handled, holds in the
end. -/
theorem passAll_induction {r : Reconciler σ τ β} {desired : SortedSet Key}
    {existing : SortedMap Key (Object β)} {holds : List Key → σ → Prop}
    (hstep : ∀ {k ks st st' t}, holds (k :: ks) st →
      Calls r.store k st (r.writeFor k (desired.contains k) (existing.get? k) t) st' →
      holds ks st') {ks : List Key} {s : PassState σ τ} (h : holds ks s.store) :
    holds [] (r.passAll desired existing ks s).2.store := by
  induction ks generalizing s with
  | nil => exact h
  | cons k ks ih => exact ih (hstep h (r.calls_passKey k s _ _))

section

variable {r : Reconciler σ τ β} (desired : SortedSet Key) {s : PassState σ τ} {st : σ}

theorem reconcileSet_store_of_error {e : Error}
    (h : r.store.list r.parent.space r.selector s.store = (.error e, st)) :
    (r.reconcileSet desired s).2.store = st := by
  simp only [reconcileSet, h]

theorem reconcileSet_store_of_ok {objects : List (Object β)}
    (h : r.store.list r.parent.space r.selector s.store = (.ok objects, st)) :
    (r.reconcileSet desired s).2.store
      = (r.passAll desired (r.children objects) (passKeys desired (r.children objects))
          { s with store := st }).2.store := by
  simp only [reconcileSet, h]

end

end Reconciler

end ControlLoop
