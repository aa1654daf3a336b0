/-
What a pass asks of the loop that runs it.

Handling a key never asks to come back at once, and the only delay it
asks for is the one after a deletion: a lost race is given the same
time (`waitsOnly_passKey`). So if any key of a pass asks for the delay,
the pass does (`exists_outcomes`). A child that is to be created anew is
never forgotten: whether its deletion lands or fails, the pass comes
back (`comesBack_recreate`).
-/
import ControlLoop.Proofs.Engine.Frame
import ControlLoop.Proofs.Outcome

namespace ControlLoop.Reconciler

variable {σ τ β : Type} [DecidableEq β] [Resource β]

-- ============================================================ one key

omit [DecidableEq β] [Resource β] in
/-- A failed call asks for no other delay than a deletion does. -/
theorem waitsOnly_failure (e : Error) : (failure e).WaitsOnly recreateDelay := by
  unfold failure
  split
  · exact Outcome.waitsOnly_after recreateDelay
  · exact Outcome.waitsOnly_ofError recreateDelay e

section

variable (r : Reconciler σ τ β) (k : Key) (s : PassState σ τ)

omit [DecidableEq β] [Resource β] in
theorem waitsOnly_createConflict (e : Error) :
    (r.createConflict k e s).1.WaitsOnly recreateDelay := by
  unfold createConflict
  rcases r.store.get k s.store with ⟨e' | _ | holder, st⟩
  · exact waitsOnly_failure e'
  · exact waitsOnly_failure e
  · by_cases h : r.selects holder = true
    · simp only [if_pos h]
      exact waitsOnly_failure e
    · simp only [if_neg h]
      exact Outcome.waitsOnly_ofError recreateDelay _

omit [DecidableEq β] [Resource β] in
theorem waitsOnly_create : (r.create k s).1.WaitsOnly recreateDelay := by
  rcases hnew : r.strategy.newObject k s.strategy with ⟨o, t⟩
  simp only [create, hnew]
  rcases r.store.create (r.claimed k o) s.store with ⟨e | created, st⟩
  · by_cases h : e.isConflict = true
    · simp only [if_pos h]
      exact r.waitsOnly_createConflict k _ e
    · simp only [if_neg h]
      exact waitsOnly_failure e
  · exact Outcome.waitsOnly_ok recreateDelay

omit [DecidableEq β] [Resource β] in
theorem waitsOnly_remove (op : ChildOperation) {done : Outcome} (hdone : done.WaitsOnly recreateDelay)
    (current : Object β) : (r.remove op done k current s).1.WaitsOnly recreateDelay := by
  simp only [remove, observe]
  rcases r.store.delete k _ s.store with ⟨e | _, st⟩
  · exact waitsOnly_failure e
  · exact hdone

omit [Resource β] in
theorem waitsOnly_write (current next : Object β) :
    (r.write k current next s).1.WaitsOnly recreateDelay := by
  by_cases h : next = current
  · simp only [write, if_pos h]
    exact Outcome.waitsOnly_ok recreateDelay
  · simp only [write, if_neg h]
    rcases r.store.replace next s.store with ⟨e | updated, st⟩
    · exact waitsOnly_failure e
    · exact Outcome.waitsOnly_ok recreateDelay

theorem waitsOnly_update (current : Object β) :
    (r.update k current s).1.WaitsOnly recreateDelay := by
  by_cases hterm : current.metadata.isTerminating = true
  · simp only [update, if_pos hterm]
    exact Outcome.waitsOnly_ok recreateDelay
  · simp only [update, if_neg hterm]
    rcases r.plan k current s.strategy with ⟨_ | ⟨next, schedules⟩, t⟩
    · exact r.waitsOnly_remove k _ .recreate (Outcome.waitsOnly_after recreateDelay) current
    · exact r.waitsOnly_write k _ current next

omit [DecidableEq β] [Resource β] in
theorem waitsOnly_turnDown (current : Object β) :
    (r.turnDown k current s).1.WaitsOnly recreateDelay := by
  by_cases hterm : current.metadata.isTerminating = true
  · simp only [turnDown, if_pos hterm]
    exact Outcome.waitsOnly_ok recreateDelay
  · simp only [turnDown, if_neg hterm]
    rcases r.strategy.prepareTurndown k current s.strategy with ⟨_ | orphan, t⟩
    · exact r.waitsOnly_remove k _ .delete (Outcome.waitsOnly_ok recreateDelay) current
    · exact Outcome.waitsOnly_ok recreateDelay

/-- Handling a key asks for nothing but to come back after the delay of a deletion. -/
theorem waitsOnly_passKey (wanted : Bool) (current : Option (Object β)) :
    (r.passKey k wanted current s).1.WaitsOnly recreateDelay := by
  cases wanted with
  | true =>
      cases current with
      | none => exact r.waitsOnly_create k s
      | some o => exact r.waitsOnly_update k s o
  | false =>
      cases current with
      | none => exact Outcome.waitsOnly_ok recreateDelay
      | some o => exact r.waitsOnly_turnDown k s o

theorem waitsOnly_passAll (desired : SortedSet Key) (existing : SortedMap Key (Object β))
    (ks : List Key) : ∀ o ∈ (r.passAll desired existing ks s).1, o.WaitsOnly recreateDelay := by
  induction ks generalizing s with
  | nil =>
      intro o ho
      cases ho
  | cons k ks ih =>
      intro o ho
      rcases List.mem_cons.1 ho with rfl | ho
      · exact r.waitsOnly_passKey k s _ _
      · exact ih _ o ho

end

omit [DecidableEq β] [Resource β] in
theorem comesBack_failure (e : Error) : (failure e).comesBack = true := by
  unfold failure
  split
  · rfl
  · rfl

omit [DecidableEq β] [Resource β] in
/-- The deletion of a child to be created anew always asks to come back, and if it is not made to
fail, after the delay for this. -/
theorem comesBack_recreate {r : Reconciler (Memory β) τ β} (hr : r.store = Memory.store) (k : Key)
    (current : Object β) (s : PassState (Memory β) τ) :
    (r.recreate k current s).1.comesBack = true
      ∧ (s.store.refusal? k = none → s.store.object? k = some current →
        (r.recreate k current s).1 = .after recreateDelay) := by
  simp only [recreate, remove, observe, store_delete hr]
  rcases s.store.delete_cases k with ⟨e, href, hd⟩ | ⟨-, hnone, hd⟩ | ⟨-, -, hd⟩ <;>
    rw [hd]
  · refine ⟨comesBack_failure e, fun hfree => ?_⟩
    rw [href] at hfree
    cases hfree
  · refine ⟨comesBack_failure _, fun _ hthere => ?_⟩
    rw [hnone] at hthere
    cases hthere
  · exact ⟨rfl, fun _ _ => rfl⟩

-- ======================================================== a whole pass

/-- The outcome of a pass is merged from outcomes among which is that of each key's turn. -/
theorem exists_outcomes {r : Reconciler (Memory β) τ β} (hr : r.store = Memory.store)
    {desired : SortedSet Key} {s : PassState (Memory β) τ} (hm : s.store.Sound)
    (hl : s.store.listsFail = false) {k : Key} (hk : k ∈ passKeys desired (r.owned s.store)) :
    ∃ outcomes, (r.reconcileSet desired s).1 = Outcome.mergeAll outcomes
      ∧ (r.passKey k (desired.contains k) ((r.owned s.store).get? k)
          (r.turn desired s k)).1 ∈ outcomes
      ∧ ∀ o ∈ outcomes, o.WaitsOnly recreateDelay := by
  obtain ⟨rest, hks⟩ := exists_eq_takeWhile_append hk
  rw [reconcileSet_of_lists hr hm hl]
  refine ⟨_, rfl, ?_, r.waitsOnly_passAll s desired _ _⟩
  rw [hks, passAll_append]
  exact List.mem_append_right _ List.mem_cons_self

end ControlLoop.Reconciler
