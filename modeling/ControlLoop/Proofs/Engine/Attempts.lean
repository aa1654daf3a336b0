/-
What comes of the writes of a pass, and how the pass reports it.

# One key

Handling a key tries one write at most, which the store takes or refuses
(`attemptFor`). From this alone the outcome follows (`passKey_fst`): an
error if the store could not be reached or if the name of a new child is
taken by someone else's object (`hardError?`), and the wish to come back
if a race was lost or a child was deleted to be created anew
(`comesBackFor`).

# A whole pass

Each turn of a pass finds under its key what was there in the beginning.
The pass reports the first error of its turns, in the order of the keys,
and comes back after the one delay there is if any turn asks for it
(`error_reconcileSet`, `requeue_reconcileSet`). That the attempts are
all that a pass tries, and in which order, is `tried_eq_attempts`.
-/
import ControlLoop.Proofs.Engine.Gate
import ControlLoop.Proofs.Store.Answers

namespace ControlLoop

variable {τ β : Type}

/-- A write that was tried, with the error with which it was refused, if it was. -/
structure Attempt (β : Type) where
  write : Write β
  fault : Option Error

namespace Reconciler

variable [DecidableEq β] [Resource β]

-- ============================================================ one key

/-- The write that handling a key tries, if any, and what the store says to it. -/
def attemptFor (r : Reconciler (Memory β) τ β) (k : Key) (wanted : Bool)
    (current : Option (Object β)) (s : PassState (Memory β) τ) : Option (Attempt β) :=
  (r.writeFor k wanted current s.strategy).map fun w => ⟨w, s.store.fault? w⟩

/-- What is said of a child that cannot be created, because an object of someone else has its
name. -/
def nameTaken {σ : Type} (r : Reconciler σ τ β) (k : Key) : Error :=
  .conflict s!"{k.text}: name taken by an object not owned by {r.parent.name}"

/-- The error that an attempt adds to a pass, given the object that holds the key: the store could
not be reached, or a new child met an object that is no child of the parent. -/
def hardError? {σ : Type} (r : Reconciler σ τ β) (k : Key) (holder : Option (Object β)) :
    Attempt β → Option Error
  | ⟨_, some (.unavailable what)⟩ => some (.unavailable what)
  | ⟨.create _, some (.conflict _)⟩ =>
    if holder.any fun o => !r.selects o then some (r.nameTaken k) else none
  | _ => none

/-- Whether an attempt makes a pass come back: a wanted child was deleted, or the write was refused
for no other reason than that someone else was faster. -/
def comesBackFor {σ : Type} (r : Reconciler σ τ β) (k : Key) (wanted : Bool)
    (holder : Option (Object β)) : Attempt β → Bool
  | ⟨.delete _ _, none⟩ => wanted
  | ⟨_, none⟩ => false
  | ⟨w, some e⟩ => (r.hardError? k holder ⟨w, some e⟩).isNone

/-- The outcome of an attempt. -/
def outcomeOf {σ : Type} (r : Reconciler σ τ β) (k : Key) (wanted : Bool)
    (holder : Option (Object β)) (a : Option (Attempt β)) : Outcome :=
  ⟨a.bind (r.hardError? k holder), false,
    if a.any (r.comesBackFor k wanted holder) then some recreateDelay else none⟩

section

variable {σ : Type} (r : Reconciler σ τ β) (k : Key) (wanted : Bool)
  (holder : Option (Object β)) (a : Option (Attempt β))

omit [DecidableEq β] [Resource β] in
theorem isSome_requeueAfter_outcomeOf :
    (r.outcomeOf k wanted holder a).requeueAfter.isSome
      = a.any (r.comesBackFor k wanted holder) := by
  rw [outcomeOf]
  split
  · next h => exact h.symm
  · next h => exact (Bool.eq_false_iff.2 h).symm

omit [DecidableEq β] [Resource β] in
theorem waitsOnly_outcomeOf : (r.outcomeOf k wanted holder a).WaitsOnly recreateDelay := by
  refine ⟨rfl, fun d hd => ?_⟩
  rw [outcomeOf] at hd
  split at hd
  · exact (Option.some.inj hd).symm
  · cases hd

end

section

variable {r : Reconciler (Memory β) τ β} (hr : r.store = Memory.store) (k : Key)
  (s : PassState (Memory β) τ)

include hr

omit [DecidableEq β] [Resource β] in
theorem createConflict_fst (o : Object β) (what : String) :
    (r.createConflict k (.conflict what) s).1
      = r.outcomeOf k true (s.store.object? k) (some ⟨.create o, some (.conflict what)⟩) := by
  simp only [createConflict, store_get hr]
  cases hh : s.store.object? k with
  | none => rfl
  | some holder =>
      cases hsel : r.selects holder with
      | true =>
          simp only [outcomeOf, hardError?, comesBackFor, Option.bind_some, Option.any_some, hsel]
          rfl
      | false =>
          simp only [outcomeOf, hardError?, comesBackFor, Option.bind_some, Option.any_some, hsel]
          rfl

omit [DecidableEq β] [Resource β] in
theorem create_fst :
    (r.create k s).1
      = r.outcomeOf k true (s.store.object? k)
          (some ⟨.create (r.claimed k (r.strategy.newObject k s.strategy).1),
            s.store.fault? (.create (r.claimed k (r.strategy.newObject k s.strategy).1))⟩) := by
  rcases hnew : r.strategy.newObject k s.strategy with ⟨o, t⟩
  have hconflict := createConflict_fst hr k { s with strategy := t } (r.claimed k o)
  have hcreate : r.store.create (r.claimed k o) s.store = s.store.create (r.claimed k o) := by
    rw [hr]
    rfl
  simp only [create, hnew, hcreate, Memory.fault?]
  rcases s.store.create_cases (r.claimed k o) with ⟨e, he, hc⟩ | ⟨-, -, hc⟩ | ⟨-, -, hc⟩ <;>
    rw [hc]
  · rcases Memory.refusal?_cases he with rfl | rfl
    · rfl
    · exact hconflict _
  · exact hconflict _
  · rfl

omit [DecidableEq β] [Resource β] in
/-- A deletion has the outcome of an attempt if it has it where it lands. -/
theorem remove_fst (wanted : Bool) (op : ChildOperation) (done : Outcome) (current : Object β)
    (p : Propagation)
    (hdone : r.outcomeOf k wanted (s.store.object? k) (some ⟨.delete k p, none⟩) = done) :
    (r.remove op done k current s).1
      = r.outcomeOf k wanted (s.store.object? k)
          (some ⟨.delete k p, s.store.fault? (.delete k p)⟩) := by
  simp only [remove, observe, store_delete hr, Memory.fault?]
  rcases s.store.delete_cases k with ⟨e, he, hd⟩ | ⟨-, -, hd⟩ | ⟨-, -, hd⟩ <;> rw [hd]
  · rcases Memory.refusal?_cases he with rfl | rfl <;> rfl
  · rfl
  · exact hdone.symm

omit [Resource β] in
theorem write_fst {current next : Object β} (hne : next ≠ current) :
    (r.write k current next s).1
      = r.outcomeOf k true (s.store.object? k)
          (some ⟨.replace next, s.store.fault? (.replace next)⟩) := by
  have hreplace : r.store.replace next s.store = s.store.replace next := by
    rw [hr]
    rfl
  simp only [write, if_neg hne, hreplace, Memory.fault?]
  rcases s.store.replace_cases next with
    ⟨e, he, hc⟩ | ⟨-, -, hc⟩ | ⟨-, -, hc⟩ | ⟨-, -, hc⟩ <;> rw [hc]
  · rcases Memory.refusal?_cases he with rfl | rfl <;> rfl
  · rfl
  · rfl
  · rfl

theorem update_fst (current : Object β) :
    (r.update k current s).1
      = r.outcomeOf k true (s.store.object? k) (r.attemptFor k true (some current) s) := by
  by_cases hterm : current.metadata.isTerminating = true
  · rw [attemptFor, writeFor_of_terminating hterm]
    simp only [update, if_pos hterm]
    rfl
  · simp only [attemptFor, writeFor, writeForUpdate, update, if_neg hterm]
    rcases r.plan k current s.strategy with ⟨_ | ⟨next, schedules⟩, t⟩
    · exact remove_fst hr k { s with strategy := t } true .recreate (.after recreateDelay) current _ rfl
    · by_cases hne : next = current
      · simp only [write, if_pos hne]
        rfl
      · simp only [if_neg hne]
        cases schedules with
        | false => exact write_fst hr k { s with strategy := t } hne
        | true => exact write_fst hr k (record .schedule { s with strategy := t }) hne

omit [DecidableEq β] [Resource β] in
theorem turnDown_fst (current : Object β) :
    (r.turnDown k current s).1
      = r.outcomeOf k false (s.store.object? k)
          ((r.writeForTurnDown k current s.strategy).map fun w => ⟨w, s.store.fault? w⟩) := by
  by_cases hterm : current.metadata.isTerminating = true
  · simp only [turnDown, writeForTurnDown, if_pos hterm]
    rfl
  · simp only [turnDown, writeForTurnDown, if_neg hterm]
    rcases r.strategy.prepareTurndown k current s.strategy with ⟨_ | orphan, t⟩
    · exact remove_fst hr k { s with strategy := t } false .delete .ok current _ rfl
    · rfl

/-- The outcome of handling a key follows from what it tries and from what the store says to
that. -/
theorem passKey_fst (wanted : Bool) (current : Option (Object β)) :
    (r.passKey k wanted current s).1
      = r.outcomeOf k wanted (s.store.object? k) (r.attemptFor k wanted current s) := by
  cases wanted with
  | true =>
      cases current with
      | none => exact create_fst hr k s
      | some o => exact update_fst hr k s o
  | false =>
      cases current with
      | none => rfl
      | some o => exact turnDown_fst hr k s o

end

-- ======================================================== a whole pass

section

variable {σ : Type} (r : Reconciler σ τ β) (desired : SortedSet Key)
  (existing : SortedMap Key (Object β))

/-- What is gathered from a run over different keys is gathered from the turns of the keys. -/
theorem along_eq_flatMap {α : Type} (adds : Key → PassState σ τ → List α) {ks : List Key}
    (hnd : ks.Nodup) (s : PassState σ τ) :
    r.along desired existing adds ks s
      = ks.flatMap fun k => adds k (r.passAll desired existing (ks.takeWhile (· ≠ k)) s).2 := by
  induction ks generalizing s with
  | nil => rfl
  | cons k ks ih =>
      obtain ⟨hnot, hnd⟩ := List.nodup_cons.1 hnd
      rw [along, ih hnd, List.flatMap_cons, List.takeWhile_cons_of_neg (by simp),
        List.flatMap_def, List.flatMap_def]
      refine congrArg (adds k s ++ List.flatten ·) (List.map_congr_left fun k' hk' => ?_)
      have hne : k ≠ k' := fun heq => hnot (heq ▸ hk')
      rw [List.takeWhile_cons_of_pos (by simpa using hne)]
      rfl

/-- The outcomes of a run are gathered from its turns. -/
theorem passAll_fst_eq_along (ks : List Key) (s : PassState σ τ) :
    (r.passAll desired existing ks s).1
      = r.along desired existing
          (fun k s => [(r.passKey k (desired.contains k) (existing.get? k) s).1]) ks s := by
  induction ks generalizing s with
  | nil => rfl
  | cons k ks ih =>
      rw [along, List.singleton_append, ← ih]
      rfl

end

/-- What a pass tries at a key, if anything, and what the store says to it. -/
def attempt? (r : Reconciler (Memory β) τ β) (desired : SortedSet Key)
    (s : PassState (Memory β) τ) (k : Key) : Option (Attempt β) :=
  r.attemptFor k (desired.contains k) ((r.owned s.store).get? k) (r.turn desired s k)

/-- It is the write that the key's turn asks for. -/
theorem attempt?_eq_some {r : Reconciler (Memory β) τ β} {desired : SortedSet Key}
    {s : PassState (Memory β) τ} {k : Key} {a : Attempt β} :
    r.attempt? desired s k = some a
      ↔ r.writeFor k (desired.contains k) ((r.owned s.store).get? k)
          (r.turn desired s k).strategy = some a.write
        ∧ (r.turn desired s k).store.fault? a.write = a.fault := by
  rw [attempt?, attemptFor, Option.map_eq_some_iff]
  constructor
  · rintro ⟨w, hw, rfl⟩
    exact ⟨hw, rfl⟩
  · rintro ⟨hw, hfault⟩
    exact ⟨a.write, hw, hfault ▸ rfl⟩

section

variable {r : Reconciler (Memory β) τ β} (hr : r.store = Memory.store) (hv : r.PlansKeepVersion)
  {desired : SortedSet Key} {s : PassState (Memory β) τ} (hm : s.store.Reachable)
  (hl : s.store.listsFail = false)

include hr hv hm hl

/-- A pass merges the outcomes of what it tries at its keys, each of which holds then what it held
in the beginning. -/
theorem reconcileSet_fst :
    (r.reconcileSet desired s).1
      = Outcome.mergeAll ((passKeys desired (r.owned s.store)).map fun k =>
          r.outcomeOf k (desired.contains k) (s.store.object? k) (r.attempt? desired s k)) := by
  rw [reconcileSet_of_lists hr hm.sound hl]
  refine congrArg Outcome.mergeAll ?_
  rw [passAll_fst_eq_along, along_eq_flatMap _ _ _ _ (r.ready_passKeys desired hm).nodup,
    ← List.map_eq_flatMap]
  refine List.map_congr_left fun k _ => ?_
  rw [← object?_turn hr hv hm k]
  exact passKey_fst hr k (r.turn desired s k) _ _

omit hv in
/-- What a pass tries, in order, are its attempts. -/
theorem tried_eq_attempts :
    r.tried desired s = (passKeys desired (r.owned s.store)).flatMap fun k =>
      ((r.attempt? desired s k).map (·.write)).toList := by
  rw [tried_of_lists hr hm.sound hl, writesFor_eq_along,
    along_eq_flatMap _ _ _ _ (r.ready_passKeys desired hm).nodup, List.flatMap_def,
    List.flatMap_def]
  refine congrArg List.flatten (List.map_congr_left fun k _ => ?_)
  rw [attempt?, attemptFor, Option.map_map]
  exact congrArg Option.toList (congrFun Option.map_id _).symm

/-- The error of a pass is the first that its attempts add. -/
theorem error_reconcileSet :
    (r.reconcileSet desired s).1.error
      = (passKeys desired (r.owned s.store)).findSome? fun k =>
          (r.attempt? desired s k).bind (r.hardError? k (s.store.object? k)) := by
  rw [reconcileSet_fst hr hv hm hl, Outcome.error_mergeAll, List.findSome?_map]
  rfl

/-- A pass never wants to come back at once. It wants to come back after the delay for this if one
of its attempts makes it. -/
theorem requeue_reconcileSet :
    (r.reconcileSet desired s).1.requeueNow = false
      ∧ (r.reconcileSet desired s).1.requeueAfter
        = if (passKeys desired (r.owned s.store)).any fun k =>
            (r.attempt? desired s k).any
              (r.comesBackFor k (desired.contains k) (s.store.object? k))
          then some recreateDelay else none := by
  have hwaits : ∀ o ∈ (passKeys desired (r.owned s.store)).map fun k =>
      r.outcomeOf k (desired.contains k) (s.store.object? k) (r.attempt? desired s k),
      o.WaitsOnly recreateDelay := by
    intro o ho
    obtain ⟨k, -, rfl⟩ := List.mem_map.1 ho
    exact r.waitsOnly_outcomeOf _ _ _ _
  rw [reconcileSet_fst hr hv hm hl]
  refine ⟨(Outcome.WaitsOnly.mergeAll hwaits).notNow, ?_⟩
  simp only [Outcome.WaitsOnly.requeueAfter_mergeAll_eq hwaits, List.any_map, Function.comp_def,
    isSome_requeueAfter_outcomeOf]

/-- What a key that is handled holds after a pass is what the attempt leaves. -/
theorem object?_of_attempt {k : Key} (hk : k ∈ passKeys desired (r.owned s.store)) :
    (r.reconcileSet desired s).2.store.object? k
      = match r.attempt? desired s k with
        | none => s.store.object? k
        | some a => ((r.turn desired s k).store.after a.write).object? k := by
  rw [object?_reconcileSet hr hv hm hl hk, passKey_store hr, attempt?, attemptFor]
  cases r.writeFor k (desired.contains k) ((r.owned s.store).get? k)
      (r.turn desired s k).strategy with
  | none => exact object?_turn hr hv hm k
  | some w => rfl

end

end Reconciler

end ControlLoop
