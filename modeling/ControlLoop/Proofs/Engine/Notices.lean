/-
What a strategy is shown and asked in the course of a pass.

A strategy that takes notes does everything as before and keeps, beside
its own state, each object that it is shown, each child that it is asked
about, with its answer, and each that it is told was kept from going.
What is said about an object can so be told from what is done about it.

Handling a key gives notice about that key alone (`noticesFor`), and
running the engine on a strategy that takes notes changes nothing else
(`reconcileSet_noted`).
-/
import ControlLoop.Proofs.Engine.Frame

namespace ControlLoop

variable {σ τ β : Type}

-- ============================================================ notices

/-- What a strategy is shown or asked. -/
inductive Notice (β : Type) where
  /-- An object that exists. -/
  | status (k : Key) (o : Object β)
  /-- Whether there is a reason to keep a child that nobody wants, and the answer. -/
  | asked (k : Key) (o : Object β) (answer : Option OrphanStatus)
  /-- A child that is kept from going, with the reason. -/
  | kept (k : Key) (o : Object β) (reason : OrphanStatus)

/-- The key that a notice is about. -/
def Notice.key : Notice β → Key
  | .status k _ => k
  | .asked k _ _ => k
  | .kept k _ _ => k

/-- Whether a notice is about a child that nobody wants. -/
def Notice.isTurndown : Notice β → Bool
  | .status _ _ => false
  | .asked _ _ _ => true
  | .kept _ _ _ => true

/-- The same strategy, which notes what it is shown and asked. -/
def Strategy.noted (S : Strategy τ β) : Strategy (τ × List (Notice β)) β where
  newObject k t := ((S.newObject k t.1).1, (S.newObject k t.1).2, t.2)
  updateInPlace k o t := ((S.updateInPlace k o t.1).1, (S.updateInPlace k o t.1).2, t.2)
  rollInPlace k o t := ((S.rollInPlace k o t.1).1, (S.rollInPlace k o t.1).2, t.2)
  rollRecreate k o t := ((S.rollRecreate k o t.1).1, (S.rollRecreate k o t.1).2, t.2)
  updateMode t := S.updateMode t.1
  propagation t := S.propagation t.1
  status k o t := (S.status k o t.1, t.2 ++ [.status k o])
  prepareTurndown k o t :=
    ((S.prepareTurndown k o t.1).1, (S.prepareTurndown k o t.1).2,
      t.2 ++ [.asked k o (S.prepareTurndown k o t.1).1])
  orphanStatus k o reason t := (S.orphanStatus k o reason t.1, t.2 ++ [.kept k o reason])

/-- The same reconciler with a strategy that takes notes. -/
def Reconciler.noted (r : Reconciler σ τ β) : Reconciler σ (τ × List (Notice β)) β :=
  ⟨r.store, r.strategy.noted, r.parent, r.selector⟩

/-- The state of a pass whose strategy has taken some notes. -/
def PassState.noted (s : PassState σ τ) (ns : List (Notice β)) :
    PassState σ (τ × List (Notice β)) :=
  ⟨s.store, (s.strategy, ns), s.operations⟩

@[simp] theorem PassState.noted_store (s : PassState σ τ) (ns : List (Notice β)) :
    (s.noted ns).store = s.store := rfl

@[simp] theorem PassState.noted_strategy (s : PassState σ τ) (ns : List (Notice β)) :
    (s.noted ns).strategy = (s.strategy, ns) := rfl

namespace Reconciler

@[simp] theorem noted_store (r : Reconciler σ τ β) : r.noted.store = r.store := rfl

@[simp] theorem noted_strategy (r : Reconciler σ τ β) : r.noted.strategy = r.strategy.noted := rfl

@[simp] theorem noted_claimed (r : Reconciler σ τ β) : r.noted.claimed = r.claimed := rfl

theorem roll_noted (S : Strategy τ β) (mode : UpdateMode) (k : Key) (o : Object β) (t : τ)
    (ns : List (Notice β)) :
    S.noted.roll mode k o (t, ns) = ((S.roll mode k o t).1, (S.roll mode k o t).2, ns) := by
  cases mode with
  | recreate => rfl
  | inPlace => rfl

variable [DecidableEq β] [Resource β]

theorem plan_noted (r : Reconciler σ τ β) (k : Key) (current : Object β) (t : τ)
    (ns : List (Notice β)) :
    r.noted.plan k current (t, ns)
      = ((r.plan k current t).1, (r.plan k current t).2, ns) := by
  simp only [plan, noted]
  show (planFor _ current _ (r.strategy.noted.roll _ k _ (_, ns)).1,
      (r.strategy.noted.roll _ k _ (_, ns)).2) = _
  rw [roll_noted]
  rfl

-- ============================================== the notices of a key

/-- What an object is shown as once its creation was tried. -/
def noticesForCreate (r : Reconciler σ τ β) (k : Key) (s : PassState σ τ) : List (Notice β) :=
  match (r.store.create (r.claimed k (r.strategy.newObject k s.strategy).1) s.store).1 with
  | .ok created => [.status k created]
  | .error _ => []

/-- What a child is shown as once its update was tried: as it is stored then. -/
def noticesForUpdate (r : Reconciler σ τ β) (k : Key) (current : Object β) (s : PassState σ τ) :
    List (Notice β) :=
  if current.metadata.isTerminating then [.status k current]
  else
    match (r.plan k current s.strategy).1 with
    | .recreate => [.status k current]
    | .write next _ =>
      if next = current then [.status k current]
      else
        match (r.store.replace next s.store).1 with
        | .ok updated => [.status k updated]
        | .error _ => [.status k current]

/-- What is said about a child that nobody wants. -/
def noticesForTurnDown (r : Reconciler σ τ β) (k : Key) (current : Object β) (t : τ) :
    List (Notice β) :=
  if current.metadata.isTerminating then [.status k current]
  else
    match (r.strategy.prepareTurndown k current t).1 with
    | some reason => [.asked k current (some reason), .kept k current reason, .status k current]
    | none => [.asked k current none, .status k current]

/-- The notices that handling a key gives. -/
def noticesFor (r : Reconciler σ τ β) (k : Key) (wanted : Bool) (current : Option (Object β))
    (s : PassState σ τ) : List (Notice β) :=
  match wanted, current with
  | true, none => r.noticesForCreate k s
  | true, some o => r.noticesForUpdate k o s
  | false, some o => r.noticesForTurnDown k o s.strategy
  | false, none => []

/-- They are about that key. -/
theorem key_of_mem_noticesFor (r : Reconciler σ τ β) {k : Key} {wanted : Bool}
    {current : Option (Object β)} {s : PassState σ τ} {n : Notice β}
    (hn : n ∈ r.noticesFor k wanted current s) : n.key = k := by
  unfold noticesFor noticesForCreate noticesForUpdate noticesForTurnDown at hn
  split at hn
  · split at hn
    · obtain rfl := List.mem_singleton.1 hn
      rfl
    · cases hn
  · split at hn
    · obtain rfl := List.mem_singleton.1 hn
      rfl
    · split at hn
      · obtain rfl := List.mem_singleton.1 hn
        rfl
      · split at hn
        · obtain rfl := List.mem_singleton.1 hn
          rfl
        · split at hn <;>
          · obtain rfl := List.mem_singleton.1 hn
            rfl
  · split at hn
    · obtain rfl := List.mem_singleton.1 hn
      rfl
    · split at hn
      · rcases hn with _ | ⟨_, _ | ⟨_, _ | ⟨_, hn⟩⟩⟩
        · rfl
        · rfl
        · rfl
        · cases hn
      · rcases hn with _ | ⟨_, _ | ⟨_, hn⟩⟩
        · rfl
        · rfl
        · cases hn
  · cases hn

section

variable (r : Reconciler σ τ β) (k : Key) (s : PassState σ τ) (ns : List (Notice β))

omit [DecidableEq β] [Resource β] in
theorem createConflict_noted (e : Error) :
    r.noted.createConflict k e (s.noted ns)
      = ((r.createConflict k e s).1, (r.createConflict k e s).2.noted ns) := by
  simp only [createConflict, noted_store, PassState.noted_store]
  rcases r.store.get k s.store with ⟨_ | _ | holder, st⟩
  · rfl
  · rfl
  · by_cases h : r.selects holder = true
    · simp only [if_pos h, show r.noted.selects holder = true from h]
      rfl
    · simp only [if_neg h, show ¬ r.noted.selects holder = true from h]
      rfl

omit [DecidableEq β] [Resource β] in
theorem create_noted :
    r.noted.create k (s.noted ns)
      = ((r.create k s).1, (r.create k s).2.noted (ns ++ r.noticesForCreate k s)) := by
  rcases hnew : r.strategy.newObject k s.strategy with ⟨o, t⟩
  simp only [create, noticesForCreate, noted_store, noted_strategy, noted_claimed,
    PassState.noted_store, PassState.noted_strategy, Strategy.noted, hnew]
  rcases r.store.create (r.claimed k o) s.store with ⟨e | created, st⟩
  · simp only [List.append_nil]
    by_cases h : e.isConflict = true
    · simp only [if_pos h]
      exact r.createConflict_noted k { s with store := st, strategy := t } ns e
    · simp only [if_neg h]
      rfl
  · rfl

omit [DecidableEq β] [Resource β] in
theorem remove_noted (op : ChildOperation) (done : Outcome) (current : Object β) :
    r.noted.remove op done k current (s.noted ns)
      = ((r.remove op done k current s).1, (r.remove op done k current s).2.noted
          (ns ++ [.status k current])) := by
  simp only [remove, observe, noted_store, noted_strategy, PassState.noted_store,
    PassState.noted_strategy, Strategy.noted]
  rcases r.store.delete k _ s.store with ⟨e | _, st⟩
  · rfl
  · rfl

omit [Resource β] in
/-- A child whose next state was tried is shown as it is stored then. -/
theorem write_noted (current next : Object β) :
    r.noted.write k current next (s.noted ns)
      = ((r.write k current next s).1, (r.write k current next s).2.noted
          (ns ++ if next = current then [.status k current]
            else match (r.store.replace next s.store).1 with
              | .ok updated => [.status k updated]
              | .error _ => [.status k current])) := by
  by_cases h : next = current
  · simp only [write, if_pos h]
    rfl
  · simp only [write, if_neg h, noted_store, PassState.noted_store]
    rcases r.store.replace next s.store with ⟨e | updated, st⟩
    · rfl
    · rfl

theorem update_noted (current : Object β) :
    r.noted.update k current (s.noted ns)
      = ((r.update k current s).1, (r.update k current s).2.noted
          (ns ++ r.noticesForUpdate k current s)) := by
  by_cases hterm : current.metadata.isTerminating = true
  · simp only [update, noticesForUpdate, if_pos hterm]
    rfl
  · simp only [update, noticesForUpdate, if_neg hterm, PassState.noted_strategy, plan_noted]
    rcases r.plan k current s.strategy with ⟨_ | ⟨next, schedules⟩, t⟩
    · exact r.remove_noted k { s with strategy := t } ns .recreate _ current
    · cases schedules with
      | false => exact r.write_noted k { s with strategy := t } ns current next
      | true => exact r.write_noted k (record .schedule { s with strategy := t }) ns current next

omit [DecidableEq β] [Resource β] in
theorem turnDown_noted (current : Object β) :
    r.noted.turnDown k current (s.noted ns)
      = ((r.turnDown k current s).1, (r.turnDown k current s).2.noted
          (ns ++ r.noticesForTurnDown k current s.strategy)) := by
  by_cases hterm : current.metadata.isTerminating = true
  · simp only [turnDown, noticesForTurnDown, if_pos hterm]
    rfl
  · rcases hask : r.strategy.prepareTurndown k current s.strategy with ⟨_ | reason, t⟩
    · have hdelete := r.remove_noted k { s with strategy := t } (ns ++ [.asked k current none])
        .delete .ok current
      simp only [turnDown, noticesForTurnDown, if_neg hterm, noted_strategy,
        PassState.noted_strategy, Strategy.noted, hask]
      rw [List.append_assoc] at hdelete
      exact hdelete
    · simp only [turnDown, noticesForTurnDown, if_neg hterm, noted_strategy,
        PassState.noted_strategy, Strategy.noted, hask]
      rw [show ns ++ [.asked k current (some reason), .kept k current reason, .status k current]
          = ns ++ [.asked k current (some reason)] ++ [.kept k current reason]
            ++ [.status k current] by simp]
      rfl

/-- Handling a key gives its notices, and with a strategy that takes notes does everything else as
before. -/
theorem passKey_noted (wanted : Bool) (current : Option (Object β)) :
    r.noted.passKey k wanted current (s.noted ns)
      = ((r.passKey k wanted current s).1, (r.passKey k wanted current s).2.noted
          (ns ++ r.noticesFor k wanted current s)) := by
  cases wanted with
  | true =>
      cases current with
      | none => exact r.create_noted k s ns
      | some o => exact r.update_noted k s ns o
  | false =>
      cases current with
      | none => exact Prod.ext rfl (congrArg s.noted (List.append_nil ns).symm)
      | some o => exact r.turnDown_noted k s ns o

end

-- ================================================ the notices of a pass

theorem passAll_noted (r : Reconciler σ τ β) (desired : SortedSet Key)
    (existing : SortedMap Key (Object β)) (ks : List Key) (s : PassState σ τ)
    (ns : List (Notice β)) :
    r.noted.passAll desired existing ks (s.noted ns)
      = ((r.passAll desired existing ks s).1, (r.passAll desired existing ks s).2.noted
          (ns ++ r.along desired existing
            (fun k s => r.noticesFor k (desired.contains k) (existing.get? k) s) ks s)) :=
  passAll_gathers (fun k s ns => r.passKey_noted k s ns _ _) ks s ns

/-- The notices that a pass gives, in order. -/
def notices (r : Reconciler σ τ β) (desired : SortedSet Key) (s : PassState σ τ) :
    List (Notice β) :=
  (r.noted.reconcileSet desired (s.noted [])).2.strategy.2

section

variable (r : Reconciler σ τ β) (desired : SortedSet Key) {s : PassState σ τ}

theorem reconcileSet_noted_of_error {e : Error} {st : σ}
    (h : r.store.list r.parent.space r.selector s.store = (.error e, st)) :
    r.noted.reconcileSet desired (s.noted [])
      = ((r.reconcileSet desired s).1, (r.reconcileSet desired s).2.noted []) := by
  have hlist : r.noted.store.list r.noted.parent.space r.noted.selector
      (s.noted ([] : List (Notice β))).store = (.error e, st) := h
  simp only [reconcileSet, hlist, h]
  rfl

theorem reconcileSet_noted_of_ok {objects : List (Object β)} {st : σ}
    (h : r.store.list r.parent.space r.selector s.store = (.ok objects, st)) :
    r.noted.reconcileSet desired (s.noted [])
      = ((r.reconcileSet desired s).1, (r.reconcileSet desired s).2.noted
          (r.along desired (r.children objects) (fun k s => r.noticesFor k (desired.contains k)
            ((r.children objects).get? k) s) (passKeys desired (r.children objects))
            { s with store := st })) := by
  have hlist : r.noted.store.list r.noted.parent.space r.noted.selector
      (s.noted ([] : List (Notice β))).store = (.ok objects, st) := h
  have hrun := r.passAll_noted desired (r.children objects)
    (passKeys desired (r.children objects)) { s with store := st } []
  simp only [reconcileSet, hlist, h]
  exact congrArg (fun p => (Outcome.mergeAll p.1, p.2)) hrun

/-- With a strategy that takes notes a pass notes what it shows and asks, and does everything else as
before. -/
theorem reconcileSet_noted (s : PassState σ τ) :
    r.noted.reconcileSet desired (s.noted [])
      = ((r.reconcileSet desired s).1,
        (r.reconcileSet desired s).2.noted (r.notices desired s)) := by
  rcases hlist : r.store.list r.parent.space r.selector s.store with ⟨e | objects, st⟩
  · rw [notices, r.reconcileSet_noted_of_error desired hlist]
    rfl
  · rw [notices, r.reconcileSet_noted_of_ok desired hlist]
    rfl

end

-- ================================================= on a store in memory

section

variable {r : Reconciler (Memory β) τ β} (hr : r.store = Memory.store)
  {desired : SortedSet Key} {s : PassState (Memory β) τ}

include hr

theorem notices_of_listsFail (hl : s.store.listsFail = true) : r.notices desired s = [] := by
  rw [notices, r.reconcileSet_noted_of_error desired (list_of_listsFail hr hl)]
  rfl

theorem notices_of_lists (hm : s.store.Sound) (hl : s.store.listsFail = false) :
    r.notices desired s
      = r.along desired (r.owned s.store)
          (fun k s' => r.noticesFor k (desired.contains k) ((r.owned s.store).get? k) s')
          (passKeys desired (r.owned s.store)) s := by
  rw [notices, r.reconcileSet_noted_of_ok desired (list_of_lists hr hl), r.children_matching hm]
  rfl

variable (hm : s.store.Reachable) (hl : s.store.listsFail = false) {k : Key}

include hm hl

/-- The notices of a pass about a key are those of the key's turn. -/
theorem filter_notices (hk : k ∈ passKeys desired (r.owned s.store)) :
    (r.notices desired s).filter (·.key = k)
      = r.noticesFor k (desired.contains k) ((r.owned s.store).get? k) (r.turn desired s k) := by
  obtain ⟨rest, hks⟩ := exists_eq_takeWhile_append hk
  have hnd := (r.ready_passKeys desired hm).nodup
  rw [hks] at hnd
  rw [notices_of_lists hr hm.sound hl, hks]
  exact filter_along (fun k s n => key_of_mem_noticesFor r) hnd s

theorem filter_notices_of_notMem (hk : k ∉ passKeys desired (r.owned s.store)) :
    (r.notices desired s).filter (·.key = k) = [] := by
  rw [notices_of_lists hr hm.sound hl]
  exact filter_along_of_notMem (fun k s n => key_of_mem_noticesFor r) hk s

end

end Reconciler

end ControlLoop
