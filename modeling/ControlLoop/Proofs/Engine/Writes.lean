/-
What the engine asks of the store when it handles one key.

Whatever becomes of a key, the store is asked for one write at most, and
which one is decided before it is made: by what is wanted, by the child
that was seen, and by the state of the strategy (`writeFor`). The calls
for a key (`exchangesFor`) are this write and, if a creation finds the
name taken, one look at who has it. That the engine makes exactly these
is shown by running it on a recorded store (`passKey_recorded`), where it
does everything else as before; and a whole pass makes the calls of its
turns (`reconcileSet_recorded_of_ok`). A traced store is a recorded one
that keeps the writes alone.

A write has a reason (`Asks`): a wanted key is free, or its child is to
have another form, or it is in the way of a released change, or nobody
wants it. A terminating child is never a reason.
-/
import ControlLoop.Engine
import ControlLoop.Proofs.Store.Traced

namespace ControlLoop

variable {σ τ β : Type}

-- ========================================================= recording

/-- The same reconciler on a store that takes notes of its calls. -/
def Reconciler.recorded {α : Type} (r : Reconciler σ τ β) (note : Exchange β → List α) :
    Reconciler (σ × List α) τ β :=
  ⟨r.store.recorded note, r.strategy, r.parent, r.selector⟩

/-- The state of a pass on a recorded store that has taken some notes. -/
def PassState.recording {α : Type} (s : PassState σ τ) (xs : List α) : PassState (σ × List α) τ :=
  ⟨(s.store, xs), s.strategy, s.operations⟩

@[simp] theorem PassState.recording_store {α : Type} (s : PassState σ τ) (xs : List α) :
    (s.recording xs).store = (s.store, xs) := rfl

@[simp] theorem PassState.recording_strategy {α : Type} (s : PassState σ τ) (xs : List α) :
    (s.recording xs).strategy = s.strategy := rfl

/-- The same reconciler on a store that notes what it is asked for. -/
def Reconciler.traced (r : Reconciler σ τ β) : Reconciler (σ × List (Write β)) τ β :=
  ⟨r.store.traced, r.strategy, r.parent, r.selector⟩

/-- The state of a pass on a traced store that has noted some writes. -/
def PassState.noting (s : PassState σ τ) (ws : List (Write β)) :
    PassState (σ × List (Write β)) τ :=
  ⟨(s.store, ws), s.strategy, s.operations⟩

namespace Reconciler

section

variable {α : Type} (r : Reconciler σ τ β) (note : Exchange β → List α)

@[simp] theorem recorded_store : (r.recorded note).store = r.store.recorded note := rfl

@[simp] theorem recorded_strategy : (r.recorded note).strategy = r.strategy := rfl

@[simp] theorem recorded_claimed : (r.recorded note).claimed = r.claimed := rfl

@[simp] theorem recorded_plan [DecidableEq β] [Resource β] : (r.recorded note).plan = r.plan := rfl

end

variable [DecidableEq β] [Resource β]

-- ================================================ the write for a key

/-- The write that an update asks for. -/
def writeForUpdate (r : Reconciler σ τ β) (k : Key) (current : Object β) (t : τ) :
    Option (Write β) :=
  if current.metadata.isTerminating then none
  else
    match r.plan k current t with
    | (.recreate, t) =>
      some (.delete k (r.strategy.propagation (r.strategy.status k current t)))
    | (.write next _, _) => if next = current then none else some (.replace next)

/-- The write that turning down a child asks for. -/
def writeForTurnDown (r : Reconciler σ τ β) (k : Key) (current : Object β) (t : τ) :
    Option (Write β) :=
  if current.metadata.isTerminating then none
  else
    match r.strategy.prepareTurndown k current t with
    | (some _, _) => none
    | (none, t) => some (.delete k (r.strategy.propagation (r.strategy.status k current t)))

/-- The write that handling a key asks for, if any. -/
def writeFor (r : Reconciler σ τ β) (k : Key) (wanted : Bool) (current : Option (Object β))
    (t : τ) : Option (Write β) :=
  match wanted, current with
  | true, none => some (.create (r.claimed k (r.strategy.newObject k t).1))
  | true, some o => r.writeForUpdate k o t
  | false, some o => r.writeForTurnDown k o t
  | false, none => none

-- ================================================ the calls for a key

/-- The calls of a creation: if the name is taken, the second one looks who has it. -/
def exchangesForCreate (r : Reconciler σ τ β) (k : Key) (s : PassState σ τ) :
    List (Exchange β) :=
  let o := r.claimed k (r.strategy.newObject k s.strategy).1
  match r.store.create o s.store with
  | (.ok created, _) => [.create o (.ok created)]
  | (.error e, st) =>
    .create o (.error e) :: if e.isConflict then [.get k (r.store.get k st).1] else []

/-- The calls that handling a key makes, with their answers. -/
def exchangesFor (r : Reconciler σ τ β) (k : Key) (wanted : Bool) (current : Option (Object β))
    (s : PassState σ τ) : List (Exchange β) :=
  match wanted, current with
  | true, none => r.exchangesForCreate k s
  | _, some o => ((r.writeFor k wanted (some o) s.strategy).map (r.store.exchangeOf s.store)).toList
  | false, none => []

section

variable {α : Type} (r : Reconciler σ τ β) (note : Exchange β → List α) (k : Key)
  (s : PassState σ τ) (xs : List α)

omit [DecidableEq β] [Resource β] in
theorem createConflict_recorded (e : Error) :
    (r.recorded note).createConflict k e (s.recording xs)
      = ((r.createConflict k e s).1, (r.createConflict k e s).2.recording
          (xs ++ note (.get k (r.store.get k s.store).1))) := by
  simp only [createConflict, recorded_store, PassState.recording_store, Store.recorded_get]
  rcases r.store.get k s.store with ⟨_ | _ | holder, st⟩
  · rfl
  · rfl
  · by_cases h : r.selects holder = true
    · simp only [if_pos h, show (r.recorded note).selects holder = true from h]
      rfl
    · simp only [if_neg h, show ¬ (r.recorded note).selects holder = true from h]
      rfl

omit [DecidableEq β] [Resource β] in
/-- A creation asks for the claimed object, once. -/
theorem create_recorded :
    (r.recorded note).create k (s.recording xs)
      = ((r.create k s).1, (r.create k s).2.recording
          (xs ++ (r.exchangesForCreate k s).flatMap note)) := by
  rcases hnew : r.strategy.newObject k s.strategy with ⟨o, t⟩
  simp only [create, exchangesForCreate, recorded_store, recorded_strategy, recorded_claimed,
    PassState.recording_store, PassState.recording_strategy, Store.recorded_create,
    Store.exchangeOf, hnew]
  rcases r.store.create (r.claimed k o) s.store with ⟨e | created, st⟩
  · by_cases h : e.isConflict = true
    · have hlook := r.createConflict_recorded note k { s with store := st, strategy := t }
        (xs ++ note (.create (r.claimed k o) (.error e))) e
      simp only [if_pos h, List.flatMap_cons, List.flatMap_nil, List.append_nil]
      rw [List.append_assoc] at hlook
      exact hlook
    · simp only [if_neg h, List.flatMap_singleton]
      rfl
  · simp only [List.flatMap_singleton]
    rfl

omit [DecidableEq β] [Resource β] in
theorem remove_recorded (op : ChildOperation) (done : Outcome) (current : Object β) :
    (r.recorded note).remove op done k current (s.recording xs)
      = ((r.remove op done k current s).1, (r.remove op done k current s).2.recording
          (xs ++ note (r.store.exchangeOf s.store (.delete k
            (r.strategy.propagation (r.strategy.status k current s.strategy)))))) := by
  simp only [remove, observe, recorded_store, recorded_strategy, PassState.recording_store,
    PassState.recording_strategy, Store.recorded_delete]
  rcases r.store.delete k _ s.store with ⟨e | _, st⟩
  · rfl
  · rfl

/-- The notes of the one call for a write, or of none. -/
def notesOf (r : Reconciler σ τ β) (note : Exchange β → List α) (st : σ) (w : Option (Write β)) :
    List α :=
  ((w.map (r.store.exchangeOf st)).toList).flatMap note

omit [DecidableEq β] [Resource β] in
theorem notesOf_none (st : σ) : r.notesOf note st none = [] := rfl

omit [DecidableEq β] [Resource β] in
theorem notesOf_some (st : σ) (w : Write β) :
    r.notesOf note st (some w) = note (r.store.exchangeOf st w) := List.flatMap_singleton ..

omit [Resource β] in
/-- The next state of a child is asked for if it differs from the current one. -/
theorem write_recorded (current next : Object β) :
    (r.recorded note).write k current next (s.recording xs)
      = ((r.write k current next s).1, (r.write k current next s).2.recording
          (xs ++ r.notesOf note s.store
            (if next = current then none else some (.replace next)))) := by
  by_cases h : next = current
  · simp only [write, if_pos h, notesOf_none, List.append_nil]
    rfl
  · simp only [write, if_neg h, recorded_store, PassState.recording_store, Store.recorded_replace,
      notesOf_some]
    rcases r.store.replace next s.store with ⟨e | updated, st⟩
    · rfl
    · rfl

theorem update_recorded (current : Object β) :
    (r.recorded note).update k current (s.recording xs)
      = ((r.update k current s).1, (r.update k current s).2.recording
          (xs ++ r.notesOf note s.store (r.writeForUpdate k current s.strategy))) := by
  by_cases hterm : current.metadata.isTerminating = true
  · simp only [update, writeForUpdate, if_pos hterm, notesOf_none, List.append_nil]
    rfl
  · simp only [update, writeForUpdate, if_neg hterm, recorded_plan, PassState.recording_strategy]
    rcases r.plan k current s.strategy with ⟨_ | ⟨next, schedules⟩, t⟩
    · simp only [notesOf_some]
      exact r.remove_recorded note k { s with strategy := t } xs .recreate _ current
    · cases schedules with
      | false =>
          exact r.write_recorded note k { s with strategy := t } xs current next
      | true =>
          exact r.write_recorded note k (record .schedule { s with strategy := t }) xs current next

omit [DecidableEq β] [Resource β] in
theorem turnDown_recorded (current : Object β) :
    (r.recorded note).turnDown k current (s.recording xs)
      = ((r.turnDown k current s).1, (r.turnDown k current s).2.recording
          (xs ++ r.notesOf note s.store (r.writeForTurnDown k current s.strategy))) := by
  by_cases hterm : current.metadata.isTerminating = true
  · simp only [turnDown, writeForTurnDown, if_pos hterm, notesOf_none, List.append_nil]
    rfl
  · simp only [turnDown, writeForTurnDown, if_neg hterm, recorded_strategy,
      PassState.recording_strategy]
    rcases r.strategy.prepareTurndown k current s.strategy with ⟨_ | orphan, t⟩
    · simp only [notesOf_some]
      exact r.remove_recorded note k { s with strategy := t } xs .delete .ok current
    · simp only [notesOf_none, List.append_nil]
      rfl

/-- Handling a key makes its calls, and on a recorded store does everything else as before. -/
theorem passKey_recorded (wanted : Bool) (current : Option (Object β)) :
    (r.recorded note).passKey k wanted current (s.recording xs)
      = ((r.passKey k wanted current s).1, (r.passKey k wanted current s).2.recording
          (xs ++ (r.exchangesFor k wanted current s).flatMap note)) := by
  cases wanted with
  | true =>
      cases current with
      | none => exact r.create_recorded note k s xs
      | some o => exact r.update_recorded note k s xs o
  | false =>
      cases current with
      | none => exact Prod.ext rfl (congrArg s.recording (List.append_nil xs).symm)
      | some o => exact r.turnDown_recorded note k s xs o

end

/-- The writes among the calls for a key: the one that is asked for. -/
theorem flatMap_writes_exchangesFor (r : Reconciler σ τ β) (k : Key) (wanted : Bool)
    (current : Option (Object β)) (s : PassState σ τ) :
    (r.exchangesFor k wanted current s).flatMap Exchange.writes
      = (r.writeFor k wanted current s.strategy).toList := by
  have hone : ∀ w : Option (Write β), r.notesOf Exchange.writes s.store w = w.toList := by
    intro w
    rcases w with _ | ⟨o⟩ | ⟨o⟩ | ⟨k, p⟩ <;> rfl
  cases current with
  | some o =>
      cases wanted with
      | true => exact hone _
      | false => exact hone _
  | none =>
      cases wanted with
      | false => rfl
      | true =>
          simp only [exchangesFor, exchangesForCreate]
          rcases r.store.create _ s.store with ⟨e | created, st⟩
          · by_cases h : e.isConflict = true
            · simp only [if_pos h]
              rfl
            · simp only [if_neg h]
              rfl
          · rfl

-- ========================================= a pass on a recorded store

/-- What is gathered from the turns of a run, given what each turn adds. -/
def along {σ α : Type} (r : Reconciler σ τ β) (desired : SortedSet Key)
    (existing : SortedMap Key (Object β)) (adds : Key → PassState σ τ → List α) :
    List Key → PassState σ τ → List α
  | [], _ => []
  | k :: ks, s =>
    adds k s ++ r.along desired existing adds ks
      (r.passKey k (desired.contains k) (existing.get? k) s).2

/-- If another reconciler takes notes at each turn and does everything else as before, then over a
run it takes the notes of its turns. -/
theorem passAll_gathers {σ' τ' α : Type} {r : Reconciler σ τ β} {r' : Reconciler σ' τ' β}
    {desired : SortedSet Key} {existing : SortedMap Key (Object β)}
    {taking : PassState σ τ → List α → PassState σ' τ'} {adds : Key → PassState σ τ → List α}
    (hturn : ∀ k s xs, r'.passKey k (desired.contains k) (existing.get? k) (taking s xs)
      = ((r.passKey k (desired.contains k) (existing.get? k) s).1,
        taking (r.passKey k (desired.contains k) (existing.get? k) s).2 (xs ++ adds k s)))
    (ks : List Key) (s : PassState σ τ) (xs : List α) :
    r'.passAll desired existing ks (taking s xs)
      = ((r.passAll desired existing ks s).1,
        taking (r.passAll desired existing ks s).2 (xs ++ r.along desired existing adds ks s)) := by
  induction ks generalizing s xs with
  | nil => exact Prod.ext rfl (congrArg (taking s) (List.append_nil xs).symm)
  | cons k ks ih => simp only [passAll, along, hturn, ih, List.append_assoc]

section

variable {α : Type} (r : Reconciler σ τ β) (note : Exchange β → List α) (desired : SortedSet Key)

/-- A run on a recorded store takes the notes of its turns. -/
theorem passAll_recorded (existing : SortedMap Key (Object β)) (ks : List Key) (s : PassState σ τ)
    (xs : List α) :
    (r.recorded note).passAll desired existing ks (s.recording xs)
      = ((r.passAll desired existing ks s).1, (r.passAll desired existing ks s).2.recording
          (xs ++ r.along desired existing (fun k s =>
            (r.exchangesFor k (desired.contains k) (existing.get? k) s).flatMap note) ks s)) :=
  passAll_gathers (fun k s xs => r.passKey_recorded note k s xs _ _) ks s xs

omit [DecidableEq β] [Resource β] in
theorem listing_recorded (s : PassState σ τ) (xs : List α) :
    (r.recorded note).store.list (r.recorded note).parent.space (r.recorded note).selector
        (s.recording xs).store
      = ((r.store.list r.parent.space r.selector s.store).1,
        (r.store.list r.parent.space r.selector s.store).2,
        xs ++ note (.list (r.store.list r.parent.space r.selector s.store).1)) := rfl

variable {s : PassState σ τ} {st : σ}

theorem reconcileSet_recorded_of_error {e : Error}
    (h : r.store.list r.parent.space r.selector s.store = (.error e, st)) :
    (r.recorded note).reconcileSet desired (s.recording [])
      = ((r.reconcileSet desired s).1,
        (r.reconcileSet desired s).2.recording (note (.list (.error e)))) := by
  simp only [reconcileSet, listing_recorded, h]
  rfl

theorem reconcileSet_recorded_of_ok {objects : List (Object β)}
    (h : r.store.list r.parent.space r.selector s.store = (.ok objects, st)) :
    (r.recorded note).reconcileSet desired (s.recording [])
      = ((r.reconcileSet desired s).1, (r.reconcileSet desired s).2.recording
          (note (.list (.ok objects)) ++ r.along desired (r.children objects) (fun k s =>
            (r.exchangesFor k (desired.contains k) ((r.children objects).get? k) s).flatMap note)
            (passKeys desired (r.children objects)) { s with store := st })) := by
  have hrun := r.passAll_recorded note desired (r.children objects)
    (passKeys desired (r.children objects)) { s with store := st } (note (.list (.ok objects)))
  simp only [reconcileSet, listing_recorded, h]
  exact congrArg (fun p => (Outcome.mergeAll p.1, p.2)) hrun

end

-- =========================================== a pass on a traced store

/-- The writes that handling keys one after the other asks for. -/
def writesFor (r : Reconciler σ τ β) (desired : SortedSet Key)
    (existing : SortedMap Key (Object β)) : List Key → PassState σ τ → List (Write β)
  | [], _ => []
  | k :: ks, s =>
    (r.writeFor k (desired.contains k) (existing.get? k) s.strategy).toList
      ++ r.writesFor desired existing ks (r.passKey k (desired.contains k) (existing.get? k) s).2

/-- The writes of a run are gathered from its turns. -/
theorem writesFor_eq_along (r : Reconciler σ τ β) (desired : SortedSet Key)
    (existing : SortedMap Key (Object β)) (ks : List Key) (s : PassState σ τ) :
    r.writesFor desired existing ks s
      = r.along desired existing (fun k s => (r.writeFor k (desired.contains k) (existing.get? k)
          s.strategy).toList) ks s := by
  induction ks generalizing s with
  | nil => rfl
  | cons k ks ih => simp only [writesFor, along, ih]

/-- The writes that a pass tries, landed or refused, in order. -/
def tried (r : Reconciler σ τ β) (desired : SortedSet Key) (s : PassState σ τ) : List (Write β) :=
  (r.traced.reconcileSet desired (s.noting [])).2.store.2

section

variable (r : Reconciler σ τ β)

omit [DecidableEq β] [Resource β] in
theorem traced_eq_recorded : r.traced = r.recorded Exchange.writes := by
  rw [traced, Store.traced_eq_recorded]
  rfl

variable (desired : SortedSet Key) {s : PassState σ τ}

theorem reconcileSet_traced_of_error {e : Error} {st : σ}
    (h : r.store.list r.parent.space r.selector s.store = (.error e, st)) :
    r.traced.reconcileSet desired (s.noting [])
      = ((r.reconcileSet desired s).1, (r.reconcileSet desired s).2.noting []) := by
  rw [traced_eq_recorded]
  exact r.reconcileSet_recorded_of_error Exchange.writes desired h

theorem reconcileSet_traced_of_ok {objects : List (Object β)} {st : σ}
    (h : r.store.list r.parent.space r.selector s.store = (.ok objects, st)) :
    r.traced.reconcileSet desired (s.noting [])
      = ((r.reconcileSet desired s).1, (r.reconcileSet desired s).2.noting
          (r.writesFor desired (r.children objects) (passKeys desired (r.children objects))
            { s with store := st })) := by
  have hrun := r.reconcileSet_recorded_of_ok Exchange.writes desired h
  simp only [flatMap_writes_exchangesFor, ← writesFor_eq_along] at hrun
  rw [traced_eq_recorded]
  exact hrun

/-- On a traced store a pass notes what it tries and does everything else as before. -/
theorem reconcileSet_traced (s : PassState σ τ) :
    r.traced.reconcileSet desired (s.noting [])
      = ((r.reconcileSet desired s).1, (r.reconcileSet desired s).2.noting (r.tried desired s)) := by
  rcases hlist : r.store.list r.parent.space r.selector s.store with ⟨e | objects, st⟩
  · rw [tried, r.reconcileSet_traced_of_error desired hlist]
    rfl
  · rw [tried, r.reconcileSet_traced_of_ok desired hlist]
    rfl

end

-- ============================================ which write it is, and why

omit [DecidableEq β] [Resource β] in
/-- A claimed object lies under the key that it is claimed for. -/
theorem key_claimed (r : Reconciler σ τ β) (k : Key) (o : Object β) : (r.claimed k o).key = k := by
  have hadopt : ∀ m : Metadata, (r.parent.adopt m).key = m.key := by
    intro m
    by_cases h : r.parent.owns m = true
    · rw [Parent.adopt, if_pos h]
    · rw [Parent.adopt, if_neg h]
      rfl
  exact hadopt _

omit [DecidableEq β] [Resource β] in
theorem annotations_claimed (r : Reconciler σ τ β) (k : Key) (o : Object β) :
    (r.claimed k o).metadata.annotations = o.metadata.annotations := by
  show (r.parent.adopt _).annotations = _
  unfold Parent.adopt
  split <;> rfl

omit [DecidableEq β] [Resource β] in
theorem isReleased_claimed (r : Reconciler σ τ β) (k : Key) (o : Object β) :
    Rollout.isReleased (r.claimed k o).metadata = Rollout.isReleased o.metadata := by
  unfold Rollout.isReleased Metadata.isAnnotated Metadata.annotationMap
  rw [annotations_claimed]

omit [DecidableEq β] [Resource β] in
theorem isScheduled_claimed (r : Reconciler σ τ β) (k : Key) (o : Object β) :
    Rollout.isScheduled (r.claimed k o).metadata = Rollout.isScheduled o.metadata := by
  unfold Rollout.isScheduled Metadata.isAnnotated Metadata.annotationMap
  rw [annotations_claimed]

/-- The four ends of a comparison of the next states: nothing is pending, a released change is made
in one of two ways, or a change is put off. -/
theorem planFor_cases (mode : UpdateMode) (current next rolled : Object β) :
    (rolled = next ∧ planFor mode current next rolled = .write (unflagged next) false)
      ∨ (rolled ≠ next ∧ Rollout.isReleased current.metadata = true ∧ mode = .recreate
        ∧ planFor mode current next rolled = .recreate)
      ∨ (rolled ≠ next ∧ Rollout.isReleased current.metadata = true ∧ mode = .inPlace
        ∧ planFor mode current next rolled = .write (unflagged rolled) false)
      ∨ (rolled ≠ next ∧ Rollout.isReleased current.metadata = false
        ∧ ∃ schedules, planFor mode current next rolled
          = .write (next.modifyMetadata
              (Rollout.schedule (Change.describe next.toJson rolled.toJson))) schedules) := by
  unfold planFor
  by_cases hroll : rolled = next
  · exact Or.inl ⟨hroll, if_pos hroll⟩
  · rw [if_neg hroll]
    by_cases hrel : Rollout.isReleased current.metadata = true
    · rw [if_pos hrel]
      cases mode with
      | recreate => exact Or.inr (Or.inl ⟨hroll, hrel, rfl, rfl⟩)
      | inPlace => exact Or.inr (Or.inr (Or.inl ⟨hroll, hrel, rfl, rfl⟩))
    · rw [if_neg hrel]
      exact Or.inr (Or.inr (Or.inr ⟨hroll, Bool.eq_false_iff.2 hrel, _, rfl⟩))

/-- The next state of a child without and with the disruptive changes. -/
def nextStates (r : Reconciler σ τ β) (k : Key) (current : Object β) (t : τ) :
    Object β × Object β :=
  ((r.strategy.updateInPlace k current t).1,
    (r.strategy.roll (r.strategy.updateMode (r.strategy.updateInPlace k current t).2) k
      (r.strategy.updateInPlace k current t).1 (r.strategy.updateInPlace k current t).2).1)

theorem plan_eq_planFor (r : Reconciler σ τ β) (k : Key) (current : Object β) (t : τ) :
    (r.plan k current t).1
      = planFor (r.strategy.updateMode (r.strategy.updateInPlace k current t).2) current
          (r.nextStates k current t).1 (r.nextStates k current t).2 := rfl

/-- Why handling a key asks for a write. -/
inductive Asks (r : Reconciler σ τ β) (k : Key) : Bool → Option (Object β) → τ → Write β → Prop
  /-- It is wanted and not there. -/
  | create {t : τ} : Asks r k true none t (.create (r.claimed k (r.strategy.newObject k t).1))
  /-- It is wanted in another form. -/
  | replace {current next : Object β} {schedules : Bool} {t t' : τ}
      (hlive : current.metadata.isTerminating = false)
      (hplan : r.plan k current t = (.write next schedules, t')) (hne : next ≠ current) :
      Asks r k true (some current) t (.replace next)
  /-- It is wanted, and a released change can only be made by creating it anew. -/
  | recreate {current : Object β} {t t' : τ} {p : Propagation}
      (hlive : current.metadata.isTerminating = false)
      (hplan : r.plan k current t = (.recreate, t')) : Asks r k true (some current) t (.delete k p)
  /-- It is there and nobody wants it. -/
  | turnDown {current : Object β} {t t' : τ} {p : Propagation}
      (hlive : current.metadata.isTerminating = false)
      (hgo : r.strategy.prepareTurndown k current t = (none, t')) :
      Asks r k false (some current) t (.delete k p)

theorem asks_of_writeFor {r : Reconciler σ τ β} {k : Key} {wanted : Bool}
    {current : Option (Object β)} {t : τ} {w : Write β}
    (h : r.writeFor k wanted current t = some w) : Asks r k wanted current t w := by
  cases wanted with
  | true =>
      cases current with
      | none =>
          obtain rfl := Option.some.inj h
          exact .create
      | some o =>
          by_cases hterm : o.metadata.isTerminating = true
          · simp only [writeFor, writeForUpdate, if_pos hterm] at h
            cases h
          · have hlive := Bool.eq_false_iff.2 hterm
            simp only [writeFor, writeForUpdate, if_neg hterm] at h
            rcases hplan : r.plan k o t with ⟨_ | ⟨next, schedules⟩, t'⟩
            · rw [hplan] at h
              obtain rfl := Option.some.inj h
              exact .recreate hlive hplan
            · rw [hplan] at h
              by_cases hne : next = o
              · simp only [if_pos hne] at h
                cases h
              · simp only [if_neg hne] at h
                obtain rfl := Option.some.inj h
                exact .replace hlive hplan hne
  | false =>
      cases current with
      | none => cases h
      | some o =>
          by_cases hterm : o.metadata.isTerminating = true
          · simp only [writeFor, writeForTurnDown, if_pos hterm] at h
            cases h
          · have hlive := Bool.eq_false_iff.2 hterm
            simp only [writeFor, writeForTurnDown, if_neg hterm] at h
            rcases hgo : r.strategy.prepareTurndown k o t with ⟨_ | orphan, t'⟩
            · rw [hgo] at h
              obtain rfl := Option.some.inj h
              exact .turnDown hlive hgo
            · rw [hgo] at h
              cases h

theorem writeFor_of_terminating {r : Reconciler σ τ β} {k : Key} {wanted : Bool} {o : Object β}
    {t : τ} (h : o.metadata.isTerminating = true) : r.writeFor k wanted (some o) t = none := by
  cases wanted <;> simp only [writeFor, writeForUpdate, writeForTurnDown, if_pos h]

section

variable {r : Reconciler σ τ β} {k : Key} {current next : Object β} {schedules : Bool} {t t' : τ}
  (hlive : current.metadata.isTerminating = false)

include hlive

theorem writeFor_of_write (hplan : r.plan k current t = (.write next schedules, t')) :
    r.writeFor k true (some current) t = if next = current then none else some (.replace next) := by
  simp only [writeFor, writeForUpdate, if_neg (Bool.eq_false_iff.1 hlive), hplan]

theorem writeFor_of_recreate (hplan : r.plan k current t = (.recreate, t')) :
    ∃ p, r.writeFor k true (some current) t = some (.delete k p) := by
  simp only [writeFor, writeForUpdate, if_neg (Bool.eq_false_iff.1 hlive), hplan]
  exact ⟨_, rfl⟩

theorem writeFor_of_kept {reason : OrphanStatus}
    (hkeep : r.strategy.prepareTurndown k current t = (some reason, t')) :
    r.writeFor k false (some current) t = none := by
  simp only [writeFor, writeForTurnDown, if_neg (Bool.eq_false_iff.1 hlive), hkeep]

theorem writeFor_of_turnedDown (hgo : r.strategy.prepareTurndown k current t = (none, t')) :
    ∃ p, r.writeFor k false (some current) t = some (.delete k p) := by
  simp only [writeFor, writeForTurnDown, if_neg (Bool.eq_false_iff.1 hlive), hgo]
  exact ⟨_, rfl⟩

end

/-- What neither the update functions nor the marks of the rollout change, no planned write
changes. -/
theorem eq_of_plan {α : Type} {r : Reconciler σ τ β} (φ : Object β → α)
    (hmark : ∀ o m, φ (o.modifyMetadata (fun md => { md with annotations := m })) = φ o)
    (hupdate : ∀ k o t, φ (r.strategy.updateInPlace k o t).1 = φ o)
    (hroll : ∀ k o t, φ (r.strategy.roll (r.strategy.updateMode t) k o t).1 = φ o)
    {k : Key} {current next : Object β} {schedules : Bool} {t t' : τ}
    (h : r.plan k current t = (.write next schedules, t')) : φ next = φ current := by
  rcases hnext : r.strategy.updateInPlace k current t with ⟨o, t₁⟩
  rcases hrolled : r.strategy.roll (r.strategy.updateMode t₁) k o t₁ with ⟨o', t₂⟩
  have ho : φ o = φ current := by rw [← hupdate k current t, hnext]
  have ho' : φ o' = φ current := by rw [← ho, ← hroll k o t₁, hrolled]
  simp only [plan, hnext, hrolled, Prod.mk.injEq] at h
  rcases planFor_cases (r.strategy.updateMode t₁) current o o' with
    ⟨-, hplan⟩ | ⟨-, -, -, hplan⟩ | ⟨-, -, -, hplan⟩ | ⟨-, -, b, hplan⟩ <;>
    rw [hplan] at h <;> obtain ⟨h, -⟩ := h <;> cases h
  · exact (hmark o _).trans ho
  · exact (hmark o' _).trans ho'
  · exact (hmark o _).trans ho

end Reconciler

end ControlLoop
