/-
What the counted operations of a pass say of the writes that landed.

# One key

Handling a key counts what its one attempt was and how it ended, or the
child that was kept from going (`countedFor`), while the store remembers
the attempt if it landed (`Attempt.logged`). A creation, an update and a
deletion are counted only once they have landed. That a change was put
off is counted before the mark that says so is tried to be stored, and
so is counted as well where the store refuses it.

# A whole pass

What a pass counts and what it leaves in the log are gathered from the
same attempts in the same order (`operations_reconcileSet`,
`log_reconcileSet`). So the two agree kind by kind, but for the marks
that were refused (`Tally`): they do for one attempt, and the sums do if
the parts do.
-/
import ControlLoop.Proofs.Engine.Attempts

namespace ControlLoop

variable {σ τ β : Type}

-- ============================================================= the marks

/-- The description of the pending change that an object is marked with. -/
def markOf (o : Option (Object β)) : Option String :=
  o.bind (·.metadata.annotation? Rollout.scheduledMark)

/-- Whether an object is marked with a pending change, and was not marked so before. -/
def newlyMarked (before after : Option (Object β)) : Bool :=
  (markOf after).isSome && markOf after != markOf before

theorem newlyMarked_self (o : Option (Object β)) : newlyMarked o o = false := by
  simp [newlyMarked]

/-- Whatever version it gets, the object has the same mark. -/
theorem newlyMarked_atVersion (before : Option (Object β)) (o : Object β) (v : String) :
    newlyMarked before (some (o.atVersion v)) = newlyMarked before (some o) := rfl

-- =========================================================== the account

/-- The entry of a log that marked an object newly, from one state of a store to a later one. -/
def Memory.marksNewly (m m' : Memory β) (e : WriteKind × Key) : Bool :=
  e.1 = .replace && newlyMarked (m.object? e.2) (m'.object? e.2)

/-- The counted operations agree with the entries of a log, but for some marks that are counted and
were refused. -/
structure Tally (marks : WriteKind × Key → Bool) (counted : List ChildOperation)
    (landed : List (WriteKind × Key)) (refused : Nat) : Prop where
  created : counted.count .create = landed.countP (·.1 = .create)
  updated : counted.count .update = landed.countP (·.1 = .replace)
  deleted : counted.count .recreate + counted.count .delete = landed.countP (·.1 = .delete)
  scheduled : counted.count .schedule = landed.countP marks + refused

namespace Tally

variable {marks : WriteKind × Key → Bool} {counted counted' : List ChildOperation}
  {landed landed' : List (WriteKind × Key)} {refused refused' : Nat}

/-- Children that are kept from going leave nothing in the log. -/
theorem of_orphans (h : ∀ op ∈ counted, op = .orphan) : Tally marks counted [] 0 := by
  have hnot : ∀ op, op ≠ .orphan → counted.count op = 0 := fun op hne =>
    List.count_eq_zero.2 fun hop => hne (h op hop)
  refine ⟨hnot _ nofun, hnot _ nofun, ?_, hnot _ nofun⟩
  rw [hnot .recreate nofun, hnot .delete nofun]
  rfl

theorem append (h : Tally marks counted landed refused)
    (h' : Tally marks counted' landed' refused') :
    Tally marks (counted ++ counted') (landed ++ landed') (refused + refused') := by
  obtain ⟨hc, hu, hd, hs⟩ := h
  obtain ⟨hc', hu', hd', hs'⟩ := h'
  refine ⟨?_, ?_, ?_, ?_⟩
  · rw [List.count_append, List.countP_append, hc, hc']
  · rw [List.count_append, List.countP_append, hu, hu']
  · rw [List.count_append, List.count_append, List.countP_append, ← hd, ← hd']
    omega
  · rw [List.count_append, List.countP_append, hs, hs']
    omega

/-- What agrees part by part agrees as a whole. -/
theorem flatMap {κ : Type} {ks : List κ} {f : κ → List ChildOperation}
    {g : κ → List (WriteKind × Key)} {p : κ → Bool}
    (h : ∀ k ∈ ks, Tally marks (f k) (g k) (if p k then 1 else 0)) :
    Tally marks (ks.flatMap f) (ks.flatMap g) (ks.countP p) := by
  induction ks with
  | nil => exact of_orphans nofun
  | cons k ks ih =>
      have htail := ih fun k' hk' => h k' (List.mem_cons_of_mem _ hk')
      rw [List.flatMap_cons, List.flatMap_cons, List.countP_cons, Nat.add_comm]
      exact (h k List.mem_cons_self).append htail

/-- If nothing landed and no mark was refused, all that is counted is children kept from going. -/
theorem eq_orphan (h : Tally marks counted [] 0) {op : ChildOperation} (hop : op ∈ counted) :
    op = .orphan := by
  have hpos := List.count_pos_iff.2 hop
  have hdeleted : counted.count .recreate + counted.count .delete = 0 := h.deleted
  cases op with
  | orphan => rfl
  | create =>
      rw [h.created] at hpos
      cases hpos
  | update =>
      rw [h.updated] at hpos
      cases hpos
  | schedule =>
      rw [h.scheduled] at hpos
      cases hpos
  | recreate => omega
  | delete => omega

end Tally

-- ========================================================== one attempt

/-- What the store remembers of an attempt. -/
def Attempt.logged : Attempt β → List (WriteKind × Key)
  | ⟨w, none⟩ => [(w.kind, w.key)]
  | ⟨_, some _⟩ => []

/-- Whether an attempt was refused that would have marked a child newly. -/
def Attempt.refusesMark (current : Option (Object β)) : Attempt β → Bool
  | ⟨.replace next, some _⟩ => newlyMarked current (some next)
  | _ => false

/-- What is counted of an attempt, given whether the key is wanted and the child that was seen
there. -/
def Attempt.counted (wanted : Bool) (current : Option (Object β)) :
    Attempt β → List ChildOperation
  | ⟨.create _, none⟩ => [.create]
  | ⟨.replace next, fault⟩ =>
    (if newlyMarked current (some next) then [.schedule] else [])
      ++ if fault.isNone then [.update] else []
  | ⟨.delete _ _, none⟩ => [if wanted then .recreate else .delete]
  | _ => []

/-- An attempt is counted as it landed, if an update that landed has marked what it says. -/
theorem Attempt.tally (a : Attempt β) (wanted : Bool) (current : Option (Object β))
    (marks : WriteKind × Key → Bool) (hcreate : ∀ k, marks (.create, k) = false)
    (hdelete : ∀ k, marks (.delete, k) = false)
    (hreplace : ∀ next, a = ⟨.replace next, none⟩ →
      marks (.replace, next.key) = newlyMarked current (some next)) :
    Tally marks (a.counted wanted current) a.logged (if a.refusesMark current then 1 else 0) := by
  rcases a with ⟨o | next | ⟨k, p⟩, _ | e⟩
  · constructor <;> simp [counted, logged, refusesMark, Write.kind, hcreate]
  · exact .of_orphans nofun
  · -- the new object may be marked newly, or have the mark that the child has
    have hmark := hreplace next rfl
    cases hnew : newlyMarked current (some next) <;> rw [hnew] at hmark <;>
      constructor <;>
      simp [counted, logged, refusesMark, Write.kind, Write.key, hnew, hmark]
  · -- nothing landed, and all that may be counted is a mark
    cases hnew : newlyMarked current (some next) <;> constructor <;>
      simp [counted, logged, refusesMark, hnew]
  · cases wanted <;> constructor <;>
      simp [counted, logged, refusesMark, Write.kind, hdelete]
  · exact .of_orphans nofun

namespace Reconciler

section

variable (r : Reconciler σ τ β) (k : Key)

/-- What is counted of a child that is kept from going. -/
def keptFor (wanted : Bool) (current : Option (Object β)) (t : τ) : List ChildOperation :=
  match wanted, current with
  | false, some o =>
    if o.metadata.isTerminating then []
    else if (r.strategy.prepareTurndown k o t).1.isSome then [.orphan] else []
  | _, _ => []

theorem eq_orphan_of_mem_keptFor {r : Reconciler σ τ β} {k : Key} {wanted : Bool}
    {current : Option (Object β)} {t : τ} {op : ChildOperation}
    (h : op ∈ r.keptFor k wanted current t) : op = .orphan := by
  unfold keptFor at h
  split at h
  · split at h
    · cases h
    · split at h
      · exact List.mem_singleton.1 h
      · cases h
  · cases h

end

variable [DecidableEq β] [Resource β]

/-- What handling a key counts. -/
def countedFor (r : Reconciler (Memory β) τ β) (k : Key) (wanted : Bool)
    (current : Option (Object β)) (s : PassState (Memory β) τ) : List ChildOperation :=
  (r.attemptFor k wanted current s).toList.flatMap (·.counted wanted current)
    ++ r.keptFor k wanted current s.strategy

/-- The flag of a plan tells whether what is planned is marked newly. -/
theorem schedules_of_plan {r : Reconciler σ τ β} {k : Key} {current next : Object β}
    {schedules : Bool} {t t' : τ} (h : r.plan k current t = (.write next schedules, t')) :
    schedules = newlyMarked (some current) (some next) := by
  have hunflagged : ∀ o : Object β, newlyMarked (some current) (some (unflagged o)) = false := by
    intro o
    have hnot : (markOf (some (unflagged o))).isSome = false := by
      have hflag := (not_flagged_unflagged o).1
      unfold Rollout.isScheduled at hflag
      rw [Metadata.isAnnotated_eq] at hflag
      exact hflag
    unfold newlyMarked
    rw [hnot, Bool.false_and]
  have hplan : (r.plan k current t).1 = .write next schedules := congrArg Prod.fst h
  rw [plan_eq_planFor] at hplan
  unfold planFor at hplan
  split at hplan
  · cases hplan
    exact (hunflagged _).symm
  · split at hplan
    · split at hplan
      · cases hplan
      · cases hplan
        exact (hunflagged _).symm
    · cases hplan
      have hmark : ∀ d, markOf (some ((r.nextStates k current t).1.modifyMetadata
          (Rollout.schedule d))) = some d := by
        intro d
        show ((r.nextStates k current t).1.metadata.annotate Rollout.scheduledMark d).annotation? _
          = _
        rw [Metadata.annotation?_annotate, if_pos rfl]
      unfold newlyMarked
      rw [hmark]
      show (current.metadata.annotation? Rollout.scheduledMark != some _)
        = (true && some _ != current.metadata.annotation? Rollout.scheduledMark)
      rw [Bool.true_and, bne_comm]

-- ============================================================ one key

section

variable {r : Reconciler (Memory β) τ β} (hr : r.store = Memory.store) (k : Key)
  (s : PassState (Memory β) τ)

omit [DecidableEq β] [Resource β] in
theorem createConflict_operations {σ : Type} (r : Reconciler σ τ β) (k : Key) (e : Error)
    (s : PassState σ τ) : (r.createConflict k e s).2.operations = s.operations := by
  unfold createConflict
  rcases r.store.get k s.store with ⟨_ | _ | holder, st⟩
  · rfl
  · rfl
  · by_cases h : r.selects holder = true
    · simp only [if_pos h]
    · simp only [if_neg h]

include hr

omit [DecidableEq β] [Resource β] in
theorem create_operations :
    (r.create k s).2.operations
      = s.operations ++ Attempt.counted true none
          ⟨.create (r.claimed k (r.strategy.newObject k s.strategy).1),
            s.store.fault? (.create (r.claimed k (r.strategy.newObject k s.strategy).1))⟩ := by
  rcases hnew : r.strategy.newObject k s.strategy with ⟨o, t⟩
  have hcreate : r.store.create (r.claimed k o) s.store = s.store.create (r.claimed k o) := by
    rw [hr]
    rfl
  simp only [create, hnew, hcreate, Memory.fault?]
  rcases s.store.create (r.claimed k o) with ⟨e | created, m⟩
  · by_cases he : e.isConflict = true
    · simp only [if_pos he, createConflict_operations]
      exact (List.append_nil _).symm
    · simp only [if_neg he]
      exact (List.append_nil _).symm
  · rfl

omit [DecidableEq β] [Resource β] in
/-- A deletion counts what is said of an attempt if that is what it counts where it lands. -/
theorem remove_operations (wanted : Bool) (op : ChildOperation) (done : Outcome)
    (current : Object β) (p : Propagation)
    (hop : Attempt.counted wanted (some current) ⟨.delete k p, none⟩ = [op]) :
    (r.remove op done k current s).2.operations
      = s.operations ++ Attempt.counted wanted (some current)
          ⟨.delete k p, s.store.fault? (.delete k p)⟩ := by
  simp only [remove, observe, store_delete hr, Memory.fault?]
  rcases s.store.delete k with ⟨e | _, m⟩
  · exact (List.append_nil _).symm
  · exact congrArg (s.operations ++ ·) hop.symm

omit [Resource β] in
theorem write_operations {current next : Object β} (hne : next ≠ current) :
    (r.write k current next s).2.operations
      = s.operations ++ if (s.store.fault? (.replace next)).isNone then [.update] else [] := by
  have hreplace : r.store.replace next s.store = s.store.replace next := by
    rw [hr]
    rfl
  rcases hends : s.store.replace next with ⟨e | updated, m⟩
  · simp only [write, if_neg hne, hreplace, Memory.fault?, hends]
    exact (List.append_nil _).symm
  · simp only [write, if_neg hne, hreplace, Memory.fault?, hends]
    rfl

theorem update_operations (current : Object β) :
    (r.update k current s).2.operations
      = s.operations ++ (r.attemptFor k true (some current) s).toList.flatMap
          (·.counted true (some current)) := by
  by_cases hterm : current.metadata.isTerminating = true
  · rw [attemptFor, writeFor_of_terminating hterm]
    simp only [update, if_pos hterm]
    exact (List.append_nil _).symm
  · rcases hplan : r.plan k current s.strategy with ⟨_ | ⟨next, schedules⟩, t⟩
    · simp only [attemptFor, writeFor, writeForUpdate, update, if_neg hterm, hplan, Option.map_some,
        Option.toList_some, List.flatMap_singleton]
      exact remove_operations hr k { s with strategy := t } true .recreate _ current _ rfl
    · have hflag := schedules_of_plan hplan
      by_cases hne : next = current
      · -- what does not differ is not marked newly either
        rw [hne, newlyMarked_self] at hflag
        simp only [attemptFor, writeFor, writeForUpdate, update, write, if_neg hterm, hplan, hflag,
          if_pos hne]
        exact (List.append_nil _).symm
      · simp only [attemptFor, writeFor, writeForUpdate, update, if_neg hterm, hplan, if_neg hne,
          Option.map_some, Option.toList_some, List.flatMap_singleton, Attempt.counted, ← hflag]
        cases schedules with
        | false => exact write_operations hr k { s with strategy := t } hne
        | true =>
            have hwrite := write_operations hr k (record .schedule { s with strategy := t }) hne
            exact hwrite.trans (List.append_assoc _ _ _)

omit [DecidableEq β] [Resource β] in
theorem turnDown_operations (current : Object β) :
    (r.turnDown k current s).2.operations
      = s.operations ++ (((r.writeForTurnDown k current s.strategy).map fun w =>
            (⟨w, s.store.fault? w⟩ : Attempt β)).toList.flatMap (·.counted false (some current))
          ++ r.keptFor k false (some current) s.strategy) := by
  by_cases hterm : current.metadata.isTerminating = true
  · simp only [turnDown, writeForTurnDown, keptFor, if_pos hterm]
    exact (List.append_nil _).symm
  · simp only [turnDown, writeForTurnDown, keptFor, if_neg hterm]
    rcases r.strategy.prepareTurndown k current s.strategy with ⟨_ | orphan, t⟩
    · have hdelete := remove_operations hr k { s with strategy := t } false .delete .ok current
        (r.strategy.propagation (r.strategy.status k current t)) rfl
      simp only [Option.map_some, Option.toList_some, List.flatMap_singleton]
      exact hdelete.trans (congrArg (s.operations ++ ·) (List.append_nil _).symm)
    · rfl

/-- Handling a key counts what is said of its attempt, and adds to the log what landed. -/
theorem operations_passKey (wanted : Bool) (current : Option (Object β)) :
    (r.passKey k wanted current s).2.operations
      = s.operations ++ r.countedFor k wanted current s := by
  cases wanted with
  | true =>
      cases current with
      | none =>
          have hcreate := create_operations hr k s
          unfold countedFor
          rw [show r.keptFor k true none s.strategy = [] from rfl, List.append_nil]
          exact hcreate.trans (congrArg (s.operations ++ ·) (List.flatMap_singleton ..).symm)
      | some o =>
          have hupdate := update_operations hr k s o
          unfold countedFor
          rw [show r.keptFor k true (some o) s.strategy = [] from rfl, List.append_nil]
          exact hupdate
  | false =>
      cases current with
      | none => exact (List.append_nil _).symm
      | some o => exact turnDown_operations hr k s o

theorem log_passKey (wanted : Bool) (current : Option (Object β)) :
    (r.passKey k wanted current s).2.store.log
      = s.store.log
        ++ (r.attemptFor k wanted current s).toList.flatMap Attempt.logged := by
  rw [passKey_store hr]
  unfold attemptFor
  cases r.writeFor k wanted current s.strategy with
  | none => exact (List.append_nil _).symm
  | some w =>
      show (s.store.after w).log
        = s.store.log ++ List.flatMap Attempt.logged [⟨w, s.store.fault? w⟩]
      rw [List.flatMap_singleton]
      cases hw : s.store.fault? w with
      | none => exact Memory.log_after_of_taken hw
      | some e =>
          rw [Memory.after_of_fault? hw]
          exact (List.append_nil _).symm

end

-- ========================================================= a whole pass

/-- What every turn adds to a list, a run adds in the order of its turns. -/
theorem append_passAll {α : Type} (r : Reconciler σ τ β) (desired : SortedSet Key)
    (existing : SortedMap Key (Object β)) (held : PassState σ τ → List α)
    {adds : Key → PassState σ τ → List α}
    (h : ∀ k s, held (r.passKey k (desired.contains k) (existing.get? k) s).2
      = held s ++ adds k s) (ks : List Key) (s : PassState σ τ) :
    held (r.passAll desired existing ks s).2
      = held s ++ r.along desired existing adds ks s := by
  induction ks generalizing s with
  | nil => exact (List.append_nil _).symm
  | cons k ks ih =>
      rw [along, ← List.append_assoc, ← h k s]
      exact ih _

/-- How many marks a pass tried to store in vain. -/
def refusedMarks (r : Reconciler (Memory β) τ β) (desired : SortedSet Key)
    (s : PassState (Memory β) τ) : Nat :=
  if s.store.listsFail then 0
  else (passKeys desired (r.owned s.store)).countP fun k =>
    (r.attempt? desired s k).any (·.refusesMark ((r.owned s.store).get? k))

/-- A replacement is asked for as it was planned. -/
theorem plan_of_writeFor_replace {r : Reconciler σ τ β} {k : Key} {wanted : Bool}
    {current : Option (Object β)} {t : τ} {next : Object β}
    (h : r.writeFor k wanted current t = some (.replace next)) :
    ∃ o schedules t', current = some o ∧ r.plan k o t = (.write next schedules, t') := by
  cases asks_of_writeFor h with
  | replace hlive hplan hne => exact ⟨_, _, _, rfl, hplan⟩

section

variable {r : Reconciler (Memory β) τ β} (hr : r.store = Memory.store)
  {desired : SortedSet Key} {s : PassState (Memory β) τ} (hm : s.store.Reachable)
  (hl : s.store.listsFail = false)

include hr hm hl

/-- What a pass counts, in order. -/
theorem operations_reconcileSet :
    (r.reconcileSet desired s).2.operations
      = s.operations ++ (passKeys desired (r.owned s.store)).flatMap fun k =>
          r.countedFor k (desired.contains k) ((r.owned s.store).get? k) (r.turn desired s k) := by
  have hrun := r.append_passAll desired (r.owned s.store) (·.operations)
    (fun k s' => operations_passKey hr k s' (desired.contains k) ((r.owned s.store).get? k))
    (passKeys desired (r.owned s.store)) s
  rw [along_eq_flatMap _ _ _ _ (r.ready_passKeys desired hm).nodup] at hrun
  rw [reconcileSet_of_lists hr hm.sound hl]
  exact hrun

/-- What a pass adds to the log: its attempts that landed. -/
theorem log_reconcileSet :
    (r.reconcileSet desired s).2.store.log
      = s.store.log ++ (passKeys desired (r.owned s.store)).flatMap fun k =>
          (r.attempt? desired s k).toList.flatMap Attempt.logged := by
  have hrun := r.append_passAll desired (r.owned s.store) (·.store.log)
    (fun k s' => log_passKey hr k s' (desired.contains k) ((r.owned s.store).get? k))
    (passKeys desired (r.owned s.store)) s
  rw [along_eq_flatMap _ _ _ _ (r.ready_passKeys desired hm).nodup] at hrun
  rw [reconcileSet_of_lists hr hm.sound hl]
  exact hrun

variable (hkeeps : r.strategy.KeepsIdentity)

include hkeeps

/-- An update that landed at a key has marked the object there as it says. -/
theorem marksNewly_of_replaced {k : Key} (hk : k ∈ passKeys desired (r.owned s.store))
    {next : Object β} (h : r.attempt? desired s k = some ⟨.replace next, none⟩) :
    s.store.marksNewly (r.reconcileSet desired s).2.store (.replace, next.key)
      = newlyMarked ((r.owned s.store).get? k) (some next) := by
  have hv := plansKeepVersion_of_keepsIdentity hkeeps
  obtain ⟨hw, hfault⟩ := attempt?_eq_some.1 h
  obtain ⟨current, schedules, t', hcur, hplan⟩ := plan_of_writeFor_replace hw
  have hthere : s.store.object? k = some current := (get?_owned_eq_some.1 hcur).1
  have hturn : (r.turn desired s k).store.object? k = some current :=
    (object?_turn hr hv hm k).trans hthere
  -- it carries the version of the child, so it landed on the child
  obtain ⟨holder, hholder, hversion⟩ := Memory.exists_holder_of_replaced hfault
  have hkey : next.key = k := Memory.key_of_replace (reachable_turn hr hv hm k).sound hturn
    (fun _ => resourceVersion_of_plan hkeeps hplan) hholder hversion
  obtain ⟨v, hafter⟩ := Memory.object?_of_replaced hfault
  rw [hkey] at hafter
  have hends := object?_of_attempt hr hv hm hl hk
  rw [h] at hends
  have hstored : (r.reconcileSet desired s).2.store.object? k = some (next.atVersion v) :=
    hends.trans hafter
  unfold Memory.marksNewly
  rw [hkey, hthere, hstored, hcur, newlyMarked_atVersion]
  rfl

/-- The turn of a key counts what landed in it, or a mark that was refused. -/
theorem tally_turn {k : Key} (hk : k ∈ passKeys desired (r.owned s.store)) :
    Tally (s.store.marksNewly (r.reconcileSet desired s).2.store)
      (r.countedFor k (desired.contains k) ((r.owned s.store).get? k) (r.turn desired s k))
      ((r.attempt? desired s k).toList.flatMap Attempt.logged)
      (if (r.attempt? desired s k).any (·.refusesMark ((r.owned s.store).get? k))
        then 1 else 0) := by
  have hkept : Tally (s.store.marksNewly (r.reconcileSet desired s).2.store)
      (r.keptFor k (desired.contains k) ((r.owned s.store).get? k)
        (r.turn desired s k).strategy) [] 0 := .of_orphans fun _ => eq_orphan_of_mem_keptFor
  have hmarks : ∀ next, r.attempt? desired s k = some ⟨.replace next, none⟩ →
      s.store.marksNewly (r.reconcileSet desired s).2.store (.replace, next.key)
        = newlyMarked ((r.owned s.store).get? k) (some next) := fun _ =>
    marksNewly_of_replaced hr hm hl hkeeps hk
  unfold countedFor
  rw [show r.attemptFor k (desired.contains k) ((r.owned s.store).get? k) (r.turn desired s k)
    = r.attempt? desired s k from rfl]
  cases ha : r.attempt? desired s k with
  | none => exact hkept
  | some a =>
      have htally := a.tally (desired.contains k) ((r.owned s.store).get? k)
        (s.store.marksNewly (r.reconcileSet desired s).2.store)
        (fun _ => rfl) (fun _ => rfl) fun next heq => hmarks next (heq ▸ ha)
      have hall := htally.append hkept
      rw [List.append_nil, Nat.add_zero] at hall
      simp only [Option.toList_some, List.flatMap_singleton, Option.any_some]
      exact hall

end

/-- The creations, updates and deletions that a pass counts are those that it adds to the log. The
pending changes that it counts are the marks that it stored and those that it stored in vain; so
if no mark was refused, a pass that changes nothing counts nothing but children kept from
going. -/
theorem tally_reconcileSet {r : Reconciler (Memory β) τ β} (hr : r.store = Memory.store)
    (hkeeps : r.strategy.KeepsIdentity) (desired : SortedSet Key) {s : PassState (Memory β) τ}
    (hm : s.store.Reachable) :
    ∃ counted landed,
      (r.reconcileSet desired s).2.operations = s.operations ++ counted
        ∧ (r.reconcileSet desired s).2.store.log = s.store.log ++ landed
        ∧ Tally (s.store.marksNewly (r.reconcileSet desired s).2.store) counted landed
          (r.refusedMarks desired s)
        ∧ (r.refusedMarks desired s = 0 → landed = [] → ∀ op ∈ counted, op = .orphan) := by
  have hends : ∃ counted landed,
      (r.reconcileSet desired s).2.operations = s.operations ++ counted
        ∧ (r.reconcileSet desired s).2.store.log = s.store.log ++ landed
        ∧ Tally (s.store.marksNewly (r.reconcileSet desired s).2.store) counted landed
          (r.refusedMarks desired s) := by
    unfold refusedMarks
    cases hl : s.store.listsFail with
    | true =>
        rw [reconcileSet_of_listsFail hr hl]
        exact ⟨[], [], (List.append_nil _).symm, (List.append_nil _).symm, .of_orphans nofun⟩
    | false =>
        exact ⟨_, _, operations_reconcileSet hr hm hl, log_reconcileSet hr hm hl,
          .flatMap fun k hk => tally_turn hr hm hl hkeeps hk⟩
  obtain ⟨counted, landed, hcounted, hlanded, htally⟩ := hends
  refine ⟨counted, landed, hcounted, hlanded, htally, fun hnone hnil op hop => ?_⟩
  rw [hnone, hnil] at htally
  exact htally.eq_orphan hop

open Sealing in
/-- A pass over a group marks a child, deletes two, one of them to create it anew, and creates one;
it counts all of this, and no mark is refused. -/
theorem tally_reconcileSet_group :
    (reconciler .recreate).refusedMarks wanted ⟨group, 0, []⟩ = 0
      ∧ ((reconciler .recreate).reconcileSet wanted ⟨group, 0, []⟩).2.operations
        = [.schedule, .update, .recreate, .delete, .create]
      ∧ ((reconciler .recreate).reconcileSet wanted ⟨group, 0, []⟩).2.store.log
        = [(.replace, key "a"), (.delete, key "b"), (.delete, key "c"), (.create, key "e")]
      ∧ Tally (group.marksNewly
          ((reconciler .recreate).reconcileSet wanted ⟨group, 0, []⟩).2.store)
        [.schedule, .update, .recreate, .delete, .create]
        [(.replace, key "a"), (.delete, key "b"), (.delete, key "c"), (.create, key "e")] 0 := by
  have hnone : (reconciler .recreate).refusedMarks wanted ⟨group, 0, []⟩ = 0 := by decide
  have hoperations : ((reconciler .recreate).reconcileSet wanted ⟨group, 0, []⟩).2.operations
      = [.schedule, .update, .recreate, .delete, .create] := by decide
  have hlog : ((reconciler .recreate).reconcileSet wanted ⟨group, 0, []⟩).2.store.log
      = [(.replace, key "a"), (.delete, key "b"), (.delete, key "c"), (.create, key "e")] := by
    decide
  obtain ⟨counted, landed, hcounted, hlanded, htally, -⟩ := tally_reconcileSet
    (r := reconciler .recreate) (s := ⟨group, 0, []⟩) rfl (keepsIdentity_strategy .recreate) wanted
    reachable_group
  have hcounted' : counted = [.schedule, .update, .recreate, .delete, .create] :=
    hcounted.symm.trans hoperations
  have hlanded' : landed
      = [(.replace, key "a"), (.delete, key "b"), (.delete, key "c"), (.create, key "e")] :=
    hlanded.symm.trans hlog
  rw [hnone, hcounted', hlanded'] at htally
  exact ⟨hnone, hoperations, hlog, htally⟩

open Sealing in
/-- The store refuses the mark of a child, and the pass counts it although it changes nothing. -/
theorem counts_refused_mark :
    (lone.conflictWrites "a").Reachable
      ∧ (reconciler .recreate).strategy.KeepsIdentity
      ∧ ((reconciler .recreate).reconcileSet (SortedMap.ofKeys [key "a"])
          ⟨lone.conflictWrites "a", 0, []⟩).2.operations = [.schedule]
      ∧ ((reconciler .recreate).reconcileSet (SortedMap.ofKeys [key "a"])
          ⟨lone.conflictWrites "a", 0, []⟩).2.store.log = (lone.conflictWrites "a").log :=
  ⟨.conflictWrites _ reachable_lone, keepsIdentity_strategy .recreate, by decide, by decide⟩

end Reconciler

end ControlLoop
