/-
A failure at one key is nobody else's.

Two passes from the same state, one of which meets failures, are
compared key by key. At its turn a key holds in both what it held in the
beginning, and a strategy that is a function of what it is shown asks
for the same write in both (`foldl_after_writeFor`). So a key whose
writes are not made to fail comes to the same in both, up to what the
store numbers (`alike_reconcileSet`), and a key whose writes are made to
fail is left as it was (`object?_reconcileSet_of_refused`).

What the pass reports follows from what it tried: the first error, in
the order of the keys, and the wish to come back (`comesBackFor_iff`).
All of this together is `failures_stay_apart`.

An update may move an object, but not with a version of its own choice:
versions are numbered through the whole store, so a failure elsewhere
would decide whether the write lands. And where it moves an object to a
free key, the store finds nothing there to replace, and the pass comes
back for this reason too (`moved_children_meet`).
-/
import ControlLoop.Proofs.Engine.Attempts
import ControlLoop.Proofs.Engine.Quiescence

namespace ControlLoop

variable {τ β : Type}

namespace Memory

theorem refusal?_under_eq_none {m : Memory β} {unavailable conflicting : SortedSet String}
    {k : Key} :
    (m.under ⟨unavailable, conflicting, false⟩).refusal? k = none
      ↔ k.name ∉ unavailable ∧ k.name ∉ conflicting := refusal?_eq_none_iff

end Memory

namespace Reconciler

variable [DecidableEq β] [Resource β]

-- ============================================================ one key

/-- What a write that is asked for leaves does not depend on the state of the strategy. -/
theorem foldl_after_writeFor {σ : Type} {r : Reconciler σ τ β} {b : Blueprint β}
    (hb : r.strategy.Follows b) (k : Key) (wanted : Bool) (current : Option (Object β)) (t t' : τ)
    (m : Memory β) :
    (r.writeFor k wanted current t).toList.foldl Memory.after m
      = (r.writeFor k wanted current t').toList.foldl Memory.after m := by
  cases current with
  | none =>
      cases wanted with
      | true => simp only [writeFor, hb.newObject]
      | false => rfl
  | some o =>
      cases hterm : o.metadata.isTerminating with
      | true => rw [writeFor_of_terminating hterm, writeFor_of_terminating hterm]
      | false =>
          cases wanted with
          | true =>
              cases hplan : blueprintPlan b k o with
              | recreate =>
                  obtain ⟨p, hw⟩ := writeFor_of_planned_recreate hb t hterm hplan
                  obtain ⟨p', hw'⟩ := writeFor_of_planned_recreate hb t' hterm hplan
                  rw [hw, hw']
                  rfl
              | write next schedules =>
                  rw [writeFor_of_planned_write hb t hterm hplan,
                    writeFor_of_planned_write hb t' hterm hplan]
          | false =>
              cases hkeep : b.keep k o with
              | some reason =>
                  rw [writeFor_of_keep hb t hterm hkeep, writeFor_of_keep hb t' hterm hkeep]
              | none =>
                  obtain ⟨p, hw⟩ := writeFor_of_not_keep hb t hterm hkeep
                  obtain ⟨p', hw'⟩ := writeFor_of_not_keep hb t' hterm hkeep
                  rw [hw, hw']
                  rfl

section

variable {r : Reconciler (Memory β) τ β} (hr : r.store = Memory.store)

include hr

/-- Handling a key whose writes are not made to fail leaves alike what two stores hold alike. -/
theorem alike_passKey {b : Blueprint β} (hb : r.strategy.Follows b) {k : Key}
    {s s' : PassState (Memory β) τ} (hsame : s'.store.object? k = s.store.object? k)
    (hfree : s.store.refusal? k = none) (hfree' : s'.store.refusal? k = none) (wanted : Bool)
    (current : Option (Object β)) :
    Alike ((r.passKey k wanted current s).2.store.object? k)
      ((r.passKey k wanted current s').2.store.object? k) := by
  rw [passKey_store hr, passKey_store hr,
    foldl_after_writeFor hb k wanted current s'.strategy s.strategy]
  cases r.writeFor k wanted current s.strategy with
  | none =>
      show Alike (s.store.object? k) (s'.store.object? k)
      rw [hsame]
      exact .same _
  | some w => exact Memory.alike_after hsame hfree hfree' w

end

-- ======================================================== a whole pass

section

variable {r : Reconciler (Memory β) τ β} (hr : r.store = Memory.store) (hv : r.PlansKeepVersion)
  {desired : SortedSet Key} {s : PassState (Memory β) τ} (hm : s.store.Reachable)
  (hl : s.store.listsFail = false)

include hr hv hm hl

/-- A key whose writes are made to fail is left as it was. -/
theorem object?_reconcileSet_of_refused {k : Key} {e : Error} (he : s.store.refusal? k = some e) :
    (r.reconcileSet desired s).2.store.object? k = s.store.object? k := by
  by_cases hk : k ∈ passKeys desired (r.owned s.store)
  · have hturn : (r.turn desired s k).store.refusal? k = some e := by
      rw [refusal?_turn hr hv hm k]
      exact he
    rw [object?_of_attempt hr hv hm hl hk]
    cases r.attempt? desired s k with
    | none => rfl
    | some a =>
        exact (Memory.object?_after_of_refused hturn a.write).trans (object?_turn hr hv hm k)
  · exact (agreesAt_reconcileSet_of_notMem hr hv hm hl hk).object?

/-- A key whose writes are not made to fail comes to the same in another pass over the same
objects. -/
theorem alike_reconcileSet {b : Blueprint β} (hb : r.strategy.Follows b)
    {s' : PassState (Memory β) τ} (hm' : s'.store.Reachable) (hl' : s'.store.listsFail = false)
    (hobjects : s'.store.objects = s.store.objects) {k : Key} (hfree : s.store.refusal? k = none)
    (hfree' : s'.store.refusal? k = none) :
    Alike ((r.reconcileSet desired s).2.store.object? k)
      ((r.reconcileSet desired s').2.store.object? k) := by
  have hsame : s'.store.object? k = s.store.object? k := congrArg (·.get? k) hobjects
  have howned : r.owned s'.store = r.owned s.store := by
    rw [owned, hobjects]
    rfl
  by_cases hk : k ∈ passKeys desired (r.owned s.store)
  · rw [object?_reconcileSet hr hv hm hl hk, object?_reconcileSet hr hv hm' hl' (howned ▸ hk),
      howned]
    refine alike_passKey hr hb ?_ ?_ ?_ _ _
    · rw [object?_turn hr hv hm', object?_turn hr hv hm, hsame]
    · rw [refusal?_turn hr hv hm, hfree]
    · rw [refusal?_turn hr hv hm', hfree']
  · rw [(agreesAt_reconcileSet_of_notMem hr hv hm hl hk).object?,
      (agreesAt_reconcileSet_of_notMem hr hv hm' hl' (howned ▸ hk)).object?, hsame]
    exact .same _

omit hl in
/-- The store finds nothing to write to only where an update claims another key. -/
theorem renamed_of_notFound {k : Key} {w : Write β} {what : String}
    (ha : r.attempt? desired s k = some ⟨w, some (.notFound what)⟩) :
    ∃ next, w = .replace next ∧ next.key ≠ k := by
  obtain ⟨hw, hfault⟩ := attempt?_eq_some.1 ha
  have hrefusal : ∀ k', (r.turn desired s k).store.refusal? k' ≠ some (.notFound what) := by
    intro k' h
    rcases Memory.refusal?_cases h with h | h <;> cases h
  -- what was seen at the key is still there when it is written to
  have hthere : ∀ {o}, (r.owned s.store).get? k = some o →
      (r.turn desired s k).store.object? k ≠ none := fun ho h => by
    rw [object?_turn hr hv hm k, (get?_owned_eq_some.1 ho).1] at h
    cases h
  generalize (r.owned s.store).get? k = current at hw hthere
  generalize desired.contains k = wanted at hw
  cases asks_of_writeFor hw with
  | create =>
      rcases Memory.fault?_create hfault with h | ⟨-, what', h⟩
      · exact absurd h (hrefusal _)
      · cases h
  | replace hlive hplan hne =>
      refine ⟨_, rfl, fun hkey => ?_⟩
      rcases Memory.fault?_replace hfault with h | ⟨hnone, -⟩ | ⟨what', h⟩
      · exact hrefusal _ h
      · exact hthere rfl (hkey ▸ hnone)
      · cases h
  | recreate hlive hplan =>
      rcases Memory.fault?_delete hfault with h | ⟨hnone, -⟩
      · exact absurd h (hrefusal _)
      · exact absurd hnone (hthere rfl)
  | turnDown hlive hgo =>
      rcases Memory.fault?_delete hfault with h | ⟨hnone, -⟩
      · exact absurd h (hrefusal _)
      · exact absurd hnone (hthere rfl)

omit hr hv hm hl in
theorem key_of_delete {σ : Type} {r : Reconciler σ τ β} {k k' : Key} {wanted : Bool}
    {current : Option (Object β)} {t : τ} {p : Propagation}
    (h : r.writeFor k wanted current t = some (.delete k' p)) : k' = k := by
  cases asks_of_writeFor h <;> rfl

omit hl in
/-- A pass comes back for a key if its child was deleted to be created anew, if its write was
refused as a conflict that is no error, or if an update claims another key that is free. -/
theorem comesBackFor_iff {k : Key} {a : Attempt β} (ha : r.attempt? desired s k = some a) :
    r.comesBackFor k (desired.contains k) (s.store.object? k) a = true
      ↔ (k ∈ desired ∧ ∃ p, a = ⟨.delete k p, none⟩)
        ∨ ((∃ what, a.fault = some (.conflict what))
          ∧ r.hardError? k (s.store.object? k) a = none)
        ∨ ∃ next what, a = ⟨.replace next, some (.notFound what)⟩ ∧ next.key ≠ k := by
  obtain ⟨w, fault⟩ := a
  obtain ⟨hw, hfault⟩ := attempt?_eq_some.1 ha
  cases fault with
  | none =>
      cases w with
      | create o =>
          refine ⟨fun h => absurd h Bool.false_ne_true, ?_⟩
          rintro (⟨-, p, h⟩ | ⟨⟨what, h⟩, -⟩ | ⟨next, what, h, -⟩) <;> cases h
      | replace o =>
          refine ⟨fun h => absurd h Bool.false_ne_true, ?_⟩
          rintro (⟨-, p, h⟩ | ⟨⟨what, h⟩, -⟩ | ⟨next, what, h, -⟩) <;> cases h
      | delete k' p =>
          obtain rfl : k' = k := key_of_delete hw
          refine ⟨fun hwanted => Or.inl ⟨hwanted, p, rfl⟩, ?_⟩
          rintro (⟨hwanted, -⟩ | ⟨⟨what, h⟩, -⟩ | ⟨next, what, h, -⟩)
          · exact hwanted
          · cases h
          · cases h
  | some e =>
      rcases Memory.fault?_cases hfault with ⟨what, rfl⟩ | ⟨what, rfl⟩ | ⟨what, rfl⟩
      · rw [comesBackFor, hardError?]
        refine ⟨fun h => absurd h Bool.false_ne_true, ?_⟩
        rintro (⟨-, p, h⟩ | ⟨⟨what, h⟩, -⟩ | ⟨next, what, h, -⟩) <;> cases h
      · rw [comesBackFor, Option.isNone_iff_eq_none]
        refine ⟨fun h => Or.inr (Or.inl ⟨⟨what, rfl⟩, h⟩), ?_⟩
        rintro (⟨-, p, h⟩ | ⟨-, h⟩ | ⟨next, what, h, -⟩)
        · cases h
        · exact h
        · cases h
      · obtain ⟨next, rfl, hne⟩ := renamed_of_notFound hr hv hm ha
        exact ⟨fun _ => Or.inr (Or.inr ⟨next, what, rfl, hne⟩), fun _ => rfl⟩

end

/-- Failures stay apart. The strategy is a function of what it is shown, and an update that moves an
object, if there is such a one, leaves its version as it is. Let the writes to some names be made to
fail as unavailable and those to others as conflicts. Then every key with one of these names is left
as it was, and every other key comes to the same as in a pass without failures, but for versions and
for the ids of new objects. The error of the pass is that of the first key, in order, whose write
found the store unavailable or whose new child met an object of someone else. The pass never wants
to come back at once, and it wants to come back after five seconds if and only if a child was
deleted to be created anew, or a write was refused as a conflict without such an error, or an update
moves an object to a key where there is none. The last cannot be if no update moves an object. -/
theorem failures_stay_apart {r : Reconciler (Memory β) τ β} (hr : r.store = Memory.store)
    {b : Blueprint β} (hb : r.strategy.Follows b) (hv : r.PlansKeepVersion) {m : Memory β}
    (hm : m.Reachable) (unavailable conflicting : SortedSet String) (desired : SortedSet Key)
    (t : τ) (operations : List ChildOperation) :
    let calm : PassState (Memory β) τ := ⟨m.under ⟨∅, ∅, false⟩, t, operations⟩
    let hit : PassState (Memory β) τ := ⟨m.under ⟨unavailable, conflicting, false⟩, t, operations⟩
    let result := r.reconcileSet desired hit
    (∀ k, k.name ∈ unavailable ∨ k.name ∈ conflicting →
        result.2.store.object? k = m.object? k)
      ∧ (∀ k, k.name ∉ unavailable → k.name ∉ conflicting →
        Alike ((r.reconcileSet desired calm).2.store.object? k) (result.2.store.object? k))
      ∧ result.1.error
        = (passKeys desired (r.owned m)).findSome? (fun k =>
            (r.attempt? desired hit k).bind (r.hardError? k (m.object? k)))
      ∧ result.1.requeueNow = false
      ∧ (result.1.requeueAfter = some (Duration.ofSeconds 5)
        ↔ ∃ k ∈ passKeys desired (r.owned m), ∃ a, r.attempt? desired hit k = some a
          ∧ ((k ∈ desired ∧ ∃ p, a = ⟨.delete k p, none⟩)
            ∨ ((∃ what, a.fault = some (.conflict what)) ∧ r.hardError? k (m.object? k) a = none)
            ∨ ∃ next what, a = ⟨.replace next, some (.notFound what)⟩ ∧ next.key ≠ k))
      ∧ (r.PlansKeepKey → ∀ k a, r.attempt? desired hit k = some a →
        ∀ what, a.fault ≠ some (.notFound what)) := by
  intro calm hit result
  have hcalm : calm.store.Reachable := hm.under _
  have hhit : hit.store.Reachable := hm.under _
  refine ⟨fun k hk => ?_, fun k hu hc => ?_, error_reconcileSet hr hv hhit rfl,
    (requeue_reconcileSet hr hv hhit rfl).1, ?_, fun hkeys k a ha what hfault => ?_⟩
  · cases he : hit.store.refusal? k with
    | none =>
        obtain ⟨hu, hc⟩ := Memory.refusal?_under_eq_none.1 he
        exact absurd hk (not_or.2 ⟨hu, hc⟩)
    | some e => exact object?_reconcileSet_of_refused hr hv hhit rfl he
  · exact alike_reconcileSet hr hv hcalm rfl hb hhit rfl rfl rfl
      (Memory.refusal?_under_eq_none.2 ⟨hu, hc⟩)
  · have hdelay : result.1.requeueAfter = _ := (requeue_reconcileSet hr hv hhit rfl).2
    rw [hdelay]
    constructor
    · intro h
      split at h
      · next hany =>
        obtain ⟨k, hk, hback⟩ := List.any_eq_true.1 hany
        obtain ⟨a, ha, hback⟩ := (Option.any_eq_true _ _).1 hback
        exact ⟨k, hk, a, ha, (comesBackFor_iff hr hv hhit ha).1 hback⟩
      · cases h
    · rintro ⟨k, hk, a, ha, hback⟩
      refine if_pos (List.any_eq_true.2 ⟨k, hk, ?_⟩)
      rw [ha]
      exact (comesBackFor_iff hr hv hhit ha).2 hback
  · obtain ⟨w, fault⟩ := a
    obtain rfl : fault = some (.notFound what) := hfault
    obtain ⟨next, rfl, hne⟩ := renamed_of_notFound hr hv hhit ha
    exact hne (key_of_writeFor hkeys (fun o ho => hhit.sound.keyed (get?_owned_eq_some.1 ho).1)
      (attempt?_eq_some.1 ha).1)

end Reconciler

/-- A group of which the store cannot be reached for one child, and another writer is faster at a
second. -/
def Sealing.struck : PassState (Memory ConfigMap) Unit :=
  ⟨group.under ⟨SortedMap.ofKeys ["c"], SortedMap.ofKeys ["a"], false⟩, (), []⟩

open Sealing in
/-- In a pass over it both are left as they were, and the missing child is created all the same. The
error is the first one, though the name of a later child is taken, and for the child that is created
anew the pass comes back. -/
theorem Reconciler.failures_stay_apart_group :
    ((blueprintReconciler none).reconcileSet wanted struck).2.store.object? (key "a")
        = group.object? (key "a")
      ∧ ((blueprintReconciler none).reconcileSet wanted struck).2.store.object? (key "c")
        = group.object? (key "c")
      ∧ Alike (((blueprintReconciler none).reconcileSet wanted
          ⟨group.under ⟨∅, ∅, false⟩, (), []⟩).2.store.object? (key "e"))
        (((blueprintReconciler none).reconcileSet wanted struck).2.store.object? (key "e"))
      ∧ ((blueprintReconciler none).reconcileSet wanted struck).1.error.map Error.message
        = some "Store unavailable: ns/c"
      ∧ ((blueprintReconciler none).reconcileSet wanted struck).1.requeueAfter
        = some (Duration.ofSeconds 5) := by
  have hfollows := (blueprint none).follows_strategy
  have hkeys := plansKeepKey_of_follows (r := blueprintReconciler none) hfollows
    (converges_blueprint none).keepsIdentity
  obtain ⟨hkept, halike, herror, -, hback, -⟩ :=
    failures_stay_apart (r := blueprintReconciler none) rfl hfollows hkeys.plansKeepVersion
      reachable_group (SortedMap.ofKeys ["c"]) (SortedMap.ofKeys ["a"]) wanted () []
  -- the child that is released is deleted
  have hanew : (blueprintReconciler none).attempt? wanted struck (key "b")
      = some ⟨.delete (key "b") .background, none⟩ :=
    attempt?_eq_some.2 ⟨by decide +kernel, by decide +kernel⟩
  have hmem : key "b" ∈ passKeys wanted ((blueprintReconciler none).owned group) :=
    mem_passKeys.2 (Or.inl (by decide))
  refine ⟨hkept _ (Or.inr (by decide)), hkept _ (Or.inl (by decide)),
    halike _ (by decide) (by decide), ?_,
    hback.2 ⟨key "b", hmem, _, hanew, Or.inl ⟨by decide, .background, rfl⟩⟩⟩
  rw [struck, herror]
  decide +kernel

-- ================================================= updates that move objects

theorem Alike.annotations {found found' : Option (Object β)} (h : Alike found found') :
    found.map (·.metadata.annotations) = found'.map (·.metadata.annotations) := by
  cases h <;> rfl

namespace Sealing

/-- Config maps with data, of which the third gets the name of the second, with a version that this
one may have by then, and the fourth a name that nobody has. -/
def moving : Blueprint ConfigMap where
  newObject _ := ⟨Metadata.empty, ConfigMap.empty⟩
  mode := .recreate
  update k o :=
    if k = key "c" then (moved "b" o).atVersion "5"
    else if k = key "d" then moved "e" o
    else tidied o
  roll _ o := o
  keep _ _ := none

def movingReconciler : Reconciler (Memory ConfigMap) Unit ConfigMap :=
  ⟨Memory.store, moving.strategy, parent, ∅⟩

/-- A group of four children, of which the third has annotations. -/
def quartet : Memory ConfigMap :=
  let m := (pair.seed (member "c" true (some (SortedMap.ofList [("owner", "c")])))).2
  (m.seed (member "d" true none)).2

theorem reachable_quartet : quartet.Reachable := .seed _ (.seed _ (.seed _ reachable_lone))

/-- The four of them. -/
def four : SortedSet Key := SortedMap.ofKeys [key "a", key "b", key "c", key "d"]

/-- A pass over them in which nothing fails. -/
def unhindered : Outcome × PassState (Memory ConfigMap) Unit :=
  movingReconciler.reconcileSet four ⟨quartet.under ⟨∅, ∅, false⟩, (), []⟩

/-- The state in which the store cannot be reached for the first. -/
def hindered : PassState (Memory ConfigMap) Unit :=
  ⟨quartet.under ⟨SortedMap.ofKeys ["a"], ∅, false⟩, (), []⟩

end Sealing

open Sealing in
/-- If updates move objects and choose their versions, a failure at one key decides what is stored at
another. If one moves an object to a free key, the pass comes back though no child was deleted and no
write met a conflict. And if the children cannot be listed, that is the error of a pass that has no
key to handle. -/
theorem Reconciler.moved_children_meet :
    (movingReconciler.strategy.Follows moving ∧ quartet.Reachable
      ∧ (key "b").name ∉ (SortedMap.ofKeys ["a"] : SortedSet String)
      ∧ ¬ Alike (unhindered.2.store.object? (key "b"))
        ((movingReconciler.reconcileSet four hindered).2.store.object? (key "b"))
      ∧ (movingReconciler.reconcileSet four hindered).1.requeueAfter = some (Duration.ofSeconds 5)
      ∧ ∀ k ∈ passKeys four (movingReconciler.owned quartet),
        ∀ a ∈ movingReconciler.attempt? four hindered k,
          a.write.kind = .replace ∧ a.fault.any Error.isConflict = false)
    ∧ ((Memory.empty : Memory ConfigMap).failLists.Reachable
      ∧ passKeys ∅ (movingReconciler.owned (Memory.empty : Memory ConfigMap).failLists) = []
      ∧ (movingReconciler.reconcileSet ∅ ⟨Memory.empty.failLists, (), []⟩).1.error.map Error.message
        = some "Store unavailable: list ns") := by
  constructor
  · refine ⟨moving.follows_strategy, reachable_quartet, by decide, fun halike => ?_,
      by decide +kernel, by decide +kernel⟩
    -- the second child keeps its annotations in the one pass, and gets those of the third in the other
    have hsame := halike.annotations
    revert hsame
    decide +kernel
  · exact ⟨.failLists .empty, by decide, by decide +kernel⟩

end ControlLoop
