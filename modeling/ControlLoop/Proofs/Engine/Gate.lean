/-
Disruptive changes wait until they are released.

# What is said

The strategy is one whose update functions are functions of an object:
`f` changes what disturbs nobody, and `g` what does, in the way of the
update mode (`Strategy.UpdatesBy`). Of a child that is wanted and not
going away, a pass computes `f` of it and `g` of that.

While the child is not released, no write but one is tried on it, which
stores `f` of it: flagged with what `g` would change, or with no flag if
that is nothing (`waitingForm`). Nothing of `g` but its description is
ever stored, and the child is not deleted. Once it is released and `g`
still changes something, the one write tried is the change in the way
of the mode: the result of `g` without flags, or a deletion, with which
the pass asks to come back.

# Why it holds

What is tried at a key is the one write of its turn (`filter_tried`),
decided from the child as it was listed, since nothing done before
touches it.
-/
import ControlLoop.Proofs.Engine.Effects
import ControlLoop.Proofs.Engine.Outcomes
import ControlLoop.Proofs.Object.Annotations

namespace ControlLoop

variable {σ τ β : Type}

namespace Reconciler

-- =============================================================== flags

/-- What has no flags is neither scheduled nor released. -/
theorem not_flagged_unflagged (o : Object β) :
    Rollout.isScheduled (unflagged o).metadata = false
      ∧ Rollout.isReleased (unflagged o).metadata = false := by
  have hmarks : ∀ k, (unflagged o).metadata.annotation? k
      = if k = Rollout.releasedMark then none
        else if k = Rollout.scheduledMark then none else o.metadata.annotation? k := fun k => by
    show ((o.metadata.unannotate _).unannotate _).annotation? k = _
    rw [Metadata.annotation?_unannotate, Metadata.annotation?_unannotate]
  constructor
  · show ((unflagged o).metadata.annotation? Rollout.scheduledMark).isSome = false
    rw [hmarks]
    rfl
  · show ((unflagged o).metadata.annotation? Rollout.releasedMark).isSome = false
    rw [hmarks]
    rfl

variable [DecidableEq β] [Resource β]

/-- What is stored of a child that waits for its release, given its next state without and with the
disruptive changes. -/
def waitingForm (next rolled : Object β) : Object β :=
  if rolled = next then unflagged next
  else next.modifyMetadata (Rollout.schedule (Change.describe next.toJson rolled.toJson))

section

variable {r : Reconciler σ τ β} {f : Key → Object β → Object β}
  {g : UpdateMode → Key → Object β → Object β} (h : r.strategy.UpdatesBy f g)

include h

/-- The plan for a child compares its two next states in the mode of the moment. -/
theorem plan_of_updatesBy (k : Key) (current : Object β) (t : τ) :
    r.plan k current t
      = (planFor (r.strategy.updateMode t) current (f k current)
          (g (r.strategy.updateMode t) k (f k current)), t) := by
  simp only [plan, h.updateInPlace, h.roll]

end

section

variable {r : Reconciler σ τ β} (hkeys : r.PlansKeepKey)

include hkeys

/-- What is asked for when a key is handled is about that key. -/
theorem key_of_writeFor {k : Key} {wanted : Bool} {current : Option (Object β)} {t : τ}
    (hcur : ∀ o, current = some o → o.key = k) {w : Write β}
    (hw : r.writeFor k wanted current t = some w) : w.key = k := by
  cases asks_of_writeFor hw with
  | create => exact r.key_claimed k _
  | replace hlive hplan hne => exact (hkeys hplan).trans (hcur _ rfl)
  | recreate hlive hplan => rfl
  | turnDown hlive hgo => rfl

variable {desired : SortedSet Key} {existing : SortedMap Key (Object β)}
  (hkeyed : ∀ k o, existing.get? k = some o → o.key = k)

include hkeyed

/-- Of the writes of a run those about one of its keys are what its turn asks for. -/
theorem filter_writesFor {before rest : List Key} {k : Key}
    (hnd : (before ++ k :: rest).Nodup) (s : PassState σ τ) :
    (r.writesFor desired existing (before ++ k :: rest) s).filter (·.key = k)
      = (r.writeFor k (desired.contains k) (existing.get? k)
          (r.passAll desired existing before s).2.strategy).toList := by
  rw [writesFor_eq_along]
  exact filter_along (fun k s w hw => key_of_writeFor hkeys (hkeyed k) (Option.mem_toList.1 hw))
    hnd s

end

-- ============================================================ plans

section

variable {mode : UpdateMode} {current next rolled : Object β}

/-- Until a child is released, what is planned is that it waits. -/
theorem planFor_of_unreleased (h : Rollout.isReleased current.metadata = false) :
    ∃ schedules, planFor mode current next rolled = .write (waitingForm next rolled) schedules := by
  unfold waitingForm
  rcases planFor_cases mode current next rolled with
    ⟨heq, hplan⟩ | ⟨-, hreleased, -⟩ | ⟨-, hreleased, -⟩ | ⟨hne, -, b, hplan⟩
  · exact ⟨false, by rw [hplan, if_pos heq]⟩
  · cases h.symm.trans hreleased
  · cases h.symm.trans hreleased
  · exact ⟨b, by rw [hplan, if_neg hne]⟩

/-- Once it is released, what is planned is the change in the way of the mode. -/
theorem planFor_of_released (h : Rollout.isReleased current.metadata = true)
    (hne : rolled ≠ next) :
    planFor mode current next rolled
      = match mode with
        | .recreate => .recreate
        | .inPlace => .write (unflagged rolled) false := by
  unfold planFor
  exact (if_neg hne).trans (if_pos h)

end

theorem passKey_of_recreate {r : Reconciler σ τ β} {k : Key} {current : Object β}
    {s : PassState σ τ} {t' : τ} (hlive : current.metadata.isTerminating = false)
    (hplan : r.plan k current s.strategy = (.recreate, t')) :
    r.passKey k true (some current) s = r.recreate k current { s with strategy := t' } := by
  simp only [passKey, update, if_neg (Bool.eq_false_iff.1 hlive), hplan]

/-- Where a write is planned, the child stays, or is what was planned. -/
theorem Effect.of_write {r : Reconciler σ τ β} {k : Key} {current next : Object β}
    {schedules : Bool} {t t' : τ} {after : Option (Object β)}
    (h : Effect r k true (some current) t (some current) after)
    (hplan : r.plan k current t = (.write next schedules, t')) :
    after = some current ∨ ∃ v, after = some (next.atVersion v) := by
  cases h with
  | unchanged => exact Or.inl rfl
  | replaced hlive hplan' =>
      rw [hplan] at hplan'
      cases hplan'
      exact Or.inr ⟨_, rfl⟩
  | recreated hlive hplan' =>
      rw [hplan] at hplan'
      cases hplan'

-- ============================================================ the gate

section

variable {r : Reconciler (Memory β) τ β} (hr : r.store = Memory.store)
  {desired : SortedSet Key} {s : PassState (Memory β) τ}
  (hm : s.store.Reachable) (hl : s.store.listsFail = false) {k : Key}

include hr hm hl

/-- What a pass tries at a key is what the key's turn asks for. -/
theorem filter_tried (hkeys : r.PlansKeepKey) (hk : k ∈ passKeys desired (r.owned s.store)) :
    (r.tried desired s).filter (·.key = k)
      = (r.writeFor k (desired.contains k) ((r.owned s.store).get? k)
          (r.turn desired s k).strategy).toList := by
  have hkeyed : ∀ k o, (r.owned s.store).get? k = some o → o.key = k := fun k o ho =>
    hm.sound.keyed (get?_owned_eq_some.1 ho).1
  obtain ⟨rest, hks⟩ := exists_eq_takeWhile_append hk
  have hnd := (r.ready_passKeys desired hm).nodup
  rw [hks] at hnd
  rw [tried_of_lists hr hm.sound hl, hks]
  exact filter_writesFor hkeys hkeyed hnd s

end

section

variable {r : Reconciler (Memory β) τ β} (hr : r.store = Memory.store)
  {f : Key → Object β → Object β} {g : UpdateMode → Key → Object β → Object β}
  (h : r.strategy.UpdatesBy f g) {desired : SortedSet Key} {s : PassState (Memory β) τ}
  (hm : s.store.Reachable) (hl : s.store.listsFail = false) {k : Key}

variable {current : Object β} (hk : k ∈ desired)
  (hcur : (r.owned s.store).get? k = some current)
  (hlive : current.metadata.isTerminating = false)

include hr h hm hl hk hcur hlive

/-- If a write is planned for a child, it is tried at most, and afterwards the child is as before or
as planned. -/
theorem tried_of_write {next : Object β} {schedules : Bool} {t' : τ}
    (hplan : r.plan k current (r.turn desired s k).strategy = (.write next schedules, t')) :
    (r.tried desired s).filter (·.key = k) = (if next = current then [] else [.replace next])
      ∧ ((r.reconcileSet desired s).2.store.object? k = some current
        ∨ ∃ v, (r.reconcileSet desired s).2.store.object? k = some (next.atVersion v)) := by
  have hwanted : desired.contains k = true := hk
  have hthere : s.store.object? k = some current := (get?_owned_eq_some.1 hcur).1
  constructor
  · rw [filter_tried hr hm hl (plansKeepKey_of_updatesBy h) (mem_passKeys.2 (Or.inl hk)), hwanted,
      hcur, writeFor_of_write hlive hplan]
    split
    · rfl
    · rfl
  · have heffect := effect_reconcileSet hr (plansKeepVersion_of_updatesBy h) desired hm k
    rw [hwanted, hcur, hthere] at heffect
    exact heffect.of_write hplan

/-- If a child is to be created anew, its deletion is tried. Unless that is made to fail, the child
is gone and the pass comes back after the delay for this; in any case it comes back. -/
theorem tried_of_recreate {t' : τ}
    (hplan : r.plan k current (r.turn desired s k).strategy = (.recreate, t')) :
    (∃ p, (r.tried desired s).filter (·.key = k) = [.delete k p])
      ∧ (s.store.refusal? k = none →
        (r.reconcileSet desired s).2.store.object? k = none
          ∧ (r.reconcileSet desired s).1.requeueAfter = some recreateDelay)
      ∧ (s.store.refusal? k ≠ none →
        (r.reconcileSet desired s).2.store.object? k = some current)
      ∧ (r.reconcileSet desired s).1.comesBack = true := by
  have hwanted : desired.contains k = true := hk
  have hmem : k ∈ passKeys desired (r.owned s.store) := mem_passKeys.2 (Or.inl hk)
  have hthere : s.store.object? k = some current := (get?_owned_eq_some.1 hcur).1
  have hv := plansKeepVersion_of_updatesBy h
  obtain ⟨p, hw⟩ := writeFor_of_recreate hlive hplan
  -- at its turn the child is still there, and the store is as willing as in the beginning
  have hturn : (r.turn desired s k).store.object? k = some current :=
    (object?_turn hr hv hm k).trans hthere
  have hrefusal : (r.turn desired s k).store.refusal? = s.store.refusal? :=
    refusal?_turn hr hv hm k
  have hafter : (r.reconcileSet desired s).2.store.object? k
      = if (s.store.refusal? k).isSome then some current else none := by
    rw [object?_reconcileSet hr hv hm hl hmem, hwanted, hcur, passKey_store hr, hw]
    show ((r.turn desired s k).store.delete k).2.object? k = _
    rw [Memory.object?_delete, hturn, hrefusal]
  obtain ⟨hback, hdelay⟩ := comesBack_recreate hr k current
    { r.turn desired s k with strategy := t' }
  obtain ⟨outcomes, hmerge, hin, hwaits⟩ := exists_outcomes hr hm.sound hl hmem
  rw [hwanted, hcur, passKey_of_recreate hlive hplan] at hin
  refine ⟨⟨p, ?_⟩, fun hfree => ⟨?_, ?_⟩, fun hrefused => ?_, ?_⟩
  · rw [filter_tried hr hm hl (plansKeepKey_of_updatesBy h) hmem, hwanted, hcur, hw]
    rfl
  · rw [hafter, hfree]
    rfl
  · have hlanded := hdelay (by rw [← hfree, ← hrefusal]) hturn
    rw [hmerge]
    exact Outcome.WaitsOnly.requeueAfter_mergeAll hwaits hin (by rw [hlanded]; rfl)
  · rw [hafter, if_pos (Option.isSome_iff_ne_none.2 hrefused)]
  · rw [hmerge, Outcome.comesBack_mergeAll]
    exact List.any_eq_true.2 ⟨_, hin, hback⟩

end

/-- Disruptive changes wait until they are released. Of a child that is wanted and not going away,
nothing but its waiting form is tried while it is not released; and if it is released and a
disruptive change is still to be made, nothing but that change is tried, in the way of the mode. -/
theorem release_gates_disruption {r : Reconciler (Memory β) τ β} (hr : r.store = Memory.store)
    {f : Key → Object β → Object β} {g : UpdateMode → Key → Object β → Object β}
    (h : r.strategy.UpdatesBy f g) {desired : SortedSet Key} {s : PassState (Memory β) τ}
    (hm : s.store.Reachable) (hl : s.store.listsFail = false) {k : Key} {current : Object β}
    (hk : k ∈ desired) (hcur : (r.owned s.store).get? k = some current)
    (hlive : current.metadata.isTerminating = false) {mode : UpdateMode}
    (hmode : r.strategy.updateMode (r.turn desired s k).strategy = mode) :
    (Rollout.isReleased current.metadata = false →
        (∀ w ∈ (r.tried desired s).filter (·.key = k),
            w = .replace (waitingForm (f k current) (g mode k (f k current))))
          ∧ ((r.reconcileSet desired s).2.store.object? k = some current
            ∨ ∃ v, (r.reconcileSet desired s).2.store.object? k
              = some ((waitingForm (f k current) (g mode k (f k current))).atVersion v)))
      ∧ (Rollout.isReleased current.metadata = true → g mode k (f k current) ≠ f k current →
        match mode with
        | .inPlace =>
          (r.tried desired s).filter (·.key = k)
              = [.replace (unflagged (g mode k (f k current)))]
            ∧ ((r.reconcileSet desired s).2.store.object? k = some current
              ∨ ∃ v, (r.reconcileSet desired s).2.store.object? k
                = some ((unflagged (g mode k (f k current))).atVersion v))
        | .recreate =>
          (∃ p, (r.tried desired s).filter (·.key = k) = [.delete k p])
            ∧ (s.store.refusal? k = none →
              (r.reconcileSet desired s).2.store.object? k = none
                ∧ (r.reconcileSet desired s).1.requeueAfter = some recreateDelay)
            ∧ (s.store.refusal? k ≠ none →
              (r.reconcileSet desired s).2.store.object? k = some current)
            ∧ ∀ took command, ∃ delay,
              (Controller.Report.mk (r.reconcileSet desired s).1.action took command).action
                = .requeue delay) := by
  have hplan := plan_of_updatesBy h k current (r.turn desired s k).strategy
  rw [hmode] at hplan
  refine ⟨fun hunreleased => ?_, fun hreleased hne => ?_⟩
  · obtain ⟨schedules, hwait⟩ : ∃ schedules,
        planFor mode current (f k current) (g mode k (f k current))
          = .write (waitingForm (f k current) (g mode k (f k current))) schedules :=
      planFor_of_unreleased hunreleased
    rw [hwait] at hplan
    obtain ⟨hattempts, hafter⟩ := tried_of_write hr h hm hl hk hcur hlive hplan
    refine ⟨fun w hw => ?_, hafter⟩
    rw [hattempts] at hw
    split at hw
    · cases hw
    · exact List.mem_singleton.1 hw
  · rw [planFor_of_released hreleased hne] at hplan
    cases mode with
    | inPlace =>
        obtain ⟨hattempts, hafter⟩ := tried_of_write hr h hm hl hk hcur hlive hplan
        have hdiffers : unflagged (g .inPlace k (f k current)) ≠ current := by
          intro heq
          have hflag := (not_flagged_unflagged (g .inPlace k (f k current))).2
          rw [heq, hreleased] at hflag
          cases hflag
        rw [if_neg hdiffers] at hattempts
        exact ⟨hattempts, hafter⟩
    | recreate =>
        obtain ⟨hattempts, hlanded, hrefused, hback⟩ :=
          tried_of_recreate hr h hm hl hk hcur hlive hplan
        exact ⟨hattempts, hlanded, hrefused, Outcome.action_of_comesBack hback⟩

open Sealing in
/-- In a pass over a group nothing but the mark is tried on the child that waits, and nothing but the
deletion on the one that is released, for which the pass comes back. -/
theorem release_gates_disruption_group :
    (∀ w ∈ ((reconciler .recreate).tried wanted ⟨group, 0, []⟩).filter (·.key = key "a"),
        w = .replace ((tidied ((member "a" true none).atVersion "1")).modifyMetadata
          (Rollout.schedule "changes to immutable")))
      ∧ (∃ p, ((reconciler .recreate).tried wanted ⟨group, 0, []⟩).filter (·.key = key "b")
        = [.delete (key "b") p])
      ∧ ((reconciler .recreate).reconcileSet wanted ⟨group, 0, []⟩).1.requeueAfter
        = some recreateDelay := by
  have ha : ((reconciler .recreate).owned group).get? (key "a")
      = some ((member "a" true none).atVersion "1") := by decide
  have hb : ((reconciler .recreate).owned group).get? (key "b")
      = some ((member "b" true
        (some (SortedMap.ofList [(Rollout.releasedMark, "true")]))).atVersion "2") := by decide
  obtain ⟨hwaits, -⟩ := release_gates_disruption (r := reconciler .recreate)
    (s := ⟨group, 0, []⟩) rfl (updatesBy_strategy .recreate) reachable_group rfl
    (show key "a" ∈ wanted by decide) ha rfl rfl
  obtain ⟨-, hrecreates⟩ := release_gates_disruption (r := reconciler .recreate)
    (s := ⟨group, 0, []⟩) rfl (updatesBy_strategy .recreate) reachable_group rfl
    (show key "b" ∈ wanted by decide) hb rfl rfl
  obtain ⟨htried, hlanded, -⟩ := hrecreates (by decide) (by decide)
  refine ⟨fun w hw => ?_, htried, (hlanded (by decide)).2⟩
  rw [(hwaits (by decide)).1 w hw]
  decide

end Reconciler

end ControlLoop
