/-
What a pass leaves that has nothing to report.

A pass that ends without an error and without a wish to come back has
converged (`converged_of_clean`). The step is that none of its writes
can have been refused, and that it deleted no child to create it anew:
either would show (`taken_of_clean`). So whatever was asked for was
done, and each key holds what it was to hold: a wanted key an object, a
child that changes its next form, and a key that is not wanted nothing
but what is going away or was kept for a reason.
-/
import ControlLoop.Proofs.Engine.Attempts
import ControlLoop.Proofs.Engine.Gate
import ControlLoop.Proofs.Engine.Turndown

namespace ControlLoop.Reconciler

variable {τ β : Type} [DecidableEq β] [Resource β]

section

variable {r : Reconciler (Memory β) τ β} (hr : r.store = Memory.store)
  {desired : SortedSet Key} {s : PassState (Memory β) τ}
  (hclean : (r.reconcileSet desired s).1 = .ok)

include hr hclean

/-- The listing of a pass without an error succeeded. -/
theorem lists_of_clean : s.store.listsFail = false := by
  cases hl : s.store.listsFail with
  | false => rfl
  | true =>
      rw [reconcileSet_of_listsFail hr hl] at hclean
      cases hclean

variable (hv : r.PlansKeepVersion) (hm : s.store.Reachable)

include hv hm

/-- What such a pass tried was taken, and was no deletion of a wanted child. -/
theorem taken_of_clean {k : Key} (hk : k ∈ passKeys desired (r.owned s.store)) {a : Attempt β}
    (ha : r.attempt? desired s k = some a) :
    a.fault = none ∧ (k ∈ desired → ∀ p, a.write ≠ .delete k p) := by
  have hl := lists_of_clean hr hclean
  have herror : (r.reconcileSet desired s).1.error = _ := error_reconcileSet hr hv hm hl
  have hdelay : (r.reconcileSet desired s).1.requeueAfter = _ :=
    (requeue_reconcileSet hr hv hm hl).2
  rw [hclean] at herror hdelay
  have hhard := List.findSome?_eq_none_iff.1 herror.symm k hk
  have hquiet : r.comesBackFor k (desired.contains k) (s.store.object? k) a = false := by
    split at hdelay
    · cases hdelay
    · next hany =>
      have h := List.any_eq_false.1 (Bool.eq_false_iff.2 hany) k hk
      rw [ha] at h
      exact Bool.eq_false_iff.2 h
  rw [ha, Option.bind_some] at hhard
  obtain ⟨w, fault⟩ := a
  cases fault with
  | some e =>
      rw [comesBackFor, hhard] at hquiet
      cases hquiet
  | none =>
      refine ⟨rfl, fun hwanted p hw => ?_⟩
      obtain rfl : w = .delete k p := hw
      exact Bool.false_ne_true (hquiet.symm.trans hwanted)

/-- A write that is asked for in such a pass leaves what it was to leave. -/
theorem landed_of_clean {k : Key} (hk : k ∈ passKeys desired (r.owned s.store)) {w : Write β}
    (hw : r.writeFor k (desired.contains k) ((r.owned s.store).get? k)
      (r.turn desired s k).strategy = some w) :
    (r.reconcileSet desired s).2.store.object? k = ((r.turn desired s k).store.after w).object? k
      ∧ (r.turn desired s k).store.fault? w = none ∧ (k ∈ desired → ∀ p, w ≠ .delete k p) := by
  have ha : r.attempt? desired s k = some ⟨w, (r.turn desired s k).store.fault? w⟩ :=
    attempt?_eq_some.2 ⟨hw, rfl⟩
  have hafter := object?_of_attempt hr hv hm (lists_of_clean hr hclean) hk
  rw [ha] at hafter
  exact ⟨hafter, taken_of_clean hr hclean hv hm hk ha⟩

omit hclean in
/-- A key for which nothing is asked is left as it was. -/
theorem object?_of_idle (hl : s.store.listsFail = false) {k : Key}
    (hk : k ∈ passKeys desired (r.owned s.store))
    (hw : r.writeFor k (desired.contains k) ((r.owned s.store).get? k)
      (r.turn desired s k).strategy = none) :
    (r.reconcileSet desired s).2.store.object? k = s.store.object? k := by
  rw [object?_of_attempt hr hv hm hl hk, attempt?, attemptFor, hw]
  rfl

/-- A wanted key holds an object afterwards. -/
theorem occupied_of_clean (hkeys : r.PlansKeepKey) {k : Key} (hk : k ∈ desired) :
    ∃ o, (r.reconcileSet desired s).2.store.object? k = some o := by
  have hwanted : desired.contains k = true := hk
  have hmem : k ∈ passKeys desired (r.owned s.store) := mem_passKeys.2 (Or.inl hk)
  cases hw : r.writeFor k (desired.contains k) ((r.owned s.store).get? k)
      (r.turn desired s k).strategy with
  | none =>
      rw [object?_of_idle hr hv hm (lists_of_clean hr hclean) hmem hw]
      cases hseen : (r.owned s.store).get? k with
      | none =>
          rw [hwanted, hseen] at hw
          cases hw
      | some o => exact ⟨o, (get?_owned_eq_some.1 hseen).1⟩
  | some w =>
      obtain ⟨hafter, htaken, hstays⟩ := landed_of_clean hr hclean hv hm hmem hw
      have hkey : w.key = k := key_of_writeFor hkeys
        (fun o ho => hm.sound.keyed (get?_owned_eq_some.1 ho).1) hw
      rw [hafter]
      cases w with
      | create o =>
          obtain ⟨v, u, hnew⟩ := Memory.object?_of_created htaken
          rw [show o.key = k from hkey] at hnew
          exact ⟨_, hnew⟩
      | replace o =>
          obtain ⟨v, hnew⟩ := Memory.object?_of_replaced htaken
          rw [show o.key = k from hkey] at hnew
          exact ⟨_, hnew⟩
      | delete k' p => exact absurd (congrArg (Write.delete · p) hkey) (hstays hk p)

omit hclean hv in
/-- A child at a key that is not wanted, for which nothing is asked, is going away or was kept for a
reason. -/
theorem kept_of_idle (hl : s.store.listsFail = false) {k : Key} (hk : k ∉ desired)
    {current : Object β} (hcur : (r.owned s.store).get? k = some current)
    (hw : r.writeFor k false (some current) (r.turn desired s k).strategy = none) :
    current.metadata.isTerminating = true
      ∨ ∃ reason, .asked k current (some reason) ∈ r.notices desired s := by
  cases hterm : current.metadata.isTerminating with
  | true => exact Or.inl rfl
  | false =>
      have hasked := notices_of_unwanted hr hm hl hk hcur hterm
      rcases hanswer : r.strategy.prepareTurndown k current (r.turn desired s k).strategy
        with ⟨_ | reason, t⟩
      · obtain ⟨p, hdelete⟩ := writeFor_of_turnedDown hterm hanswer
        rw [hw] at hdelete
        cases hdelete
      · rw [answer, hanswer] at hasked
        have hmem : .asked k current (some reason)
            ∈ ((r.notices desired s).filter (·.key = k)).filter (·.isTurndown) := by
          rw [hasked]
          exact List.mem_cons_self
        exact Or.inr ⟨reason, (List.mem_filter.1 (List.mem_filter.1 hmem).1).1⟩

/-- What is left of the children at a key that is not wanted is going away, or there was a reason to
keep it. -/
theorem kept_of_clean {k : Key} {o : Object β} (hk : k ∉ desired)
    (ho : (r.owned (r.reconcileSet desired s).2.store).get? k = some o) :
    o.metadata.isTerminating = true
      ∨ ∃ reason, .asked k o (some reason) ∈ r.notices desired s := by
  have hl := lists_of_clean hr hclean
  have hunwanted : desired.contains k = false := Bool.eq_false_iff.2 hk
  have hthere := (get?_owned_eq_some.1 ho).1
  by_cases hmem : k ∈ passKeys desired (r.owned s.store)
  · have hseen : ((r.owned s.store).get? k).isSome = true :=
      (mem_passKeys.1 hmem).resolve_left hk
    obtain ⟨current, hcur⟩ := Option.isSome_iff_exists.1 hseen
    have hbefore := (get?_owned_eq_some.1 hcur).1
    cases hw : r.writeFor k (desired.contains k) ((r.owned s.store).get? k)
        (r.turn desired s k).strategy with
    | none =>
        rw [object?_of_idle hr hv hm hl hmem hw, hbefore] at hthere
        obtain rfl := Option.some.inj hthere
        rw [hunwanted, hcur] at hw
        exact kept_of_idle hr hm hl hk hcur hw
    | some w =>
        obtain ⟨hafter, htaken, -⟩ := landed_of_clean hr hclean hv hm hmem hw
        rw [hunwanted, hcur] at hw
        cases asks_of_writeFor hw with
        | turnDown hlive hgo =>
            rw [hafter, Memory.object?_of_deleted htaken] at hthere
            cases hthere
  · rw [(agreesAt_reconcileSet_of_notMem hr hv hm hl hmem).object?] at hthere
    obtain ⟨-, hplace⟩ := get?_owned_eq_some.1 ho
    have hseen := get?_owned_eq_some.2 ⟨hthere, hplace⟩
    exact absurd (mem_passKeys.2 (Or.inr (Option.isSome_iff_exists.2 ⟨o, hseen⟩))) hmem

-- ============================================== wanted children

variable {k : Key} (hk : k ∈ desired) {current : Object β}
  (hcur : (r.owned s.store).get? k = some current)
  (hlive : current.metadata.isTerminating = false)

include hk hcur hlive

/-- A write that is planned for a child was made, unless the child was so already. -/
theorem replaced_of_clean (hkeys : r.PlansKeepKey) {next : Object β} {schedules : Bool} {t' : τ}
    (hplan : r.plan k current (r.turn desired s k).strategy = (.write next schedules, t')) :
    ∃ v, (r.reconcileSet desired s).2.store.object? k = some (next.atVersion v) := by
  have hwanted : desired.contains k = true := hk
  have hmem : k ∈ passKeys desired (r.owned s.store) := mem_passKeys.2 (Or.inl hk)
  have hthere : s.store.object? k = some current := (get?_owned_eq_some.1 hcur).1
  have hwrite := writeFor_of_write hlive hplan
  by_cases hsame : next = current
  · rw [if_pos hsame] at hwrite
    rw [object?_of_idle hr hv hm (lists_of_clean hr hclean) hmem
      (by rw [hwanted, hcur]; exact hwrite), hthere]
    obtain ⟨n, -, hversion⟩ := hm.sound.numbered hthere
    refine ⟨Memory.versionText n, ?_⟩
    rw [hsame, Object.atVersion, Object.modifyMetadata, ← hversion]
  · rw [if_neg hsame] at hwrite
    obtain ⟨hafter, htaken, -⟩ := landed_of_clean hr hclean hv hm hmem
      (by rw [hwanted, hcur]; exact hwrite)
    have hkey : next.key = k := (hkeys hplan).trans (hm.sound.keyed hthere)
    obtain ⟨v, hnew⟩ := Memory.object?_of_replaced htaken
    rw [hkey] at hnew
    exact ⟨v, hafter.trans hnew⟩

/-- No child was to be created anew. -/
theorem not_recreate_of_clean {t' : τ} :
    r.plan k current (r.turn desired s k).strategy ≠ (.recreate, t') := by
  intro hplan
  have hwanted : desired.contains k = true := hk
  obtain ⟨p, hdelete⟩ := writeFor_of_recreate hlive hplan
  obtain ⟨-, -, hstays⟩ := landed_of_clean hr hclean hv hm (mem_passKeys.2 (Or.inl hk))
    (by rw [hwanted, hcur]; exact hdelete)
  exact hstays hk p rfl

end

/-- A clean result means that the children have converged. If a pass ends without an error and
without a wish to come back, then every wanted key holds an object; a child that is left at a key
that is not wanted is going away, or the strategy gave a reason to keep it in this pass; and every
child that was found at a wanted key and is not going away has its next form, but for the version:
with nothing pending or with a released change made in place it carries neither mark, and with a
change that waits it is marked with what changes. -/
theorem converged_of_clean {r : Reconciler (Memory β) τ β} (hr : r.store = Memory.store)
    {f : Key → Object β → Object β} {g : UpdateMode → Key → Object β → Object β}
    (h : r.strategy.UpdatesBy f g) {desired : SortedSet Key} {s : PassState (Memory β) τ}
    (hm : s.store.Reachable) (hclean : (r.reconcileSet desired s).1 = .ok) :
    (∀ k ∈ desired, ∃ o, (r.reconcileSet desired s).2.store.object? k = some o)
      ∧ (∀ k o, k ∉ desired →
        (r.owned (r.reconcileSet desired s).2.store).get? k = some o →
        o.metadata.isTerminating = true
          ∨ ∃ reason, .asked k o (some reason) ∈ r.notices desired s)
      ∧ (∀ k current, k ∈ desired → (r.owned s.store).get? k = some current →
        current.metadata.isTerminating = false →
        ∀ mode next rolled, mode = r.strategy.updateMode (r.turn desired s k).strategy →
          next = f k current → rolled = g mode k next →
          (rolled = next →
            ∃ v, (r.reconcileSet desired s).2.store.object? k
              = some ((unflagged next).atVersion v))
          ∧ (rolled ≠ next → Rollout.isReleased current.metadata = false →
            ∃ v, (r.reconcileSet desired s).2.store.object? k
              = some ((next.modifyMetadata
                (Rollout.schedule (Change.describe next.toJson rolled.toJson))).atVersion v))
          ∧ (rolled ≠ next → Rollout.isReleased current.metadata = true →
            mode = .inPlace ∧ ∃ v, (r.reconcileSet desired s).2.store.object? k
              = some ((unflagged rolled).atVersion v))) := by
  have hkeys := plansKeepKey_of_updatesBy h
  have hv := hkeys.plansKeepVersion
  refine ⟨fun k hk => occupied_of_clean hr hclean hv hm hkeys hk,
    fun k o hk ho => kept_of_clean hr hclean hv hm hk ho, ?_⟩
  intro k current hk hcur hlive mode next rolled hmode hnext hrolled
  have hplan := plan_of_updatesBy h k current (r.turn desired s k).strategy
  rw [← hmode, ← hnext, ← hrolled] at hplan
  have hwritten : ∀ {o schedules}, planFor mode current next rolled = .write o schedules →
      ∃ v, (r.reconcileSet desired s).2.store.object? k = some (o.atVersion v) := fun hcase =>
    replaced_of_clean hr hclean hv hm hk hcur hlive hkeys (hplan.trans (by rw [hcase]))
  rcases planFor_cases mode current next rolled with
    ⟨hsame, hcase⟩ | ⟨-, -, -, hcase⟩ | ⟨hne, hreleased, hmode, hcase⟩
      | ⟨hne, hunreleased, schedules, hcase⟩
  · exact ⟨fun _ => hwritten hcase, fun hne => absurd hsame hne, fun hne => absurd hsame hne⟩
  · exact absurd (hplan.trans (by rw [hcase])) (not_recreate_of_clean hr hclean hv hm hk hcur hlive)
  · refine ⟨fun hsame => absurd hsame hne, fun _ hunreleased => ?_,
      fun _ _ => ⟨hmode, hwritten hcase⟩⟩
    cases hreleased.symm.trans hunreleased
  · refine ⟨fun hsame => absurd hsame hne, fun _ _ => hwritten hcase, fun _ hreleased => ?_⟩
    cases hreleased.symm.trans hunreleased

open Sealing in
/-- Where changes are made in place, a pass over a group that wants two of its children has nothing
to report. The one that waits is marked, and the one that was released is sealed. -/
theorem converged_of_clean_group :
    let desired : SortedSet Key := SortedMap.ofKeys [key "a", key "b"]
    let after := ((reconciler .inPlace).reconcileSet desired ⟨group, 0, []⟩).2.store
    (∃ v, after.object? (key "a")
        = some (((tidied ((member "a" true none).atVersion "1")).modifyMetadata
          (Rollout.schedule "changes to immutable")).atVersion v))
      ∧ (∃ v, after.object? (key "b")
        = some ((unflagged (sealed (tidied ((member "b" true
          (some (SortedMap.ofList [(Rollout.releasedMark, "true")]))).atVersion "2")))).atVersion v))
      ∧ ∀ k o, k ∉ desired → ((reconciler .inPlace).owned after).get? k = some o →
        o.metadata.isTerminating = true ∨ ∃ reason,
          .asked k o (some reason) ∈ (reconciler .inPlace).notices desired ⟨group, 0, []⟩ := by
  intro desired after
  have hclean : ((reconciler .inPlace).reconcileSet desired ⟨group, 0, []⟩).1 = .ok := rfl
  obtain ⟨-, hkept, hnext⟩ := converged_of_clean (r := reconciler .inPlace) rfl
    (updatesBy_strategy .inPlace) reachable_group hclean
  have ha : ((reconciler .inPlace).owned group).get? (key "a")
      = some ((member "a" true none).atVersion "1") := by decide
  have hb : ((reconciler .inPlace).owned group).get? (key "b")
      = some ((member "b" true
        (some (SortedMap.ofList [(Rollout.releasedMark, "true")]))).atVersion "2") := by decide
  obtain ⟨-, hwaits, -⟩ := hnext _ _ (by decide) ha rfl _ _ _ rfl rfl rfl
  obtain ⟨-, -, hreleased⟩ := hnext _ _ (by decide) hb rfl _ _ _ rfl rfl rfl
  obtain ⟨v, hv⟩ := hwaits (by decide) (by decide)
  refine ⟨⟨v, hv.trans ?_⟩, (hreleased (by decide) (by decide)).2, hkept⟩
  have hchange : Change.describe (tidied ((member "a" true none).atVersion "1")).toJson
      (sealed (tidied ((member "a" true none).atVersion "1"))).toJson = "changes to immutable" := by
    decide
  rw [hchange]

end ControlLoop.Reconciler
