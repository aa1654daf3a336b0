/-
What a pass can make of the object under a key, and whose objects it
leaves alone.

# The effect on a key

Whatever fails and whatever the strategy does, a pass leaves a key as it
was, or it did one of four things there: it created an object where
there was none, replaced a child, deleted a child to create it anew, or
deleted a child that nobody wants (`Effect`). Each of them has its
reason, seen from the state of the strategy at the key's turn. A key
that the pass does not handle and a pass whose listing fails are among
the keys left as they were, so this is said of every key and every pass
(`effect_reconcileSet`).

# Whose objects

From it follows what a pass may never do: all that is not a child of the
parent stays as it is, and so does every child that is going away.
-/
import ControlLoop.Proofs.Engine.Sealing

namespace ControlLoop.Reconciler

variable {τ β : Type} [DecidableEq β] [Resource β]

-- ============================================================ effects

/-- What handling a key makes of the object under it, given the child that was seen there and the
state of the strategy: from what is there before to what is there after. -/
inductive Effect {σ : Type} (r : Reconciler σ τ β) (k : Key) :
    Bool → Option (Object β) → τ → Option (Object β) → Option (Object β) → Prop
  | unchanged {wanted : Bool} {seen x : Option (Object β)} {t : τ} : Effect r k wanted seen t x x
  | created {t : τ} {v u : String} :
      Effect r k true none t none
        (some ((r.claimed k (r.strategy.newObject k t).1).asCreated v u))
  | replaced {current next : Object β} {schedules : Bool} {t t' : τ} {v : String}
      (hlive : current.metadata.isTerminating = false)
      (hplan : r.plan k current t = (.write next schedules, t')) :
      Effect r k true (some current) t (some current) (some (next.atVersion v))
  | recreated {current : Object β} {t t' : τ} (hlive : current.metadata.isTerminating = false)
      (hplan : r.plan k current t = (.recreate, t')) :
      Effect r k true (some current) t (some current) none
  | turnedDown {current : Object β} {t t' : τ} (hlive : current.metadata.isTerminating = false)
      (hgo : r.strategy.prepareTurndown k current t = (none, t')) :
      Effect r k false (some current) t (some current) none

section

variable {σ : Type} {r : Reconciler σ τ β} {k : Key} {wanted : Bool} {seen after : Option (Object β)}
  {t : τ} {o : Object β}

theorem Effect.of_unseen (h : Effect r k wanted none t (some o) after) : after = some o := by
  cases h
  rfl

theorem Effect.of_terminating (h : Effect r k wanted seen t (some o) after)
    (hterm : o.metadata.isTerminating = true) : after = some o := by
  cases h with
  | unchanged => rfl
  | replaced hlive hplan => cases hlive.symm.trans hterm
  | recreated hlive hplan => cases hlive.symm.trans hterm
  | turnedDown hlive hgo => cases hlive.symm.trans hterm

theorem Effect.of_taken (h : Effect r k wanted seen t none (some o)) : wanted = true := by
  cases h
  rfl

/-- A key that is newly free held a child that was not going away, and there was a reason to delete
it. -/
theorem Effect.of_freed (h : Effect r k wanted seen t (some o) none) :
    seen = some o ∧ o.metadata.isTerminating = false
      ∧ (wanted = false ∨ wanted = true ∧ ∃ t', r.plan k o t = (.recreate, t')) := by
  cases h with
  | recreated hlive hplan => exact ⟨rfl, hlive, Or.inr ⟨rfl, _, hplan⟩⟩
  | turnedDown hlive hgo => exact ⟨rfl, hlive, Or.inl rfl⟩

end

section

variable {r : Reconciler (Memory β) τ β} (hr : r.store = Memory.store) (hv : r.PlansKeepVersion)

include hr hv

/-- The effect of handling a key, if the child that was seen there is stored there. -/
theorem effect_passKey {s : PassState (Memory β) τ} (hm : s.store.Sound) {k : Key}
    {current : Option (Object β)} (hcur : ∀ o, current = some o → s.store.object? k = some o)
    (wanted : Bool) :
    Effect r k wanted current s.strategy (s.store.object? k)
      ((r.passKey k wanted current s).2.store.object? k) := by
  rw [passKey_store hr]
  cases hw : r.writeFor k wanted current s.strategy with
  | none => exact .unchanged
  | some w =>
      show Effect r k wanted current s.strategy _ ((s.store.after w).object? k)
      cases asks_of_writeFor hw with
      | create =>
          have hkey := r.key_claimed k (r.strategy.newObject k s.strategy).1
          cases hbefore : s.store.object? k with
          | some holder =>
              -- someone else has the name
              have htaken := Memory.create_of_taken (hkey.symm ▸ hbefore)
              rw [Memory.after, htaken, hbefore]
              exact .unchanged
          | none =>
              have hends := Memory.object?_create (hkey.symm ▸ hbefore)
              rw [hkey] at hends
              rw [Memory.after]
              rcases hends with hnone | ⟨v, u, hnew⟩
              · rw [hnone]
                exact .unchanged
              · rw [hnew]
                exact .created
      | replace hlive hplan hne =>
          have hbefore := hcur _ rfl
          have hkey := hm.keyed hbefore
          rcases Memory.object?_replace_of_version hm hbefore fun hne =>
              hv hplan (hkey.symm ▸ hne) with hold | ⟨v, hnew⟩
          · rw [hbefore, Memory.after, hold]
            exact .unchanged
          · rw [hbefore, Memory.after, hnew]
            exact .replaced hlive hplan
      | recreate hlive hplan =>
          rw [Memory.after, Memory.object?_delete, hcur _ rfl]
          split
          · exact .unchanged
          · exact .recreated hlive hplan
      | turnDown hlive hgo =>
          rw [Memory.after, Memory.object?_delete, hcur _ rfl]
          split
          · exact .unchanged
          · exact .turnedDown hlive hgo

/-- The effect of a pass on any key, handled or not. -/
theorem effect_reconcileSet (desired : SortedSet Key) {s : PassState (Memory β) τ}
    (hm : s.store.Reachable) (k : Key) :
    Effect r k (desired.contains k) ((r.owned s.store).get? k) (r.turn desired s k).strategy
      (s.store.object? k) ((r.reconcileSet desired s).2.store.object? k) := by
  by_cases hl : s.store.listsFail = true
  · rw [reconcileSet_of_listsFail hr hl]
    exact .unchanged
  · have hlists : s.store.listsFail = false := Bool.eq_false_iff.2 hl
    by_cases hk : k ∈ passKeys desired (r.owned s.store)
    · have hthere : (r.turn desired s k).store.object? k = s.store.object? k :=
        object?_turn hr hv hm k
      have hturn : (r.turn desired s k).store.Reachable := reachable_turn hr hv hm k
      have hseen : ∀ o, (r.owned s.store).get? k = some o →
          (r.turn desired s k).store.object? k = some o := fun o ho =>
        hthere.trans ((r.ready_passKeys desired hm).seen k hk o ho)
      rw [object?_reconcileSet hr hv hm hlists hk, ← hthere]
      exact effect_passKey hr hv hturn.sound hseen _
    · rw [(agreesAt_reconcileSet_of_notMem hr hv hm hlists hk).object?]
      exact .unchanged

end

-- ====================================================== whose objects

/-- A child is deleted to be created anew only if its change is released, is still to be made and
can be made in no other way. -/
theorem of_plan_recreate {σ : Type} {r : Reconciler σ τ β} {k : Key} {current : Object β}
    {t t' : τ} (h : r.plan k current t = (.recreate, t')) :
    Rollout.isReleased current.metadata = true
      ∧ ∃ next t₁, r.strategy.updateInPlace k current t = (next, t₁)
        ∧ r.strategy.updateMode t₁ = .recreate ∧ (r.strategy.rollRecreate k next t₁).1 ≠ next := by
  rcases hnext : r.strategy.updateInPlace k current t with ⟨next, t₁⟩
  rcases hrolled : r.strategy.roll (r.strategy.updateMode t₁) k next t₁ with ⟨rolled, t₂⟩
  simp only [plan, hnext, hrolled, Prod.mk.injEq] at h
  rcases planFor_cases (r.strategy.updateMode t₁) current next rolled with
    ⟨-, hplan⟩ | ⟨hne, hreleased, hmode, -⟩ | ⟨-, -, -, hplan⟩ | ⟨-, -, b, hplan⟩
  · rw [hplan] at h
    cases h.1
  · refine ⟨hreleased, next, t₁, rfl, hmode, ?_⟩
    rw [hmode] at hrolled
    rw [show r.strategy.rollRecreate k next t₁ = (rolled, t₂) from hrolled]
    exact hne
  · rw [hplan] at h
    cases h.1
  · rw [hplan] at h
    cases h.1

/-- A pass touches only the children of its parent. Any object that is not a child, and any that
is going away, is stored as before; a key that is newly taken was wanted; and a key that is newly
free held a child that was not going away, and that was not wanted or had a released change which
was still to be made and for which it had to be created anew. -/
theorem reconcileSet_touches_children_only {r : Reconciler (Memory β) τ β}
    (hr : r.store = Memory.store) (hkeeps : r.strategy.KeepsIdentity) (desired : SortedSet Key)
    {s : PassState (Memory β) τ} (hm : s.store.Reachable) :
    (∀ k o, s.store.object? k = some o →
        k.space ≠ r.parent.space ∨ r.parent.owns o.metadata = false
          ∨ o.metadata.matchesLabels r.selector = false →
        (r.reconcileSet desired s).2.store.object? k = some o)
      ∧ (∀ k o, s.store.object? k = some o → o.metadata.isTerminating = true →
        (r.reconcileSet desired s).2.store.object? k = some o)
      ∧ (∀ k o, s.store.object? k = none →
        (r.reconcileSet desired s).2.store.object? k = some o → k ∈ desired)
      ∧ (∀ k o, s.store.object? k = some o →
        (r.reconcileSet desired s).2.store.object? k = none →
        (k.space = r.parent.space ∧ r.parent.owns o.metadata = true
            ∧ o.metadata.matchesLabels r.selector = true)
          ∧ o.metadata.isTerminating = false
          ∧ (k ∉ desired
            ∨ k ∈ desired ∧ Rollout.isReleased o.metadata = true
              ∧ ∃ next t, r.strategy.updateInPlace k o (r.turn desired s k).strategy = (next, t)
                ∧ r.strategy.updateMode t = .recreate
                ∧ (r.strategy.rollRecreate k next t).1 ≠ next)) := by
  have heffect := effect_reconcileSet hr (plansKeepVersion_of_keepsIdentity hkeeps) desired hm
  refine ⟨fun k o ho hother => ?_, fun k o ho hterm => ?_, fun k o ho hnew => ?_,
    fun k o ho hgone => ?_⟩
  · have hnone : (r.owned s.store).get? k = none := by
      rw [Option.eq_none_iff_forall_ne_some]
      intro o' ho'
      obtain ⟨hthere, hspace, howns, hlabels⟩ := get?_owned_eq_some.1 ho'
      rw [ho, Option.some.injEq] at hthere
      subst hthere
      rcases hother with h | h | h
      · exact h hspace
      · rw [howns] at h
        cases h
      · rw [hlabels] at h
        cases h
    have h := heffect k
    rw [ho, hnone] at h
    exact h.of_unseen
  · have h := heffect k
    rw [ho] at h
    exact h.of_terminating hterm
  · have h := heffect k
    rw [ho, hnew] at h
    exact h.of_taken
  · have h := heffect k
    rw [ho, hgone] at h
    obtain ⟨hseen, hlive, hwhy⟩ := h.of_freed
    refine ⟨(get?_owned_eq_some.1 hseen).2, hlive, ?_⟩
    rcases hwhy with hunwanted | ⟨hwanted, t', hplan⟩
    · exact Or.inl (Bool.eq_false_iff.1 hunwanted)
    · exact Or.inr ⟨hwanted, of_plan_recreate hplan⟩

open Sealing in
/-- A pass over a group leaves the object of someone else as it was, though its name is wanted, and
the child whose key it frees though it is wanted was released. -/
theorem reconcileSet_touches_children_only_group :
    ((reconciler .recreate).reconcileSet wanted ⟨group, 0, []⟩).2.store.object? (key "d")
        = some ((member "d" false none).atVersion "4")
      ∧ ((reconciler .recreate).reconcileSet wanted ⟨group, 0, []⟩).2.store.object? (key "b") = none
      ∧ ∀ o, group.object? (key "b") = some o → Rollout.isReleased o.metadata = true := by
  obtain ⟨hother, -, -, hgone⟩ := reconcileSet_touches_children_only (r := reconciler .recreate)
    rfl (keepsIdentity_strategy .recreate) wanted (s := ⟨group, 0, []⟩) reachable_group
  have hfree : ((reconciler .recreate).reconcileSet wanted ⟨group, 0, []⟩).2.store.object?
      (key "b") = none := by decide
  refine ⟨hother _ _ (by decide) (Or.inr (Or.inl (by decide))), hfree, fun o ho => ?_⟩
  rcases (hgone _ o ho hfree).2.2 with hunwanted | ⟨-, hreleased, -⟩
  · exact absurd (by decide) hunwanted
  · exact hreleased

end ControlLoop.Reconciler
