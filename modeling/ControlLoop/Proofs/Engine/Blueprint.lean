/-
Strategies that are functions of what they are shown, on a store that
never fails.

# The strategy

What such a strategy does is a `Blueprint`: the new object of a key, the
two ways of updating an object, and whether there is a reason to keep
it. It may remember what it likes, as long as this changes none of them
(`Strategy.Follows`).

# What a pass does to a key

Where no call is made to fail, every write that a pass asks for lands.
So a pass leaves a key alone only if there is nothing to write or the
name is taken (`Rests`), and else it does there exactly what the
blueprint says (`Lands`, `lands_reconcileSet`). If all keys rest, a pass
leaves the whole store as it is (`reconcileSet_of_rests`).
-/
import ControlLoop.Proofs.Engine.Effects

namespace ControlLoop

variable {σ τ β : Type}

-- =========================================================== blueprints

/-- What a strategy does if it is a function of what it is shown. -/
structure Blueprint (β : Type) where
  newObject : Key → Object β
  mode : UpdateMode
  update : Key → Object β → Object β
  /-- The disruptive changes of the mode. -/
  roll : Key → Object β → Object β
  keep : Key → Object β → Option OrphanStatus

/-- The strategy does what the blueprint says, whatever it remembers. -/
structure Strategy.Follows (S : Strategy τ β) (b : Blueprint β) : Prop where
  newObject : ∀ k t, (S.newObject k t).1 = b.newObject k
  updateMode : ∀ t, S.updateMode t = b.mode
  updateInPlace : ∀ k o t, (S.updateInPlace k o t).1 = b.update k o
  roll : ∀ k o t, (S.roll b.mode k o t).1 = b.roll k o
  prepareTurndown : ∀ k o t, (S.prepareTurndown k o t).1 = b.keep k o

/-- The strategy that does what a blueprint says and remembers nothing. -/
def Blueprint.strategy (b : Blueprint β) : Strategy Unit β where
  newObject k _ := (b.newObject k, ())
  updateInPlace k o _ := (b.update k o, ())
  rollInPlace k o _ := (b.roll k o, ())
  rollRecreate k o _ := (b.roll k o, ())
  updateMode _ := b.mode
  prepareTurndown k o _ := (b.keep k o, ())

theorem Blueprint.follows_strategy (b : Blueprint β) : b.strategy.Follows b where
  newObject := fun _ _ => rfl
  updateMode := fun _ => rfl
  updateInPlace := fun _ _ _ => rfl
  roll := fun _ _ _ => by cases hmode : b.mode <;> rfl
  prepareTurndown := fun _ _ _ => rfl

/-- The update functions of a blueprint leave the key and the version of an object alone. -/
structure Blueprint.KeepsIdentity (b : Blueprint β) : Prop where
  key_update : ∀ k o, (b.update k o).key = o.key
  key_roll : ∀ k o, (b.roll k o).key = o.key
  version_update : ∀ k o, (b.update k o).metadata.resourceVersion = o.metadata.resourceVersion
  version_roll : ∀ k o, (b.roll k o).metadata.resourceVersion = o.metadata.resourceVersion

namespace Memory

/-- No call is made to fail. -/
structure Calm (m : Memory β) : Prop where
  refusal? : ∀ k, m.refusal? k = none
  listsFail : m.listsFail = false

/-- A creation lands where the name is free and nothing is made to fail. -/
theorem exists_created {m : Memory β} {o : Object β} (hr : m.refusal? o.key = none)
    (hfree : m.object? o.key = none) :
    ∃ v u, (m.create o).2.object? o.key = some (o.asCreated v u) := by
  rcases m.create_cases o with ⟨e, he, -⟩ | ⟨-, ⟨holder, hh⟩, -⟩ | ⟨-, -, hc⟩
  · rw [hr] at he
    cases he
  · rw [hfree] at hh
    cases hh
  · rw [hc]
    exact ⟨_, _, object?_put_self m (m.identify (m.stamp o))⟩

/-- A replacement lands where the same version is stored and nothing is made to fail. -/
theorem exists_replaced {m : Memory β} {o current : Object β} (hr : m.refusal? o.key = none)
    (hk : m.object? o.key = some current)
    (hv : o.metadata.resourceVersion = current.metadata.resourceVersion) :
    ∃ v, (m.replace o).2.object? o.key = some (o.atVersion v) := by
  rcases m.replace_cases o with ⟨e, he, -⟩ | ⟨-, hnone, -⟩ | ⟨-, ⟨holder, hh, hne⟩, -⟩ | ⟨-, -, hc⟩
  · rw [hr] at he
    cases he
  · rw [hk] at hnone
    cases hnone
  · rw [hk] at hh
    cases hh
    exact absurd hv hne
  · rw [hc]
    exact ⟨_, object?_put_self m (m.stamp o)⟩

end Memory

namespace Reconciler

variable [DecidableEq β] [Resource β]

/-- What becomes of a child by the blueprint. -/
def blueprintPlan (b : Blueprint β) (k : Key) (o : Object β) : UpdatePlan β :=
  planFor b.mode o (b.update k o) (b.roll k (b.update k o))

theorem plan_of_follows {r : Reconciler σ τ β} {b : Blueprint β} (h : r.strategy.Follows b)
    (k : Key) (o : Object β) (t : τ) : (r.plan k o t).1 = blueprintPlan b k o := by
  rw [plan_eq_planFor, nextStates, h.updateMode, h.updateInPlace, h.roll]
  rfl

/-- Planned writes keep what the update functions keep. -/
theorem eq_of_blueprintPlan {α : Type} (φ : Object β → α) {b : Blueprint β}
    (hmark : ∀ o m, φ (o.modifyMetadata (fun md => { md with annotations := m })) = φ o)
    (hupdate : ∀ k o, φ (b.update k o) = φ o) (hroll : ∀ k o, φ (b.roll k o) = φ o)
    {k : Key} {o next : Object β} {schedules : Bool}
    (h : blueprintPlan b k o = .write next schedules) : φ next = φ o := by
  have hboth : φ (b.roll k (b.update k o)) = φ o := (hroll k _).trans (hupdate k o)
  rw [blueprintPlan] at h
  rcases planFor_cases b.mode o (b.update k o) (b.roll k (b.update k o)) with
    ⟨-, hplan⟩ | ⟨-, -, -, hplan⟩ | ⟨-, -, -, hplan⟩ | ⟨-, -, c, hplan⟩ <;>
    rw [hplan] at h <;> cases h
  · exact (hmark _ _).trans (hupdate k o)
  · exact (hmark _ _).trans hboth
  · exact (hmark _ _).trans (hupdate k o)

theorem plansKeepKey_of_follows {r : Reconciler σ τ β} {b : Blueprint β}
    (h : r.strategy.Follows b) (hb : b.KeepsIdentity) : r.PlansKeepKey := by
  intro k current next schedules t t' hplan
  have hplan := congrArg Prod.fst hplan
  rw [plan_of_follows h] at hplan
  exact eq_of_blueprintPlan Object.key (fun _ _ => rfl) hb.key_update hb.key_roll hplan

section

variable {r : Reconciler σ τ β} {b : Blueprint β} (hb : r.strategy.Follows b) {k : Key}
  {o : Object β} (t : τ)

include hb

theorem writeFor_of_planned_write (hlive : o.metadata.isTerminating = false) {next : Object β}
    {schedules : Bool} (hplan : blueprintPlan b k o = .write next schedules) :
    r.writeFor k true (some o) t = if next = o then none else some (.replace next) := by
  rw [← plan_of_follows hb k o t] at hplan
  exact writeFor_of_write hlive (Prod.ext hplan rfl)

theorem writeFor_of_planned_recreate (hlive : o.metadata.isTerminating = false)
    (hplan : blueprintPlan b k o = .recreate) :
    ∃ p, r.writeFor k true (some o) t = some (.delete k p) := by
  rw [← plan_of_follows hb k o t] at hplan
  exact writeFor_of_recreate hlive (Prod.ext hplan rfl)

theorem writeFor_of_keep (hlive : o.metadata.isTerminating = false) {reason : OrphanStatus}
    (hkeep : b.keep k o = some reason) : r.writeFor k false (some o) t = none := by
  rw [← hb.prepareTurndown k o t] at hkeep
  exact writeFor_of_kept hlive (Prod.ext hkeep rfl)

theorem writeFor_of_not_keep (hlive : o.metadata.isTerminating = false)
    (hkeep : b.keep k o = none) : ∃ p, r.writeFor k false (some o) t = some (.delete k p) := by
  rw [← hb.prepareTurndown k o t] at hkeep
  exact writeFor_of_turnedDown hlive (Prod.ext hkeep rfl)

end

-- ===================================================== what a key comes to

/-- A key at which there is nothing to write, or whose name is taken, given the child that is seen
there and what is there. -/
inductive Rests (b : Blueprint β) (k : Key) :
    Bool → Option (Object β) → Option (Object β) → Prop
  /-- Someone else has the name of a wanted child. -/
  | taken {holder : Object β} : Rests b k true none (some holder)
  | absent {before : Option (Object β)} : Rests b k false none before
  | terminating {wanted : Bool} {o : Object β} (hterm : o.metadata.isTerminating = true) :
      Rests b k wanted (some o) (some o)
  /-- The child is as it is to be. -/
  | done {o : Object β} {schedules : Bool} (hplan : blueprintPlan b k o = .write o schedules) :
      Rests b k true (some o) (some o)
  | kept {o : Object β} {reason : OrphanStatus} (hkeep : b.keep k o = some reason) :
      Rests b k false (some o) (some o)

/-- What a pass in which nothing fails makes of what is under a key. -/
inductive Lands (r : Reconciler σ τ β) (b : Blueprint β) (k : Key) :
    Bool → Option (Object β) → Option (Object β) → Option (Object β) → Prop
  | rests {wanted : Bool} {seen before : Option (Object β)} (h : Rests b k wanted seen before) :
      Lands r b k wanted seen before before
  | created {v u : String} :
      Lands r b k true none none (some ((r.claimed k (b.newObject k)).asCreated v u))
  | replaced {o next : Object β} {schedules : Bool} {v : String}
      (hlive : o.metadata.isTerminating = false)
      (hplan : blueprintPlan b k o = .write next schedules) (hne : next ≠ o) :
      Lands r b k true (some o) (some o) (some (next.atVersion v))
  | recreated {o : Object β} (hlive : o.metadata.isTerminating = false)
      (hplan : blueprintPlan b k o = .recreate) : Lands r b k true (some o) (some o) none
  | turnedDown {o : Object β} (hlive : o.metadata.isTerminating = false)
      (hkeep : b.keep k o = none) : Lands r b k false (some o) (some o) none

/-- Nothing lands at a key that rests. -/
theorem Lands.eq_of_rests {r : Reconciler σ τ β} {b : Blueprint β} {k : Key} {wanted : Bool}
    {seen before after : Option (Object β)} (h : Lands r b k wanted seen before after)
    (hrests : Rests b k wanted seen before) : after = before := by
  cases h with
  | rests => rfl
  | created => cases hrests
  | replaced hlive hplan hne =>
      cases hrests with
      | terminating hterm => cases hlive.symm.trans hterm
      | done hplan' =>
          rw [hplan] at hplan'
          cases hplan'
          exact absurd rfl hne
  | recreated hlive hplan =>
      cases hrests with
      | terminating hterm => cases hlive.symm.trans hterm
      | done hplan' =>
          rw [hplan] at hplan'
          cases hplan'
  | turnedDown hlive hkeep =>
      cases hrests with
      | terminating hterm => cases hlive.symm.trans hterm
      | kept hkeep' =>
          rw [hkeep] at hkeep'
          cases hkeep'

section

variable {r : Reconciler (Memory β) τ β} (hr : r.store = Memory.store) {b : Blueprint β}
  (hb : r.strategy.Follows b) {k : Key} {s : PassState (Memory β) τ}

include hr hb

/-- Where no child is seen, a new object lands at a wanted key that is free. -/
theorem lands_of_unseen (hcalm : s.store.refusal? k = none) (wanted : Bool) :
    Lands r b k wanted none (s.store.object? k)
      ((r.passKey k wanted none s).2.store.object? k) := by
  rw [passKey_store hr]
  cases wanted with
  | false => exact .rests .absent
  | true =>
      have hkey := r.key_claimed k (b.newObject k)
      simp only [writeFor, hb.newObject, Option.toList_some, List.foldl_cons, List.foldl_nil,
        Memory.after]
      cases hbefore : s.store.object? k with
      | some holder =>
          rw [Memory.create_of_taken (hkey.symm ▸ hbefore), hbefore]
          exact .rests .taken
      | none =>
          obtain ⟨v, u, hnew⟩ := Memory.exists_created (hkey.symm ▸ hcalm) (hkey.symm ▸ hbefore)
          rw [hkey] at hnew
          rw [hnew]
          exact .created

variable {o : Object β} (hbefore : s.store.object? k = some o)
  (hlive : o.metadata.isTerminating = false)

include hbefore

omit hb in
theorem object?_of_writeFor_eq_none {wanted : Bool}
    (h : r.writeFor k wanted (some o) s.strategy = none) :
    (r.passKey k wanted (some o) s).2.store.object? k = some o := by
  rw [passKey_store hr, h]
  exact hbefore

omit hb hbefore in
/-- A key is free after a deletion was asked for. -/
theorem object?_of_writeFor_delete (hcalm : s.store.refusal? k = none) {wanted : Bool}
    {p : Propagation} (h : r.writeFor k wanted (some o) s.strategy = some (.delete k p)) :
    (r.passKey k wanted (some o) s).2.store.object? k = none := by
  rw [passKey_store hr, h]
  simp only [Option.toList_some, List.foldl_cons, List.foldl_nil, Memory.after,
    Memory.object?_delete, hcalm]
  rfl

include hlive

/-- A child that nobody wants is deleted, unless there is a reason to keep it. -/
theorem lands_of_unwanted (hcalm : s.store.refusal? k = none) :
    Lands r b k false (some o) (some o)
      ((r.passKey k false (some o) s).2.store.object? k) := by
  cases hkeep : b.keep k o with
  | none =>
      obtain ⟨p, hdelete⟩ := writeFor_of_not_keep hb s.strategy hlive hkeep
      rw [object?_of_writeFor_delete hr hcalm hdelete]
      exact .turnedDown hlive hkeep
  | some reason =>
      rw [object?_of_writeFor_eq_none hr hbefore (writeFor_of_keep hb s.strategy hlive hkeep)]
      exact .rests (.kept hkeep)

/-- A child that is wanted becomes what is planned for it. -/
theorem lands_of_wanted (hkeeps : b.KeepsIdentity) (hm : s.store.Sound)
    (hcalm : s.store.refusal? k = none) :
    Lands r b k true (some o) (some o) ((r.passKey k true (some o) s).2.store.object? k) := by
  cases hplan : blueprintPlan b k o with
  | recreate =>
      obtain ⟨p, hdelete⟩ := writeFor_of_planned_recreate hb s.strategy hlive hplan
      rw [object?_of_writeFor_delete hr hcalm hdelete]
      exact .recreated hlive hplan
  | write next schedules =>
      have hwrite := writeFor_of_planned_write hb s.strategy hlive hplan
      by_cases hne : next = o
      · rw [if_pos hne] at hwrite
        rw [object?_of_writeFor_eq_none hr hbefore hwrite]
        subst hne
        exact .rests (.done hplan)
      · have hkey : next.key = k :=
          (eq_of_blueprintPlan Object.key (fun _ _ => rfl) hkeeps.key_update
            hkeeps.key_roll hplan).trans (hm.keyed hbefore)
        have hversion := eq_of_blueprintPlan (·.metadata.resourceVersion) (fun _ _ => rfl)
          hkeeps.version_update hkeeps.version_roll hplan
        obtain ⟨v, hnew⟩ :=
          Memory.exists_replaced (hkey.symm ▸ hcalm) (hkey.symm ▸ hbefore) hversion
        rw [hkey] at hnew
        rw [passKey_store hr, hwrite, if_neg hne]
        simp only [Option.toList_some, List.foldl_cons, List.foldl_nil, Memory.after, hnew]
        exact .replaced hlive hplan hne

end

section

variable {r : Reconciler (Memory β) τ β} (hr : r.store = Memory.store) {b : Blueprint β}
  (hb : r.strategy.Follows b) {k : Key} {s : PassState (Memory β) τ}

include hr hb

/-- What handling a key lands, if the child that was seen there is stored there. -/
theorem lands_passKey (hkeeps : b.KeepsIdentity) (hm : s.store.Sound)
    (hcalm : s.store.refusal? k = none) {seen : Option (Object β)}
    (hseen : ∀ o, seen = some o → s.store.object? k = some o) (wanted : Bool) :
    Lands r b k wanted seen (s.store.object? k)
      ((r.passKey k wanted seen s).2.store.object? k) := by
  cases seen with
  | none => exact lands_of_unseen hr hb hcalm wanted
  | some o =>
      have hbefore := hseen o rfl
      rw [hbefore]
      cases hterm : o.metadata.isTerminating with
      | true =>
          rw [object?_of_writeFor_eq_none hr hbefore (writeFor_of_terminating hterm)]
          exact .rests (.terminating hterm)
      | false =>
          cases wanted with
          | false => exact lands_of_unwanted hr hb hbefore hterm hcalm
          | true => exact lands_of_wanted hr hb hbefore hterm hkeeps hm hcalm

/-- What a pass lands at any key. -/
theorem lands_reconcileSet (hkeeps : b.KeepsIdentity) (hm : s.store.Reachable)
    (hcalm : s.store.Calm) (desired : SortedSet Key) :
    Lands r b k (desired.contains k) ((r.owned s.store).get? k) (s.store.object? k)
      ((r.reconcileSet desired s).2.store.object? k) := by
  have hv := (plansKeepKey_of_follows hb hkeeps).plansKeepVersion
  by_cases hk : k ∈ passKeys desired (r.owned s.store)
  · have hthere : (r.turn desired s k).store.object? k = s.store.object? k :=
      object?_turn hr hv hm k
    have hrefusal : (r.turn desired s k).store.refusal? k = none := by
      rw [refusal?_turn hr hv hm k]
      exact hcalm.refusal? k
    have hseen : ∀ o, (r.owned s.store).get? k = some o →
        (r.turn desired s k).store.object? k = some o := fun o ho =>
      hthere.trans (get?_owned_eq_some.1 ho).1
    rw [object?_reconcileSet hr hv hm hcalm.listsFail hk, ← hthere]
    exact lands_passKey hr hb hkeeps (reachable_turn hr hv hm k).sound hrefusal hseen _
  · have hnot := mt mem_passKeys.2 hk
    rw [not_or] at hnot
    have hunwanted : desired.contains k = false := Bool.eq_false_iff.2 hnot.1
    have hnone : (r.owned s.store).get? k = none :=
      Option.not_isSome_iff_eq_none.1 hnot.2
    rw [(agreesAt_reconcileSet_of_notMem hr hv hm hcalm.listsFail hk).object?, hunwanted, hnone]
    exact .rests .absent

theorem calm_reconcileSet (hkeeps : b.KeepsIdentity) (hm : s.store.Reachable)
    (hcalm : s.store.Calm) (desired : SortedSet Key) :
    (r.reconcileSet desired s).2.store.Calm := by
  have hv := (plansKeepKey_of_follows hb hkeeps).plansKeepVersion
  obtain ⟨hrefusal, hlists⟩ := failures_passAll (s := s) hr hv (r.ready_passKeys desired hm)
  rw [reconcileSet_of_lists hr hm.sound hcalm.listsFail]
  exact ⟨fun k => (congrFun hrefusal k).trans (hcalm.refusal? k), hlists.trans hcalm.listsFail⟩

omit hr in
/-- Where a key rests, nothing is asked for but the name that someone else has. -/
theorem writeFor_of_rests {wanted : Bool} {seen before : Option (Object β)}
    (h : Rests b k wanted seen before) (t : τ) :
    r.writeFor k wanted seen t = none
      ∨ (wanted = true ∧ seen = none ∧ ∃ holder, before = some holder) := by
  cases h with
  | taken => exact Or.inr ⟨rfl, rfl, _, rfl⟩
  | absent => exact Or.inl rfl
  | terminating hterm => exact Or.inl (writeFor_of_terminating hterm)
  | @done o schedules hplan =>
      cases hterm : o.metadata.isTerminating with
      | true => exact Or.inl (writeFor_of_terminating hterm)
      | false => exact Or.inl ((writeFor_of_planned_write hb t hterm hplan).trans (if_pos rfl))
  | @kept o reason hkeep =>
      cases hterm : o.metadata.isTerminating with
      | true => exact Or.inl (writeFor_of_terminating hterm)
      | false => exact Or.inl (writeFor_of_keep hb t hterm hkeep)

/-- Where a key rests, handling it changes nothing in the store. -/
theorem passKey_of_rests {wanted : Bool} {seen : Option (Object β)}
    (h : Rests b k wanted seen (s.store.object? k)) :
    (r.passKey k wanted seen s).2.store = s.store := by
  rw [passKey_store hr]
  rcases writeFor_of_rests hb h s.strategy with hnone | ⟨rfl, rfl, holder, hholder⟩
  · rw [hnone]
    rfl
  · have hkey := r.key_claimed k (r.strategy.newObject k s.strategy).1
    exact Memory.create_of_taken (hkey.symm ▸ hholder)

theorem passAll_of_rests {desired : SortedSet Key} {existing : SortedMap Key (Object β)}
    {ks : List Key} (h : ∀ k ∈ ks, Rests b k (desired.contains k) (existing.get? k)
      (s.store.object? k)) :
    (r.passAll desired existing ks s).2.store = s.store := by
  induction ks generalizing s with
  | nil => rfl
  | cons k ks ih =>
      have hfirst := passKey_of_rests hr hb (h k List.mem_cons_self)
      have hrest := ih (s := (r.passKey k (desired.contains k) (existing.get? k) s).2)
        fun k' hk' => by
          rw [hfirst]
          exact h k' (List.mem_cons_of_mem _ hk')
      exact hrest.trans hfirst

/-- Where all keys rest, only wanted names are asked for that someone else has. -/
theorem taken_of_mem_writesFor {desired : SortedSet Key} {existing : SortedMap Key (Object β)}
    {ks : List Key} (h : ∀ k ∈ ks, Rests b k (desired.contains k) (existing.get? k)
      (s.store.object? k)) {w : Write β} (hw : w ∈ r.writesFor desired existing ks s) :
    ∃ o, w = .create o ∧ o.key ∈ desired ∧ existing.get? o.key = none
      ∧ ∃ holder, s.store.object? o.key = some holder := by
  induction ks generalizing s with
  | nil => cases hw
  | cons k ks ih =>
      have hfirst := h k List.mem_cons_self
      -- the first key changes nothing, so the others still rest at their turns
      have hstore := passKey_of_rests hr hb hfirst
      rcases List.mem_append.1 hw with hw | hw
      · have hask := Option.mem_toList.1 hw
        rcases writeFor_of_rests hb hfirst s.strategy with hnone | ⟨hwanted, hunseen, htaken⟩
        · cases hnone.symm.trans hask
        · have hkey := r.key_claimed k (r.strategy.newObject k s.strategy).1
          rw [hwanted, hunseen] at hask
          refine ⟨_, (Option.some.inj hask).symm, ?_⟩
          rw [hkey]
          exact ⟨hwanted, hunseen, htaken⟩
      · have hrest := ih (s := (r.passKey k (desired.contains k) (existing.get? k) s).2)
          (fun k' hk' => hstore ▸ h k' (List.mem_cons_of_mem _ hk')) hw
        rwa [hstore] at hrest

/-- Where all keys rest, a pass changes nothing in the store. -/
theorem reconcileSet_of_rests {desired : SortedSet Key} (hm : s.store.Sound)
    (h : ∀ k, Rests b k (desired.contains k) ((r.owned s.store).get? k) (s.store.object? k)) :
    (r.reconcileSet desired s).2.store = s.store := by
  by_cases hl : s.store.listsFail = true
  · rw [reconcileSet_of_listsFail hr hl]
  · rw [reconcileSet_of_lists hr hm (Bool.eq_false_iff.2 hl)]
    exact passAll_of_rests hr hb fun k _ => h k

/-- Where all keys rest, all that a pass tries is to create wanted objects under names that someone
else has. -/
theorem taken_of_mem_tried {desired : SortedSet Key} (hm : s.store.Sound)
    (hl : s.store.listsFail = false)
    (h : ∀ k, Rests b k (desired.contains k) ((r.owned s.store).get? k) (s.store.object? k))
    {w : Write β} (hw : w ∈ r.tried desired s) :
    ∃ o, w = .create o ∧ o.key ∈ desired ∧ (r.owned s.store).get? o.key = none
      ∧ ∃ holder, s.store.object? o.key = some holder := by
  rw [tried_of_lists hr hm hl] at hw
  exact taken_of_mem_writesFor hr hb (fun k _ => h k) hw

end

end Reconciler

end ControlLoop
