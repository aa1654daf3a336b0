/-
One release is in flight at most, over whole rollouts.

# Who takes part

Three parties write to the children of a parent and know nothing of each
other (`Step`). Passes of the engine, each with a strategy, wanted keys
and failures of its own, schedule changes and make the released ones. A
policy looks at the marks of all children and releases the one that is
next. Others create children, delete them and change them in ways that
have nothing to do with the rollout.

# The invariant

At most one child is released, and it is scheduled (`OneInFlight`).
Neither the policy nor the engine keeps this alone. The policy releases
a scheduled child, and only if no child that is scheduled is released;
so the invariant, which makes any released child a scheduled one, is
what tells the policy the truth about what is in flight. The engine, for
its part, never takes one of the two marks away from a child and leaves
the other: a child that is released after a pass was so before, and the
pass did not touch it (`Effect.of_released`).

# What follows

A disruptive change is made to a released child only, and so to the one
that is in flight (`one_release_in_flight`).
-/
import ControlLoop.Proofs.Engine.Gate
import ControlLoop.Proofs.Rollout.Choice
import Mathlib.Logic.Relation

namespace ControlLoop

variable {β : Type}

-- ========================================================== the policy

namespace Rollout

/-- A release is decided only where none is in flight, and it is that of a member that waits. -/
theorem of_next_eq_release {cs : List Candidate} {id : String} (h : next cs = .release id) :
    (∀ c ∈ cs, c.isInFlight = false) ∧ ∃ c ∈ cs, c.id = id ∧ c.isWaiting = true := by
  obtain ⟨-, hfree, c, hc, hid, hscheduled, hreleased, -⟩ := (decides_next cs).release_iff.1 h
  refine ⟨fun d hd => ?_, c, hc, hid, ?_⟩
  · rw [Candidate.isInFlight]
    cases hd' : d.released with
    | false => rfl
    | true => exact hfree d hd hd'
  · rw [Candidate.isWaiting, hscheduled, hreleased]
    rfl

/-- What a policy knows of a member beside its marks. -/
structure Outlook where
  healthy : Bool
  primary : Bool
  drain : DrainState

/-- A child as a candidate for release. -/
def Candidate.ofChild (outlook : Key → Outlook) (k : Key) (o : Object β) : Candidate where
  id := k.name
  scheduled := isScheduled o.metadata
  released := isReleased o.metadata
  healthy := (outlook k).healthy
  primary := (outlook k).primary
  drain := (outlook k).drain

end Rollout

-- ============================================================ the steps

/-- The strategy leaves all objects where they are, and neither builds a released one nor releases
any. -/
structure Strategy.ReleasesNothing {τ : Type} (S : Strategy τ β) : Prop where
  keepsPlace : S.KeepsPlace
  newObject : ∀ k t, Rollout.isReleased (S.newObject k t).1.metadata = false
  updateInPlace : ∀ k o t, Rollout.isReleased o.metadata = false →
    Rollout.isReleased (S.updateInPlace k o t).1.metadata = false

/-- The reconciler works on a store in memory for the children of a parent and leaves it to others to
release them. -/
structure Reconciler.Serves {τ : Type} (r : Reconciler (Memory β) τ β) (p : Parent)
    (selector : TextMap) : Prop where
  store : r.store = Memory.store
  parent : r.parent = p
  selector : r.selector = selector
  releasesNothing : r.strategy.ReleasesNothing

namespace Rollout

variable [DecidableEq β] [Resource β]

/-- What can happen to the children of a parent in the course of rollouts. -/
inductive Step (p : Parent) (selector : TextMap) : Memory β → Memory β → Prop
  /-- From now on the store fails in this way. -/
  | fail {m : Memory β} (f : Memory.Failures) : Step p selector m (m.under f)
  | pass {τ : Type} {r : Reconciler (Memory β) τ β} (hr : r.Serves p selector)
      (desired : SortedSet Key) (s : PassState (Memory β) τ) :
      Step p selector s.store (r.reconcileSet desired s).2.store
  /-- The policy looks at all children, in any order, and releases the one that is next. -/
  | release {m : Memory β} {cs : List Candidate} {id : String} {o : Object β}
      (outlook : Key → Outlook)
      (hcs : cs.Perm ((p.children selector m).toList.map fun e => .ofChild outlook e.1 e.2))
      (hnext : next cs = .release id)
      (ho : (p.children selector m).get? ⟨p.space, id⟩ = some o) :
      Step p selector m (m.replace (o.modifyMetadata Rollout.release)).2
  | create {m : Memory β} (o : Object β) (ho : isReleased o.metadata = false) :
      Step p selector m (m.create o).2
  | delete {m : Memory β} (k : Key) : Step p selector m (m.delete k).2
  /-- Someone changes a child and does not touch its marks. -/
  | change {m : Memory β} {k : Key} {o o' : Object β}
      (ho : (p.children selector m).get? k = some o) (hkey : o'.key = k)
      (hscheduled : isScheduled o'.metadata = isScheduled o.metadata)
      (hreleased : isReleased o'.metadata = isReleased o.metadata) :
      Step p selector m (m.replace o').2

-- ======================================================== the invariant

/-- At most one child is released, and it is scheduled. -/
structure OneInFlight (p : Parent) (selector : TextMap) (m : Memory β) : Prop where
  scheduled : ∀ {k o}, (p.children selector m).get? k = some o → isReleased o.metadata = true →
    isScheduled o.metadata = true
  single : ∀ {k k' o o'}, (p.children selector m).get? k = some o →
    (p.children selector m).get? k' = some o' → isReleased o.metadata = true →
    isReleased o'.metadata = true → k = k'

section

variable {p : Parent} {selector : TextMap} {m m' : Memory β}

omit [DecidableEq β] [Resource β] in
/-- The invariant stays where no release is new and none is taken half back. -/
theorem OneInFlight.of_older (h : OneInFlight p selector m)
    (holder : ∀ k o', (p.children selector m').get? k = some o' →
      isReleased o'.metadata = true → ∃ o, (p.children selector m).get? k = some o
        ∧ isReleased o.metadata = true
        ∧ (isScheduled o.metadata = true → isScheduled o'.metadata = true)) :
    OneInFlight p selector m' where
  scheduled := fun hk hreleased => by
    obtain ⟨o, ho, hreleased', hkeeps⟩ := holder _ _ hk hreleased
    exact hkeeps (h.scheduled ho hreleased')
  single := fun hk hk' hreleased hreleased' => by
    obtain ⟨o, ho, hr, -⟩ := holder _ _ hk hreleased
    obtain ⟨o', ho', hr', -⟩ := holder _ _ hk' hreleased'
    exact h.single ho ho' hr hr'

omit [DecidableEq β] [Resource β] in
/-- The invariant holds where only one child can be released, and is scheduled if it is. -/
theorem oneInFlight_of_only (k₀ : Key)
    (honly : ∀ k o, (p.children selector m).get? k = some o → isReleased o.metadata = true →
      k = k₀ ∧ isScheduled o.metadata = true) : OneInFlight p selector m where
  scheduled := fun hk hreleased => (honly _ _ hk hreleased).2
  single := fun hk hk' hreleased hreleased' =>
    (honly _ _ hk hreleased).1.trans (honly _ _ hk' hreleased').1.symm

-- ========================================================= others' writes

omit [DecidableEq β] [Resource β] in
theorem OneInFlight.create (h : OneInFlight p selector m) {o : Object β}
    (ho : isReleased o.metadata = false) : OneInFlight p selector (m.create o).2 := by
  refine h.of_older fun k o' hk hreleased => ?_
  by_cases hkey : k = o.key
  · subst hkey
    cases hbefore : m.object? o.key with
    | some holder =>
        rw [Memory.create_of_taken hbefore] at hk
        exact ⟨o', hk, hreleased, id⟩
    | none =>
        have hthere := (Parent.get?_children.1 hk).1
        rcases Memory.object?_create hbefore with hnone | ⟨v, u, hnew⟩
        · rw [hnone] at hthere
          cases hthere
        · rw [hnew] at hthere
          obtain rfl := Option.some.inj hthere
          cases ho.symm.trans hreleased
  · have hsame := (Memory.agreesExcept_create m o).object? hkey
    exact ⟨o', Parent.get?_children_of_object? hsame hk, hreleased, id⟩

omit [DecidableEq β] [Resource β] in
theorem OneInFlight.delete (h : OneInFlight p selector m) (k : Key) :
    OneInFlight p selector (m.delete k).2 := by
  refine h.of_older fun k' o' hk' hreleased => ?_
  have hthere := (Parent.get?_children.1 hk').1
  by_cases hkey : k' = k
  · subst hkey
    rw [Memory.object?_delete] at hthere
    split at hthere
    · next hrefused =>
        refine ⟨o', Parent.get?_children_of_object? ?_ hk', hreleased, id⟩
        rw [Memory.object?_delete, if_pos hrefused]
    · cases hthere
  · have hsame := (Memory.agreesExcept_delete m k).object? hkey
    exact ⟨o', Parent.get?_children_of_object? hsame hk', hreleased, id⟩

omit [DecidableEq β] [Resource β] in
/-- What a replacement of a child leaves of the children: each is one that was there before, or the
new object at another version. -/
theorem get?_children_replace (hm : m.Sound) {k : Key} {o o' : Object β}
    (ho : m.object? k = some o) (hkey : o'.key = k) {k' : Key} {x : Object β}
    (hx : (p.children selector (m.replace o').2).get? k' = some x) :
    (p.children selector m).get? k' = some x ∨ (k' = k ∧ ∃ v, x = o'.atVersion v) := by
  by_cases hk' : k' = k
  · subst hk'
    rcases Memory.object?_replace_of_version hm ho fun hne => absurd hkey hne with hold | ⟨v, hnew⟩
    · exact Or.inl (Parent.get?_children_of_object? (hold.trans ho.symm) hx)
    · have hthere := (Parent.get?_children.1 hx).1
      rw [hnew] at hthere
      exact Or.inr ⟨rfl, v, (Option.some.inj hthere).symm⟩
  · have hsame := (Memory.agreesExcept_replace m o').object? (hkey.symm ▸ hk')
    exact Or.inl (Parent.get?_children_of_object? hsame hx)

omit [DecidableEq β] [Resource β] in
theorem OneInFlight.change (h : OneInFlight p selector m) (hm : m.Sound) {k : Key}
    {o o' : Object β} (ho : (p.children selector m).get? k = some o) (hkey : o'.key = k)
    (hscheduled : isScheduled o'.metadata = isScheduled o.metadata)
    (hreleased : isReleased o'.metadata = isReleased o.metadata) :
    OneInFlight p selector (m.replace o').2 := by
  refine h.of_older fun k' x hx hrel => ?_
  rcases get?_children_replace hm (Parent.get?_children.1 ho).1 hkey hx with hold | ⟨rfl, v, rfl⟩
  · exact ⟨x, hold, hrel, id⟩
  · exact ⟨o, ho, hreleased.symm.trans hrel, fun hs => hscheduled.trans hs⟩

-- ========================================================= the policy

omit [DecidableEq β] [Resource β] in
/-- Where the policy decides on a release, no child is released, and the chosen one is scheduled. -/
theorem OneInFlight.of_next_eq_release (h : OneInFlight p selector m) {cs : List Candidate}
    {id : String} {o : Object β} {outlook : Key → Outlook}
    (hcs : cs.Perm ((p.children selector m).toList.map fun e => .ofChild outlook e.1 e.2))
    (hnext : next cs = .release id)
    (ho : (p.children selector m).get? ⟨p.space, id⟩ = some o) :
    (∀ k x, (p.children selector m).get? k = some x → isReleased x.metadata = false)
      ∧ isScheduled o.metadata = true := by
  obtain ⟨hflight, c, hc, hid, hwaits⟩ := Rollout.of_next_eq_release hnext
  constructor
  · intro k x hx
    -- a released child is scheduled, so it would be in flight
    refine Bool.eq_false_iff.2 fun hreleased => ?_
    have hmem : Candidate.ofChild outlook k x ∈ cs :=
      hcs.mem_iff.2 (List.mem_map.2 ⟨(k, x), SortedMap.mem_toList_of_get? hx, rfl⟩)
    have hnot := hflight _ hmem
    rw [Candidate.isInFlight] at hnot
    simp only [Candidate.ofChild, hreleased, h.scheduled hx hreleased, Bool.and_self] at hnot
    cases hnot
  · obtain ⟨⟨k, x⟩, hmem, rfl⟩ := List.mem_map.1 (hcs.mem_iff.1 hc)
    have hx := SortedMap.get?_of_mem_toList hmem
    have hk : k = ⟨p.space, id⟩ := by
      rw [← (Parent.get?_children.1 hx).2.1, ← hid]
      rfl
    rw [hk, ho] at hx
    obtain rfl := Option.some.inj hx
    exact (Bool.and_eq_true_iff.1 hwaits).1

omit [DecidableEq β] [Resource β] in
theorem OneInFlight.release (h : OneInFlight p selector m) (hm : m.Sound) {cs : List Candidate}
    {id : String} {o : Object β} {outlook : Key → Outlook}
    (hcs : cs.Perm ((p.children selector m).toList.map fun e => .ofChild outlook e.1 e.2))
    (hnext : next cs = .release id)
    (ho : (p.children selector m).get? ⟨p.space, id⟩ = some o) :
    OneInFlight p selector (m.replace (o.modifyMetadata Rollout.release)).2 := by
  obtain ⟨hnone, hscheduled⟩ := h.of_next_eq_release hcs hnext ho
  have hthere := (Parent.get?_children.1 ho).1
  refine oneInFlight_of_only ⟨p.space, id⟩ fun k x hx hreleased => ?_
  have hkey : (o.modifyMetadata Rollout.release).key = ⟨p.space, id⟩ :=
    (show _ = o.key from rfl).trans (hm.keyed hthere)
  -- of the children that were there none is released, so only the one that was written can be
  rcases get?_children_replace hm hthere hkey hx with hold | ⟨rfl, v, rfl⟩
  · cases (hnone k x hold).symm.trans hreleased
  · exact ⟨rfl, (isScheduled_release o.metadata).trans hscheduled⟩

end

end Rollout

-- ============================================================= the engine

namespace Reconciler

variable {τ : Type} [DecidableEq β] [Resource β]

/-- No write that is planned releases a child. -/
theorem not_released_of_plan {σ : Type} {r : Reconciler σ τ β} (h : r.strategy.ReleasesNothing)
    {k : Key} {current next : Object β} {schedules : Bool} {t t' : τ}
    (hplan : r.plan k current t = (.write next schedules, t')) :
    Rollout.isReleased next.metadata = false := by
  have hplan := congrArg Prod.fst hplan
  rw [plan_eq_planFor] at hplan
  rcases planFor_cases (r.strategy.updateMode (r.strategy.updateInPlace k current t).2) current
      (r.nextStates k current t).1 (r.nextStates k current t).2 with
    ⟨-, hcase⟩ | ⟨-, -, -, hcase⟩ | ⟨-, -, -, hcase⟩ | ⟨-, hunreleased, b, hcase⟩
  · rw [hcase] at hplan
    cases hplan
    exact (not_flagged_unflagged _).2
  · rw [hcase] at hplan
    cases hplan
  · rw [hcase] at hplan
    cases hplan
    exact (not_flagged_unflagged _).2
  · rw [hcase] at hplan
    cases hplan
    exact (Rollout.isReleased_schedule _ _).trans (h.updateInPlace k current t hunreleased)

/-- What is released after a pass was so before, and was not touched. -/
theorem Effect.of_released {σ : Type} {r : Reconciler σ τ β} (h : r.strategy.ReleasesNothing)
    {k : Key} {wanted : Bool} {seen before : Option (Object β)} {t : τ} {o : Object β}
    (heffect : Effect r k wanted seen t before (some o))
    (hreleased : Rollout.isReleased o.metadata = true) : before = some o := by
  cases heffect with
  | unchanged => rfl
  | created =>
      have hnew := (r.isReleased_claimed k (r.strategy.newObject k t).1).trans (h.newObject k t)
      cases hnew.symm.trans hreleased
  | replaced hlive hplan => cases (not_released_of_plan h hplan).symm.trans hreleased

end Reconciler

namespace Rollout

variable [DecidableEq β] [Resource β] {p : Parent} {selector : TextMap} {m m' : Memory β}

theorem OneInFlight.pass {τ : Type} {r : Reconciler (Memory β) τ β} (hr : r.Serves p selector)
    (desired : SortedSet Key) {s : PassState (Memory β) τ} (h : OneInFlight p selector s.store)
    (hm : s.store.Reachable) :
    OneInFlight p selector (r.reconcileSet desired s).2.store := by
  refine h.of_older fun k o' hk hreleased => ?_
  have hv := (Reconciler.plansKeepKey_of_keepsPlace hr.releasesNothing.keepsPlace).plansKeepVersion
  have heffect := Reconciler.effect_reconcileSet hr.store hv desired hm k
  have hthere := (Parent.get?_children.1 hk).1
  rw [hthere] at heffect
  have hbefore := heffect.of_released hr.releasesNothing hreleased
  exact ⟨o', Parent.get?_children_of_object? (hthere.trans hbefore.symm) hk, hreleased, id⟩

-- ================================================================ a run

theorem Step.reachable (h : Step p selector m m') (hm : m.Reachable) : m'.Reachable := by
  cases h with
  | fail f => exact hm.under f
  | pass hr desired s => exact Reconciler.reachable_reconcileSet hr.store desired hm
  | release outlook hcs hnext ho => exact hm.replace _
  | create o ho => exact hm.create o
  | delete k => exact hm.delete k
  | change ho hkey hscheduled hreleased => exact hm.replace _

/-- Whoever writes next, one release is in flight at most. -/
theorem OneInFlight.step (h : OneInFlight p selector m) (hm : m.Reachable)
    (hstep : Step p selector m m') : OneInFlight p selector m' := by
  cases hstep with
  | fail f => exact h.of_older fun k o hk hreleased => ⟨o, hk, hreleased, id⟩
  | pass hr desired s => exact h.pass hr desired hm
  | release outlook hcs hnext ho => exact h.release hm.sound hcs hnext ho
  | create o ho => exact h.create ho
  | delete k => exact h.delete k
  | change ho hkey hscheduled hreleased => exact h.change hm.sound ho hkey hscheduled hreleased

theorem OneInFlight.run (h : OneInFlight p selector m) (hm : m.Reachable)
    (hrun : Relation.ReflTransGen (Step p selector) m m') :
    OneInFlight p selector m' ∧ m'.Reachable := by
  induction hrun with
  | refl => exact ⟨h, hm⟩
  | tail _ hstep ih => exact ⟨ih.1.step ih.2 hstep, hstep.reachable ih.2⟩

omit [DecidableEq β] [Resource β] in
theorem oneInFlight_of_unreleased
    (hnone : ∀ k o, (p.children selector m).get? k = some o → isReleased o.metadata = false) :
    OneInFlight p selector m where
  scheduled := fun hk hreleased => by cases (hnone _ _ hk).symm.trans hreleased
  single := fun hk _ hreleased _ => by cases (hnone _ _ hk).symm.trans hreleased

end Rollout

namespace Reconciler

variable {τ : Type} [DecidableEq β] [Resource β] {p : Parent} {selector : TextMap}

/-- What a pass tries at a wanted child is its waiting form, unless the child is released. -/
theorem tried_of_unreleased {r : Reconciler (Memory β) τ β} (hr : r.Serves p selector)
    {desired : SortedSet Key} {s : PassState (Memory β) τ} (hm : s.store.Reachable) {k : Key}
    {o : Object β} (hk : k ∈ desired) (ho : (r.owned s.store).get? k = some o)
    (hunreleased : Rollout.isReleased o.metadata = false) {w : Write β}
    (hw : w ∈ r.tried desired s) (hkey : w.key = k) :
    w = .replace (waitingForm (r.nextStates k o (r.turn desired s k).strategy).1
      (r.nextStates k o (r.turn desired s k).strategy).2) := by
  have hwanted : desired.contains k = true := hk
  have hl : s.store.listsFail = false := by
    refine Bool.eq_false_iff.2 fun hfails => ?_
    rw [tried_of_listsFail hr.store hfails] at hw
    cases hw
  have hmem : w ∈ (r.tried desired s).filter (·.key = k) :=
    List.mem_filter.2 ⟨hw, decide_eq_true hkey⟩
  rw [filter_tried hr.store hm hl (plansKeepKey_of_keepsPlace hr.releasesNothing.keepsPlace)
    (mem_passKeys.2 (Or.inl hk)), hwanted, ho] at hmem
  cases asks_of_writeFor (Option.mem_toList.1 hmem) with
  | replace hlive hplan hne =>
      have hplan := congrArg Prod.fst hplan
      rw [plan_eq_planFor] at hplan
      obtain ⟨b, hwaits⟩ : ∃ b, planFor _ o (r.nextStates k o (r.turn desired s k).strategy).1
            (r.nextStates k o (r.turn desired s k).strategy).2
          = .write (waitingForm (r.nextStates k o (r.turn desired s k).strategy).1
              (r.nextStates k o (r.turn desired s k).strategy).2) b :=
        planFor_of_unreleased hunreleased
      rw [hwaits] at hplan
      cases hplan
      rfl
  | recreate hlive hplan =>
      cases hunreleased.symm.trans (of_plan_recreate hplan).1

end Reconciler

namespace Rollout

variable [DecidableEq β] [Resource β] {p : Parent} {selector : TextMap} {m m' : Memory β}

/-- Over whole rollouts at most one release is in flight. If no child is released in the beginning,
then at any time at most one is, and it is scheduled; and whatever pass comes next, it tries nothing
at a wanted child but to store its waiting form, unless the child is the one that is scheduled and
released. -/
theorem one_release_in_flight (hm : m.Reachable)
    (hnone : ∀ k o, (p.children selector m).get? k = some o → isReleased o.metadata = false)
    (hrun : Relation.ReflTransGen (Step p selector) m m') :
    (∀ k o, (p.children selector m').get? k = some o → isReleased o.metadata = true →
        isScheduled o.metadata = true)
      ∧ (∀ k k' o o', (p.children selector m').get? k = some o →
        (p.children selector m').get? k' = some o' → isReleased o.metadata = true →
        isReleased o'.metadata = true → k = k')
      ∧ ∀ (τ : Type) (r : Reconciler (Memory β) τ β) (desired : SortedSet Key)
        (s : PassState (Memory β) τ), r.Serves p selector → s.store = m' →
        ∀ k ∈ desired, ∀ o, (p.children selector m').get? k = some o →
        ∀ w ∈ r.tried desired s, w.key = k →
          w = .replace (Reconciler.waitingForm
              (r.nextStates k o (r.turn desired s k).strategy).1
              (r.nextStates k o (r.turn desired s k).strategy).2)
            ∨ isScheduled o.metadata = true ∧ isReleased o.metadata = true := by
  obtain ⟨h, hm'⟩ := (oneInFlight_of_unreleased hnone).run hm hrun
  refine ⟨fun k o => h.scheduled, fun k k' o o' => h.single, ?_⟩
  rintro τ r desired s hr rfl k hk o ho w hw hkey
  cases hreleased : isReleased o.metadata with
  | true => exact Or.inr ⟨h.scheduled ho hreleased, rfl⟩
  | false =>
      have howned : (r.owned s.store).get? k = some o := by
        rw [← hr.parent, ← hr.selector] at ho
        exact ho
      exact Or.inl (Reconciler.tried_of_unreleased hr hm' hk howned hreleased hw hkey)

end Rollout

namespace Sealing

/-- The group after a pass. -/
def loneScheduled : Memory ConfigMap :=
  ((reconciler .recreate).reconcileSet (SortedMap.ofKeys [key "a"]) ⟨lone, 0, []⟩).2.store

/-- The child after a pass: it waits to be sealed. -/
def waiting : Object ConfigMap :=
  ((tidied (member "a" true none)).modifyMetadata
    (Rollout.schedule "changes to immutable")).atVersion "2"

/-- The group after the policy has released the child. -/
def loneReleased : Memory ConfigMap :=
  (loneScheduled.replace (waiting.modifyMetadata Rollout.release)).2

theorem serves_reconciler (mode : UpdateMode) : (reconciler mode).Serves parent ∅ where
  store := rfl
  parent := rfl
  selector := rfl
  releasesNothing :=
    ⟨keepsPlace_strategy mode, fun _ _ => rfl, fun _ _ _ h => h⟩

theorem lone_unreleased : ∀ k o, (parent.children ∅ lone).get? k = some o →
    Rollout.isReleased o.metadata = false := fun k o ho => by
  have hall : ∀ e ∈ (parent.children ∅ lone).toList,
      Rollout.isReleased e.2.metadata = false := by decide
  exact hall (k, o) (SortedMap.mem_toList_of_get? ho)

theorem run_lone : Relation.ReflTransGen (Rollout.Step parent ∅) lone loneReleased :=
  .tail (.single (.pass (serves_reconciler .recreate) (SortedMap.ofKeys [key "a"]) ⟨lone, 0, []⟩))
    (.release (fun _ => ⟨true, false, .notDraining⟩) (.refl _)
      (by decide : _ = Rollout.Decision.release "a")
      (by decide : (parent.children ∅ loneScheduled).get? (key "a") = some waiting))

end Sealing

open Sealing in
/-- A child that is scheduled by a pass and released by the policy is still scheduled, and the next
pass tries to delete it. -/
theorem Rollout.one_release_in_flight_lone :
    (∀ o, loneReleased.object? (key "a") = some o → Rollout.isReleased o.metadata = true →
        Rollout.isScheduled o.metadata = true)
      ∧ (∃ o, loneReleased.object? (key "a") = some o ∧ Rollout.isReleased o.metadata = true)
      ∧ .delete (key "a") .background
        ∈ (reconciler .recreate).tried (SortedMap.ofKeys [key "a"]) ⟨loneReleased, 0, []⟩ := by
  obtain ⟨hscheduled, -, -⟩ :=
    Rollout.one_release_in_flight reachable_lone lone_unreleased run_lone
  have hthere : (parent.children ∅ loneReleased).get? (key "a")
      = some ((waiting.modifyMetadata Rollout.release).atVersion "3") := by decide
  refine ⟨fun o ho => ?_, ⟨_, (Parent.get?_children.1 hthere).1, by decide⟩, by decide⟩
  rw [(Parent.get?_children.1 hthere).1] at ho
  obtain rfl := Option.some.inj ho
  exact hscheduled _ _ hthere

end ControlLoop
