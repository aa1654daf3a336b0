/-
Repeated passes stop writing.

# What is assumed

The strategy follows a blueprint whose update functions want nothing
more of what they have made themselves (`Blueprint.Converges`): each of
them is idempotent, the harmless one wants nothing of what the disruptive
one has made of its own result, and neither wants anything of a new
object. They neither read nor write what the rollout and the store keep
on an object (`Oblivious`), and new objects carry no mark of the rollout.

# Why two passes are enough

At each key there are at most two writes to come. A missing child is
created and is then as it is to be. A released child that has to be
created anew is deleted first, and another pending change that is
released is written with both marks cleared; so is a change that is no
longer pending. A change that waits gets the description of what is to
come. That may be written once more: the first time it is made from an
object that may have had no annotations, and the mark itself gives it
some. From then on the description is the same (`describe_marked`), or
nothing is pending any more and the marks are cleared.

# What follows

After two passes in which nothing fails and nobody else writes, all keys
rest and every later pass leaves the store as it is
(`quiet_after_two_passes`). It would take one more where new objects
carry a mark (`third_pass_clears_mark`).
-/
import ControlLoop.Proofs.Engine.Blueprint
import ControlLoop.Proofs.Engine.Description
import ControlLoop.Proofs.Engine.Gate

namespace ControlLoop

variable {τ β : Type}

-- =========================================================== assumptions

/-- The function neither reads nor writes where an object is stored, its version, and the marks of
the rollout. -/
structure Oblivious (h : Object β → Object β) : Prop where
  key : ∀ o, (h o).key = o.key
  version : ∀ o, (h o).metadata.resourceVersion = o.metadata.resourceVersion
  atVersion : ∀ o v, h (o.atVersion v) = (h o).atVersion v
  schedule : ∀ o d,
    h (o.modifyMetadata (Rollout.schedule d)) = (h o).modifyMetadata (Rollout.schedule d)
  unschedule : ∀ o, h (o.modifyMetadata Rollout.unschedule) = (h o).modifyMetadata Rollout.unschedule
  unrelease : ∀ o, h (o.modifyMetadata Rollout.unrelease) = (h o).modifyMetadata Rollout.unrelease

/-- The update functions are oblivious, and want nothing more of what they have made and of what was
created. -/
structure Blueprint.Converges (b : Blueprint β) (claimed : Key → Object β → Object β) : Prop where
  oblivious_update : ∀ k, Oblivious (b.update k)
  oblivious_roll : ∀ k, Oblivious (b.roll k)
  update_update : ∀ k o, b.update k (b.update k o) = b.update k o
  roll_roll : ∀ k o, b.roll k (b.roll k o) = b.roll k o
  update_roll : ∀ k o, b.update k (b.roll k (b.update k o)) = b.roll k (b.update k o)
  update_created : ∀ k v u, b.update k ((claimed k (b.newObject k)).asCreated v u)
    = (claimed k (b.newObject k)).asCreated v u
  roll_created : ∀ k v u, b.roll k ((claimed k (b.newObject k)).asCreated v u)
    = (claimed k (b.newObject k)).asCreated v u

/-- New objects carry no mark of the rollout. -/
def Blueprint.Unmarked (b : Blueprint β) : Prop :=
  ∀ k, Rollout.isScheduled (b.newObject k).metadata = false
    ∧ Rollout.isReleased (b.newObject k).metadata = false

theorem Blueprint.Converges.keepsIdentity {b : Blueprint β} {claimed : Key → Object β → Object β}
    (h : b.Converges claimed) : b.KeepsIdentity where
  key_update := fun k => (h.oblivious_update k).key
  key_roll := fun k => (h.oblivious_roll k).key
  version_update := fun k => (h.oblivious_update k).version
  version_roll := fun k => (h.oblivious_roll k).version

namespace Oblivious

variable {h : Object β → Object β} (hh : Oblivious h)

include hh

theorem unflagged (o : Object β) :
    h (Reconciler.unflagged o) = Reconciler.unflagged (h o) := by
  have hboth : ∀ o : Object β, Reconciler.unflagged o
      = (o.modifyMetadata Rollout.unschedule).modifyMetadata Rollout.unrelease := fun _ => rfl
  rw [hboth, hboth, hh.unrelease, hh.unschedule]

theorem marked (o : Object β) (d v : String) : h (o.marked d v) = (h o).marked d v := by
  rw [Object.marked, hh.atVersion, hh.schedule]
  rfl

theorem isReleased {o : Object β} (ho : Rollout.isReleased o.metadata = false) :
    Rollout.isReleased (h o).metadata = false := by
  have hsame : o.modifyMetadata Rollout.unrelease = o := by
    rw [Object.modifyMetadata, Rollout.unrelease_of_not_isReleased ho]
  rw [← hsame, hh.unrelease]
  exact Rollout.isReleased_unrelease _

end Oblivious

namespace Reconciler

theorem unflagged_of_unmarked {o : Object β} (hs : Rollout.isScheduled o.metadata = false)
    (hr : Rollout.isReleased o.metadata = false) : unflagged o = o := by
  rw [unflagged, Object.modifyMetadata, Rollout.unschedule_of_not_isScheduled hs,
    Rollout.unrelease_of_not_isReleased hr]

theorem unflagged_atVersion (o : Object β) (v : String) :
    unflagged (o.atVersion v) = (unflagged o).atVersion v := rfl

theorem unflagged_unflagged (o : Object β) : unflagged (unflagged o) = unflagged o :=
  unflagged_of_unmarked (not_flagged_unflagged o).1 (not_flagged_unflagged o).2

variable [DecidableEq β] [Resource β] {b : Blueprint β} {claimed : Key → Object β → Object β}
  {k : Key}

-- ==================================================== what rests at once

/-- Where nothing more is wanted of a child, its marks are cleared. -/
theorem blueprintPlan_of_fixed {x : Object β} (hupdate : b.update k x = x)
    (hroll : b.roll k x = x) : blueprintPlan b k x = .write (unflagged x) false := by
  rw [blueprintPlan, hupdate, hroll]
  unfold planFor
  exact if_pos rfl

/-- Where nothing more is wanted of a child, it rests as soon as its marks are cleared. -/
theorem blueprintPlan_unflagged (hc : b.Converges claimed) {x : Object β}
    (hupdate : b.update k x = x) (hroll : b.roll k x = x) (v : String) :
    blueprintPlan b k ((unflagged x).atVersion v) = .write ((unflagged x).atVersion v) false := by
  have hmarks : unflagged ((unflagged x).atVersion v) = (unflagged x).atVersion v := by
    rw [unflagged_atVersion, unflagged_unflagged]
  have hplan : blueprintPlan b k ((unflagged x).atVersion v)
      = .write (unflagged ((unflagged x).atVersion v)) false := by
    refine blueprintPlan_of_fixed ?_ ?_
    · rw [(hc.oblivious_update k).atVersion, (hc.oblivious_update k).unflagged, hupdate]
    · rw [(hc.oblivious_roll k).atVersion, (hc.oblivious_roll k).unflagged, hroll]
  rw [hplan, hmarks]

/-- Where only a disruptive change is wanted of a child that is not released, the change is
scheduled. -/
theorem blueprintPlan_of_waiting {x : Object β} (hupdate : b.update k x = x)
    (hroll : b.roll k x ≠ x) (hx : Rollout.isReleased x.metadata = false) :
    ∃ schedules, blueprintPlan b k x = .write (x.modifyMetadata
      (Rollout.schedule (Change.describe x.toJson (b.roll k x).toJson))) schedules := by
  rw [blueprintPlan, hupdate]
  unfold planFor
  rw [if_neg hroll, if_neg (Bool.eq_false_iff.1 hx)]
  exact ⟨_, rfl⟩

theorem Rests.occupied {seen x : Option (Object β)} (h : Rests b k true seen x) :
    ∃ o, x = some o := by
  cases h <;> exact ⟨_, rfl⟩

-- ================================================== two writes at most

section

variable {σ : Type} {r : Reconciler σ τ β}

/-- What is seen of a key as a child, given what is there. -/
def seenAt (r : Reconciler σ τ β) (k : Key) (before : Option (Object β)) : Option (Object β) :=
  before.filter fun o => k.space = r.parent.space && r.selects o

/-- An object that is as it is to be rests, whether it is a child or not. -/
theorem rests_of_write_self {x : Object β} {schedules : Bool}
    (hplan : blueprintPlan b k x = .write x schedules) :
    Rests b k true (r.seenAt k (some x)) (some x) := by
  rw [seenAt, Option.filter_some]
  split
  · exact .done hplan
  · exact .taken

theorem Lands.rests_of_rests {wanted : Bool} {x y : Option (Object β)}
    (h : Lands r b k wanted (r.seenAt k x) x y) (hx : Rests b k wanted (r.seenAt k x) x) :
    Rests b k wanted (r.seenAt k y) y := by
  rw [h.eq_of_rests hx]
  exact hx

/-- Where a write is planned, it lands, or the key rests. -/
theorem Lands.of_write {x next : Object β} {schedules : Bool} {y : Option (Object β)}
    (h : Lands r b k true (r.seenAt k (some x)) (some x) y)
    (hplan : blueprintPlan b k x = .write next schedules) :
    Rests b k true (r.seenAt k y) y ∨ ∃ v, y = some (next.atVersion v) := by
  generalize hseen : r.seenAt k (some x) = seen at h
  cases h with
  | rests hrests =>
      rw [hseen]
      exact Or.inl hrests
  | replaced hlive hplan' hne =>
      rw [hplan] at hplan'
      cases hplan'
      exact Or.inr ⟨_, rfl⟩
  | recreated hlive hplan' =>
      rw [hplan] at hplan'
      cases hplan'

variable (hc : b.Converges r.claimed)

include hc

/-- A child of which nothing more is wanted rests after one more pass. -/
theorem rests_of_fixed {x : Object β} (hupdate : b.update k x = x) (hroll : b.roll k x = x)
    {y : Option (Object β)} (h : Lands r b k true (r.seenAt k (some x)) (some x) y) :
    Rests b k true (r.seenAt k y) y := by
  rcases h.of_write (blueprintPlan_of_fixed hupdate hroll) with hrests | ⟨v, rfl⟩
  · exact hrests
  · exact rests_of_write_self (blueprintPlan_unflagged hc hupdate hroll v)

variable [LawfulResource β]

/-- A child that waits for its release rests after one more pass: by then its description is the one
that it has already. -/
theorem rests_of_marked {x : Object β} (hupdate : b.update k x = x)
    (hx : Rollout.isReleased x.metadata = false) (d v : String) {y : Option (Object β)}
    (h : Lands r b k true (r.seenAt k (some (x.marked d v))) (some (x.marked d v)) y) :
    Rests b k true (r.seenAt k y) y := by
  have hupdated : ∀ d v, b.update k (x.marked d v) = x.marked d v := fun d v => by
    rw [(hc.oblivious_update k).marked, hupdate]
  have hunreleased : ∀ d v, Rollout.isReleased (x.marked d v).metadata = false := fun d v =>
    (Rollout.isReleased_schedule d x.metadata).trans hx
  have hrolled : ∀ d v, b.roll k (x.marked d v) = (b.roll k x).marked d v :=
    (hc.oblivious_roll k).marked x
  by_cases hroll : b.roll k (x.marked d v) = x.marked d v
  · -- but for the mark nothing is pending any more
    exact rests_of_fixed hc (hupdated d v) hroll h
  · obtain ⟨c, hplan⟩ := blueprintPlan_of_waiting (hupdated d v) hroll (hunreleased d v)
    rw [Object.schedule_marked] at hplan
    rcases h.of_write hplan with hrests | ⟨v', rfl⟩
    · exact hrests
    · -- the next pass would write the description that is there by now
      generalize hd : Change.describe (x.marked d v).toJson (b.roll k (x.marked d v)).toJson = d'
      have hstill : b.roll k (x.marked d' v') ≠ x.marked d' v' := fun heq => hroll (by
        have hagain := congrArg (·.marked d v) heq
        rwa [hrolled, Object.marked_marked, Object.marked_marked, ← hrolled] at hagain)
      obtain ⟨c', hplan'⟩ := blueprintPlan_of_waiting (hupdated d' v') hstill (hunreleased d' v')
      have hsame : Change.describe (x.marked d' v').toJson (b.roll k (x.marked d' v')).toJson
          = d' := by
        rw [hrolled, Change.describe_marked x (b.roll k x) d' v' d v, ← hrolled, hd]
      rw [hsame, Object.schedule_marked] at hplan'
      exact rests_of_write_self hplan'

/-- What was replaced rests after one more pass. -/
theorem rests_of_replaced {o next : Object β} {schedules : Bool}
    (hplan : blueprintPlan b k o = .write next schedules) {v : String} {y : Option (Object β)}
    (h : Lands r b k true (r.seenAt k (some (next.atVersion v))) (some (next.atVersion v)) y) :
    Rests b k true (r.seenAt k y) y := by
  have hupdated := hc.update_update k o
  rw [blueprintPlan] at hplan
  rcases planFor_cases b.mode o (b.update k o) (b.roll k (b.update k o)) with
    ⟨hsame, hcase⟩ | ⟨-, -, -, hcase⟩ | ⟨-, -, -, hcase⟩ | ⟨-, hunreleased, c, hcase⟩ <;>
    rw [hcase] at hplan <;> cases hplan
  · -- nothing was pending
    exact h.rests_of_rests (rests_of_write_self (blueprintPlan_unflagged hc hupdated hsame v))
  · -- a released change was written onto the child
    exact h.rests_of_rests (rests_of_write_self
      (blueprintPlan_unflagged hc (hc.update_roll k o) (hc.roll_roll k _) v))
  · -- the change waits for its release
    exact rests_of_marked hc hupdated ((hc.oblivious_update k).isReleased hunreleased) _ v h

omit [LawfulResource β]

variable (hunmarked : b.Unmarked)

include hunmarked

/-- A new object is as it is to be. -/
theorem rests_of_created (v u : String) :
    Rests b k true (r.seenAt k (some ((r.claimed k (b.newObject k)).asCreated v u)))
      (some ((r.claimed k (b.newObject k)).asCreated v u)) := by
  have hscheduled := (r.isScheduled_claimed k (b.newObject k)).trans (hunmarked k).1
  have hreleased := (r.isReleased_claimed k (b.newObject k)).trans (hunmarked k).2
  -- the version and the unique id that the store gives it are no annotations
  have hunflagged : unflagged ((r.claimed k (b.newObject k)).asCreated v u)
      = (r.claimed k (b.newObject k)).asCreated v u := unflagged_of_unmarked hscheduled hreleased
  have hplan := blueprintPlan_of_fixed (hc.update_created k v u) (hc.roll_created k v u)
  rw [hunflagged] at hplan
  exact rests_of_write_self hplan

/-- Where there is nothing, one more pass puts a wanted object, and it rests. -/
theorem rests_of_none {y : Option (Object β)}
    (h : Lands r b k true (r.seenAt k none) none y) : Rests b k true (r.seenAt k y) y := by
  cases h with
  | rests hrests => cases hrests
  | created => exact rests_of_created hc hunmarked _ _

variable [LawfulResource β]

/-- Every key rests after two passes, wherever it starts. -/
theorem rests_of_two_passes {wanted : Bool} {x y z : Option (Object β)}
    (h : Lands r b k wanted (r.seenAt k x) x y) (h' : Lands r b k wanted (r.seenAt k y) y z) :
    Rests b k wanted (r.seenAt k z) z := by
  generalize hseen : r.seenAt k x = seen at h
  cases h with
  | rests hrests => exact h'.rests_of_rests (hseen ▸ hrests)
  | created => exact h'.rests_of_rests (rests_of_created hc hunmarked _ _)
  | replaced hlive hplan hne => exact rests_of_replaced hc hplan h'
  | recreated hlive hplan => exact rests_of_none hc hunmarked h'
  | turnedDown hlive hkeep => exact h'.rests_of_rests .absent

end

-- ===================================================== pass after pass

section

variable {σ : Type}

/-- What passes, one after the other, leave. -/
def passes (r : Reconciler σ τ β) (desired : SortedSet Key) (s : PassState σ τ) :
    Nat → PassState σ τ
  | 0 => s
  | n + 1 => (r.reconcileSet desired (r.passes desired s n)).2

end

section

variable {r : Reconciler (Memory β) τ β} (hr : r.store = Memory.store) (desired : SortedSet Key)
  {s : PassState (Memory β) τ} (hm : s.store.Reachable)

include hr hm

theorem reachable_passes (n : Nat) : (r.passes desired s n).store.Reachable := by
  induction n with
  | zero => exact hm
  | succ n ih => exact reachable_reconcileSet hr desired ih

variable (hb : r.strategy.Follows b) (hc : b.Converges r.claimed) (hcalm : s.store.Calm)

include hb hc hcalm

theorem calm_passes (n : Nat) : (r.passes desired s n).store.Calm := by
  induction n with
  | zero => exact hcalm
  | succ n ih =>
      exact calm_reconcileSet hr hb hc.keepsIdentity (reachable_passes hr desired hm n) ih desired

/-- What each of the passes lands at a key. -/
theorem lands_passes (k : Key) (n : Nat) :
    Lands r b k (desired.contains k)
      (r.seenAt k ((r.passes desired s n).store.object? k))
      ((r.passes desired s n).store.object? k) ((r.passes desired s (n + 1)).store.object? k) := by
  have hlands := lands_reconcileSet hr hb (k := k) hc.keepsIdentity
    (reachable_passes hr desired hm n) (calm_passes hr desired hm hb hc hcalm n) desired
  rwa [get?_owned] at hlands

variable [LawfulResource β] (hunmarked : b.Unmarked)

include hunmarked

/-- From the end of the second pass on all keys rest. -/
theorem rests_passes (k : Key) (n : Nat) :
    Rests b k (desired.contains k) ((r.owned (r.passes desired s (n + 2)).store).get? k)
      ((r.passes desired s (n + 2)).store.object? k) := by
  have hlands := lands_passes hr desired hm hb hc hcalm k
  rw [get?_owned]
  induction n with
  | zero => exact rests_of_two_passes hc hunmarked (hlands 0) (hlands 1)
  | succ n ih => exact (hlands (n + 2)).rests_of_rests ih

end

/-- Passes of a strategy whose updates converge stop writing: after two of them that meet no failure,
every later one leaves the store as it is, whatever was there at first. By then every desired name is
taken, and all that is still tried is to create objects under names that someone else has. -/
theorem quiet_after_two_passes [LawfulResource β] {r : Reconciler (Memory β) τ β}
    (hr : r.store = Memory.store) (hb : r.strategy.Follows b) (hc : b.Converges r.claimed)
    (hunmarked : b.Unmarked) (desired : SortedSet Key) {s : PassState (Memory β) τ}
    (hm : s.store.Reachable) (hcalm : s.store.Calm) {n : Nat} (hn : 2 ≤ n) :
    (r.passes desired s (n + 1)).store = (r.passes desired s n).store
      ∧ (∀ k ∈ desired, ∃ o, (r.passes desired s n).store.object? k = some o)
      ∧ ∀ w ∈ r.tried desired (r.passes desired s n), ∃ o, w = .create o ∧ o.key ∈ desired
          ∧ (r.owned (r.passes desired s n).store).get? o.key = none
          ∧ ∃ holder, (r.passes desired s n).store.object? o.key = some holder := by
  obtain ⟨n, rfl⟩ := Nat.exists_eq_add_of_le' hn
  have hrests := fun k => rests_passes hr desired hm hb hc hcalm hunmarked k n
  have hsound := (reachable_passes hr desired hm (n + 2)).sound
  have hlists := (calm_passes hr desired hm hb hc hcalm (n + 2)).listsFail
  refine ⟨reconcileSet_of_rests hr hb hsound hrests, fun k hk => ?_,
    fun w hw => taken_of_mem_tried hr hb hsound hlists hrests hw⟩
  have hwanted : desired.contains k = true := hk
  have hrest := hrests k
  rw [hwanted] at hrest
  exact hrest.occupied

end Reconciler

namespace Sealing

open Reconciler

/-- What the group is to be like: config maps with data, sealed by creating them anew, and with
annotations that new ones carry. -/
def blueprint (annotations : Option TextMap) : Blueprint ConfigMap where
  newObject _ := ⟨{ Metadata.empty with annotations := annotations }, ⟨some ∅, some true⟩⟩
  mode := .recreate
  update _ := tidied
  roll _ := sealed
  keep _ _ := none

/-- A reconciler for the group with the strategy of the blueprint. -/
def blueprintReconciler (annotations : Option TextMap) :
    Reconciler (Memory ConfigMap) Unit ConfigMap :=
  ⟨Memory.store, (blueprint annotations).strategy, parent, ∅⟩

/-- The mark of a change that is scheduled, as the only annotation. -/
def marks : Option TextMap := some (SortedMap.ofList [(Rollout.scheduledMark, "")])

theorem oblivious_tidied : Oblivious tidied where
  key := fun _ => rfl
  version := fun _ => rfl
  atVersion := fun _ _ => rfl
  schedule := fun _ _ => rfl
  unschedule := fun _ => rfl
  unrelease := fun _ => rfl

theorem oblivious_sealed : Oblivious sealed where
  key := fun _ => rfl
  version := fun _ => rfl
  atVersion := fun _ _ => rfl
  schedule := fun _ _ => rfl
  unschedule := fun _ => rfl
  unrelease := fun _ => rfl

theorem converges_blueprint (annotations : Option TextMap) :
    (blueprint annotations).Converges (blueprintReconciler annotations).claimed where
  oblivious_update := fun _ => oblivious_tidied
  oblivious_roll := fun _ => oblivious_sealed
  update_update := fun _ _ => rfl
  roll_roll := fun _ _ => rfl
  update_roll := fun _ _ => rfl
  update_created := fun _ _ _ => rfl
  roll_created := fun _ _ _ => rfl

theorem calm_group : group.Calm where
  refusal? := fun _ => rfl
  listsFail := rfl

end Sealing

open Sealing in
/-- In two passes the child that waits is marked, the released one is created anew, the unwanted one
is deleted and the missing one created. Then all is quiet. -/
theorem Reconciler.quiet_after_two_passes_group :
    ((blueprintReconciler none).passes wanted ⟨group, (), []⟩ 3).store
        = ((blueprintReconciler none).passes wanted ⟨group, (), []⟩ 2).store
      ∧ (∀ k ∈ wanted, ∃ o,
          ((blueprintReconciler none).passes wanted ⟨group, (), []⟩ 2).store.object? k = some o)
      ∧ ((blueprintReconciler none).passes wanted ⟨group, (), []⟩ 2).store.log
        = [(.replace, key "a"), (.delete, key "b"), (.delete, key "c"), (.create, key "e"),
          (.create, key "b")] := by
  obtain ⟨hquiet, hoccupied, -⟩ := quiet_after_two_passes (r := blueprintReconciler none) rfl
    (blueprint none).follows_strategy (converges_blueprint none) (fun _ => ⟨rfl, rfl⟩) wanted
    (s := ⟨group, (), []⟩) reachable_group calm_group (n := 2) (Nat.le_refl 2)
  exact ⟨hquiet, hoccupied, by decide +kernel⟩

open Sealing in
/-- If new objects carry a mark, a child that is created anew takes a third pass, which clears it. -/
theorem Reconciler.third_pass_clears_mark :
    (blueprint marks).strategy.Follows (blueprint marks)
      ∧ (blueprint marks).Converges (blueprintReconciler marks).claimed
      ∧ group.Reachable ∧ group.Calm
      ∧ ((blueprintReconciler marks).passes wanted ⟨group, (), []⟩ 3).store.log
        = ((blueprintReconciler marks).passes wanted ⟨group, (), []⟩ 2).store.log
          ++ [(.replace, key "b")] :=
  ⟨(blueprint marks).follows_strategy, converges_blueprint marks, reachable_group, calm_group,
    by decide +kernel⟩

end ControlLoop
