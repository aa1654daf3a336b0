/-
How far a member can have come since a controller last looked at it.

# The circle

A member goes in a circle of five stages: it joins, is asked to drain,
is acknowledged, has finished, and is gone, so that its id is free for
the next one to join. Joining, asking and leaving are up to others. The
other two steps are the controller's own, and each of them is written
only where the member still is in the stage that the controller saw.

# The pace

So between two looks a member never passes a stage at which it waits
for the controller, unless the controller saw it there: from a look at
stage `s` it comes at most `reach s` steps ahead, which is never once
around. This is why states can be compared by value: a member that is
found as it was seen did not move in between
(`History.Paced.memberAt_eq`), even if its id could have been used
again.
-/
import ControlLoop.Drain.History

namespace ControlLoop.Drain

-- =========================================================== the circle

/-- The place of a state on the circle; an absent member stands between having finished and
joining. -/
def stage : Option DrainState → Nat
  | some .notDraining => 0
  | some .draining => 1
  | some .acknowledged => 2
  | some .finished => 3
  | none => 4

/-- How many steps around the circle one state is ahead of another. -/
def ahead (s t : Option DrainState) : Nat := (stage t + 5 - stage s) % 5

/-- How many steps a member can make after a look found it in a state, until the next look. It
stops where a step needs the controller to have seen it there. -/
def reach : Option DrainState → Nat
  | some .notDraining => 1
  | some .draining => 1
  | some .acknowledged => 4
  | some .finished => 3
  | none => 2

/-- The steps that are not the controller's. -/
inductive OwnStep : Option DrainState → Option DrainState → Prop
  | request : OwnStep (some .notDraining) (some .draining)
  | leave : OwnStep (some .finished) none
  | join : OwnStep none (some .notDraining)

theorem stage_lt (s : Option DrainState) : stage s < 5 := by
  rcases s with _ | _ | _ | _ | _ <;> decide

theorem stage_inj {s t : Option DrainState} (h : stage s = stage t) : s = t := by
  rcases s with _ | _ | _ | _ | _ <;> rcases t with _ | _ | _ | _ | _ <;>
    first | rfl | cases h

@[simp] theorem ahead_self (s : Option DrainState) : ahead s s = 0 := by
  unfold ahead
  omega

theorem eq_of_ahead_eq {s t t' : Option DrainState} (h : ahead s t = ahead s t') : t = t' := by
  have hs := stage_lt s
  have ht := stage_lt t
  have ht' := stage_lt t'
  unfold ahead at h
  exact stage_inj (by omega)

/-- Distances add up along the circle, as long as nothing goes around. -/
theorem ahead_add {s s' t : Option DrainState} (h : ahead s s' ≤ ahead s t) :
    ahead s s' + ahead s' t = ahead s t := by
  have hs := stage_lt s
  have hs' := stage_lt s'
  have ht := stage_lt t
  unfold ahead at h ⊢
  omega

/-- A later look allows for at least what an earlier one did. -/
theorem reach_le {s s' : Option DrainState} (h : ahead s s' ≤ reach s) :
    reach s ≤ ahead s s' + reach s' := by
  revert h
  rcases s with _ | _ | _ | _ | _ <;> rcases s' with _ | _ | _ | _ | _ <;> decide

/-- A member's own step takes it one stage on, and not out of reach. -/
theorem OwnStep.ahead_eq {s t t' : Option DrainState} (h : OwnStep t t')
    (hreach : ahead s t ≤ reach s) : ahead s t' = ahead s t + 1 ∧ ahead s t' ≤ reach s := by
  revert hreach
  cases h <;> rcases s with _ | _ | _ | _ | _ <;> decide

theorem OwnStep.not_finished {s : Option DrainState} : ¬ OwnStep s (some .finished) := by
  intro h
  cases h

-- ============================================================ the pace

variable {ι : Type} [Ord ι]

/-- The state of a member in the n-th group of a history, which behind the end is the latest. -/
def History.memberAt (h : History ι) (n : Nat) (id : ι) : Option DrainState :=
  (h.view (some n)).get? id

/-- Since the controller looked at the c-th group, every member went on along the circle, and
none came further than it can. -/
def History.Paced (h : History ι) (c : Nat) : Prop :=
  ∀ (id : ι) (i j : Nat), c ≤ i → i ≤ j →
    ahead (h.memberAt c id) (h.memberAt i id) ≤ ahead (h.memberAt c id) (h.memberAt j id)
      ∧ ahead (h.memberAt c id) (h.memberAt j id) ≤ reach (h.memberAt c id)

namespace History

theorem view_of_le (h : History ι) {n : Nat} (hn : h.states.length ≤ n) :
    h.view (some n) = h.current := by
  show h.states.getD n h.current = h.current
  rw [List.getD_eq_getElem?_getD, List.getElem?_eq_none hn]
  rfl

theorem memberAt_length (h : History ι) (id : ι) :
    h.memberAt h.states.length id = h.current.get? id := by
  rw [memberAt, view_of_le h (Nat.le_refl _)]

/-- Going on keeps the groups that were there. -/
theorem view_push_of_lt (h : History ι) (g : Group ι) {n : Nat} (hn : n < h.states.length) :
    (h.push g).view (some n) = h.view (some n) := by
  show (h.states ++ [g]).getD n g = h.states.getD n h.current
  rw [List.getD_eq_getElem?_getD, List.getD_eq_getElem?_getD, List.getElem?_append_left hn,
    List.getElem?_eq_getElem hn]
  rfl

theorem view_push_of_le (h : History ι) (g : Group ι) {n : Nat} (hn : h.states.length ≤ n) :
    (h.push g).view (some n) = g := by
  show (h.states ++ [g]).getD n g = g
  rw [List.getD_eq_getElem?_getD, List.getElem?_append_right hn]
  cases n - h.states.length <;> rfl

theorem paced_start (g : Group ι) : (History.start g).Paced 0 := by
  have hview : ∀ n, (History.start g).view (some n) = g := fun n => by
    cases n <;> rfl
  intro id i j _ _
  simp [memberAt, hview]

/-- The pace since a look is the pace since any later look. -/
theorem Paced.advance {h : History ι} {c c' : Nat} (hp : h.Paced c) (hc : c ≤ c') :
    h.Paced c' := by
  intro id i j hi hij
  have hci := hp id c' i hc hi
  have hij' := hp id i j (Nat.le_trans hc hi) hij
  have hcj := hp id c' j hc (Nat.le_trans hi hij)
  have hsumi := ahead_add hci.1
  have hsumj := ahead_add hcj.1
  have hreach := reach_le (Nat.le_trans hcj.1 hcj.2)
  omega

/-- Going on keeps the pace if every member that moves goes on along the circle and stays within
its reach. -/
theorem Paced.push {h : History ι} {c : Nat} {g : Group ι} (hp : h.Paced c)
    (hc : c < h.states.length)
    (hg : ∀ id, g.get? id = h.current.get? id
      ∨ (ahead (h.memberAt c id) (h.current.get? id) ≤ ahead (h.memberAt c id) (g.get? id)
        ∧ ahead (h.memberAt c id) (g.get? id) ≤ reach (h.memberAt c id))) :
    (h.push g).Paced c := by
  intro id i j hi hij
  have hold : ∀ n, n < h.states.length → (h.push g).memberAt n id = h.memberAt n id :=
    fun n hn => by rw [memberAt, view_push_of_lt h g hn, memberAt]
  have hnew : ∀ n, h.states.length ≤ n → (h.push g).memberAt n id = g.get? id :=
    fun n hn => by rw [memberAt, view_push_of_le h g hn]
  -- the newest group lies within reach, and not behind the one before it
  have hlast : ahead (h.memberAt c id) (h.current.get? id) ≤ ahead (h.memberAt c id) (g.get? id)
      ∧ ahead (h.memberAt c id) (g.get? id) ≤ reach (h.memberAt c id) := by
    rcases hg id with heq | hstep
    · rw [heq, ← memberAt_length]
      exact ⟨Nat.le_refl _, (hp id c _ (Nat.le_refl c) (Nat.le_of_lt hc)).2⟩
    · exact hstep
  rw [hold c hc]
  rcases Nat.lt_or_ge j h.states.length with hj | hj
  · rw [hold j hj, hold i (Nat.lt_of_le_of_lt hij hj)]
    exact hp id i j hi hij
  · rw [hnew j hj]
    refine ⟨?_, hlast.2⟩
    rcases Nat.lt_or_ge i h.states.length with hi' | hi'
    · rw [hold i hi']
      have hcur := (hp id i h.states.length hi (Nat.le_of_lt hi')).1
      rw [memberAt_length] at hcur
      exact Nat.le_trans hcur hlast.1
    · exact Nat.le_of_eq (by rw [hnew i hi'])

/-- A member that is as it was seen did not move in between. -/
theorem Paced.memberAt_eq {h : History ι} {c i : Nat} {id : ι} (hp : h.Paced c) (hi : c ≤ i)
    (heq : h.current.get? id = h.memberAt c id) : h.memberAt i id = h.memberAt c id := by
  have hle := (hp id i (max i h.states.length) hi (Nat.le_max_left _ _)).1
  have hcur : h.memberAt (max i h.states.length) id = h.current.get? id := by
    rw [memberAt, view_of_le h (Nat.le_max_right _ _)]
  rw [hcur, heq, ahead_self] at hle
  have hzero : ahead (h.memberAt c id) (h.memberAt i id)
      = ahead (h.memberAt c id) (h.memberAt c id) := by
    rw [ahead_self]
    omega
  exact eq_of_ahead_eq hzero

end History

end ControlLoop.Drain
