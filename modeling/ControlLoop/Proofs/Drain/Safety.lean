/-
At most one member of a group has leave to go, whatever the controller
is late to see and whatever part of its steps it gets to write.

# The run

Others ask members to drain, take away those that have finished and let
new ones join, under fresh ids or old ones. The controller makes passes,
each over a group of the history that is not older than the one before,
and each of its writes lands only where the member still is as it was
seen (`Course.Step`).

# The invariant

The rule for leave looks at one old group only, so the invariant says
what every group that may still be looked at knows about the member
that has leave now: either something blocks that group, or the member
itself is the first one waiting there (`History.Keeps`). So whoever a
later pass would give leave to is the one that has it already. A new
leave establishes this because of the pace (`Lifecycle`): someone with
a smaller id who waits by now, but did not when the controller looked,
would have passed the stage `draining` without having been seen there.
-/
import ControlLoop.Proofs.Drain.Lifecycle
import ControlLoop.Proofs.Drain.Transitions
import Mathlib.Logic.Relation

namespace ControlLoop.Drain

variable {ι : Type} [Ord ι]

-- ============================================================== the run

/-- No two members have leave to go. -/
def Group.AtMostOneFinished (g : Group ι) : Prop :=
  ∀ a b, g.get? a = some .finished → g.get? b = some .finished → a = b

/-- A history, and which of its groups the controller looked at last. -/
structure Course (ι : Type) [Ord ι] where
  history : History ι
  lastLook : Nat

/-- A course that begins now. -/
def Course.start (g : Group ι) : Course ι := ⟨.start g, 0⟩

/-- What may happen next: others ask for a drain, take away a member that has finished, or let
one join; or the controller looks at a group that is not older than the last one, and writes some
of the steps that it computes from it. -/
inductive Course.Step [Std.TransOrd ι] [DecidableEq ι] : Course ι → Course ι → Prop
  | request {c : Course ι} {id : ι} (h : c.history.current.get? id = some .notDraining) :
      Step c { c with history := (c.history.step (.set id .draining)).2 }
  | leave {c : Course ι} {id : ι} (h : c.history.current.get? id = some .finished) :
      Step c { c with history := (c.history.step (.remove id)).2 }
  | join {c : Course ι} {id : ι} (h : c.history.current.get? id = none) :
      Step c { c with history := (c.history.step (.set id .notDraining)).2 }
  | pass {c : Course ι} {look : Nat} (only : Option (List ι)) (h : c.lastLook ≤ look)
      (hlook : look < c.history.states.length) :
      Step c ⟨(c.history.step (.pass (some look) only)).2, look⟩

-- ======================================================== the invariant

/-- From the n-th group of the history nobody but `id` can get leave. -/
def History.Keeps (h : History ι) (n : Nat) (id : ι) : Prop :=
  (h.view (some n)).isBlocked = true ∨ (h.view (some n)).firstAcknowledged = some id

/-- What holds all along a course. -/
structure Course.Safe (c : Course ι) : Prop where
  inRange : c.lastLook < c.history.states.length
  paced : c.history.Paced c.lastLook
  single : ∀ g ∈ c.history.states, g.AtMostOneFinished
  singleNow : c.history.current.AtMostOneFinished
  keeps : ∀ id, c.history.current.get? id = some .finished →
    ∀ n, c.lastLook ≤ n → c.history.Keeps n id

variable [Std.TransOrd ι] [Std.LawfulEqOrd ι]

theorem Group.isBlocked_of_finished {g : Group ι} {id : ι} (h : g.get? id = some .finished) :
    g.isBlocked = true :=
  Group.isBlocked_iff.2 ⟨id, Or.inr h⟩

theorem Course.safe_start {g : Group ι} (h : g.AtMostOneFinished) : (Course.start g).Safe where
  inRange := Nat.zero_lt_one
  paced := History.paced_start g
  single := fun g' hg' => by
    obtain rfl := List.mem_singleton.1 hg'
    exact h
  singleNow := h
  keeps := fun id hid n _ => by
    have hview : (Course.start g).history.view (some n) = g := by cases n <;> rfl
    refine Or.inl ?_
    rw [hview]
    exact Group.isBlocked_of_finished hid

omit [Std.TransOrd ι] [Std.LawfulEqOrd ι] in
theorem Course.Safe.advance {h : History ι} {c c' : Nat} (hs : Course.Safe ⟨h, c⟩)
    (hc : c ≤ c') (hc' : c' < h.states.length) : Course.Safe ⟨h, c'⟩ where
  inRange := hc'
  paced := hs.paced.advance hc
  single := hs.single
  singleNow := hs.singleNow
  keeps := fun id hid n hn => hs.keeps id hid n (Nat.le_trans hc hn)

/-- Going on keeps the invariant if members keep the pace, no second one has leave, and a new
leave is one that all groups still to be looked at agree to. -/
theorem Course.Safe.push {h : History ι} {c : Nat} {g : Group ι} (hs : Course.Safe ⟨h, c⟩)
    (hpace : ∀ id, g.get? id = h.current.get? id
      ∨ (ahead (h.memberAt c id) (h.current.get? id) ≤ ahead (h.memberAt c id) (g.get? id)
        ∧ ahead (h.memberAt c id) (g.get? id) ≤ reach (h.memberAt c id)))
    (hone : g.AtMostOneFinished)
    (hnew : ∀ id, g.get? id = some .finished →
      h.current.get? id = some .finished ∨ ∀ n, c ≤ n → h.Keeps n id) :
    Course.Safe ⟨h.push g, c⟩ where
  inRange := by
    show c < (h.states ++ [g]).length
    rw [List.length_append]
    exact Nat.lt_add_right _ hs.inRange
  paced := hs.paced.push hs.inRange hpace
  single := fun g' hg' => by
    rcases List.mem_append.1 hg' with hg' | hg'
    · exact hs.single g' hg'
    · obtain rfl := List.mem_singleton.1 hg'
      exact hone
  singleNow := hone
  keeps := fun id hid n hn => by
    show (h.push g).Keeps n id
    unfold History.Keeps
    rcases Nat.lt_or_ge n h.states.length with hlt | hge
    · rw [History.view_push_of_lt h g hlt]
      rcases hnew id hid with hold | hall
      · exact hs.keeps id hold n hn
      · exact hall n hn
    · rw [History.view_push_of_le h g hge]
      exact Or.inl (Group.isBlocked_of_finished hid)

-- ==================================================== steps of others

/-- What others do keeps the invariant: they never give leave. -/
theorem Course.Safe.push_own {h : History ι} {c : Nat} {g : Group ι}
    (hs : Course.Safe ⟨h, c⟩)
    (hg : ∀ id, g.get? id = h.current.get? id ∨ OwnStep (h.current.get? id) (g.get? id)) :
    Course.Safe ⟨h.push g, c⟩ := by
  have hfin : ∀ id, g.get? id = some .finished → h.current.get? id = some .finished := by
    intro id hid
    rcases hg id with heq | hstep
    · rw [← heq, hid]
    · exact absurd (hid ▸ hstep) OwnStep.not_finished
  refine hs.push (fun id => ?_) (fun a b ha hb => ?_) (fun id hid => Or.inl (hfin id hid))
  · rcases hg id with heq | hstep
    · exact Or.inl heq
    · have hpace : h.Paced c := hs.paced
      have hreach := (hpace id c h.states.length (Nat.le_refl c) (Nat.le_of_lt hs.inRange)).2
      rw [History.memberAt_length] at hreach
      obtain ⟨hnext, hle⟩ := hstep.ahead_eq hreach
      exact Or.inr ⟨by omega, hle⟩
  · exact hs.singleNow a b (hfin a ha) (hfin b hb)

-- ========================================================== one pass

/-- The leave that a pass gives is one that all groups still to be looked at agree to. -/
theorem History.Paced.keeps {h : History ι} {c : Nat} {b : ι} (hp : h.Paced c)
    (hfree : (h.view (some c)).isBlocked = false)
    (hfirst : (h.view (some c)).firstAcknowledged = some b)
    (hlive : h.current.get? b = h.memberAt c b) {n : Nat} (hn : c ≤ n) : h.Keeps n b := by
  have hb := (Group.firstAcknowledged_spec hfirst).1
  have hbn : (h.view (some n)).get? b = some .acknowledged := (hp.memberAt_eq hn hlive).trans hb
  refine Or.inr (Group.firstAcknowledged_of_asked hfree hfirst hbn fun a han => ?_)
  -- who waits now is too far on to have been absent, or not asked, when the controller looked
  have hreach := (hp a c n (Nat.le_refl c) hn).2
  rw [show h.memberAt n a = some .acknowledged from han] at hreach
  rcases hac : h.memberAt c a with _ | _ | _ | _ | _
  · rw [hac] at hreach
    exact absurd hreach (by decide)
  · rw [hac] at hreach
    exact absurd hreach (by decide)
  all_goals exact ⟨_, hac, nofun⟩

variable [DecidableEq ι]

/-- A pass keeps the invariant. -/
theorem Course.Safe.pass {h : History ι} {c : Nat} (hs : Course.Safe ⟨h, c⟩)
    (only : Option (List ι)) : Course.Safe ⟨(h.step (.pass (some c) only)).2, c⟩ := by
  have hcases := h.pass_cases (some c) only
  generalize hg : (h.step (.pass (some c) only)).2.current = g at hcases
  have hpush : (h.step (.pass (some c) only)).2 = h.push g := by
    rw [← hg]
    rfl
  rw [hpush]
  -- who has leave afterwards had it before, or is the one that the look shows first
  have hfin : ∀ id, g.get? id = some .finished → h.current.get? id = some .finished
      ∨ (h.current.get? id = h.memberAt c id ∧ (h.view (some c)).isBlocked = false
        ∧ (h.view (some c)).firstAcknowledged = some id) := by
    intro id hid
    rcases hcases id with hkeep | ⟨hlive, -, s, hs, hnow⟩
    · exact Or.inl (hkeep ▸ hid)
    · rcases Group.transitions_cases hs with ⟨-, rfl⟩ | ⟨hfree, hfirst, rfl⟩
      · rw [hid] at hnow
        cases hnow
      · exact Or.inr ⟨hlive, hfree, hfirst⟩
  refine hs.push (fun id => ?_) (fun a b ha hb => ?_) (fun id hid => ?_)
  · rcases hcases id with hkeep | ⟨hlive, -, s, hstep, hnow⟩
    · exact Or.inl hkeep
    · have hat : h.memberAt c id = h.current.get? id := hlive.symm
      rw [hat, hnow, ahead_self, hlive]
      refine Or.inr ⟨Nat.zero_le _, ?_⟩
      rcases Group.transitions_cases hstep with ⟨hd, rfl⟩ | ⟨-, hfirst, rfl⟩
      · rw [hd]
        decide
      · rw [(Group.firstAcknowledged_spec hfirst).1]
        decide
  · -- whoever has leave already is the one that the look would show first
    have hagree : ∀ x y, h.current.get? x = some .finished →
        h.current.get? y = h.memberAt c y → (h.view (some c)).isBlocked = false →
        (h.view (some c)).firstAcknowledged = some y → x = y := by
      intro x y hx hlive hfree hfirst
      rcases hs.keeps x hx c (Nat.le_refl c) with hblock | hx'
      · rw [hfree] at hblock
        cases hblock
      · exact Option.some.inj (hx'.symm.trans hfirst)
    rcases hfin a ha with ha | ⟨hla, hfa, hfirsta⟩ <;>
      rcases hfin b hb with hb | ⟨hlb, hfb, hfirstb⟩
    · exact hs.singleNow a b ha hb
    · exact hagree a b ha hlb hfb hfirstb
    · exact (hagree b a hb hla hfa hfirsta).symm
    · exact Option.some.inj (hfirsta.symm.trans hfirstb)
  · rcases hfin id hid with hold | ⟨hlive, hfree, hfirst⟩
    · exact Or.inl hold
    · exact Or.inr fun n hn => hs.paced.keeps hfree hfirst hlive hn

-- ============================================================ all runs

/-- Every step keeps the invariant. -/
theorem Course.Safe.step {c c' : Course ι} (hs : c.Safe) (h : Course.Step c c') : c'.Safe := by
  cases h with
  | @request id hid =>
      refine hs.push_own fun id' => ?_
      by_cases heq : id' = id
      · subst heq
        rw [hid, SortedMap.get?_insert_self]
        exact Or.inr .request
      · exact Or.inl (SortedMap.get?_insert_of_ne _ _ heq)
  | @leave id hid =>
      refine hs.push_own fun id' => ?_
      by_cases heq : id' = id
      · subst heq
        rw [hid, SortedMap.get?_erase_self]
        exact Or.inr .leave
      · exact Or.inl (SortedMap.get?_erase_of_ne _ heq)
  | @join id hid =>
      refine hs.push_own fun id' => ?_
      by_cases heq : id' = id
      · subst heq
        rw [hid, SortedMap.get?_insert_self]
        exact Or.inr .join
      · exact Or.inl (SortedMap.get?_insert_of_ne _ _ heq)
  | pass only hlook hrange => exact (hs.advance hlook hrange).pass only

/-- However long a course is and whatever happens in it, no group of its history has two members
with leave to go, if the first one has not. -/
theorem atMostOneFinished_of_course {g : Group ι} (hg : g.AtMostOneFinished) {c : Course ι}
    (hrun : Relation.ReflTransGen Course.Step (Course.start g) c) :
    ∀ g' ∈ c.history.states, g'.AtMostOneFinished := by
  have hsafe : c.Safe := by
    induction hrun with
    | refl => exact Course.safe_start hg
    | tail _ hstep ih => exact ih.step hstep
  exact hsafe.single

/-- A course in which the controller is late twice: it gives leave to member 2 from a group in
which member 1 was not asked to drain yet, and acknowledges member 1 from a group in which
member 2 still waited. Member 3 goes and comes back in between. -/
theorem atMostOneFinished_of_late_looks :
    ∃ c : Course Nat,
      Relation.ReflTransGen Course.Step (Course.start
          (SortedMap.ofList [(1, .notDraining), (2, .acknowledged), (3, .finished)])) c
        ∧ c.history.current.toList
          = [(1, .acknowledged), (2, .finished), (3, .notDraining)]
        ∧ ∀ g' ∈ c.history.states, g'.AtMostOneFinished := by
  have hstart : Group.AtMostOneFinished (SortedMap.ofList (κ := Nat)
      [(1, DrainState.notDraining), (2, .acknowledged), (3, .finished)]) := by
    have hthree : ∀ id, (SortedMap.ofList [(1, DrainState.notDraining), (2, .acknowledged),
        (3, .finished)]).get? id = some .finished → id = 3 := fun id hid => by
      simpa using SortedMap.mem_of_get?_ofList hid
    exact fun a b ha hb => (hthree a ha).trans (hthree b hb).symm
  have hrun := Relation.ReflTransGen.refl (r := Course.Step) (a := Course.start
    (SortedMap.ofList [(1, DrainState.notDraining), (2, .acknowledged), (3, .finished)]))
  have hrun := hrun.tail (@Course.Step.leave Nat _ _ _ _ 3 (by decide))
  have hrun := hrun.tail (@Course.Step.request Nat _ _ _ _ 1 (by decide))
  have hrun := hrun.tail (@Course.Step.pass Nat _ _ _ _ 1 none (by decide) (by decide))
  have hrun := hrun.tail (@Course.Step.join Nat _ _ _ _ 3 (by decide))
  have hrun := hrun.tail (@Course.Step.pass Nat _ _ _ _ 2 (some [1]) (by decide) (by decide))
  exact ⟨_, hrun, by decide, atMostOneFinished_of_course hstart hrun⟩

end ControlLoop.Drain
