/-
Several controllers over one group, none of which waits for another.

# The joint course

Members are asked to drain, leave and join as in any course. But a pass
may look at any group of the history, also at one that is older than
what an earlier pass looked at, and its writes land on those members
that nobody has written since (`JointCourse.Step`).

# Where two get leave

Such a write is safe for the member that it is made to. But leave rests
on what the others were not: nobody was asked to drain, and nobody had
leave. A controller that saw 2 wait alone, before 1 was asked to drain,
can still give leave to 2 after another one has acknowledged 1 and
given leave to it (`exists_two_finished`). Member 2 was not written in
the meantime, so nothing refuses the write.

# What makes up for it

It is only the leave that must not come late. Acknowledgements may be
written from any group, however old, for they say the same in every
group since (`Course.Safe.push_acknowledged`); and if no pass gives
leave from a group older than one that was looked at before, the joint
course is as good as one of a single controller
(`atMostOneFinished_of_leave_in_order`).
-/
import ControlLoop.Proofs.Drain.Safety

namespace ControlLoop.Drain

variable {ι : Type} [Ord ι]

-- ======================================================== the joint course

structure Look where
  moment : Nat
  /-- One of its steps was a leave. -/
  gaveLeave : Bool
  deriving DecidableEq

/-- A history, and the passes that were made so far. -/
structure JointCourse (ι : Type) [Ord ι] where
  history : History ι
  looks : List Look

def JointCourse.start (g : Group ι) : JointCourse ι := ⟨.start g, []⟩

/-- The member was not written, and neither removed nor created, since the n-th group. -/
def History.Untouched (h : History ι) (n : Nat) (id : ι) : Prop :=
  ∀ i ≤ h.states.length, n ≤ i → h.memberAt i id = h.memberAt n id

instance (h : History ι) (n : Nat) (id : ι) : Decidable (h.Untouched n id) :=
  inferInstanceAs (Decidable (∀ i ≤ h.states.length, n ≤ i → h.memberAt i id = h.memberAt n id))

/-- Among the steps that were computed from a group, one of these is a leave. -/
def Group.givesLeave [Std.TransOrd ι] (g : Group ι) (ids : List ι) : Bool :=
  ids.any fun id => g.transitions.get? id = some .finished

/-- What may happen next: the steps of others, or a pass of some controller over any group, of which
those writes land whose members were not touched since. -/
inductive JointCourse.Step [Std.TransOrd ι] [DecidableEq ι] : JointCourse ι → JointCourse ι → Prop
  | request {j : JointCourse ι} {id : ι} (h : j.history.current.get? id = some .notDraining) :
      Step j { j with history := (j.history.step (.set id .draining)).2 }
  | leave {j : JointCourse ι} {id : ι} (h : j.history.current.get? id = some .finished) :
      Step j { j with history := (j.history.step (.remove id)).2 }
  | join {j : JointCourse ι} {id : ι} (h : j.history.current.get? id = none) :
      Step j { j with history := (j.history.step (.set id .notDraining)).2 }
  | pass {j : JointCourse ι} {n : Nat} (ids : List ι) (hn : n < j.history.states.length)
      (h : ∀ id ∈ ids, j.history.Untouched n id) :
      Step j ⟨(j.history.step (.pass (some n) (some ids))).2,
        j.looks ++ [⟨n, (j.history.view (some n)).givesLeave ids⟩]⟩

/-- No leave was given from a group older than one that was looked at before. -/
def JointCourse.InOrder (looks : List Look) : Prop :=
  looks.Pairwise fun l l' => l'.gaveLeave = true → l.moment ≤ l'.moment

instance (looks : List Look) : Decidable (JointCourse.InOrder looks) :=
  inferInstanceAs (Decidable (looks.Pairwise fun l l' =>
    l'.gaveLeave = true → l.moment ≤ l'.moment))

-- ==================================================== two with leave

/-- Member 2 waits. While one controller holds on to this, member 1 is asked to drain, and another
controller acknowledges it and, as it now comes first, gives it leave. Then the first controller
gives leave to member 2. -/
theorem exists_two_finished :
    ∃ g : Group Nat, g.AtMostOneFinished ∧ ∃ j : JointCourse Nat,
      Relation.ReflTransGen JointCourse.Step (JointCourse.start g) j
        ∧ j.history.current.get? 1 = some .finished ∧ j.history.current.get? 2 = some .finished := by
  refine ⟨SortedMap.ofList [(1, .notDraining), (2, .acknowledged)], fun a b ha => ?_, ?_⟩
  · have hmem := SortedMap.mem_of_get?_ofList ha
    simp at hmem
  · have hrun := Relation.ReflTransGen.refl (r := JointCourse.Step) (a := JointCourse.start
      (SortedMap.ofList (κ := Nat) [(1, DrainState.notDraining), (2, .acknowledged)]))
    have hrun := hrun.tail (@JointCourse.Step.request Nat _ _ _ _ 1 (by decide))
    have hrun := hrun.tail (@JointCourse.Step.pass Nat _ _ _ _ 1 [1] (by decide) (by decide))
    have hrun := hrun.tail (@JointCourse.Step.pass Nat _ _ _ _ 2 [1] (by decide) (by decide))
    have hrun := hrun.tail (@JointCourse.Step.pass Nat _ _ _ _ 0 [2] (by decide) (by decide))
    exact ⟨_, hrun, by decide, by decide⟩

-- ===================================================== leave in order

variable [Std.TransOrd ι] [Std.LawfulEqOrd ι]

/-- Acknowledging members that were draining at the last look, and still are, keeps the
invariant. -/
theorem Course.Safe.push_acknowledged {h : History ι} {c : Nat} {g : Group ι}
    (hs : Course.Safe ⟨h, c⟩)
    (hg : ∀ id, g.get? id = h.current.get? id
      ∨ (h.memberAt c id = some .draining ∧ h.current.get? id = some .draining
        ∧ g.get? id = some .acknowledged)) :
    Course.Safe ⟨h.push g, c⟩ := by
  have hfin : ∀ id, g.get? id = some .finished → h.current.get? id = some .finished := by
    intro id hid
    rcases hg id with heq | ⟨-, -, hack⟩
    · rw [← heq, hid]
    · rw [hid] at hack
      cases hack
  refine hs.push (fun id => ?_) (fun a b ha hb => ?_) fun id hid => Or.inl (hfin id hid)
  · rcases hg id with heq | ⟨hthen, hnow, hack⟩
    · exact Or.inl heq
    · rw [hthen, hnow, hack]
      exact Or.inr (by decide)
  · exact hs.singleNow a b (hfin a ha) (hfin b hb)

variable [DecidableEq ι]

/-- A pass that gives no leave keeps the invariant, whichever group it looks at. -/
theorem Course.Safe.pass_without_leave {h : History ι} {c n : Nat} {ids : List ι}
    (hs : Course.Safe ⟨h, c⟩) (hn : n < h.states.length)
    (hclean : ∀ id ∈ ids, h.Untouched n id) (hleave : (h.view (some n)).givesLeave ids = false) :
    Course.Safe ⟨(h.step (.pass (some n) (some ids))).2, max c n⟩ := by
  have hrange : max c n < h.states.length := Nat.max_lt.2 ⟨hs.inRange, hn⟩
  have hlater := hs.advance (Nat.le_max_left c n) hrange
  refine hlater.push_acknowledged fun id => ?_
  rcases h.pass_cases (some n) (some ids) id with hkeep | ⟨hlive, honly, s, hstep, hnow⟩
  · exact Or.inl hkeep
  · have hid : id ∈ ids := List.contains_iff_mem.1 honly
    rcases Group.transitions_cases hstep with ⟨hd, rfl⟩ | ⟨-, -, rfl⟩
    · -- what the pass saw is also what a later look would have shown
      have hthen := hclean id hid (max c n) (Nat.le_of_lt hrange) (Nat.le_max_right c n)
      exact Or.inr ⟨hthen.trans hd, hlive.trans hd, hnow⟩
    · have hgave : (h.view (some n)).givesLeave ids = true :=
        List.any_eq_true.2 ⟨id, hid, decide_eq_true hstep⟩
      rw [hleave] at hgave
      cases hgave

/-- The history is safe for a controller that looked last no later than anybody did. -/
def JointCourse.Safe (j : JointCourse ι) : Prop :=
  ∃ c, Course.Safe ⟨j.history, c⟩ ∧ ∀ n, (∀ l ∈ j.looks, l.moment ≤ n) → c ≤ n

theorem JointCourse.Safe.step {j j' : JointCourse ι} (hs : j.Safe) (h : JointCourse.Step j j')
    (horder : InOrder j'.looks) : j'.Safe := by
  obtain ⟨c, hsafe, hleast⟩ := hs
  cases h with
  | request hid => exact ⟨c, hsafe.step (.request hid), hleast⟩
  | leave hid => exact ⟨c, hsafe.step (.leave hid), hleast⟩
  | join hid => exact ⟨c, hsafe.step (.join hid), hleast⟩
  | @pass n ids hn hclean =>
      have hearlier := (List.pairwise_append.1 horder).2.2
      cases hleave : (j.history.view (some n)).givesLeave ids with
      | false =>
          refine ⟨max c n, hsafe.pass_without_leave hn hclean hleave, fun b hb => ?_⟩
          have hbound := hleast b fun l hl => hb l (List.mem_append_left _ hl)
          have hlast := hb _ (List.mem_append_right _ (List.mem_singleton_self _))
          exact Nat.max_le.2 ⟨hbound, hlast⟩
      | true =>
          -- nobody looked at anything newer, so this is a pass of a single controller
          have hcn : c ≤ n := hleast n fun l hl =>
            hearlier l hl _ (List.mem_singleton_self _) hleave
          refine ⟨n, (hsafe.advance hcn hn).pass (some ids), fun b hb => ?_⟩
          exact hb _ (List.mem_append_right _ (List.mem_singleton_self _))

omit [Std.LawfulEqOrd ι] in
theorem JointCourse.Step.prefix_looks {j j' : JointCourse ι} (h : JointCourse.Step j j') :
    ∃ ls, j'.looks = j.looks ++ ls := by
  cases h with
  | pass ids hn hclean => exact ⟨_, rfl⟩
  | _ => exact ⟨[], (List.append_nil _).symm⟩

/-- However many controllers there are and however old the groups that they look at, no group of the
history has two members with leave to go, if leave was given in order. -/
theorem atMostOneFinished_of_leave_in_order {g : Group ι} (hg : g.AtMostOneFinished)
    {j : JointCourse ι} (hrun : Relation.ReflTransGen JointCourse.Step (JointCourse.start g) j)
    (horder : JointCourse.InOrder j.looks) : ∀ g' ∈ j.history.states, g'.AtMostOneFinished := by
  have hsafe : j.Safe := by
    induction hrun with
    | refl => exact ⟨0, Course.safe_start hg, fun _ _ => Nat.zero_le _⟩
    | tail _ hstep ih =>
        obtain ⟨ls, hls⟩ := hstep.prefix_looks
        have hbefore := (List.pairwise_append.1 (hls ▸ horder)).1
        exact (ih hbefore).step hstep horder
  obtain ⟨c, hsafe, -⟩ := hsafe
  exact hsafe.single

/-- One controller acknowledges member 1 from a group in which it was just asked to drain, another
one then acknowledges the two others from the group before that, and somebody who looks at the
outcome gives leave. -/
theorem atMostOneFinished_of_late_acknowledgements :
    ∃ j : JointCourse Nat, Relation.ReflTransGen JointCourse.Step
        (JointCourse.start (SortedMap.ofList [(1, .notDraining), (2, .draining), (3, .draining)])) j
      ∧ j.history.current.toList = [(1, .finished), (2, .acknowledged), (3, .acknowledged)]
      ∧ ∀ g' ∈ j.history.states, g'.AtMostOneFinished := by
  have hstart : Group.AtMostOneFinished (SortedMap.ofList (κ := Nat)
      [(1, DrainState.notDraining), (2, .draining), (3, .draining)]) := by
    intro a b ha
    have hmem := SortedMap.mem_of_get?_ofList ha
    simp at hmem
  have hrun := Relation.ReflTransGen.refl (r := JointCourse.Step) (a := JointCourse.start
    (SortedMap.ofList (κ := Nat) [(1, DrainState.notDraining), (2, .draining), (3, .draining)]))
  have hrun := hrun.tail (@JointCourse.Step.request Nat _ _ _ _ 1 (by decide))
  have hrun := hrun.tail (@JointCourse.Step.pass Nat _ _ _ _ 1 [1] (by decide) (by decide))
  have hrun := hrun.tail (@JointCourse.Step.pass Nat _ _ _ _ 0 [2, 3] (by decide) (by decide))
  have hrun := hrun.tail (@JointCourse.Step.pass Nat _ _ _ _ 3 [1] (by decide) (by decide))
  exact ⟨_, hrun, by decide, atMostOneFinished_of_leave_in_order hstart hrun (by decide)⟩

end ControlLoop.Drain
