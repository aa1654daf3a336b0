/-
Drains come to an end: round after round one member goes, until only
those are left that nobody asked to drain.

# The measure

A round makes all next steps of a group and takes away whoever has
finished then. What is left of it has neither members that are asked to
drain nor finished ones, so nothing blocks it (`isBlocked_round`). From
such a group each round takes exactly the first member that waits
(`waiting_eq_cons`), so the list of those that have still to go
(`Group.waiting`) loses its head and nothing else. A blocked group
spends one round before that, in which the finished members go and
nobody else does (`waiting_round_of_blocked`). The list is in the order
of the ids, and so is the order in which they leave
(`drained_in_order`).
-/
import ControlLoop.Proofs.Drain.Transitions
import Mathlib.Data.List.Sort
import Mathlib.Logic.Function.Iterate

namespace ControlLoop.Drain

variable {ι : Type} [Ord ι]

-- ========================================================== who is where

/-- The members in certain states, in order. -/
def Group.idsWhere (p : DrainState → Bool) (g : Group ι) : List ι := (g.filter fun _ s => p s).keys

/-- The members that have still to go. -/
def Group.waiting (g : Group ι) : List ι :=
  g.idsWhere fun s => s = .draining || s = .acknowledged

/-- The members that have leave to go. -/
def Group.dismissed (g : Group ι) : List ι := g.idsWhere fun s => s = .finished

/-- The members that nobody asked to drain. -/
def Group.settled (g : Group ι) : Group ι := g.filter fun _ s => s = .notDraining

/-- The member that gets leave now. -/
def Group.next (g : Group ι) : Option ι := if g.isBlocked then none else g.firstAcknowledged

variable [Std.TransOrd ι]

/-- What a round makes of a group: all next steps are made, and whoever has finished then is taken
away. -/
def Group.round (g : Group ι) : Group ι := (g.union g.transitions).filter fun _ s => s ≠ .finished

/-- The members that a round takes away, in order. -/
def Group.leaving (g : Group ι) : List ι := g.keys.filter fun id => !g.round.contains id

variable [Std.LawfulEqOrd ι]

/-- Lists in the same order with the same members are the same. -/
theorem eq_of_increasing {ids ids' : List ι} (h : ids.Pairwise fun a b => compare a b = .lt)
    (h' : ids'.Pairwise fun a b => compare a b = .lt) (hmem : ∀ id, id ∈ ids ↔ id ∈ ids') :
    ids = ids' := by
  have hirrefl : Std.Irrefl fun a b : ι => compare a b = .lt := ⟨fun a ha => by simp at ha⟩
  have hantisymm : Std.Antisymm fun a b : ι => compare a b = .lt := ⟨fun a b hab hba =>
    absurd (Std.TransCmp.lt_trans hab hba) (hirrefl.irrefl a)⟩
  exact h.eq_of_mem_iff h' hmem

theorem Group.mem_idsWhere {p : DrainState → Bool} {g : Group ι} {id : ι} :
    id ∈ g.idsWhere p ↔ ∃ s, g.get? id = some s ∧ p s = true := by
  unfold Group.idsWhere
  rw [SortedMap.mem_keys_iff, SortedMap.contains_eq, SortedMap.get?_filter,
    Option.isSome_iff_exists]
  simp only [Option.filter_eq_some_iff]

theorem Group.mem_waiting {g : Group ι} {id : ι} :
    id ∈ g.waiting ↔ g.get? id = some .draining ∨ g.get? id = some .acknowledged := by
  unfold Group.waiting
  rw [Group.mem_idsWhere]
  constructor
  · rintro ⟨s, hs, hp⟩
    rw [hs]
    simpa using hp
  · rintro (h | h)
    · exact ⟨_, h, rfl⟩
    · exact ⟨_, h, rfl⟩

theorem Group.mem_dismissed {g : Group ι} {id : ι} :
    id ∈ g.dismissed ↔ g.get? id = some .finished := by
  unfold Group.dismissed
  rw [Group.mem_idsWhere]
  constructor
  · rintro ⟨s, hs, hp⟩
    rw [hs]
    simpa using hp
  · intro h
    exact ⟨_, h, rfl⟩

theorem Group.mem_leaving {g : Group ι} {id : ι} :
    id ∈ g.leaving ↔ (g.get? id).isSome = true ∧ g.round.get? id = none := by
  unfold Group.leaving
  rw [List.mem_filter, SortedMap.mem_keys_iff, SortedMap.contains_eq, SortedMap.contains_eq]
  simp

omit [Std.TransOrd ι] [Std.LawfulEqOrd ι] in
theorem Group.increasing_waiting (g : Group ι) :
    g.waiting.Pairwise fun a b => compare a b = .lt := SortedMap.keys_increasing _

omit [Std.LawfulEqOrd ι] in
theorem Group.increasing_leaving (g : Group ι) :
    g.leaving.Pairwise fun a b => compare a b = .lt := (SortedMap.keys_increasing g).filter _

omit [Std.TransOrd ι] [Std.LawfulEqOrd ι] in
theorem Group.next_eq_some {g : Group ι} {id : ι} :
    g.next = some id ↔ g.isBlocked = false ∧ g.firstAcknowledged = some id := by
  unfold Group.next
  cases hb : g.isBlocked <;> simp

omit [Std.TransOrd ι] [Std.LawfulEqOrd ι] in
theorem Group.increasing_next (g : Group ι) :
    g.next.toList.Pairwise fun a b => compare a b = .lt := by
  cases g.next with
  | none => exact List.Pairwise.nil
  | some a => exact List.pairwise_singleton _ _

theorem Group.get?_of_next {g : Group ι} {id : ι} (h : g.next = some id) :
    g.get? id = some .acknowledged := (Group.firstAcknowledged_spec (Group.next_eq_some.1 h).2).1

-- ============================================================ one round

/-- Those who move are those who are asked to drain, and the one that gets leave. -/
theorem Group.contains_transitions {g : Group ι} {id : ι} :
    g.transitions.contains id = true ↔ g.get? id = some .draining ∨ g.next = some id := by
  constructor
  · intro h
    obtain ⟨s, hs⟩ := Option.isSome_iff_exists.1 (SortedMap.contains_eq g.transitions id ▸ h)
    rcases Group.transitions_cases hs with ⟨hd, -⟩ | ⟨hfree, hfirst, -⟩
    · exact Or.inl hd
    · exact Or.inr (Group.next_eq_some.2 ⟨hfree, hfirst⟩)
  · intro h
    unfold Group.transitions
    rw [SortedMap.ofList_eq_insertMany, SortedMap.contains_insertMany, List.map_append,
      List.mem_append]
    refine Or.inl ?_
    rcases h with hd | hnext
    · refine Or.inl (List.mem_map.2 ⟨(id, .acknowledged), List.mem_filterMap.2 ?_, rfl⟩)
      exact ⟨_, SortedMap.mem_toList_of_get? hd, rfl⟩
    · obtain ⟨hfree, hfirst⟩ := Group.next_eq_some.1 hnext
      refine Or.inr (List.mem_map.2 ⟨(id, .finished), ?_, rfl⟩)
      simp [hfree, hfirst]

theorem Group.transitions_of_draining {g : Group ι} {id : ι} (h : g.get? id = some .draining) :
    g.transitions.get? id = some .acknowledged := by
  obtain ⟨s, hs⟩ := Option.isSome_iff_exists.1 <|
    SortedMap.contains_eq g.transitions id ▸ Group.contains_transitions.2 (Or.inl h)
  rcases Group.transitions_cases hs with ⟨-, rfl⟩ | ⟨-, hfirst, -⟩
  · exact hs
  · rw [(Group.firstAcknowledged_spec hfirst).1] at h
    cases h

theorem Group.transitions_of_next {g : Group ι} {id : ι} (h : g.next = some id) :
    g.transitions.get? id = some .finished := by
  obtain ⟨s, hs⟩ := Option.isSome_iff_exists.1 <|
    SortedMap.contains_eq g.transitions id ▸ Group.contains_transitions.2 (Or.inr h)
  rcases Group.transitions_cases hs with ⟨hd, -⟩ | ⟨-, -, rfl⟩
  · rw [Group.get?_of_next h] at hd
    cases hd
  · exact hs

theorem Group.transitions_eq_none {g : Group ι} {id : ι} (hd : g.get? id ≠ some .draining)
    (hnext : g.next ≠ some id) : g.transitions.get? id = none := by
  rw [← Option.isNone_iff_eq_none, ← Option.isSome_eq_false_iff, ← SortedMap.contains_eq,
    Bool.eq_false_iff]
  intro h
  rcases Group.contains_transitions.1 h with h | h
  · exact hd h
  · exact hnext h

theorem Group.get?_round_eq (g : Group ι) (id : ι) :
    g.round.get? id
      = ((g.transitions.get? id).or (g.get? id)).filter fun s => s ≠ .finished := by
  unfold Group.round SortedMap.union
  rw [SortedMap.get?_filter, SortedMap.get?_insertMany, SortedMap.ofList_entries]

theorem Group.round_of_next {g : Group ι} {id : ι} (h : g.next = some id) :
    g.round.get? id = none := by
  rw [Group.get?_round_eq, Group.transitions_of_next h]
  rfl

/-- What a round makes of the state of a member that gets no leave. -/
def afterRound : DrainState → Option DrainState
  | .notDraining => some .notDraining
  | .draining | .acknowledged => some .acknowledged
  | .finished => none

theorem Group.get?_round {g : Group ι} {id : ι} (h : g.next ≠ some id) :
    g.round.get? id = (g.get? id).bind afterRound := by
  rw [Group.get?_round_eq]
  by_cases hd : g.get? id = some .draining
  · rw [Group.transitions_of_draining hd, hd]
    rfl
  · rw [Group.transitions_eq_none hd h, Option.none_or]
    cases hs : g.get? id with
    | none => rfl
    | some s =>
        cases s with
        | notDraining => rfl
        | draining => exact absurd hs hd
        | acknowledged => rfl
        | finished => rfl

/-- Who stays after a round is settled, or waits. -/
theorem Group.round_cases {g : Group ι} {id : ι} {s : DrainState} (h : g.round.get? id = some s) :
    s = .notDraining ∨ s = .acknowledged := by
  by_cases hnext : g.next = some id
  · rw [Group.round_of_next hnext] at h
    cases h
  · rw [Group.get?_round hnext] at h
    obtain ⟨t, -, ht⟩ := Option.bind_eq_some_iff.1 h
    cases t <;> cases ht
    · exact Or.inl rfl
    · exact Or.inr rfl
    · exact Or.inr rfl

/-- Nothing blocks a group after a round. -/
theorem Group.isBlocked_round (g : Group ι) : g.round.isBlocked = false := by
  rw [Bool.eq_false_iff, Ne, Group.isBlocked_iff]
  rintro ⟨id, h | h⟩
  · rcases Group.round_cases h with hs | hs <;> cases hs
  · rcases Group.round_cases h with hs | hs <;> cases hs

/-- A round leaves those alone that nobody asked to drain, and makes no others of this kind. -/
theorem Group.settled_round (g : Group ι) : g.round.settled = g.settled := by
  refine SortedMap.ext_get? fun id => ?_
  unfold Group.settled
  rw [SortedMap.get?_filter, SortedMap.get?_filter]
  by_cases hnext : g.next = some id
  · rw [Group.round_of_next hnext, Group.get?_of_next hnext]
    rfl
  · rw [Group.get?_round hnext]
    rcases g.get? id with _ | _ | _ | _ | _ <;> rfl

/-- A group in which nobody waits and nobody has finished is settled. -/
theorem Group.eq_settled {g : Group ι} (hfree : g.isBlocked = false) (h : g.waiting = []) :
    g = g.settled := by
  refine SortedMap.ext_get? fun id => ?_
  unfold Group.settled
  rw [SortedMap.get?_filter]
  have hnot : id ∉ g.waiting := by
    rw [h]
    exact List.not_mem_nil
  rw [Group.mem_waiting, not_or] at hnot
  have hblock : ¬ ∃ id, g.get? id = some .draining ∨ g.get? id = some .finished := by
    rw [← Group.isBlocked_iff, hfree]
    exact Bool.false_ne_true
  cases hs : g.get? id with
  | none => rfl
  | some s =>
      cases s with
      | notDraining => rfl
      | draining => exact absurd hs hnot.1
      | acknowledged => exact absurd hs hnot.2
      | finished => exact absurd ⟨id, Or.inr hs⟩ hblock

-- ======================================================= a blocked group

section

variable {g : Group ι} (hblocked : g.isBlocked = true)

include hblocked

omit [Std.TransOrd ι] [Std.LawfulEqOrd ι] in
theorem Group.next_ne_of_blocked (id : ι) : g.next ≠ some id := by
  unfold Group.next
  rw [if_pos hblocked]
  exact nofun

/-- In a blocked group all who wait go on waiting. -/
theorem Group.waiting_round_of_blocked : g.round.waiting = g.waiting := by
  refine eq_of_increasing g.round.increasing_waiting g.increasing_waiting fun id => ?_
  rw [Group.mem_waiting, Group.mem_waiting, Group.get?_round (Group.next_ne_of_blocked hblocked id)]
  rcases g.get? id with _ | _ | _ | _ | _ <;> simp [afterRound]

/-- Only those leave a blocked group who have finished. -/
theorem Group.leaving_of_blocked : g.leaving = g.dismissed := by
  refine eq_of_increasing g.increasing_leaving (SortedMap.keys_increasing _) fun id => ?_
  rw [Group.mem_leaving, Group.mem_dismissed,
    Group.get?_round (Group.next_ne_of_blocked hblocked id)]
  rcases g.get? id with _ | _ | _ | _ | _ <;> simp [afterRound]

end

-- ========================================================== a free group

section

variable {g : Group ι} (hfree : g.isBlocked = false)

include hfree

theorem Group.neither_of_free (id : ι) :
    g.get? id ≠ some .draining ∧ g.get? id ≠ some .finished := by
  rw [Bool.eq_false_iff, Ne, Group.isBlocked_iff] at hfree
  exact ⟨fun h => hfree ⟨id, Or.inl h⟩, fun h => hfree ⟨id, Or.inr h⟩⟩

/-- From a free group goes the one that gets leave. -/
theorem Group.leaving_of_free : g.leaving = g.next.toList := by
  refine eq_of_increasing g.increasing_leaving g.increasing_next fun id => ?_
  rw [Group.mem_leaving, Option.mem_toList]
  constructor
  · rintro ⟨hsome, hround⟩
    by_contra hnext
    obtain ⟨s, hs⟩ := Option.isSome_iff_exists.1 hsome
    rw [Group.get?_round hnext, hs] at hround
    cases s with
    | notDraining => cases hround
    | draining => cases hround
    | acknowledged => cases hround
    | finished => exact (Group.neither_of_free hfree id).2 hs
  · intro hnext
    refine ⟨?_, Group.round_of_next hnext⟩
    rw [Group.get?_of_next hnext]
    rfl

/-- In a free group the first of those who wait gets leave, and the others go on waiting. -/
theorem Group.waiting_eq_cons : g.waiting = g.next.toList ++ g.round.waiting := by
  have hwaits : ∀ id, id ∈ g.round.waiting ↔ g.get? id = some .acknowledged ∧ g.next ≠ some id := by
    intro id
    rw [Group.mem_waiting]
    by_cases hnext : g.next = some id
    · rw [Group.round_of_next hnext]
      simp [hnext]
    · rw [Group.get?_round hnext]
      have hnot := (Group.neither_of_free hfree id).1
      rcases hs : g.get? id with _ | _ | _ | _ | _ <;> simp_all [afterRound]
  refine eq_of_increasing g.increasing_waiting (List.pairwise_append.2
    ⟨g.increasing_next, g.round.increasing_waiting, fun a ha b hb => ?_⟩) fun id => ?_
  · -- whoever waits longer than the first comes after it
    obtain ⟨hb, hne⟩ := (hwaits b).1 hb
    have hnext : g.next = some a := Option.mem_toList.1 ha
    rcases (Group.firstAcknowledged_spec (Group.next_eq_some.1 hnext).2).2 b hb with rfl | hlt
    · exact absurd hnext hne
    · exact hlt
  · rw [List.mem_append, Option.mem_toList, hwaits, Group.mem_waiting]
    constructor
    · rintro (h | h)
      · exact absurd h (Group.neither_of_free hfree id).1
      · by_cases hnext : g.next = some id
        · exact Or.inl hnext
        · exact Or.inr ⟨h, hnext⟩
    · rintro (h | ⟨h, -⟩)
      · exact Or.inr (Group.get?_of_next h)
      · exact Or.inr h

/-- The one that gets leave is the first of those who wait, if anybody does. -/
theorem Group.next_eq_head? : g.next = g.waiting.head? := by
  cases hnext : g.next with
  | some a =>
      rw [Group.waiting_eq_cons hfree, hnext]
      rfl
  | none =>
      have hnil : g.waiting = [] := by
        by_contra hne
        obtain ⟨id, hid⟩ := List.exists_mem_of_ne_nil _ hne
        have hack := (Group.mem_waiting.1 hid).resolve_left (Group.neither_of_free hfree id).1
        obtain ⟨a, ha⟩ := Group.exists_firstAcknowledged hack
        rw [Group.next_eq_some.2 ⟨hfree, ha⟩] at hnext
        cases hnext
      rw [hnil]
      rfl

theorem Group.waiting_round_of_free : g.round.waiting = g.waiting.tail := by
  have hcons := Group.waiting_eq_cons hfree
  rw [Group.next_eq_head? hfree] at hcons
  cases hw : g.waiting with
  | nil =>
      rw [hw] at hcons
      exact hcons.symm
  | cons a rest =>
      rw [hw] at hcons
      exact (List.cons.inj hcons).2.symm

end

-- =========================================================== all rounds

/-- Rounds touch nobody who was not asked to drain. -/
theorem Group.settled_iterate (g : Group ι) (n : Nat) :
    (Group.round^[n] g).settled = g.settled := by
  induction n with
  | zero => rfl
  | succ n ih => rw [Function.iterate_succ_apply', Group.settled_round, ih]

theorem Group.get?_iterate_of_notDraining {g : Group ι} {id : ι}
    (h : g.get? id = some .notDraining) (n : Nat) :
    (Group.round^[n] g).get? id = some .notDraining := by
  have hsettled : (Group.round^[n] g).settled.get? id = some .notDraining := by
    rw [Group.settled_iterate, Group.settled, SortedMap.get?_filter, h]
    rfl
  rw [Group.settled, SortedMap.get?_filter] at hsettled
  exact (Option.filter_eq_some_iff.1 hsettled).1

section

variable {g : Group ι} (hfree : g.isBlocked = false)

include hfree

/-- Each round takes the head off the list of those who wait. -/
theorem Group.iterate_of_free (n : Nat) :
    (Group.round^[n] g).isBlocked = false ∧ (Group.round^[n] g).waiting = g.waiting.drop n := by
  induction n with
  | zero => exact ⟨hfree, rfl⟩
  | succ n ih =>
      obtain ⟨hfree', hwaiting⟩ := ih
      rw [Function.iterate_succ_apply']
      refine ⟨Group.isBlocked_round _, ?_⟩
      rw [Group.waiting_round_of_free hfree', hwaiting, List.tail_drop]

/-- One member leaves in each round, in the order in which they wait. -/
theorem Group.leaving_iterate_of_free (n : Nat) :
    (Group.round^[n] g).leaving = g.waiting[n]?.toList := by
  obtain ⟨hfree', hwaiting⟩ := Group.iterate_of_free hfree n
  rw [Group.leaving_of_free hfree', Group.next_eq_head? hfree', hwaiting, List.head?_drop]

theorem Group.iterate_eq_settled_of_free {n : Nat} (hn : g.waiting.length ≤ n) :
    Group.round^[n] g = g.settled := by
  obtain ⟨hfree', hwaiting⟩ := Group.iterate_of_free hfree n
  rw [List.drop_eq_nil_of_le hn] at hwaiting
  exact (Group.eq_settled hfree' hwaiting).trans (g.settled_iterate n)

end

/-- A group is settled after one round more than members have to go. Nobody moves by more than one
step, nobody moves unasked, whoever has finished before goes in the first round, and then one
member goes in each round, in the order of the ids. -/
theorem Group.drained_in_order (g : Group ι) :
    (∀ n id s, (Group.round^[n] g).transitions.get? id = some s →
        ((Group.round^[n] g).get? id = some .draining ∧ s = .acknowledged)
          ∨ ((Group.round^[n] g).get? id = some .acknowledged ∧ s = .finished))
      ∧ (∀ id, g.get? id = some .notDraining → ∀ n,
        (Group.round^[n] g).get? id = some .notDraining)
      ∧ (∀ n, g.waiting.length + 1 ≤ n → Group.round^[n] g = g.settled)
      ∧ g.waiting.Pairwise (fun a b => compare a b = .lt)
      ∧ (g.isBlocked = true → g.leaving = g.dismissed
        ∧ ∀ n, (Group.round^[n + 1] g).leaving = g.waiting[n]?.toList)
      ∧ (g.isBlocked = false → g.dismissed = []
        ∧ ∀ n, (Group.round^[n] g).leaving = g.waiting[n]?.toList) := by
  refine ⟨fun n id s h => ?_, fun id h n => Group.get?_iterate_of_notDraining h n, fun n hn => ?_,
    g.increasing_waiting, fun hblocked => ⟨Group.leaving_of_blocked hblocked, fun n => ?_⟩,
    fun hfree => ⟨?_, Group.leaving_iterate_of_free hfree⟩⟩
  · rcases Group.transitions_cases h with hstep | ⟨-, hfirst, rfl⟩
    · exact Or.inl hstep
    · exact Or.inr ⟨(Group.firstAcknowledged_spec hfirst).1, rfl⟩
  · cases hb : g.isBlocked with
    | false => exact Group.iterate_eq_settled_of_free hb (Nat.le_of_succ_le hn)
    | true =>
        -- the first round only makes way
        obtain ⟨n, rfl⟩ := Nat.exists_eq_succ_of_ne_zero (Nat.ne_zero_of_lt hn)
        have hlength : g.round.waiting.length ≤ n := by
          rw [Group.waiting_round_of_blocked hb]
          exact Nat.le_of_succ_le_succ hn
        rw [Function.iterate_succ_apply,
          Group.iterate_eq_settled_of_free g.isBlocked_round hlength, Group.settled_round]
  · rw [Function.iterate_succ_apply, Group.leaving_iterate_of_free g.isBlocked_round,
      Group.waiting_round_of_blocked hblocked]
  · rw [List.eq_nil_iff_forall_not_mem]
    intro id hid
    exact (Group.neither_of_free hfree id).2 (Group.mem_dismissed.1 hid)

/-- Member 3 goes first, as it has leave already, then member 1 and after it member 4. -/
theorem Group.drained_in_order_of_mixed :
    Group.leaving (SortedMap.ofList [(1, DrainState.draining), (2, .notDraining), (3, .finished),
        (4, .acknowledged)]) = [3]
      ∧ (∀ n, (Group.round^[n + 1] (SortedMap.ofList [(1, DrainState.draining), (2, .notDraining),
        (3, .finished), (4, .acknowledged)])).leaving = [1, 4][n]?.toList)
      ∧ ∀ n, 3 ≤ n → Group.round^[n] (SortedMap.ofList [(1, DrainState.draining), (2, .notDraining),
        (3, .finished), (4, .acknowledged)]) = SortedMap.ofList [(2, .notDraining)] := by
  obtain ⟨-, -, hend, -, hblocked, -⟩ := Group.drained_in_order (SortedMap.ofList (κ := Nat)
    [(1, DrainState.draining), (2, .notDraining), (3, .finished), (4, .acknowledged)])
  obtain ⟨hfirst, hrest⟩ := hblocked (by decide)
  exact ⟨hfirst, hrest, hend⟩

end ControlLoop.Drain
