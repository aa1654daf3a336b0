/-
Outcomes may be merged in any batches.

# Where the order of merging could show

A wish to come back at once erases the delays on both sides of it, so a
delay that was erased early must not come back with a later step, and
one that was kept early must still go when such a wish turns up. What
saves this is that the wish itself is never lost: the erased delay is
none for good, since every later merge sees the wish again. So merging
is associative on all values (`merge_assoc`), those included that ask to
come back at once and after a delay, and to merge with a step that went
well is the same from either side (`ok_merge`). It follows that a pass
is its first step merged with the rest (`mergeAll_cons`), which is all
that is needed for batches.

# What the order of the steps does

The wishes of a pass are read off its steps as a set: one asks to come
back at once, or the least of the delays counts
(`requeueAfter_mergeAll`). Only which error is told depends on the order
of the steps, since it is the first (`error_mergeAll`).
-/
import ControlLoop.Proofs.Outcome
import Mathlib.Data.List.Perm.Basic
import Mathlib.Data.Prod.Lex

namespace ControlLoop

-- ===================================================== the order of spans

namespace Duration

/-- Spans are ordered by their seconds, and within a second by the rest. -/
instance : LinearOrder Duration :=
  LinearOrder.lift' (fun d => toLex (d.seconds, d.nanos)) fun d e h => by
    obtain ⟨s, n⟩ := d
    obtain ⟨s', n'⟩ := e
    obtain ⟨rfl, rfl⟩ := Prod.mk.inj (toLex_inj.1 h)
    rfl

theorem le_iff {d e : Duration} :
    d ≤ e ↔ d.seconds < e.seconds ∨ d.seconds = e.seconds ∧ d.nanos ≤ e.nanos :=
  Prod.Lex.toLex_le_toLex

theorem le_eq_decide (d e : Duration) : d.le e = decide (d ≤ e) := by
  rw [Bool.eq_iff_iff, decide_eq_true_iff, le_iff]
  simp [Duration.le]

/-- The shorter of two spans is the lesser one. -/
theorem min_eq (d e : Duration) : d.min e = Min.min d e := by
  rw [Duration.min, le_eq_decide, min_def]
  simp

end Duration

namespace Outcome

theorem shorterDelay_eq_merge (d e : Option Duration) :
    shorterDelay d e = Option.merge Min.min d e := by
  cases d with
  | none => cases e <;> rfl
  | some d =>
      cases e with
      | none => rfl
      | some e => exact congrArg some (Duration.min_eq d e)

-- ========================================================= two at a time

/-- Merging steps is associative, whatever they ask for. -/
theorem merge_assoc (a b c : Outcome) : (a.merge b).merge c = a.merge (b.merge c) := by
  obtain ⟨ea, na, da⟩ := a
  obtain ⟨eb, nb, db⟩ := b
  obtain ⟨ec, nc, dc⟩ := c
  have hdelay : shorterDelay (shorterDelay da db) dc = shorterDelay da (shorterDelay db dc) := by
    simp only [shorterDelay_eq_merge]
    exact Std.Associative.assoc da db dc
  unfold merge
  -- with a wish to come back at once on either side there is no delay to compare
  cases na <;> cases nb <;> cases nc <;> simp [hdelay, Option.or_assoc]

instance : Std.Associative merge := ⟨merge_assoc⟩

/-- A step that went well may be merged from either side. -/
theorem ok_merge (a : Outcome) : ok.merge a = a.merge ok := by
  obtain ⟨ea, na, da⟩ := a
  cases ea <;> cases na <;> cases da <;> rfl

/-- What was merged has no delay left that a wish to come back at once would erase. -/
theorem ok_merge_merge (a b : Outcome) : ok.merge (a.merge b) = a.merge b := by
  obtain ⟨ea, na, da⟩ := a
  obtain ⟨eb, nb, db⟩ := b
  cases ea <;> cases eb <;> cases na <;> cases nb <;> cases da <;> cases db <;> rfl

-- ============================================================== batches

/-- A pass is its first step, merged with the rest. -/
theorem mergeAll_cons (a : Outcome) (outcomes : List Outcome) :
    mergeAll (a :: outcomes) = a.merge (mergeAll outcomes) := by
  calc mergeAll (a :: outcomes)
      = outcomes.foldl merge (ok.merge a) := rfl
    _ = outcomes.foldl merge (a.merge ok) := by rw [ok_merge]
    _ = a.merge (mergeAll outcomes) := List.foldl_assoc

theorem ok_merge_mergeAll (outcomes : List Outcome) :
    ok.merge (mergeAll outcomes) = mergeAll outcomes := by
  cases outcomes with
  | nil => rfl
  | cons a outcomes => rw [mergeAll_cons, ok_merge_merge]

theorem mergeAll_append (first second : List Outcome) :
    mergeAll (first ++ second) = (mergeAll first).merge (mergeAll second) := by
  induction first with
  | nil => exact (ok_merge_mergeAll second).symm
  | cons a first ih => rw [List.cons_append, mergeAll_cons, ih, mergeAll_cons, merge_assoc]

/-- Batches may be merged one by one, and then with each other. -/
theorem mergeAll_map_mergeAll (batches : List (List Outcome)) :
    mergeAll (batches.map mergeAll) = mergeAll batches.flatten := by
  induction batches with
  | nil => rfl
  | cons batch batches ih =>
      rw [List.map_cons, mergeAll_cons, ih, List.flatten_cons, mergeAll_append]

/-- The same without anything to start from. -/
theorem foldl_map_mergeAll (batch : List Outcome) (batches : List (List Outcome)) :
    (batches.map mergeAll).foldl merge (mergeAll batch) = mergeAll (batch :: batches).flatten := by
  have hstart : mergeAll batch = (mergeAll batch).merge ok := by
    rw [← ok_merge, ok_merge_mergeAll]
  rw [hstart, List.foldl_assoc, List.flatten_cons, mergeAll_append, ← mergeAll_map_mergeAll]
  rfl

-- ================================================== what the steps ask for

/-- The least of the delays that are asked for. -/
def leastDelay? (outcomes : List Outcome) : Option Duration :=
  (outcomes.filterMap (·.requeueAfter)).min?

theorem leastDelay?_cons (a : Outcome) (outcomes : List Outcome) :
    leastDelay? (a :: outcomes) = shorterDelay a.requeueAfter (leastDelay? outcomes) := by
  unfold leastDelay?
  rw [List.filterMap_cons]
  cases hd : a.requeueAfter with
  | none => rfl
  | some d =>
      rw [List.min?_cons, shorterDelay_eq_merge]
      cases (outcomes.filterMap (·.requeueAfter)).min? <;> rfl

/-- A delay is the least one if it is asked for and no shorter one is. -/
theorem leastDelay?_eq_some_iff {outcomes : List Outcome} {d : Duration} :
    leastDelay? outcomes = some d ↔ (∃ a ∈ outcomes, a.requeueAfter = some d)
      ∧ ∀ a ∈ outcomes, ∀ e, a.requeueAfter = some e → d ≤ e := by
  unfold leastDelay?
  rw [List.min?_eq_some_iff, List.mem_filterMap]
  refine and_congr_right fun _ => ⟨fun h a ha e he => ?_, fun h e he => ?_⟩
  · exact h e (List.mem_filterMap.2 ⟨a, ha, he⟩)
  · obtain ⟨a, ha, hae⟩ := List.mem_filterMap.1 he
    exact h a ha e hae

/-- The least delay does not depend on the order of the steps. -/
theorem leastDelay?_perm {outcomes outcomes' : List Outcome} (h : outcomes.Perm outcomes') :
    leastDelay? outcomes = leastDelay? outcomes' := by
  refine Option.ext fun d => ?_
  rw [leastDelay?_eq_some_iff, leastDelay?_eq_some_iff]
  simp only [h.mem_iff]

theorem requeueNow_mergeAll (outcomes : List Outcome) :
    (mergeAll outcomes).requeueNow = outcomes.any (·.requeueNow) := by
  induction outcomes with
  | nil => rfl
  | cons a outcomes ih =>
      rw [mergeAll_cons, List.any_cons, ← ih]
      rfl

/-- A pass has the least of the delays of its steps, unless one asks to come back at once. -/
theorem requeueAfter_mergeAll (outcomes : List Outcome) :
    (mergeAll outcomes).requeueAfter
      = if outcomes.any (·.requeueNow) then none else leastDelay? outcomes := by
  induction outcomes with
  | nil => rfl
  | cons a outcomes ih =>
      rw [mergeAll_cons]
      show (if (a.requeueNow || (mergeAll outcomes).requeueNow) = true then none
        else shorterDelay a.requeueAfter (mergeAll outcomes).requeueAfter) = _
      rw [requeueNow_mergeAll, ih, List.any_cons, leastDelay?_cons]
      cases a.requeueNow <;> cases outcomes.any (·.requeueNow) <;> rfl

theorem isSome_error_mergeAll (outcomes : List Outcome) :
    (mergeAll outcomes).error.isSome = true ↔ ∃ a ∈ outcomes, a.error.isSome = true := by
  rw [error_mergeAll, List.findSome?_isSome_iff]

theorem isOk_mergeAll_perm {outcomes outcomes' : List Outcome} (h : outcomes.Perm outcomes') :
    (mergeAll outcomes).isOk = (mergeAll outcomes').isOk := by
  have hsome : (mergeAll outcomes).error.isSome = (mergeAll outcomes').error.isSome := by
    rw [Bool.eq_iff_iff, isSome_error_mergeAll, isSome_error_mergeAll]
    simp only [h.mem_iff]
  unfold isOk
  rw [← Option.not_isSome, ← Option.not_isSome, hsome]

-- ============================================================ the action

/-- An action is an error exactly if there is one. -/
theorem exists_action_eq_error_iff (a : Outcome) :
    (∃ e, a.action = .error e) ↔ a.error.isSome = true := by
  obtain ⟨error, now, delay⟩ := a
  cases error with
  | some e => exact ⟨fun _ => rfl, fun _ => ⟨e, rfl⟩⟩
  | none =>
      refine ⟨fun ⟨e, he⟩ => ?_, fun h => by cases h⟩
      cases now <;> cases delay <;> cases he

/-- What is done after a pass without an error. -/
def wish (outcomes : List Outcome) : Action :=
  if outcomes.any (·.requeueNow) then .requeue Duration.zero
  else match leastDelay? outcomes with
    | some delay => .requeue delay
    | none => .awaitChange

theorem action_mergeAll {outcomes : List Outcome} (h : ∀ a ∈ outcomes, a.error = none) :
    (mergeAll outcomes).action = .ok (wish outcomes) := by
  have herror : (mergeAll outcomes).error = none := by
    rw [error_mergeAll, List.findSome?_eq_none_iff]
    exact h
  unfold action wish
  rw [herror, requeueNow_mergeAll, requeueAfter_mergeAll]
  cases outcomes.any (·.requeueNow) with
  | true => rfl
  | false =>
      simp only [Bool.false_eq_true, if_false]
      cases leastDelay? outcomes <;> rfl

/-- The outcome of many steps has the first of their errors, asks to come back at once if one does,
and otherwise after the least of the delays. So merging is associative, steps may be merged in
batches, and their order shows in nothing but which error is told. -/
theorem merged_in_batches :
    (∀ outcomes, (mergeAll outcomes).error = outcomes.findSome? (·.error)
        ∧ (mergeAll outcomes).requeueNow = outcomes.any (·.requeueNow)
        ∧ (mergeAll outcomes).requeueAfter
          = if outcomes.any (·.requeueNow) then none else leastDelay? outcomes)
      ∧ (∀ a b c : Outcome, (a.merge b).merge c = a.merge (b.merge c))
      ∧ (∀ batches : List (List Outcome),
        mergeAll (batches.map mergeAll) = mergeAll batches.flatten)
      ∧ (∀ (batch : List Outcome) (batches : List (List Outcome)),
        (batches.map mergeAll).foldl merge (mergeAll batch) = mergeAll (batch :: batches).flatten)
      ∧ (∀ outcomes outcomes' : List Outcome, outcomes.Perm outcomes' →
        (mergeAll outcomes).requeueNow = (mergeAll outcomes').requeueNow
          ∧ (mergeAll outcomes).requeueAfter = (mergeAll outcomes').requeueAfter
          ∧ (mergeAll outcomes).isOk = (mergeAll outcomes').isOk)
      ∧ ∀ outcomes : List Outcome,
        ((∃ e, (mergeAll outcomes).action = .error e)
            ↔ ∃ a ∈ outcomes, a.error.isSome = true)
          ∧ ((∀ a ∈ outcomes, a.error = none) →
            (mergeAll outcomes).action = .ok (wish outcomes)) := by
  refine ⟨fun outcomes => ?_, merge_assoc, mergeAll_map_mergeAll, foldl_map_mergeAll,
    fun outcomes outcomes' hperm => ?_, fun outcomes => ?_⟩
  · exact ⟨error_mergeAll _, requeueNow_mergeAll _, requeueAfter_mergeAll _⟩
  · have hnow : outcomes.any (·.requeueNow) = outcomes'.any (·.requeueNow) := hperm.any_eq
    refine ⟨?_, ?_, isOk_mergeAll_perm hperm⟩
    · rw [requeueNow_mergeAll, requeueNow_mergeAll, hnow]
    · rw [requeueAfter_mergeAll, requeueAfter_mergeAll, hnow, leastDelay?_perm hperm]
  · rw [exists_action_eq_error_iff, isSome_error_mergeAll]
    exact ⟨Iff.rfl, action_mergeAll⟩

/-- A delay that a wish to come back at once has erased in one batch does not come back with the
next, whichever comes first; and of two delays the shorter one is waited for. -/
theorem merged_in_batches_told :
    (mergeAll [mergeAll [after (.ofSeconds 3), now], mergeAll [after (.ofSeconds 2)]]).requeueAfter
        = none
      ∧ (mergeAll [now, after (.ofSeconds 2), after (.ofSeconds 3)]).requeueAfter
        = (mergeAll [after (.ofSeconds 3), now, after (.ofSeconds 2)]).requeueAfter
      ∧ (mergeAll [after (.ofSeconds 3), ok, after (.ofSeconds 2)]).action
        = .ok (.requeue (.ofSeconds 2)) := by
  obtain ⟨-, -, hbatches, -, hperm, haction⟩ := merged_in_batches
  refine ⟨?_, (hperm _ _ ?_).2.1, (haction _).2 ?_⟩
  · have h := hbatches [[after (.ofSeconds 3), now], [after (.ofSeconds 2)]]
    rw [List.map_cons, List.map_cons, List.map_nil] at h
    rw [h]
    rfl
  · show ([now, after (.ofSeconds 2)] ++ [after (.ofSeconds 3)]).Perm
      ([after (.ofSeconds 3)] ++ [now, after (.ofSeconds 2)])
    exact List.perm_append_comm
  · simp [after, ok]

end Outcome

end ControlLoop
