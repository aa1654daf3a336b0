/-
What of its steps shows in the outcome of a pass.

If any step asks to come back, so does the pass, whatever the others
say (`comesBack_mergeAll`), and the loop that runs the passes does come
back, after an error too. If no step asks to come back at once and all
delays are the same, this is the delay of the pass
(`WaitsOnly.requeueAfter_mergeAll`).
-/
import ControlLoop.Controller

namespace ControlLoop.Outcome

/-- Whether there is a reason to come back without an event: an error, or a wish. -/
def comesBack (a : Outcome) : Bool :=
  a.error.isSome || a.requeueNow || a.requeueAfter.isSome

/-- No wish to come back other than after a given delay. -/
structure WaitsOnly (d : Duration) (a : Outcome) : Prop where
  notNow : a.requeueNow = false
  delay : ∀ e, a.requeueAfter = some e → e = d

theorem waitsOnly_ok (d : Duration) : ok.WaitsOnly d :=
  ⟨rfl, fun e he => by cases he⟩

theorem waitsOnly_ofError (d : Duration) (e : Error) : (ofError e).WaitsOnly d :=
  ⟨rfl, fun e' he => by cases he⟩

theorem waitsOnly_after (d : Duration) : (after d).WaitsOnly d :=
  ⟨rfl, fun _ he => (Option.some.inj he).symm⟩

-- ============================================================ merging

theorem comesBack_merge (a b : Outcome) : (a.merge b).comesBack = (a.comesBack || b.comesBack) := by
  obtain ⟨ea, na, da⟩ := a
  obtain ⟨eb, nb, db⟩ := b
  cases ea <;> cases eb <;> cases na <;> cases nb <;> cases da <;> cases db <;> rfl

theorem comesBack_foldl_merge (a : Outcome) (outcomes : List Outcome) :
    (outcomes.foldl merge a).comesBack = (a.comesBack || outcomes.any comesBack) := by
  induction outcomes generalizing a with
  | nil => simp
  | cons b outcomes ih =>
      rw [List.foldl_cons, ih, comesBack_merge, List.any_cons, Bool.or_assoc]

theorem comesBack_mergeAll (outcomes : List Outcome) :
    (mergeAll outcomes).comesBack = outcomes.any comesBack := by
  rw [mergeAll, comesBack_foldl_merge]
  rfl

/-- Of two delays that can only be one, the shorter is that one. -/
theorem WaitsOnly.shorterDelay {d : Duration} {a b : Outcome} (ha : a.WaitsOnly d)
    (hb : b.WaitsOnly d) :
    shorterDelay a.requeueAfter b.requeueAfter
      = if a.requeueAfter.isSome || b.requeueAfter.isSome then some d else none := by
  rcases hda : a.requeueAfter with _ | x <;> rcases hdb : b.requeueAfter with _ | y
  · rfl
  · rw [hb.delay y hdb]
    rfl
  · rw [ha.delay x hda]
    rfl
  · rw [ha.delay x hda, hb.delay y hdb]
    show some (d.min d) = some d
    rw [Duration.min, ite_self]

theorem WaitsOnly.requeueAfter_merge {d : Duration} {a b : Outcome} (ha : a.WaitsOnly d)
    (hb : b.WaitsOnly d) :
    (a.merge b).requeueAfter
      = if a.requeueAfter.isSome || b.requeueAfter.isSome then some d else none := by
  show (if (a.requeueNow || b.requeueNow) = true then none
    else Outcome.shorterDelay a.requeueAfter b.requeueAfter) = _
  rw [ha.notNow, hb.notNow, if_neg (by decide), ha.shorterDelay hb]

theorem WaitsOnly.merge {d : Duration} {a b : Outcome} (ha : a.WaitsOnly d) (hb : b.WaitsOnly d) :
    (a.merge b).WaitsOnly d where
  notNow := by
    show (a.requeueNow || b.requeueNow) = false
    rw [ha.notNow, hb.notNow]
    rfl
  delay := fun e he => by
    rw [ha.requeueAfter_merge hb] at he
    split at he
    · exact (Option.some.inj he).symm
    · cases he

theorem WaitsOnly.requeueAfter_foldl_merge {d : Duration} {a : Outcome} {outcomes : List Outcome}
    (ha : a.WaitsOnly d) (h : ∀ b ∈ outcomes, b.WaitsOnly d) :
    (outcomes.foldl Outcome.merge a).requeueAfter
      = if a.requeueAfter.isSome || outcomes.any (·.requeueAfter.isSome) then some d else none := by
  induction outcomes generalizing a with
  | nil =>
      rw [List.foldl_nil, List.any_nil, Bool.or_false]
      rcases hda : a.requeueAfter with _ | x
      · rfl
      · rw [ha.delay x hda]
        rfl
  | cons b outcomes ih =>
      have hb : b.WaitsOnly d := h b List.mem_cons_self
      rw [List.foldl_cons, ih (ha.merge hb) fun c hc => h c (List.mem_cons_of_mem _ hc),
        ha.requeueAfter_merge hb, List.any_cons, ← Bool.or_assoc]
      cases a.requeueAfter.isSome || b.requeueAfter.isSome <;> rfl

/-- If no step asks for anything but a given delay, the pass asks for it if any of them does. -/
theorem WaitsOnly.requeueAfter_mergeAll_eq {d : Duration} {outcomes : List Outcome}
    (h : ∀ b ∈ outcomes, b.WaitsOnly d) :
    (mergeAll outcomes).requeueAfter
      = if outcomes.any (·.requeueAfter.isSome) then some d else none := by
  rw [mergeAll, (waitsOnly_ok d).requeueAfter_foldl_merge h]
  rfl

/-- If no step asks for anything but a given delay, and one asks for it, the pass does. -/
theorem WaitsOnly.requeueAfter_mergeAll {d : Duration} {outcomes : List Outcome}
    (h : ∀ b ∈ outcomes, b.WaitsOnly d) {a : Outcome} (ha : a ∈ outcomes)
    (hsome : a.requeueAfter.isSome = true) : (mergeAll outcomes).requeueAfter = some d := by
  rw [requeueAfter_mergeAll_eq h]
  exact if_pos (List.any_eq_true.2 ⟨a, ha, hsome⟩)

/-- A delay that the first step or the others ask for is one that the pass asks for. -/
theorem WaitsOnly.requeueAfter_mergeAll_cons {d : Duration} {a : Outcome}
    {outcomes : List Outcome} (h : ∀ b ∈ a :: outcomes, b.WaitsOnly d)
    (hd : a.requeueAfter = some d ∨ (Outcome.mergeAll outcomes).requeueAfter = some d) :
    (Outcome.mergeAll (a :: outcomes)).requeueAfter = some d := by
  rcases hd with hd | hd
  · exact requeueAfter_mergeAll h List.mem_cons_self (Option.isSome_of_eq_some hd)
  · rw [requeueAfter_mergeAll_eq fun b hb => h b (List.mem_cons_of_mem _ hb)] at hd
    split at hd
    · next hany =>
      obtain ⟨b, hb, hsome⟩ := List.any_eq_true.1 hany
      exact requeueAfter_mergeAll h (List.mem_cons_of_mem _ hb) hsome
    · cases hd

theorem WaitsOnly.foldl_merge {d : Duration} {a : Outcome} {outcomes : List Outcome}
    (ha : a.WaitsOnly d) (h : ∀ b ∈ outcomes, b.WaitsOnly d) :
    (outcomes.foldl Outcome.merge a).WaitsOnly d := by
  induction outcomes generalizing a with
  | nil => exact ha
  | cons b outcomes ih =>
      exact ih (ha.merge (h b List.mem_cons_self)) fun c hc => h c (List.mem_cons_of_mem _ hc)

/-- If no step asks for anything but a given delay, nor does the pass. -/
theorem WaitsOnly.mergeAll {d : Duration} {outcomes : List Outcome}
    (h : ∀ b ∈ outcomes, b.WaitsOnly d) : (Outcome.mergeAll outcomes).WaitsOnly d :=
  (waitsOnly_ok d).foldl_merge h

theorem error_foldl_merge (a : Outcome) (outcomes : List Outcome) :
    (outcomes.foldl merge a).error = (a.error <|> outcomes.findSome? (·.error)) := by
  induction outcomes generalizing a with
  | nil =>
      obtain ⟨ea, na, da⟩ := a
      cases ea <;> rfl
  | cons b outcomes ih =>
      rw [List.foldl_cons, ih, List.findSome?_cons]
      obtain ⟨ea, na, da⟩ := a
      obtain ⟨eb, nb, db⟩ := b
      cases ea <;> cases eb <;> rfl

/-- The error of a pass is the first of its steps. -/
theorem error_mergeAll (outcomes : List Outcome) :
    (mergeAll outcomes).error = outcomes.findSome? (·.error) := by
  rw [mergeAll, error_foldl_merge]
  rfl

-- ============================================================ the loop

/-- Where there is a reason to come back, the loop comes back after some delay. -/
theorem action_of_comesBack {a : Outcome} (h : a.comesBack = true) (took : Duration)
    (command : Resync.Command) :
    ∃ delay, (Controller.Report.mk a.action took command).action = .requeue delay := by
  obtain ⟨error, now, delay⟩ := a
  cases error with
  | some e => exact ⟨_, rfl⟩
  | none =>
      cases now with
      | true => exact ⟨_, rfl⟩
      | false =>
          cases delay with
          | some d => exact ⟨d, rfl⟩
          | none => cases h

end ControlLoop.Outcome
