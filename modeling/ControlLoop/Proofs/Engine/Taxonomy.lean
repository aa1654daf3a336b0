/-
Which failed calls show in the outcome of a pass, and as what.

Someone else who was faster is no error: that an object is not there any
more, or was written in the meantime, makes the pass come back soon. All
other failures are errors of the pass. A creation that finds its name
taken is the one case that needs a second look: if the name is a child's
or free again, someone was faster, but an object of someone else will not
go away by itself, and then the conflict is an error.

`Reports` says this of a list of calls and an outcome. It holds of each
end of a turn (`reports_of_ends`), of calls that follow one another if
their outcomes are merged (`Reports.append`), and so of every pass
(`reports_failures`). No assumption is made about the store: it may
answer anything to any call.
-/
import ControlLoop.Proofs.Engine.Sealing
import ControlLoop.Proofs.Engine.Turns

namespace ControlLoop

variable {σ τ β : Type}

/-- A conflict is not the absence of an object. -/
theorem Error.isNotFound_of_isConflict {e : Error} (h : e.isConflict = true) :
    e.isNotFound = false := by
  unfold isConflict at h
  split at h
  · rfl
  · next rejection =>
    rw [decide_eq_true_eq] at h
    simp only [isNotFound, h]
    decide
  · cases h

/-- Whether a write was refused because someone else was faster. A creation that is refused as a
conflict is not counted: its name may be taken for good. -/
def Exchange.isRace : Exchange β → Bool
  | .create _ (.error e) => e.isNotFound
  | .replace _ (.error e) => e.isNotFound || e.isConflict
  | .delete _ _ (.error e) => e.isNotFound || e.isConflict
  | _ => false

theorem Exchange.fault?_of_isRace {x : Exchange β} (h : x.isRace = true) :
    ∃ e, x.fault? = some e ∧ (e.isNotFound || e.isConflict) = true := by
  unfold isRace at h
  split at h
  · exact ⟨_, rfl, Bool.or_eq_true_iff.2 (Or.inl h)⟩
  · exact ⟨_, rfl, h⟩
  · exact ⟨_, rfl, h⟩
  · cases h

namespace Reconciler

/-- Whether a name that was found taken need not stay so, given the answer to the question who has
it: a child, or nobody any more, or someone else was faster with that too. -/
def passesBy (r : Reconciler σ τ β) : Except Error (Option (Object β)) → Bool
  | .ok holder => holder.all r.selects
  | .error e => e.isNotFound || e.isConflict

/-- How an outcome tells of the calls that failed. -/
structure Reports (r : Reconciler σ τ β) (xs : List (Exchange β)) (a : Outcome) : Prop where
  /-- The error is never that something was not there. -/
  notFound : ∀ e, a.error = some e → e.isNotFound = false
  /-- It is a conflict only if a creation was refused as a conflict and someone else's object was
  found to have the name. -/
  conflict : ∀ e, a.error = some e → e.isConflict = true →
    ∃ o e' holder, e'.isConflict = true ∧ r.selects holder = false
      ∧ [.create o (.error e'), .get o.key (.ok (some holder))] <:+: xs
  /-- A call that failed for any other reason leads to an error. -/
  failed : ∀ x ∈ xs, ∀ e, x.fault? = some e → e.isNotFound = false → e.isConflict = false →
    a.error.isSome = true
  /-- A write that lost a race makes the pass come back. -/
  race : ∀ x ∈ xs, x.isRace = true → a.requeueAfter = some (Duration.ofSeconds 5)
  /-- If a creation is refused as a conflict, it is looked who has the name, and unless it is
  someone else or that cannot be told, the pass comes back. -/
  look : ∀ front o e back, xs = front ++ .create o (.error e) :: back → e.isConflict = true →
    ∃ answer rest, back = .get o.key answer :: rest
      ∧ (r.passesBy answer = true → a.requeueAfter = some (Duration.ofSeconds 5))

-- ============================================================ one turn

variable {r : Reconciler σ τ β} {k : Key} {a b c : Outcome} {xs ys : List (Exchange β)}

theorem failure_of_race {e : Error} (h : (e.isNotFound || e.isConflict) = true) :
    failure e = .after (Duration.ofSeconds 5) := if_pos h

theorem failure_of_hard {e : Error} (h : (e.isNotFound || e.isConflict) = false) :
    failure e = .ofError e := if_neg (Bool.eq_false_iff.1 h)

/-- The error of a failed call is neither that something was not there nor a conflict. -/
theorem hard_of_error_failure {e e' : Error} (h : (failure e).error = some e') :
    e'.isNotFound = false ∧ e'.isConflict = false := by
  cases hrace : e.isNotFound || e.isConflict with
  | true =>
      rw [failure_of_race hrace] at h
      cases h
  | false =>
      rw [failure_of_hard hrace] at h
      obtain rfl := Option.some.inj h
      exact Bool.or_eq_false_iff.1 hrace

theorem reports_nil (ha : a.error = none) : r.Reports [] a where
  notFound := fun e he => by
    rw [ha] at he
    cases he
  conflict := fun e he _ => by
    rw [ha] at he
    cases he
  failed := fun x hx => absurd hx List.not_mem_nil
  race := fun x hx => absurd hx List.not_mem_nil
  look := fun front o e back heq => absurd heq.symm (List.append_ne_nil_of_right_ne_nil _ (by simp))

/-- How a call is told of that does not ask for a second look. -/
theorem reports_singleton {x : Exchange β}
    (hquiet : ∀ o e, x = .create o (.error e) → e.isConflict = false)
    (hhard : ∀ e, a.error = some e → e.isNotFound = false ∧ e.isConflict = false)
    (hfailed : ∀ e, x.fault? = some e → e.isNotFound = false → e.isConflict = false →
      a.error.isSome = true)
    (hrace : x.isRace = true → a.requeueAfter = some (Duration.ofSeconds 5)) :
    r.Reports [x] a where
  notFound := fun e he => (hhard e he).1
  conflict := fun e he hc => by
    rw [(hhard e he).2] at hc
    cases hc
  failed := List.forall_mem_singleton.2 hfailed
  race := List.forall_mem_singleton.2 hrace
  look := fun front o e back heq hc => by
    have hmem : .create o (.error e) ∈ [x] := heq ▸ List.mem_append_cons_self
    rw [hquiet o e (List.mem_singleton.1 hmem).symm] at hc
    cases hc

/-- There is nothing to tell of a call that was answered well. -/
theorem reports_answered {x : Exchange β} (hx : x.fault? = none) (ha : a.error = none) :
    r.Reports [x] a := by
  refine reports_singleton (fun o e heq => ?_) (fun e he => ?_) (fun e he => ?_) fun hrace => ?_
  · subst heq
    cases hx
  · rw [ha] at he
    cases he
  · rw [hx] at he
    cases he
  · obtain ⟨e, he, -⟩ := Exchange.fault?_of_isRace hrace
    rw [hx] at he
    cases he

/-- There is nothing to tell of looking for an object and not finding it. -/
theorem reports_not_found {e : Error} (h : e.isNotFound = true) :
    r.Reports [.get k (.error e)] .ok := by
  refine reports_singleton (fun o e' heq => by cases heq) (fun e' he' => by cases he')
    (fun e' he' hn => ?_) fun hrace => by cases hrace
  obtain rfl := Option.some.inj he'
  rw [h] at hn
  cases hn

/-- A call that failed is told of. -/
theorem reports_failure {x : Exchange β} {e : Error} (hx : x.fault? = some e)
    (hquiet : ∀ o, x = .create o (.error e) → e.isConflict = false) :
    r.Reports [x] (failure e) := by
  refine reports_singleton (fun o e' heq => ?_) (fun e' => hard_of_error_failure)
    (fun e' he' hn hc => ?_) fun hrace => ?_
  · subst heq
    obtain rfl := Option.some.inj hx
    exact hquiet o rfl
  · obtain rfl := Option.some.inj (hx.symm.trans he')
    rw [failure_of_hard (Bool.or_eq_false_iff.2 ⟨hn, hc⟩)]
    rfl
  · obtain ⟨e', he', hlost⟩ := Exchange.fault?_of_isRace hrace
    obtain rfl := Option.some.inj (hx.symm.trans he')
    rw [failure_of_race hlost]
    rfl

/-- After a second look the outcome depends on what was seen. -/
theorem reports_look {o : Object β} {e : Error} {answer : Except Error (Option (Object β))}
    (he : e.isConflict = true)
    (hnot : ∀ e', a.error = some e' → e'.isNotFound = false)
    (hconflict : ∀ e', a.error = some e' → e'.isConflict = true →
      ∃ holder, answer = .ok (some holder) ∧ r.selects holder = false)
    (hfailed : ∀ e', answer = .error e' → r.passesBy answer = false → a.error.isSome = true)
    (hpasses : r.passesBy answer = true → a.requeueAfter = some (Duration.ofSeconds 5)) :
    r.Reports [.create o (.error e), .get o.key answer] a where
  notFound := hnot
  conflict := fun e' he' hc => by
    obtain ⟨holder, rfl, hh⟩ := hconflict e' he' hc
    exact ⟨o, e, holder, he, hh, List.infix_rfl⟩
  failed := fun x hx e' he' hn hc => by
    rcases List.mem_cons.1 hx with rfl | hx
    · obtain rfl := Option.some.inj he'
      rw [he] at hc
      cases hc
    · obtain rfl := List.mem_singleton.1 hx
      cases answer with
      | ok holder => cases he'
      | error e'' =>
          obtain rfl := Option.some.inj he'
          exact hfailed e'' rfl (Bool.or_eq_false_iff.2 ⟨hn, hc⟩)
  race := fun x hx hrace => by
    rcases List.mem_cons.1 hx with rfl | hx
    · have hnone : e.isNotFound = true := hrace
      rw [Error.isNotFound_of_isConflict he] at hnone
      cases hnone
    · obtain rfl := List.mem_singleton.1 hx
      cases hrace
  look := fun front o' e' back heq _ => by
    cases front with
    | nil =>
        obtain ⟨hcreate, rfl⟩ := List.cons.inj heq
        obtain ⟨rfl, -⟩ := Exchange.create.inj hcreate
        exact ⟨answer, [], rfl, hpasses⟩
    | cons y front =>
        -- the only call after the first one is the look itself
        obtain ⟨-, htail⟩ := List.cons.inj heq
        obtain ⟨-, hget⟩ := List.append_eq_singleton_iff.1 htail.symm |>.resolve_right
          fun h => List.cons_ne_nil _ _ h.2
        cases (List.cons.inj hget).1

/-- Each end of a turn tells of its calls. -/
theorem reports_of_ends {wanted : Bool} {current : Option (Object β)} {ns : List (Notice β)}
    (h : r.Ends k wanted current xs ns a) : r.Reports xs a := by
  cases h with
  | nothing => exact reports_nil rfl
  | created => exact reports_answered rfl rfl
  | refused ho he =>
      exact reports_failure rfl fun _ _ => he
  | taken ho he hh =>
      subst ho
      refine reports_look he (fun e' he' => ?_) (fun e' _ _ => ⟨_, rfl, hh⟩)
        (fun e' heq => by cases heq) fun hpasses => ?_
      · obtain rfl := Option.some.inj he'
        rfl
      · rw [passesBy, Option.all_some, hh] at hpasses
        cases hpasses
  | @raced o e holder ho he hh =>
      subst ho
      have hrace : (e.isNotFound || e.isConflict) = true := Bool.or_eq_true_iff.2 (Or.inr he)
      rw [failure_of_race hrace]
      exact reports_look he (fun e' he' => by cases he') (fun e' he' => by cases he')
        (fun e' heq => by cases heq) fun _ => rfl
  | @unseen o e e' ho he =>
      subst ho
      refine reports_look he (fun e'' he'' => (hard_of_error_failure he'').1)
        (fun e'' he'' hc => ?_) (fun e'' heq hhard => ?_) fun hpasses => ?_
      · rw [(hard_of_error_failure he'').2] at hc
        cases hc
      · rw [failure_of_hard hhard]
        rfl
      · rw [failure_of_race hpasses]
        rfl
  | untouched => exact reports_nil rfl
  | replaced => exact reports_answered rfl rfl
  | notReplaced => exact reports_failure rfl fun o' heq => by cases heq
  | recreated => exact reports_answered rfl rfl
  | notRecreated => exact reports_failure rfl fun o' heq => by cases heq
  | kept reason => exact reports_nil rfl
  | deleted => exact reports_answered rfl rfl
  | notDeleted => exact reports_failure rfl fun o' heq => by cases heq

-- ============================================================ many turns

/-- Calls that follow one another are told of by an outcome that keeps the errors and the delays of
both. -/
theorem Reports.append (hx : r.Reports xs a) (hy : r.Reports ys b)
    (herror : c.error = a.error.or b.error)
    (hdelay : a.requeueAfter = some (Duration.ofSeconds 5)
      ∨ b.requeueAfter = some (Duration.ofSeconds 5) →
      c.requeueAfter = some (Duration.ofSeconds 5)) : r.Reports (xs ++ ys) c where
  notFound := fun e he => by
    rw [herror] at he
    rcases Option.or_eq_some_iff.1 he with he | ⟨-, he⟩
    · exact hx.notFound e he
    · exact hy.notFound e he
  conflict := fun e he hc => by
    rw [herror] at he
    rcases Option.or_eq_some_iff.1 he with he | ⟨-, he⟩
    · obtain ⟨o, e', holder, he', hh, hpair⟩ := hx.conflict e he hc
      exact ⟨o, e', holder, he', hh, hpair.trans (List.prefix_append xs ys).isInfix⟩
    · obtain ⟨o, e', holder, he', hh, hpair⟩ := hy.conflict e he hc
      exact ⟨o, e', holder, he', hh, hpair.trans (List.suffix_append xs ys).isInfix⟩
  failed := fun x hmem e he hn hc => by
    rw [herror]
    rcases List.mem_append.1 hmem with hmem | hmem
    · have hsome := hx.failed x hmem e he hn hc
      simp [hsome]
    · have hsome := hy.failed x hmem e he hn hc
      simp [hsome]
  race := fun x hmem hrace => by
    refine hdelay ((List.mem_append.1 hmem).imp (fun hmem => ?_) fun hmem => ?_)
    · exact hx.race x hmem hrace
    · exact hy.race x hmem hrace
  look := fun front o e back heq hc => by
    rcases List.append_eq_append_iff.1 heq with ⟨mid, -, hys⟩ | ⟨mid, hxs, hback⟩
    · obtain ⟨answer, rest, hback, hpasses⟩ := hy.look mid o e back hys hc
      exact ⟨answer, rest, hback, fun h => hdelay (Or.inr (hpasses h))⟩
    · cases mid with
      | nil =>
          obtain ⟨answer, rest, hback, hpasses⟩ := hy.look [] o e back hback.symm hc
          exact ⟨answer, rest, hback, fun h => hdelay (Or.inr (hpasses h))⟩
      | cons y mid =>
          -- the look follows before the first calls end
          obtain ⟨rfl, rfl⟩ := List.cons.inj hback
          obtain ⟨answer, rest, rfl, hpasses⟩ := hx.look front o e mid hxs hc
          exact ⟨answer, rest ++ ys, rfl, fun h => hdelay (Or.inl (hpasses h))⟩

/-- A call that there is nothing to tell of may come first. -/
theorem Reports.cons {x : Exchange β} (hx : r.Reports [x] .ok) (h : r.Reports xs a) :
    r.Reports (x :: xs) a :=
  hx.append h Option.none_or.symm fun hdelay => hdelay.resolve_left fun hnone => by cases hnone

/-- If each of many turns tells of its calls, so does the merged outcome. -/
theorem reports_turns {ts : List (Turn β)} (hreports : ∀ t ∈ ts, r.Reports t.calls t.outcome)
    (hwaits : ∀ t ∈ ts, t.outcome.WaitsOnly recreateDelay) :
    r.Reports (ts.flatMap (·.calls)) (Outcome.mergeAll (ts.map (·.outcome))) := by
  induction ts with
  | nil => exact reports_nil rfl
  | cons t ts ih =>
      have hwaits' : ∀ o ∈ (t :: ts).map (·.outcome), o.WaitsOnly recreateDelay :=
        List.forall_mem_map.2 hwaits
      obtain ⟨ht, hts⟩ := List.forall_mem_cons.1 hreports
      refine Reports.append ht (ih hts fun t' ht' => hwaits t' (List.mem_cons_of_mem _ ht')) ?_ ?_
      · rw [Outcome.error_mergeAll, Outcome.error_mergeAll, List.map_cons, List.findSome?_cons]
        cases t.outcome.error <;> rfl
      · exact Outcome.WaitsOnly.requeueAfter_mergeAll_cons hwaits'

-- ============================================================ a pass

variable [DecidableEq β] [Resource β]

theorem reports_reconcileSet {desired : SortedSet Key} {s : PassState σ τ} {st : σ}
    {objects : List (Object β)}
    (h : r.store.list r.parent.space r.selector s.store = (.ok objects, st)) :
    r.Reports (r.exchanges desired s) (r.reconcileSet desired s).1 := by
  rw [exchanges_of_listing h, reconcileSet_fst_of_listing h]
  refine .cons (reports_answered rfl rfl)
    (reports_turns (fun t ht => ?_) fun t => waitsOnly_of_mem_turnsFor)
  exact reports_of_ends (ends_of_mem_turnsFor ht).2

theorem reports_reconcileObject (r : Reconciler σ τ β) (k : Key) (wanted : Bool)
    (s : PassState σ τ) :
    r.Reports (r.objectExchanges k wanted s) (r.reconcileObject k wanted s).1 := by
  rcases hget : r.store.get k s.store with ⟨e | current, st⟩
  · rw [objectExchanges, r.reconcileObject_logged_of_error k wanted hget]
    simp only [PassState.logging_store, reconcileObject, hget]
    by_cases hgone : e.isNotFound = true
    · -- it is not there, so the turn is that of a key without a child
      simp only [if_pos hgone]
      exact .cons (reports_not_found hgone) (reports_of_ends (r.ends_passKey k _ wanted none))
    · simp only [if_neg hgone]
      exact reports_failure rfl fun o heq => by cases heq
  · rw [objectExchanges, r.reconcileObject_logged_of_ok k wanted hget]
    simp only [PassState.logging_store, reconcileObject, hget]
    exact .cons (reports_answered rfl rfl) (reports_of_ends (r.ends_passKey k _ wanted _))

/-- Which failed calls show in the outcome of a pass, whatever the store answers. If the listing
fails, its error is that of the pass, and neither is any other call made nor the strategy asked or
shown anything. If not, and in a pass over one child, the outcome tells of every failed call: an
error is never that something was not there, and a conflict only if a new child met an object of
someone else; a failure that is neither leads to an error; and a lost race, which a conflict with a
child or with nobody is too, makes the pass come back after five seconds. -/
theorem reports_failures (r : Reconciler σ τ β) :
    (∀ desired s e st, r.store.list r.parent.space r.selector s.store = (.error e, st) →
        r.reconcileSet desired s = (.ofError e, { s with store := st })
          ∧ r.exchanges desired s = [.list (.error e)])
      ∧ (∀ desired s objects st,
        r.store.list r.parent.space r.selector s.store = (.ok objects, st) →
        r.Reports (r.exchanges desired s) (r.reconcileSet desired s).1)
      ∧ ∀ k wanted s, r.Reports (r.objectExchanges k wanted s) (r.reconcileObject k wanted s).1 := by
  refine ⟨fun desired s e st h => ⟨?_, ?_⟩, fun desired s objects st h => reports_reconcileSet h,
    r.reports_reconcileObject⟩
  · simp only [reconcileSet, h]
  · rw [exchanges, r.reconcileSet_logged_of_error desired h]
    rfl

/-- A store that refuses every write as a conflict, in the words of the API server, and shows an
object of nobody under every name: the new child's name is taken for good. -/
theorem reports_failures_taken :
    let refusal : Error := .client (.rejected ⟨"Failure", "", "AlreadyExists", 409⟩)
    let taken : Store Unit ConfigMap :=
      { list := fun _ _ u => (.ok [], u)
        get := fun k u => (.ok (some (Sealing.member k.name false none)), u)
        create := fun _ u => (.error refusal, u)
        replace := fun _ u => (.error refusal, u)
        delete := fun _ _ u => (.error refusal, u) }
    let r : Reconciler Unit Nat ConfigMap :=
      ⟨taken, Sealing.strategy .recreate, Sealing.parent, ∅⟩
    let s : PassState Unit Nat := ⟨(), 0, []⟩
    let desired : SortedSet Key := SortedMap.ofKeys [Sealing.key "a"]
    (r.reconcileSet desired s).1.error = some (r.nameTaken (Sealing.key "a"))
      ∧ r.Reports (r.exchanges desired s) (r.reconcileSet desired s).1 := by
  intro refusal taken r s desired
  exact ⟨rfl, (reports_failures r).2.1 desired s [] () rfl⟩

end Reconciler

end ControlLoop
