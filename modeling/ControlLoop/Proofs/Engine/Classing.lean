/-
A failure counts for its class, whichever way it came in.

# Two ways

A failure of the API client is kept as it came, or is brought into the
classes of the library (`Error.Classed`). Either way it is known as an
object that is not there, and as a lost race. Whether it is worth trying
again soon is decided alike too, but for one class: that an object is not
there is taken to mend itself only if it was told in the classes of the
library (`Error.isRetriable_of_isNotFound`).

# The engine

Of a failure the engine asks no more than whether it is one of these two.
So a pass over a store that keeps the failures as they came and one over
a store that classes them make the same calls and leave the same behind,
and their outcomes differ only in how the error is told
(`classed_reconcileSet`, `classed_reconcileObject`).
-/
import ControlLoop.Controller
import ControlLoop.Engine
import ControlLoop.Proofs.Engine.Sealing
import ControlLoop.Proofs.Outcome.Batches

namespace ControlLoop

-- ============================================================= classes

/-- The errors are the same, or the second one is the first, a failure of the API client, in the
classes of the library. -/
inductive Error.Classed : Error → Error → Prop
  | same (e : Error) : Classed e e
  | client (cause : ClientError) (object : String) :
      Classed (.client cause) (.ofClient cause object)

namespace Error

variable {cause : ClientError} {e e' : Error}

/-- What a refusal becomes by its code. -/
theorem ofClient_rejected (r : Rejection) (object : String) :
    (r.code = 404 ∧ ofClient (.rejected r) object = .notFound object)
      ∨ (r.code = 409 ∧ ofClient (.rejected r) object = .conflict object)
      ∨ ((r.code = 429 ∨ 500 ≤ r.code)
        ∧ ofClient (.rejected r) object = .unavailable s!"{object}: {r.message}")
      ∨ (r.code ≠ 404 ∧ r.code ≠ 409 ∧ r.code ≠ 429 ∧ r.code < 500)
        ∧ ofClient (.rejected r) object = .client (.rejected r) := by
  unfold ofClient
  dsimp only
  by_cases h404 : r.code = 404
  · exact Or.inl ⟨h404, if_pos h404⟩
  · rw [if_neg h404]
    by_cases h409 : r.code = 409
    · exact Or.inr (Or.inl ⟨h409, if_pos h409⟩)
    · rw [if_neg h409]
      by_cases hbusy : r.code = 429 ∨ 500 ≤ r.code
      · exact Or.inr (Or.inr (Or.inl ⟨hbusy, if_pos hbusy⟩))
      · exact Or.inr (Or.inr (Or.inr ⟨by omega, if_neg hbusy⟩))

theorem isNotFound_client_eq_false_iff :
    (client cause).isNotFound = false ↔ ∀ r, cause = .rejected r → r.code ≠ 404 := by
  cases cause with
  | rejected r => simp [isNotFound]
  | _ => simp [isNotFound]

/-- The two classes that the engine asks for do not depend on how a failure is told. -/
theorem class_ofClient (cause : ClientError) (object : String) :
    (ofClient cause object).isNotFound = (client cause).isNotFound
      ∧ (ofClient cause object).isConflict = (client cause).isConflict := by
  cases cause with
  | rejected r =>
      show _ = decide (r.code = 404) ∧ _ = decide (r.code = 409)
      rcases ofClient_rejected r object with ⟨hcode, h⟩ | ⟨hcode, h⟩ | ⟨hcode, h⟩ | ⟨-, h⟩
      · rw [h, hcode]
        exact ⟨rfl, rfl⟩
      · rw [h, hcode]
        exact ⟨rfl, rfl⟩
      · rw [h]
        exact ⟨(decide_eq_false (by omega)).symm, (decide_eq_false (by omega)).symm⟩
      · rw [h]
        exact ⟨rfl, rfl⟩
  | _ => exact ⟨rfl, rfl⟩

theorem isRetriable_ofClient (object : String) (hfound : (client cause).isNotFound = false) :
    (ofClient cause object).isRetriable = (client cause).isRetriable := by
  cases cause with
  | rejected r =>
      have hcode : r.code ≠ 404 := of_decide_eq_false hfound
      show _ = (decide (r.code = 409) || decide (r.code = 429) || decide (500 ≤ r.code))
      rcases ofClient_rejected r object with ⟨h404, -⟩ | ⟨h409, h⟩ | ⟨hbusy, h⟩ | ⟨-, h⟩
      · exact absurd h404 hcode
      · rw [h, h409]
        rfl
      · rw [h]
        symm
        simp only [Bool.or_eq_true, decide_eq_true_eq, isRetriable]
        omega
      · rw [h]
        rfl
  | _ => rfl

/-- The one class where it matters how a failure is told. -/
theorem isRetriable_of_isNotFound (object : String) (hgone : (client cause).isNotFound = true) :
    (client cause).isRetriable = false ∧ (ofClient cause object).isRetriable = true := by
  cases cause with
  | rejected r =>
      have hcode : r.code = 404 := of_decide_eq_true hgone
      refine ⟨?_, ?_⟩
      · show (decide (r.code = 409) || decide (r.code = 429) || decide (500 ≤ r.code)) = false
        rw [hcode]
        rfl
      · rcases ofClient_rejected r object with ⟨-, h⟩ | ⟨h409, -⟩ | ⟨hbusy, -⟩ | ⟨hother, -⟩
        · rw [h]
          rfl
        all_goals omega
  | _ => cases hgone

theorem Classed.isNotFound (h : Classed e e') : e'.isNotFound = e.isNotFound := by
  cases h with
  | same => rfl
  | client cause object => exact (class_ofClient cause object).1

theorem Classed.isConflict (h : Classed e e') : e'.isConflict = e.isConflict := by
  cases h with
  | same => rfl
  | client cause object => exact (class_ofClient cause object).2

end Error

/-- The next look comes equally soon after two errors if both may mend themselves, or neither. -/
theorem Controller.errorPolicy_eq_iff {e e' : Error} :
    errorPolicy e = errorPolicy e' ↔ e.isRetriable = e'.isRetriable := by
  unfold errorPolicy
  cases e.isRetriable <;> cases e'.isRetriable <;> decide

-- ============================================================= outcomes

/-- The outcomes are the same up to how the error is told. -/
structure Outcome.Classed (a b : Outcome) : Prop where
  error : Option.Rel Error.Classed a.error b.error
  requeueNow : a.requeueNow = b.requeueNow
  requeueAfter : a.requeueAfter = b.requeueAfter

namespace Outcome

theorem Classed.rfl {a : Outcome} : Classed a a := by
  refine ⟨?_, Eq.refl _, Eq.refl _⟩
  cases a.error with
  | none => exact .none
  | some e => exact .some (.same e)

theorem Classed.merge {a a' b b' : Outcome} (ha : Classed a a') (hb : Classed b b') :
    Classed (a.merge b) (a'.merge b') := by
  have hnow := congrArg₂ (· || ·) ha.requeueNow hb.requeueNow
  refine ⟨?_, hnow, ?_⟩
  · show Option.Rel Error.Classed (a.error <|> b.error) (a'.error <|> b'.error)
    have herror := ha.error
    generalize a.error = x at herror
    generalize a'.error = y at herror
    cases herror with
    | none => exact hb.error
    | some h => exact .some h
  · show (if (a.requeueNow || b.requeueNow) = true then none
        else shorterDelay a.requeueAfter b.requeueAfter) = _
    rw [hnow, ha.requeueAfter, hb.requeueAfter]
    exact Eq.refl _

theorem classed_mergeAll {as bs : List Outcome} (h : List.Forall₂ Classed as bs) :
    Classed (mergeAll as) (mergeAll bs) := by
  induction h with
  | nil => exact .rfl
  | cons hab _ ih =>
      rw [mergeAll_cons, mergeAll_cons]
      exact hab.merge ih

theorem classed_ofError {e e' : Error} (h : e.Classed e') : Classed (ofError e) (ofError e') :=
  ⟨.some h, Eq.refl _, Eq.refl _⟩

end Outcome

-- ============================================================== stores

variable {σ τ β : Type}

/-- A call goes the same way in both stores, and where it fails, the second tells the failure of the
first, perhaps in the classes of the library. -/
def Classed {α : Type} (x y : Except Error α × σ) : Prop :=
  (∃ a st, x = (.ok a, st) ∧ y = (.ok a, st))
    ∨ ∃ e e' st, x = (.error e, st) ∧ y = (.error e', st) ∧ e.Classed e'

/-- The second store does what the first one does, and may class its failures. -/
structure Store.Classes (S S' : Store σ β) : Prop where
  list : ∀ space selector st, Classed (S.list space selector st) (S'.list space selector st)
  get : ∀ k st, Classed (S.get k st) (S'.get k st)
  create : ∀ o st, Classed (S.create o st) (S'.create o st)
  replace : ∀ o st, Classed (S.replace o st) (S'.replace o st)
  delete : ∀ k p st, Classed (S.delete k p st) (S'.delete k p st)

namespace Reconciler

/-- The same reconciler on another store. -/
def on (r : Reconciler σ τ β) (S : Store σ β) : Reconciler σ τ β := { r with store := S }

section

variable (r : Reconciler σ τ β) (S : Store σ β)

@[simp] theorem on_store : (r.on S).store = S := rfl

@[simp] theorem on_strategy : (r.on S).strategy = r.strategy := rfl

@[simp] theorem on_parent : (r.on S).parent = r.parent := rfl

@[simp] theorem on_selector : (r.on S).selector = r.selector := rfl

@[simp] theorem on_selects : (r.on S).selects = r.selects := rfl

@[simp] theorem on_claimed : (r.on S).claimed = r.claimed := rfl

@[simp] theorem on_observe : (r.on S).observe = r.observe := rfl

@[simp] theorem on_children : (r.on S).children = r.children := rfl

@[simp] theorem on_plan [DecidableEq β] [Resource β] : (r.on S).plan = r.plan := rfl

end

/-- The state is the same, and so is the outcome up to how the error is told. -/
structure SamePass (x y : Outcome × PassState σ τ) : Prop where
  outcome : x.1.Classed y.1
  state : x.2 = y.2

theorem SamePass.rfl {x : Outcome × PassState σ τ} : SamePass x x := ⟨.rfl, Eq.refl _⟩

theorem classed_failure {e e' : Error} (h : e.Classed e') : (failure e).Classed (failure e') := by
  unfold failure
  rw [h.isNotFound, h.isConflict]
  split
  · exact .rfl
  · exact Outcome.classed_ofError h

-- ============================================================== one key

section

variable {r : Reconciler σ τ β} {S : Store σ β} (hS : r.store.Classes S) (k : Key)
  (s : PassState σ τ)

include hS

theorem classed_createConflict {e e' : Error} (h : e.Classed e') :
    SamePass (r.createConflict k e s) ((r.on S).createConflict k e' s) := by
  unfold createConflict
  rcases hS.get k s.store with ⟨holder, st, hx, hy⟩ | ⟨d, d', st, hx, hy, hd⟩
  · simp only [on_store, on_parent, hx, hy]
    cases holder with
    | none => exact ⟨classed_failure h, rfl⟩
    | some holder =>
        by_cases hchild : r.selects holder = true
        · have hchild' : (r.on S).selects holder = true := hchild
          simp only [if_pos hchild, if_pos hchild']
          exact ⟨classed_failure h, rfl⟩
        · have hchild' : ¬ (r.on S).selects holder = true := hchild
          simp only [if_neg hchild, if_neg hchild']
          exact .rfl
  · simp only [on_store, hx, hy]
    exact ⟨classed_failure hd, rfl⟩

theorem classed_create : SamePass (r.create k s) ((r.on S).create k s) := by
  unfold create
  rcases hS.create (r.claimed k (r.strategy.newObject k s.strategy).1) s.store
    with ⟨created, st, hx, hy⟩ | ⟨e, e', st, hx, hy, he⟩
  · simp only [on_store, on_strategy, on_claimed, on_observe, hx, hy]
    exact .rfl
  · simp only [on_store, on_strategy, on_claimed, hx, hy, he.isConflict]
    by_cases hconflict : e.isConflict = true
    · simp only [if_pos hconflict]
      exact classed_createConflict hS k _ he
    · simp only [if_neg hconflict]
      exact ⟨classed_failure he, rfl⟩

theorem classed_remove (op : ChildOperation) (done : Outcome) (current : Object β) :
    SamePass (r.remove op done k current s) ((r.on S).remove op done k current s) := by
  unfold remove
  rcases hS.delete k (r.strategy.propagation (r.observe k current s).strategy)
    (r.observe k current s).store with ⟨⟨⟩, st, hx, hy⟩ | ⟨e, e', st, hx, hy, he⟩
  · simp only [on_store, on_strategy, on_observe, hx, hy]
    exact .rfl
  · simp only [on_store, on_strategy, on_observe, hx, hy]
    exact ⟨classed_failure he, rfl⟩

theorem classed_turnDown (current : Object β) :
    SamePass (r.turnDown k current s) ((r.on S).turnDown k current s) := by
  unfold turnDown
  by_cases hterm : current.metadata.isTerminating = true
  · simp only [if_pos hterm, on_observe]
    exact .rfl
  · simp only [if_neg hterm, on_strategy, on_observe]
    rcases r.strategy.prepareTurndown k current s.strategy with ⟨_ | orphan, t⟩
    · exact classed_remove hS k _ .delete .ok current
    · exact .rfl

variable [DecidableEq β]

theorem classed_write (current next : Object β) :
    SamePass (r.write k current next s) ((r.on S).write k current next s) := by
  unfold write
  by_cases hsame : next = current
  · simp only [if_pos hsame, on_observe]
    exact .rfl
  · simp only [if_neg hsame]
    rcases hS.replace next s.store with ⟨updated, st, hx, hy⟩ | ⟨e, e', st, hx, hy, he⟩
    · simp only [on_store, on_observe, hx, hy]
      exact .rfl
    · simp only [on_store, on_observe, hx, hy]
      exact ⟨classed_failure he, rfl⟩

variable [Resource β]

theorem classed_update (current : Object β) :
    SamePass (r.update k current s) ((r.on S).update k current s) := by
  unfold update
  by_cases hterm : current.metadata.isTerminating = true
  · simp only [if_pos hterm, on_observe]
    exact .rfl
  · simp only [if_neg hterm, on_plan]
    rcases r.plan k current s.strategy with ⟨_ | ⟨next, schedules⟩, t⟩
    · exact classed_remove hS k _ .recreate _ current
    · exact classed_write hS k _ current next

/-- Each key is handled alike. -/
theorem classed_passKey (wanted : Bool) (current : Option (Object β)) :
    SamePass (r.passKey k wanted current s) ((r.on S).passKey k wanted current s) := by
  cases wanted with
  | true =>
      cases current with
      | none => exact classed_create hS k s
      | some o => exact classed_update hS k s o
  | false =>
      cases current with
      | none => exact .rfl
      | some o => exact classed_turnDown hS k s o

-- ======================================================== a whole pass

theorem classed_passAll (desired : SortedSet Key) (existing : SortedMap Key (Object β))
    (ks : List Key) (s : PassState σ τ) :
    List.Forall₂ Outcome.Classed (r.passAll desired existing ks s).1
        ((r.on S).passAll desired existing ks s).1
      ∧ (r.passAll desired existing ks s).2 = ((r.on S).passAll desired existing ks s).2 := by
  induction ks generalizing s with
  | nil => exact ⟨.nil, rfl⟩
  | cons k ks ih =>
      have hkey := classed_passKey hS k s (desired.contains k) (existing.get? k)
      have hrest := ih (r.passKey k (desired.contains k) (existing.get? k) s).2
      unfold passAll
      simp only [← hkey.state]
      exact ⟨.cons hkey.outcome hrest.1, hrest.2⟩

/-- A pass over the group of children goes alike. -/
theorem classed_reconcileSet (desired : SortedSet Key) :
    SamePass (r.reconcileSet desired s) ((r.on S).reconcileSet desired s) := by
  unfold reconcileSet
  rcases hS.list r.parent.space r.selector s.store
    with ⟨objects, st, hx, hy⟩ | ⟨e, e', st, hx, hy, he⟩
  · simp only [on_store, on_parent, on_selector, on_children, hx, hy]
    obtain ⟨houtcomes, hstate⟩ := classed_passAll hS desired (r.children objects)
      (passKeys desired (r.children objects)) { s with store := st }
    exact ⟨Outcome.classed_mergeAll houtcomes, hstate⟩
  · simp only [on_store, on_parent, on_selector, hx, hy]
    exact ⟨Outcome.classed_ofError he, rfl⟩

/-- A pass over one child goes alike. -/
theorem classed_reconcileObject (wanted : Bool) :
    SamePass (r.reconcileObject k wanted s) ((r.on S).reconcileObject k wanted s) := by
  unfold reconcileObject
  rcases hS.get k s.store with ⟨current, st, hx, hy⟩ | ⟨e, e', st, hx, hy, he⟩
  · simp only [on_store, on_selects, hx, hy]
    exact classed_passKey hS k _ wanted _
  · simp only [on_store, hx, hy, he.isNotFound]
    by_cases hgone : e.isNotFound = true
    · simp only [if_pos hgone]
      exact classed_passKey hS k _ wanted none
    · simp only [if_neg hgone]
      exact ⟨classed_failure he, rfl⟩

end

end Reconciler

-- ========================================================== both ways

open Controller (errorPolicy) in
/-- A failure of the API client is an object that is not there, or a lost race, whether it is kept
as it came or told in the classes of the library. If and only if it is no refusal because there is
no such object, it is also worth trying again or not either way, and the same follows from it. And a
pass of the engine goes the same way in both cases, except that it tells its error as the store
did. -/
theorem Error.classed_alike (cause : ClientError) (object : String) :
    (ofClient cause object).isNotFound = (client cause).isNotFound
      ∧ (ofClient cause object).isConflict = (client cause).isConflict
      ∧ ((ofClient cause object).isRetriable = (client cause).isRetriable
        ↔ ∀ r, cause = .rejected r → r.code ≠ 404)
      ∧ (errorPolicy (ofClient cause object) = errorPolicy (client cause)
        ↔ ∀ r, cause = .rejected r → r.code ≠ 404)
      ∧ ∀ {σ τ β : Type} [DecidableEq β] [Resource β] (r : Reconciler σ τ β) (S : Store σ β),
        r.store.Classes S → ∀ s,
          (∀ desired, Reconciler.SamePass (r.reconcileSet desired s)
            ((r.on S).reconcileSet desired s))
          ∧ ∀ k wanted, Reconciler.SamePass (r.reconcileObject k wanted s)
            ((r.on S).reconcileObject k wanted s) := by
  have hretry : (ofClient cause object).isRetriable = (client cause).isRetriable
      ↔ ∀ r, cause = .rejected r → r.code ≠ 404 := by
    rw [← isNotFound_client_eq_false_iff]
    constructor
    · intro hsame
      by_contra hgone
      obtain ⟨hraw, htold⟩ := isRetriable_of_isNotFound object (Bool.not_eq_false _ ▸ hgone)
      rw [hraw, htold] at hsame
      cases hsame
    · exact isRetriable_ofClient object
  obtain ⟨hgone, hlost⟩ := class_ofClient cause object
  refine ⟨hgone, hlost, hretry, ?_, ?_⟩
  · rw [← hretry]
    exact Controller.errorPolicy_eq_iff
  · intro σ τ β _ _ r S hS s
    exact ⟨fun desired => Reconciler.classed_reconcileSet hS s desired,
      fun k wanted => Reconciler.classed_reconcileObject hS k s wanted⟩

/-- A store that refuses every call. -/
def Store.refusing (e : Error) : Store σ β where
  list _ _ st := (.error e, st)
  get _ st := (.error e, st)
  create _ st := (.error e, st)
  replace _ st := (.error e, st)
  delete _ _ st := (.error e, st)

theorem Store.refusing_classes {e e' : Error} (h : e.Classed e') :
    (refusing e : Store σ β).Classes (refusing e') where
  list _ _ st := Or.inr ⟨e, e', st, rfl, rfl, h⟩
  get _ st := Or.inr ⟨e, e', st, rfl, rfl, h⟩
  create _ st := Or.inr ⟨e, e', st, rfl, rfl, h⟩
  replace _ st := Or.inr ⟨e, e', st, rfl, rfl, h⟩
  delete _ _ st := Or.inr ⟨e, e', st, rfl, rfl, h⟩

/-- A server that says of each write that someone was faster: it is worth trying again soon, and a
pass over one child comes back after five seconds. -/
theorem Error.classed_alike_of_lost_race :
    let lost : ClientError := .rejected ⟨"Failure", "try again", "Conflict", 409⟩
    let r := (Sealing.reconciler .inPlace).on (Store.refusing (.client lost))
    Controller.errorPolicy (ofClient lost "ns/a") = Controller.errorPolicy (client lost)
      ∧ Reconciler.SamePass (r.reconcileObject (Sealing.key "a") true ⟨Sealing.group, 0, []⟩)
        ((r.on (Store.refusing (ofClient lost "ns/a"))).reconcileObject (Sealing.key "a") true
          ⟨Sealing.group, 0, []⟩)
      ∧ (r.reconcileObject (Sealing.key "a") true ⟨Sealing.group, 0, []⟩).1.requeueAfter
        = some (Duration.ofSeconds 5) := by
  intro lost r
  obtain ⟨-, -, -, hpolicy, hpasses⟩ := Error.classed_alike lost "ns/a"
  have hS : r.store.Classes (Store.refusing (ofClient lost "ns/a")) :=
    Store.refusing_classes (.client lost "ns/a")
  refine ⟨hpolicy.2 ?_, (hpasses r _ hS _).2 _ _, rfl⟩
  intro _ h
  obtain rfl := ClientError.rejected.inj h
  decide

/-- That an object is not there is worth another attempt soon only in the classes of the library. -/
theorem Error.gone_retried_only_if_classed :
    (ofClient (.rejected ⟨"Failure", "m", "r", 404⟩) "db/main").isRetriable
      ≠ (client (.rejected ⟨"Failure", "m", "r", 404⟩)).isRetriable := by
  decide

end ControlLoop
