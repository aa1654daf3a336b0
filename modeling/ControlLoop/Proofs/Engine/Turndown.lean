/-
A child that nobody wants stays until nothing speaks against its going.

# One pass

Of a child that is not wanted and not going away the strategy is asked
once in a pass whether there is a reason to keep it. With a reason the
pass leaves the key alone and tells the strategy what was kept and why;
without one it does at the key what a deletion does, and tells it
nothing (`agreesAt_of_unwanted`, `notices_of_unwanted`).

# A run

Rounds follow each other, each with failures, a strategy and wanted keys
of its own, as long as the key is never wanted. A round frees the key if
its listing succeeds, the strategy has no reason and the deletion is not
refused; before that the child is held as it was, and afterwards the key
is nobody's and stays free (`turndown_over_rounds`). So there is one
deletion at most, and neither a creation nor a replacement.

This is so for children in the parent's namespace, which are all that a
pass lists, and as long as updates leave every object in its place: an
update that gives another child the key and the version of a kept one
writes over it (`kept_child_overwritten`).
-/
import ControlLoop.Proofs.Engine.Effects
import ControlLoop.Proofs.Engine.Notices

namespace ControlLoop

variable {τ β : Type}

-- ========================================================= a deletion

namespace Memory

/-- What a deletion counts, where there is something to delete. -/
theorem count_delete {m : Memory β} {k : Key} {o : Object β} (ho : m.object? k = some o)
    (kind : WriteKind) :
    (m.delete k).2.count kind k
      = m.count kind k + if kind = .delete ∧ m.refusal? k = none then 1 else 0 := by
  rcases m.delete_cases k with ⟨e, hr, h⟩ | ⟨-, hnone, -⟩ | ⟨hr, -, h⟩
  · rw [h, hr]
    simp
  · rw [ho] at hnone
    cases hnone
  · rw [h, hr, count_record]
    simp [count, eq_comm]

/-- A deletion does the same at a key wherever the same is stored there and it fares the same. -/
theorem AgreesAt.delete {m m' : Memory β} {k : Key} (h : AgreesAt k m m')
    (hr : m'.refusal? k = m.refusal? k) : AgreesAt k (m.delete k).2 (m'.delete k).2 where
  object? := by rw [object?_delete, object?_delete, hr, h.object?]
  count := fun kind => by
    cases ho : m.object? k with
    | some o => rw [count_delete ho, count_delete (h.object?.trans ho), hr, h.count]
    | none =>
        have hsame : ∀ {m : Memory β}, m.object? k = none → (m.delete k).2 = m := by
          intro m ho
          rcases m.delete_cases k with ⟨e, -, hc⟩ | ⟨-, -, hc⟩ | ⟨-, ⟨o, hthere⟩, -⟩
          · rw [hc]
          · rw [hc]
          · rw [ho] at hthere
            cases hthere
        rw [hsame ho, hsame (h.object?.trans ho), h.count]

end Memory

-- =========================================================== one pass

namespace Reconciler

variable [DecidableEq β] [Resource β]

/-- What the strategy answers in a pass when it is asked about a child that nobody wants. -/
def answer (r : Reconciler (Memory β) τ β) (desired : SortedSet Key) (s : PassState (Memory β) τ)
    (k : Key) (o : Object β) : Option OrphanStatus :=
  (r.strategy.prepareTurndown k o (r.turn desired s k).strategy).1

section

variable {r : Reconciler (Memory β) τ β} (hr : r.store = Memory.store) (hv : r.PlansKeepVersion)
  {desired : SortedSet Key} {s : PassState (Memory β) τ} (hm : s.store.Reachable)
  (hl : s.store.listsFail = false) {k : Key} (hk : k ∉ desired)

include hr hv hm hl hk

variable {o : Object β} (ho : (r.owned s.store).get? k = some o)
  (hlive : o.metadata.isTerminating = false)

include ho hlive

/-- At the key of an unwanted child a pass does nothing, if there is a reason to keep it, and else
what a deletion does. -/
theorem agreesAt_of_unwanted :
    Memory.AgreesAt k
      (if (r.answer desired s k o).isSome then s.store else (s.store.delete k).2)
      (r.reconcileSet desired s).2.store := by
  have hunwanted : desired.contains k = false := Bool.eq_false_iff.2 hk
  have hmem : k ∈ passKeys desired (r.owned s.store) :=
    mem_passKeys.2 (Or.inr (Option.isSome_iff_exists.2 ⟨o, ho⟩))
  have hturn : Memory.AgreesAt k s.store (r.turn desired s k).store := agreesAt_turn hr hv hm k
  have hrefusal : (r.turn desired s k).store.refusal? k = s.store.refusal? k :=
    congrFun (refusal?_turn hr hv hm k) k
  have hlast := agreesAt_reconcileSet hr hv hm hl hmem
  rw [hunwanted, ho, passKey_store hr] at hlast
  rcases hask : r.strategy.prepareTurndown k o (r.turn desired s k).strategy with ⟨_ | reason, t⟩
  · obtain ⟨p, hdelete⟩ := writeFor_of_turnedDown hlive hask
    rw [hdelete] at hlast
    rw [answer, hask]
    exact (hturn.delete hrefusal).trans hlast
  · rw [writeFor_of_kept hlive hask] at hlast
    rw [answer, hask]
    exact hturn.trans hlast

omit hv in
/-- Of an unwanted child a pass asks once whether there is a reason to keep it, and if there is, it
tells that the child is kept for this reason, once. -/
theorem notices_of_unwanted :
    ((r.notices desired s).filter (·.key = k)).filter (·.isTurndown)
      = .asked k o (r.answer desired s k o)
        :: (r.answer desired s k o).toList.map (.kept k o) := by
  have hunwanted : desired.contains k = false := Bool.eq_false_iff.2 hk
  have hmem : k ∈ passKeys desired (r.owned s.store) :=
    mem_passKeys.2 (Or.inr (Option.isSome_iff_exists.2 ⟨o, ho⟩))
  rw [filter_notices hr hm hl hmem, hunwanted, ho, answer]
  simp only [noticesFor, noticesForTurnDown, if_neg (Bool.eq_false_iff.1 hlive)]
  cases (r.strategy.prepareTurndown k o (r.turn desired s k).strategy).1 with
  | none => rfl
  | some reason => rfl

end

/-- A pass leaves a free key alone that nobody wants, and says nothing about it. -/
theorem agreesAt_of_absent {r : Reconciler (Memory β) τ β} (hr : r.store = Memory.store)
    (hv : r.PlansKeepVersion) {desired : SortedSet Key} {s : PassState (Memory β) τ}
    (hm : s.store.Reachable) {k : Key} (hk : k ∉ desired) (hfree : s.store.object? k = none) :
    Memory.AgreesAt k s.store (r.reconcileSet desired s).2.store
      ∧ (r.notices desired s).filter (·.key = k) = [] := by
  by_cases hl : s.store.listsFail = true
  · rw [reconcileSet_of_listsFail hr hl, notices_of_listsFail hr hl]
    exact ⟨.refl _ _, rfl⟩
  · have hlists := Bool.eq_false_iff.2 hl
    have hnot : k ∉ passKeys desired (r.owned s.store) := fun hmem => by
      rcases mem_passKeys.1 hmem with hwanted | howned
      · exact hk hwanted
      · obtain ⟨o, ho⟩ := Option.isSome_iff_exists.1 howned
        rw [(get?_owned_eq_some.1 ho).1] at hfree
        cases hfree
    exact ⟨agreesAt_reconcileSet_of_notMem hr hv hm hlists hnot,
      filter_notices_of_notMem hr hm hlists hnot⟩

end Reconciler

-- ============================================================== rounds

/-- One pass of a run: what fails in it, what it is told, and what is wanted. -/
structure Round (τ β : Type) where
  failures : Memory.Failures
  strategy : Strategy τ β
  desired : SortedSet Key

namespace Round

variable [DecidableEq β] [Resource β] (p : Parent) (selector : TextMap)

/-- Who makes the pass. -/
def reconciler (x : Round τ β) : Reconciler (Memory β) τ β :=
  ⟨Memory.store, x.strategy, p, selector⟩

/-- The state in which it is made. -/
def opening (x : Round τ β) (s : PassState (Memory β) τ) : PassState (Memory β) τ :=
  { s with store := s.store.under x.failures }

/-- The state that it leaves. -/
def play (x : Round τ β) (s : PassState (Memory β) τ) : PassState (Memory β) τ :=
  ((x.reconciler p selector).reconcileSet x.desired (x.opening s)).2

/-- What the strategy is shown and asked in it. -/
def notices (x : Round τ β) (s : PassState (Memory β) τ) : List (Notice β) :=
  (x.reconciler p selector).notices x.desired (x.opening s)

/-- What the strategy answers in it when it is asked about a child. -/
def answer (x : Round τ β) (k : Key) (o : Object β) (s : PassState (Memory β) τ) :
    Option OrphanStatus :=
  (x.reconciler p selector).answer x.desired (x.opening s) k o

/-- The key of a child gets free in it: the children can be listed, there is no reason to keep this
one, and its deletion is not refused. -/
def frees (x : Round τ β) (k : Key) (o : Object β) (s : PassState (Memory β) τ) : Bool :=
  !x.failures.listsFail && (x.answer p selector k o s).isNone
    && ((x.opening s).store.refusal? k).isNone

/-- Nobody wants a key in it, and updates leave every child in its place. -/
structure Spares (x : Round τ β) (k : Key) : Prop where
  unwanted : k ∉ x.desired
  keepsPlace : x.strategy.KeepsPlace

/-- The state after some rounds. -/
def afterAll (rounds : List (Round τ β)) (s : PassState (Memory β) τ) : PassState (Memory β) τ :=
  rounds.foldl (fun s x => x.play p selector s) s

/-- No round frees the key of a child. -/
def holds (k : Key) (o : Object β) : List (Round τ β) → PassState (Memory β) τ → Bool
  | [], _ => true
  | x :: rounds, s => !x.frees p selector k o s && holds k o rounds (x.play p selector s)

section

variable {p selector} {x : Round τ β} {s : PassState (Memory β) τ} {k : Key}

omit [DecidableEq β] [Resource β] in
theorem agreesAt_opening : Memory.AgreesAt k s.store (x.opening s).store := ⟨rfl, fun _ => rfl⟩

variable (hm : s.store.Reachable)

include hm

theorem reachable_play : (x.play p selector s).store.Reachable :=
  Reconciler.reachable_reconcileSet rfl x.desired (hm.under x.failures)

variable (hx : x.Spares k)

include hx

/-- A round leaves a free key alone, and says nothing about it. -/
theorem play_of_absent (hfree : s.store.object? k = none) :
    Memory.AgreesAt k s.store (x.play p selector s).store
      ∧ (x.notices p selector s).filter (·.key = k) = [] := by
  have hv := (Reconciler.plansKeepKey_of_keepsPlace (r := x.reconciler p selector)
    hx.keepsPlace).plansKeepVersion
  obtain ⟨hagree, hnotices⟩ := Reconciler.agreesAt_of_absent (r := x.reconciler p selector)
    (s := x.opening s) rfl hv (hm.under x.failures) hx.unwanted hfree
  exact ⟨agreesAt_opening.trans hagree, hnotices⟩

variable {o : Object β} (ho : (p.children selector s.store).get? k = some o)
  (hlive : o.metadata.isTerminating = false)

include ho hlive

/-- A round leaves an unwanted child as it is, or frees its key by a deletion. -/
theorem play_of_child :
    (x.play p selector s).store.object? k = (if x.frees p selector k o s then none else some o)
      ∧ ∀ kind, (x.play p selector s).store.count kind k
        = s.store.count kind k
          + if kind = .delete ∧ x.frees p selector k o s = true then 1 else 0 := by
  have hthere : (x.opening s).store.object? k = some o := (Parent.get?_children.1 ho).1
  have hcount : ∀ kind, (x.opening s).store.count kind k = s.store.count kind k := fun _ => rfl
  by_cases hl : x.failures.listsFail = true
  · have hsame : (x.play p selector s).store = (x.opening s).store := by
      rw [play, Reconciler.reconcileSet_of_listsFail (r := x.reconciler p selector)
        (s := x.opening s) rfl hl]
    have hfrees : x.frees p selector k o s = false := by
      rw [frees, hl]
      rfl
    rw [hsame, hfrees]
    exact ⟨hthere, fun kind => by simp [hcount]⟩
  · have hv := (Reconciler.plansKeepKey_of_keepsPlace (r := x.reconciler p selector)
      hx.keepsPlace).plansKeepVersion
    have hagree : Memory.AgreesAt k
        (if (x.answer p selector k o s).isSome then (x.opening s).store
          else ((x.opening s).store.delete k).2) (x.play p selector s).store :=
      Reconciler.agreesAt_of_unwanted (r := x.reconciler p selector) (s := x.opening s) rfl hv
        (hm.under x.failures) (Bool.eq_false_iff.2 hl) hx.unwanted ho hlive
    rw [hagree.object?]
    simp only [hagree.count]
    cases hanswer : x.answer p selector k o s with
    | some reason =>
        have hfrees : x.frees p selector k o s = false := by
          rw [frees, hanswer]
          simp
        simp only [hfrees, Option.isSome_some, if_true]
        exact ⟨hthere, fun kind => by simp [hcount]⟩
    | none =>
        have hfrees : x.frees p selector k o s = ((x.opening s).store.refusal? k).isNone := by
          rw [frees, hanswer, Bool.eq_false_iff.2 hl]
          rfl
        simp only [Option.isSome_none, Bool.false_eq_true, if_false, Memory.object?_delete,
          Memory.count_delete hthere, hthere, hfrees, hcount]
        cases (x.opening s).store.refusal? k with
        | none => simp
        | some e => simp

/-- Of an unwanted child the strategy is asked once in a round whose listing succeeds, and a child
that is kept is told of once, with the reason. -/
theorem notices_of_child :
    ((x.notices p selector s).filter (·.key = k)).filter (·.isTurndown)
      = if x.failures.listsFail then []
        else .asked k o (x.answer p selector k o s)
          :: (x.answer p selector k o s).toList.map (.kept k o) := by
  by_cases hl : x.failures.listsFail = true
  · rw [if_pos hl, notices, Reconciler.notices_of_listsFail (r := x.reconciler p selector)
      (s := x.opening s) rfl hl]
    rfl
  · rw [if_neg hl]
    exact Reconciler.notices_of_unwanted (r := x.reconciler p selector) (s := x.opening s) rfl
      (hm.under x.failures) (Bool.eq_false_iff.2 hl) hx.unwanted ho hlive

end

-- ================================================================ a run

section

variable {p selector} {k : Key}

theorem reachable_afterAll (rounds : List (Round τ β)) {s : PassState (Memory β) τ}
    (hm : s.store.Reachable) : (afterAll p selector rounds s).store.Reachable := by
  induction rounds generalizing s with
  | nil => exact hm
  | cons x rounds ih => exact ih (reachable_play hm)

/-- A key that is free and never wanted stays free. -/
theorem agreesAt_afterAll_of_absent {rounds : List (Round τ β)} {s : PassState (Memory β) τ}
    (hm : s.store.Reachable) (hrounds : ∀ x ∈ rounds, x.Spares k)
    (hfree : s.store.object? k = none) :
    Memory.AgreesAt k s.store (afterAll p selector rounds s).store := by
  induction rounds generalizing s with
  | nil => exact .refl _ _
  | cons x rounds ih =>
      have hplay : Memory.AgreesAt k s.store (x.play p selector s).store :=
        (play_of_absent hm (hrounds x List.mem_cons_self) hfree).1
      exact hplay.trans (ih (reachable_play hm)
        (fun y hy => hrounds y (List.mem_cons_of_mem _ hy)) (hplay.object?.trans hfree))

/-- A child that is never wanted is held as it was until a round frees its key by a deletion. -/
theorem afterAll_of_child {rounds : List (Round τ β)} {s : PassState (Memory β) τ} {o : Object β}
    (hm : s.store.Reachable) (hrounds : ∀ x ∈ rounds, x.Spares k)
    (ho : (p.children selector s.store).get? k = some o)
    (hlive : o.metadata.isTerminating = false) :
    (afterAll p selector rounds s).store.object? k
        = (if holds p selector k o rounds s then some o else none)
      ∧ ∀ kind, (afterAll p selector rounds s).store.count kind k
        = s.store.count kind k
          + if kind = .delete ∧ holds p selector k o rounds s = false then 1 else 0 := by
  -- along the rounds: as long as the key is held, the next round finds the child there
  induction rounds generalizing s with
  | nil => exact ⟨(Parent.get?_children.1 ho).1, fun kind => by simp [afterAll, holds]⟩
  | cons x rounds ih =>
      have hspares := hrounds x List.mem_cons_self
      have hrest : ∀ y ∈ rounds, y.Spares k := fun y hy => hrounds y (List.mem_cons_of_mem _ hy)
      obtain ⟨hobject, hcount⟩ := play_of_child hm hspares ho hlive
      cases hfrees : x.frees p selector k o s with
      | false =>
          rw [hfrees] at hobject
          have hchild : (p.children selector (x.play p selector s).store).get? k = some o :=
            Parent.get?_children_of_object?
              ((Parent.get?_children.1 ho).1.trans hobject.symm) ho
          obtain ⟨hobject', hcount'⟩ := ih (reachable_play hm) hrest hchild
          have hholds : holds p selector k o (x :: rounds) s
              = holds p selector k o rounds (x.play p selector s) := by
            rw [holds, hfrees]
            rfl
          rw [hholds]
          refine ⟨hobject', fun kind => ?_⟩
          rw [show afterAll p selector (x :: rounds) s
            = afterAll p selector rounds (x.play p selector s) from rfl, hcount' kind, hcount kind,
            hfrees]
          simp
      | true =>
          rw [hfrees] at hobject
          have hlater : Memory.AgreesAt k (x.play p selector s).store
              (afterAll p selector (x :: rounds) s).store :=
            agreesAt_afterAll_of_absent (reachable_play hm) hrest hobject
          have hholds : holds p selector k o (x :: rounds) s = false := by
            rw [holds, hfrees]
            rfl
          rw [hholds]
          refine ⟨hlater.object?.trans hobject, fun kind => ?_⟩
          rw [hlater.count kind, hcount kind, hfrees]
          simp

end

/-- Of a child that is never wanted and not going away, over any rounds and in the one that follows
them: it is stored as it was as long as no round frees its key, and nothing is stored there from then
on, so that one deletion at most is made and nothing is created or replaced. While it is held, a
round whose listing succeeds asks once whether there is a reason to keep it and tells once, with just
that reason, that it is kept, or tells nothing; and the round frees its key exactly if there is no
reason, the listing succeeds and the deletion is not refused. Once the key is free, nothing more is
said about it. -/
theorem turndown_over_rounds {p : Parent} {selector : TextMap} {s : PassState (Memory β) τ}
    {k : Key} {o : Object β} {rounds : List (Round τ β)} {x : Round τ β} (hm : s.store.Reachable)
    (ho : (p.children selector s.store).get? k = some o) (hlive : o.metadata.isTerminating = false)
    (hrounds : ∀ y ∈ rounds, y.Spares k) (hx : x.Spares k) :
    (afterAll p selector rounds s).store.object? k
        = (if holds p selector k o rounds s then some o else none)
      ∧ (afterAll p selector rounds s).store.count .delete k
        = s.store.count .delete k + (if holds p selector k o rounds s then 0 else 1)
      ∧ (afterAll p selector rounds s).store.count .create k = s.store.count .create k
      ∧ (afterAll p selector rounds s).store.count .replace k = s.store.count .replace k
      ∧ (holds p selector k o rounds s = true →
        ((x.notices p selector (afterAll p selector rounds s)).filter (·.key = k)).filter
            (·.isTurndown)
          = (if x.failures.listsFail then []
            else .asked k o (x.answer p selector k o (afterAll p selector rounds s))
              :: (x.answer p selector k o (afterAll p selector rounds s)).toList.map (.kept k o))
        ∧ (x.play p selector (afterAll p selector rounds s)).store.object? k
          = if x.frees p selector k o (afterAll p selector rounds s) then none else some o)
      ∧ (holds p selector k o rounds s = false →
        (x.notices p selector (afterAll p selector rounds s)).filter (·.key = k) = []
        ∧ (x.play p selector (afterAll p selector rounds s)).store.object? k = none) := by
  obtain ⟨hobject, hcount⟩ := afterAll_of_child hm hrounds ho hlive
  have hm' : (afterAll p selector rounds s).store.Reachable := reachable_afterAll rounds hm
  refine ⟨hobject, ?_, ?_, ?_, fun hheld => ?_, fun hfreed => ?_⟩
  · rw [hcount]
    cases holds p selector k o rounds s <;> simp
  · simp [hcount]
  · simp [hcount]
  · rw [hheld] at hobject
    have hchild : (p.children selector (afterAll p selector rounds s).store).get? k = some o :=
      Parent.get?_children_of_object? ((Parent.get?_children.1 ho).1.trans hobject.symm) ho
    exact ⟨notices_of_child hm' hx hchild hlive, (play_of_child hm' hx hchild hlive).1⟩
  · rw [hfreed] at hobject
    obtain ⟨hagree, hnotices⟩ := play_of_absent (p := p) hm' hx hobject
    exact ⟨hnotices, hagree.object?.trans hobject⟩

end Round

namespace Sealing

/-- A reason to keep a child. -/
def busy : OrphanStatus := ⟨"busy", "someone writes to it"⟩

/-- The strategy that keeps a child the first time that it is asked. -/
def guarded : Strategy Nat ConfigMap :=
  { strategy .recreate with
    prepareTurndown := fun _ _ n => (if n = 0 then some busy else none, n + 1) }

/-- A round in which nothing fails and nobody is wanted. -/
def calm : Round Nat ConfigMap := ⟨⟨∅, ∅, false⟩, guarded, ∅⟩

theorem spares_of_mem {k : Key} {rounds : List (Round Nat ConfigMap)}
    (hall : ∀ x ∈ rounds, x = calm) : ∀ x ∈ rounds, x.Spares k := fun x hx => by
  rw [hall x hx]
  refine ⟨Bool.false_ne_true, (keepsPlace_strategy .recreate).updateInPlace, fun mode k o t => ?_⟩
  cases mode with
  | recreate => rfl
  | inPlace => rfl

end Sealing

open Sealing in
/-- The only child of a group is kept in the first round and deleted in the second. -/
theorem Round.turndown_over_rounds_lone :
    ((calm.notices parent ∅ ⟨lone, 0, []⟩).filter (·.key = key "a")).filter (·.isTurndown)
        = [.asked (key "a") ((member "a" true none).atVersion "1") (some busy),
          .kept (key "a") ((member "a" true none).atVersion "1") busy]
      ∧ (Round.afterAll parent ∅ [calm] ⟨lone, 0, []⟩).store.object? (key "a")
        = some ((member "a" true none).atVersion "1")
      ∧ (Round.afterAll parent ∅ [calm, calm] ⟨lone, 0, []⟩).store.object? (key "a") = none
      ∧ (Round.afterAll parent ∅ [calm, calm] ⟨lone, 0, []⟩).store.count .delete (key "a") = 1 := by
  have ho : (parent.children ∅ lone).get? (key "a")
      = some ((member "a" true none).atVersion "1") := by decide
  have hnone : ∀ x ∈ ([] : List (Round Nat ConfigMap)), x.Spares (key "a") :=
    spares_of_mem (by simp)
  have hone : ∀ x ∈ [calm], x.Spares (key "a") := spares_of_mem (by simp)
  have htwo : ∀ x ∈ [calm, calm], x.Spares (key "a") := spares_of_mem (by simp)
  have hx := hone calm List.mem_cons_self
  obtain ⟨-, -, -, -, hheld, -⟩ :=
    Round.turndown_over_rounds (s := ⟨lone, 0, []⟩) reachable_lone ho rfl hnone hx
  obtain ⟨hfirst, -⟩ :=
    Round.turndown_over_rounds (s := ⟨lone, 0, []⟩) reachable_lone ho rfl hone hx
  obtain ⟨hsecond, hcount, -⟩ :=
    Round.turndown_over_rounds (s := ⟨lone, 0, []⟩) reachable_lone ho rfl htwo hx
  have hanswer : calm.answer parent ∅ (key "a") ((member "a" true none).atVersion "1")
      (Round.afterAll parent ∅ [] ⟨lone, 0, []⟩) = some busy := by decide
  refine ⟨?_, hfirst.trans (if_pos (by decide)), hsecond.trans (if_neg (by decide)),
    hcount.trans (by decide)⟩
  have hnotices := (hheld rfl).1
  rw [hanswer] at hnotices
  exact hnotices

namespace Sealing

/-- The strategy that keeps every child, and gives the second one the name and the version of the
first. -/
def usurping : Strategy Unit ConfigMap where
  newObject _ t := (⟨Metadata.empty, ConfigMap.empty⟩, t)
  updateInPlace k o t := (if k = key "b" then (moved "a" o).atVersion "1" else o, t)
  prepareTurndown _ _ t := (some busy, t)

/-- A round in which nothing fails and only the second child is wanted. -/
def usurped : Round Unit ConfigMap := ⟨⟨∅, ∅, false⟩, usurping, SortedMap.ofKeys [key "b"]⟩

/-- An object with the owner and the labels of a child, in another namespace than the parent. -/
def expatriate : Object ConfigMap :=
  (member "a" true none).modifyMetadata fun m => { m with space := some "abroad" }

/-- A store that holds nothing else. -/
def abroad : Memory ConfigMap := (Memory.empty.seed expatriate).2

end Sealing

open Sealing in
/-- A child that is kept is written over if an update gives another one its key and its version. And
an object with the owner and the labels of a child is not asked about if it is in another namespace
than the parent. -/
theorem Round.kept_child_overwritten :
    (pair.Reachable
      ∧ (parent.children ∅ pair).get? (key "a") = some ((member "a" true none).atVersion "1")
      ∧ ((member "a" true none).atVersion "1").metadata.isTerminating = false
      ∧ key "a" ∉ usurped.desired
      ∧ usurped.answer parent ∅ (key "a") ((member "a" true none).atVersion "1") ⟨pair, (), []⟩
        = some busy
      ∧ (usurped.play parent ∅ ⟨pair, (), []⟩).store.object? (key "a")
        ≠ some ((member "a" true none).atVersion "1")
      ∧ (usurped.play parent ∅ ⟨pair, (), []⟩).store.count .replace (key "a") = 1)
    ∧ (abroad.Reachable
      ∧ abroad.object? ⟨"abroad", "a"⟩ = some (expatriate.atVersion "1")
      ∧ parent.owns (expatriate.atVersion "1").metadata = true
      ∧ (expatriate.atVersion "1").metadata.matchesLabels ∅ = true
      ∧ (expatriate.atVersion "1").metadata.isTerminating = false
      ∧ ⟨"abroad", "a"⟩ ∉ usurped.desired
      ∧ usurped.answer parent ∅ ⟨"abroad", "a"⟩ (expatriate.atVersion "1") ⟨abroad, (), []⟩
        = some busy
      ∧ (usurped.notices parent ∅ ⟨abroad, (), []⟩).filter (·.key = ⟨"abroad", "a"⟩) = []) := by
  constructor
  · exact ⟨.seed _ reachable_lone, by decide, rfl, by decide, by decide, by decide +kernel,
      by decide +kernel⟩
  · exact ⟨.seed _ .empty, by decide, by decide, rfl, rfl, by decide, by decide, by decide +kernel⟩

end ControlLoop
