/-
A pass over a set of keys is the merge of the passes over its keys.

The pass over a set decides everything from one listing, made before
the first write. A pass over a single object reads that object when it
begins. The two see the same, because nothing that is done about one
key disturbs what is stored under another (`Frame`): when the turn of a
key comes, reading it gives what the listing gave, in every branch of
what was done before it and however many writes failed.

So a set may be reconciled key by key, and what is shown for the one
way holds of the other.
-/
import ControlLoop.Proofs.Engine.Sealing

namespace ControlLoop.Reconciler

variable {τ β : Type} [DecidableEq β] [Resource β]

/-- Reconcile keys one after the other, each by a pass of its own: their outcomes, and the state in
the end. -/
def reconcileEach {σ : Type} (r : Reconciler σ τ β) (desired : SortedSet Key) :
    List Key → PassState σ τ → List Outcome × PassState σ τ
  | [], s => ([], s)
  | k :: ks, s =>
    let (outcome, s) := r.reconcileObject k (desired.contains k) s
    let (outcomes, s) := r.reconcileEach desired ks s
    (outcome :: outcomes, s)

section

variable {r : Reconciler (Memory β) τ β} (hr : r.store = Memory.store)
  {desired : SortedSet Key} {s : PassState (Memory β) τ}

include hr

/-- A pass over one object handles its key with the child that is stored there. -/
theorem reconcileObject_eq (k : Key) (wanted : Bool) :
    r.reconcileObject k wanted s = r.passKey k wanted ((s.store.object? k).filter r.selects) s := by
  simp only [reconcileObject, store_get hr]

/-- A run from a listing is a run that reads each key anew, if the listing is right about all the
keys to be handled. -/
theorem passAll_eq_reconcileEach (hv : r.PlansKeepVersion)
    {existing : SortedMap Key (Object β)} {ks : List Key} (h : Ready existing ks s.store)
    (hsame : ∀ k ∈ ks, existing.get? k = (s.store.object? k).filter r.selects) :
    r.passAll desired existing ks s = r.reconcileEach desired ks s := by
  -- along the keys, from any state: what is listed of the keys to come stays right
  induction ks generalizing s with
  | nil => rfl
  | cons k ks ih =>
      have hk : existing.get? k = (s.store.object? k).filter r.selects :=
        hsame k List.mem_cons_self
      have hready := h.step hr hv (desired.contains k)
      have hagree := agreesExcept_passKey hr hv h.reachable.sound
        (h.seen k List.mem_cons_self) (desired.contains k)
      have hlater : ∀ k' ∈ ks, existing.get? k'
          = ((r.passKey k (desired.contains k) (existing.get? k) s).2.store.object? k').filter
              r.selects := by
        intro k' hk'
        have hne : k' ≠ k := fun heq => (List.nodup_cons.1 h.nodup).1 (heq ▸ hk')
        rw [hagree.object? hne]
        exact hsame k' (List.mem_cons_of_mem _ hk')
      simp only [passAll, reconcileEach, reconcileObject_eq hr, ← hk, ih hready hlater]

/-- When a listing succeeds, a pass over a set comes to the same as passes over its keys, one after
the other: the same store, the same state of the strategy, the same operations and the same
outcome. -/
theorem reconcileSet_eq_reconcileEach (hkeeps : r.strategy.KeepsIdentity)
    (hspace : ∀ k ∈ desired, k.space = r.parent.space) (hm : s.store.Reachable)
    (hl : s.store.listsFail = false) :
    r.reconcileSet desired s
      = (Outcome.mergeAll
          (r.reconcileEach desired
            (desired.union (SortedMap.ofKeys (r.owned s.store).keys)).keys s).1,
        (r.reconcileEach desired
          (desired.union (SortedMap.ofKeys (r.owned s.store).keys)).keys s).2) := by
  have hv := plansKeepVersion_of_keepsIdentity hkeeps
  have hsame : ∀ k ∈ passKeys desired (r.owned s.store),
      (r.owned s.store).get? k = (s.store.object? k).filter r.selects := by
    intro k hk
    have hhere : k.space = r.parent.space := by
      rcases mem_passKeys.1 hk with hwanted | howned
      · exact hspace k hwanted
      · obtain ⟨o, ho⟩ := Option.isSome_iff_exists.1 howned
        exact (get?_owned_eq_some.1 ho).2.1
    rw [get?_owned]
    simp only [hhere, decide_true, Bool.true_and]
  rw [reconcileSet_of_lists hr hm.sound hl,
    passAll_eq_reconcileEach hr hv (r.ready_passKeys desired hm) hsame]
  rfl

end

open Sealing in
/-- A pass over a group in which one child waits, one is created anew, the deletion of one fails, one
finds its name taken and one is created. -/
theorem reconcileSet_eq_reconcileEach_group :
    (reconciler .recreate).reconcileSet wanted ⟨group.failWrites "c", 0, []⟩
        = (Outcome.mergeAll ((reconciler .recreate).reconcileEach wanted
              [key "a", key "b", key "c", key "d", key "e"] ⟨group.failWrites "c", 0, []⟩).1,
          ((reconciler .recreate).reconcileEach wanted
            [key "a", key "b", key "c", key "d", key "e"] ⟨group.failWrites "c", 0, []⟩).2)
      ∧ ((reconciler .recreate).reconcileSet wanted ⟨group.failWrites "c", 0, []⟩).2.operations
        = [.schedule, .update, .recreate, .create] := by
  have hkeys : (wanted.union (SortedMap.ofKeys
      ((reconciler .recreate).owned (group.failWrites "c")).keys)).keys
      = [key "a", key "b", key "c", key "d", key "e"] := by decide
  have hmerge := reconcileSet_eq_reconcileEach (r := reconciler .recreate)
    (s := ⟨group.failWrites "c", 0, []⟩) rfl (keepsIdentity_strategy .recreate)
    (fun _ => space_of_mem_wanted) (.failWrites "c" reachable_group) rfl
  rw [hkeys] at hmerge
  exact ⟨hmerge, by decide⟩

end ControlLoop.Reconciler
