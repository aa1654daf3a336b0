/-
What a pass finds where it writes, if others write to the store between
any two of its calls.

# Replacements

A replacement carries the version that the child had when it was
listed. Versions are given out once, so where it lands, it finds the
very object that was listed and that the strategy was shown, and not a
newer one, nor another one that was created under the same name.

# Deletions

A deletion carries nothing but the key. It is asked for because of what
was listed: a child that was not going away, that nobody wanted and the
strategy let go, or that was released and can only be changed by
creating it anew. But it takes away whatever lies under the key by then
(`delete_of_unseen`). If nobody else wrote to that key since the
listing, this is the child that was listed, as nothing in the pass
itself writes to a key before its turn.

`Underway` says this for the keys still to be handled and the writes
that landed so far, and every call of the pass keeps it.
-/
import ControlLoop.Proofs.Engine.Sealing
import ControlLoop.Proofs.Store.Shared

namespace ControlLoop.Reconciler

variable {τ β : Type} [DecidableEq β] [Resource β]

/-- What is known of a write that landed, given the children that were listed: a creation found the
key free, a replacement found the child that it was made from, and a deletion did so unless others
wrote to the key in the meantime. -/
def Warrants {σ : Type} (r : Reconciler σ τ β) (desired : SortedSet Key)
    (listed : SortedMap Key (Object β)) (l : Landing β) : Prop :=
  match l.write with
  | .create _ => l.found = none
  | .replace next => ∃ o t, listed.get? next.key = some o
      ∧ Asks r next.key (desired.contains next.key) (some o) t l.write ∧ l.found = some o
  | .delete k _ => ∃ o t, listed.get? k = some o
      ∧ Asks r k (desired.contains k) (some o) t l.write
      ∧ (l.found = some o ∨ ∃ w ∈ l.meanwhile, w.key = k)

/-- A pass that has listed a store and has some keys still to handle. -/
structure Underway {σ : Type} (r : Reconciler σ τ β) (desired : SortedSet Key) (m : Memory β)
    (ks : List Key) (st : Shared β) : Prop where
  nodup : ks.Nodup
  since : Memory.Since m st.memory
  /-- Under the keys still to be handled only others can have written. -/
  unwritten : ∀ k ∈ ks, st.memory.object? k = m.object? k ∨ ∃ w ∈ st.meanwhile, w.key = k
  warrants : ∀ l ∈ st.landings, r.Warrants desired (r.owned m) l

namespace Underway

variable {σ : Type} {r : Reconciler σ τ β} {desired : SortedSet Key} {m : Memory β} {k : Key}
  {ks : List Key} {st : Shared β}

theorem tail (h : Underway r desired m (k :: ks) st) : Underway r desired m ks st where
  nodup := (List.nodup_cons.1 h.nodup).2
  since := h.since
  unwritten := fun k' hk' => h.unwritten k' (List.mem_cons_of_mem _ hk')
  warrants := h.warrants

theorem turn (h : Underway r desired m ks st) : Underway r desired m ks st.turn where
  nodup := h.nodup
  since := h.since.trans (Memory.since_foldl_after _ _)
  unwritten := by
    intro k hk
    by_cases hw : ∃ w ∈ st.others.headD [], w.key = k
    · obtain ⟨w, hmem, heq⟩ := hw
      exact Or.inr ⟨w, List.mem_append_right _ hmem, heq⟩
    · -- none of the others wrote to the key, so it is as it was before their turn
      have hsame : st.turn.memory.object? k = st.memory.object? k :=
        Memory.object?_foldl_after _ fun w hmem heq => hw ⟨w, hmem, heq⟩
      rw [hsame]
      rcases h.unwritten k hk with hold | ⟨w, hmem, heq⟩
      · exact Or.inl hold
      · exact Or.inr ⟨w, List.mem_append_left _ hmem, heq⟩
  warrants := h.warrants

theorem landed (h : Underway r desired m (k :: ks) st) {w : Write β} (hkey : w.key = k)
    (hw : r.Warrants desired (r.owned m) ⟨w, st.memory.object? w.key, st.meanwhile⟩) :
    Underway r desired m ks (st.landed w) where
  nodup := h.tail.nodup
  since := h.since.trans (Memory.since_after _ w)
  unwritten := by
    intro k' hk'
    have hne : k' ≠ w.key := fun heq =>
      (List.nodup_cons.1 h.nodup).1 (hkey ▸ heq ▸ hk')
    have hsame := (Memory.agreesExcept_after st.memory w).object? hne
    show (st.memory.after w).object? k' = _ ∨ _
    rw [hsame]
    exact h.tail.unwritten k' hk'
  warrants := by
    intro l hl
    rcases List.mem_append.1 hl with hl | hl
    · exact h.warrants l hl
    · rw [List.mem_singleton.1 hl]
      exact hw

/-- If the memory admits the write that is asked for, the write is made to the key whose turn it is,
and is warranted. -/
theorem warrants_of_admits (h : Underway r desired m (k :: ks) st) (hm : m.Sound)
    (hkeeps : r.strategy.KeepsIdentity) {t : τ} {w : Write β}
    (hw : r.writeFor k (desired.contains k) ((r.owned m).get? k) t = some w)
    (hadmits : st.memory.Admits w) :
    w.key = k ∧ r.Warrants desired (r.owned m) ⟨w, st.memory.object? w.key, st.meanwhile⟩ := by
  have hasks := asks_of_writeFor hw
  generalize hcurrent : (r.owned m).get? k = current at hasks
  have hwhy := hasks
  generalize hwanted : desired.contains k = wanted at hasks
  -- a deletion finds what was listed, unless others wrote there
  have hfound : ∀ {o}, current = some o →
      st.memory.object? k = some o ∨ ∃ w ∈ st.meanwhile, w.key = k := by
    rintro o rfl
    rw [← (get?_owned_eq_some.1 hcurrent).1]
    exact h.unwritten k List.mem_cons_self
  cases hasks with
  | create => exact ⟨key_claimed r k _, hadmits⟩
  | @recreate o =>
      exact ⟨rfl, o, t, hcurrent, hwhy, hfound rfl⟩
  | @turnDown o =>
      exact ⟨rfl, o, t, hcurrent, hwhy, hfound rfl⟩
  | @replace o next schedules t t' hlive hplan hne =>
      -- the version that lands was the version of the child that was listed
      obtain ⟨holder, hholder, hversion⟩ := hadmits
      have hthere := (get?_owned_eq_some.1 hcurrent).1
      obtain ⟨rfl, rfl⟩ := h.since.eq_of_version hm hthere hholder
        (hversion.symm.trans (resourceVersion_of_plan hkeeps hplan))
      exact ⟨rfl, holder, t, hcurrent, hwhy, hholder⟩

theorem calls (h : Underway r desired m (k :: ks) st) (hm : m.Sound)
    (hkeeps : r.strategy.KeepsIdentity) {t : τ} {st' : Shared β}
    (hcalls : Calls Shared.store k st
      (r.writeFor k (desired.contains k) ((r.owned m).get? k) t) st') :
    Underway r desired m ks st' := by
  have hafter : ∀ w, r.writeFor k (desired.contains k) ((r.owned m).get? k) t = some w →
      Underway r desired m ks (Shared.store.after st w) := by
    intro w hw
    rcases st.after_cases w with hrefused | ⟨hadmits, hlanded⟩
    · rw [hrefused]
      exact h.turn.tail
    · rw [hlanded]
      obtain ⟨hkey, hwarrants⟩ := h.turn.warrants_of_admits hm hkeeps hw hadmits
      exact h.turn.landed hkey hwarrants
  generalize hw : r.writeFor k (desired.contains k) ((r.owned m).get? k) t = w at hcalls
  cases hcalls with
  | nothing => exact h.tail
  | write w => exact hafter w hw
  | look o => exact (hafter _ hw).turn

end Underway

/-- Whatever others write between any two calls of a pass: a replacement of the pass lands only on
the very child that was listed and shown to the strategy, and a deletion that lands was asked for
because of a child that was listed, and takes this one away unless others wrote under its key since
the listing. -/
theorem warrants_reconcileSet {r : Reconciler (Shared β) τ β} (hr : r.store = Shared.store)
    (hkeeps : r.strategy.KeepsIdentity) (desired : SortedSet Key) {m : Memory β}
    (hm : m.Reachable) (others : List (List (Write β))) (t : τ) (ops : List ChildOperation) :
    ∀ l ∈ (r.reconcileSet desired ⟨.start m others, t, ops⟩).2.store.landings,
      r.Warrants desired (r.owned (Shared.start m others).turn.memory) l := by
  generalize hturn : (Shared.start m others).turn = st
  have hnone : ∀ l ∈ st.landings, r.Warrants desired (r.owned st.memory) l := by
    have hlandings : st.landings = [] := hturn ▸ rfl
    rw [hlandings]
    intro l hl
    cases hl
  have hsound : st.memory.Sound := by
    rw [← hturn]
    exact (hm.foldl_after _).sound
  have hlist : r.store.list r.parent.space r.selector (Shared.start m others)
      = (st.memory.list r.parent.space r.selector, { st with meanwhile := [] }) := by
    rw [hr, ← hturn]
    rfl
  by_cases hfail : st.memory.listsFail = true
  · rw [Memory.list, if_pos hfail] at hlist
    rw [reconcileSet_store_of_error desired hlist]
    exact hnone
  · rw [Memory.list, if_neg hfail] at hlist
    rw [reconcileSet_store_of_ok desired hlist, children_matching r hsound]
    have hbegin : Underway r desired st.memory (passKeys desired (r.owned st.memory))
        { st with meanwhile := [] } :=
      ⟨SortedMap.keys_nodup _, .refl _, fun k _ => Or.inl rfl, hnone⟩
    -- the pass is underway from the listing to its last key
    refine (?_ : Underway r desired st.memory [] _).warrants
    refine passAll_induction ?_ hbegin
    intro k ks st st' t h hcalls
    rw [hr] at hcalls
    exact h.calls hsound hkeeps hcalls

end ControlLoop.Reconciler

-- ============================================================= two passes

namespace ControlLoop.Sealing

def sharing (mode : UpdateMode) : Reconciler (Shared ConfigMap) Nat ConfigMap :=
  ⟨Shared.store, strategy mode, parent, ∅⟩

/-- A pass over the group. Behind its first write, which notes on `a` that a change waits, someone
takes the release of `b` back. -/
def crossed : PassState (Shared ConfigMap) Nat :=
  ((sharing .recreate).reconcileSet wanted
    ⟨.start group [[], [], [.replace ((member "b" true none).atVersion "2")]], 0, []⟩).2

/-- All that lands in this pass is warranted. The deletion of `b`, which is to be created anew, finds
it without the release that it was asked for. -/
theorem warrants_crossed :
    crossed.store.landings.map (fun l => (l.write.key.name, l.found.map (·.metadata.resourceVersion)))
        = [("a", some (some "1")), ("b", some (some "6")), ("c", some (some "3")), ("e", none)]
      ∧ ∀ l ∈ crossed.store.landings,
        (sharing .recreate).Warrants wanted ((sharing .recreate).owned group) l :=
  ⟨by decide +kernel, Reconciler.warrants_reconcileSet rfl (keepsIdentity_strategy .recreate) wanted
    reachable_group _ 0 []⟩

/-- A pass that finds its only child unwanted. Between the listing and its deletion, someone writes
to the child. -/
def overtaken : PassState (Shared ConfigMap) Nat :=
  ((sharing .recreate).reconcileSet ∅
    ⟨.start lone [[], [.replace ((member "a" true (some ∅)).atVersion "1")]], 0, []⟩).2

theorem overtaken_deletes_unseen :
    ((sharing .recreate).owned lone).toList.map (fun e => (e.1, e.2.metadata.resourceVersion))
        = [(key "a", some "1")]
      ∧ overtaken.store.landings.map (fun l => (l.write, l.found.map (·.metadata.resourceVersion)))
        = [(.delete (key "a") .background, some (some "2"))] := by
  decide +kernel

end ControlLoop.Sealing
