/-
What a pass over a store in memory does to each key, and what it leaves
alone.

# One key

Handling a key leaves the store that the one write asked for leaves
(`passKey_store`). If updates leave a child where it is, or keep the
version that it carries, that write touches no other key
(`agreesExcept_passKey`): a replacement lands only where its version is
stored.

# A run over keys

So as long as the keys still to be handled are different and each child
that was seen at one of them is stored there as it was seen
(`Ready`), handling the next key keeps this so. The turn of every key
comes with its child as it was in the beginning, and nothing that
happens afterwards touches it again (`agreesAt_reconcileSet`).

# A whole pass

The children that a pass over a sound store works on are the objects of
the parent's namespace that the reconciler selects (`owned`). `turn` is
the state in which a key is handled.
-/
import ControlLoop.Proofs.Engine.Calls

namespace ControlLoop

variable {τ β : Type}

-- =========================================================== strategies

/-- What an update function may not touch: the names under which an object is stored, and the
version by which a replacement is guarded. -/
structure Object.SameIdentity (o o' : Object β) : Prop where
  name : o'.metadata.name = o.metadata.name
  space : o'.metadata.space = o.metadata.space
  resourceVersion : o'.metadata.resourceVersion = o.metadata.resourceVersion

/-- The update functions of a strategy leave the identity of an object alone. -/
structure Strategy.KeepsIdentity (S : Strategy τ β) : Prop where
  updateInPlace : ∀ k o t, Object.SameIdentity o (S.updateInPlace k o t).1
  roll : ∀ mode k o t, Object.SameIdentity o (S.roll mode k o t).1

/-- The update functions of a strategy leave every object where it is. -/
structure Strategy.KeepsPlace (S : Strategy τ β) : Prop where
  updateInPlace : ∀ k o t, (S.updateInPlace k o t).1.key = o.key
  roll : ∀ mode k o t, (S.roll mode k o t).1.key = o.key

/-- The update functions of a strategy are `f` where nobody is disturbed, and `g` with the disruptive
changes of the mode of the moment. They keep no state, and neither moves an object nor changes its
version. -/
structure Strategy.UpdatesBy (S : Strategy τ β) (f : Key → Object β → Object β)
    (g : UpdateMode → Key → Object β → Object β) : Prop where
  updateInPlace : ∀ k o t, S.updateInPlace k o t = (f k o, t)
  roll : ∀ k o t, S.roll (S.updateMode t) k o t = (g (S.updateMode t) k o, t)
  key_update : ∀ k o, (f k o).key = o.key
  key_roll : ∀ k o t, (g (S.updateMode t) k o).key = o.key
  version_update : ∀ k o, (f k o).metadata.resourceVersion = o.metadata.resourceVersion
  version_roll : ∀ k o t,
    (g (S.updateMode t) k o).metadata.resourceVersion = o.metadata.resourceVersion

/-- The children of a parent among the stored objects. -/
def Parent.children (p : Parent) (selector : TextMap) (m : Memory β) : SortedMap Key (Object β) :=
  m.objects.filter fun k o =>
    k.space = p.space && (p.owns o.metadata && o.metadata.matchesLabels selector)

/-- They are the objects of its namespace that it owns and that carry every label. -/
theorem Parent.get?_children {p : Parent} {selector : TextMap} {m : Memory β} {k : Key}
    {o : Object β} :
    (p.children selector m).get? k = some o ↔ m.object? k = some o ∧ k.space = p.space
      ∧ p.owns o.metadata = true ∧ o.metadata.matchesLabels selector = true := by
  rw [children, SortedMap.get?_filter, Option.filter_eq_some_iff, Bool.and_eq_true,
    decide_eq_true_eq, Bool.and_eq_true]
  rfl

/-- Where an object is stored as before, it is a child if it was one. -/
theorem Parent.get?_children_of_object? {p : Parent} {selector : TextMap} {m m' : Memory β}
    {k : Key} {o : Object β} (hsame : m'.object? k = m.object? k)
    (ho : (p.children selector m').get? k = some o) : (p.children selector m).get? k = some o := by
  rw [get?_children] at ho ⊢
  rw [← hsame]
  exact ho

namespace Reconciler

variable [DecidableEq β] [Resource β]

/-- Planned writes that claim another key carry the version that the child carries. -/
def PlansKeepVersion {σ : Type} (r : Reconciler σ τ β) : Prop :=
  ∀ ⦃k current next schedules t t'⦄, r.plan k current t = (.write next schedules, t') →
    next.key ≠ current.key → next.metadata.resourceVersion = current.metadata.resourceVersion

/-- Planned writes claim no other key than the child has. -/
def PlansKeepKey {σ : Type} (r : Reconciler σ τ β) : Prop :=
  ∀ ⦃k current next schedules t t'⦄, r.plan k current t = (.write next schedules, t') →
    next.key = current.key

theorem PlansKeepKey.plansKeepVersion {σ : Type} {r : Reconciler σ τ β} (h : r.PlansKeepKey) :
    r.PlansKeepVersion := fun _ _ _ _ _ _ hplan hne => absurd (h hplan) hne

theorem plansKeepKey_of_keepsPlace {σ : Type} {r : Reconciler σ τ β}
    (h : r.strategy.KeepsPlace) : r.PlansKeepKey :=
  fun _ _ _ _ _ _ hplan => eq_of_plan Object.key (fun _ _ => rfl) h.updateInPlace
    (fun k o t => h.roll (r.strategy.updateMode t) k o t) hplan

theorem plansKeepKey_of_updatesBy {σ : Type} {r : Reconciler σ τ β}
    {f : Key → Object β → Object β} {g : UpdateMode → Key → Object β → Object β}
    (h : r.strategy.UpdatesBy f g) : r.PlansKeepKey :=
  fun _ _ _ _ _ _ hplan => eq_of_plan Object.key (fun _ _ => rfl)
    (fun k o t => by rw [h.updateInPlace, h.key_update])
    (fun k o t => by rw [h.roll, h.key_roll]) hplan

theorem resourceVersion_of_plan {σ : Type} {r : Reconciler σ τ β}
    (h : r.strategy.KeepsIdentity) {k : Key} {current next : Object β} {schedules : Bool} {t t' : τ}
    (hplan : r.plan k current t = (.write next schedules, t')) :
    next.metadata.resourceVersion = current.metadata.resourceVersion :=
  eq_of_plan (·.metadata.resourceVersion) (fun _ _ => rfl)
    (fun k o t => (h.updateInPlace k o t).resourceVersion)
    (fun k o t => (h.roll (r.strategy.updateMode t) k o t).resourceVersion) hplan

theorem plansKeepVersion_of_keepsIdentity {σ : Type} {r : Reconciler σ τ β}
    (h : r.strategy.KeepsIdentity) : r.PlansKeepVersion :=
  fun _ _ _ _ _ _ hplan _ => resourceVersion_of_plan h hplan

theorem plansKeepVersion_of_updatesBy {σ : Type} {r : Reconciler σ τ β}
    {f : Key → Object β → Object β} {g : UpdateMode → Key → Object β → Object β}
    (h : r.strategy.UpdatesBy f g) : r.PlansKeepVersion :=
  (plansKeepKey_of_updatesBy h).plansKeepVersion

-- ============================================================ one key

section

variable {r : Reconciler (Memory β) τ β} (hr : r.store = Memory.store)

include hr

omit [DecidableEq β] [Resource β] in
theorem store_get (k : Key) (m : Memory β) : r.store.get k m = (.ok (m.object? k), m) := by
  rw [hr]
  rfl

omit [DecidableEq β] [Resource β] in
theorem store_delete (k : Key) (p : Propagation) (m : Memory β) :
    r.store.delete k p m = m.delete k := by
  rw [hr]
  rfl

omit [DecidableEq β] [Resource β] in
theorem store_list (m : Memory β) :
    r.store.list r.parent.space r.selector m = (m.list r.parent.space r.selector, m) := by
  rw [hr]
  rfl

variable (k : Key) (s : PassState (Memory β) τ)

/-- The write that handling a key asks for is all that becomes of the store. -/
theorem passKey_store (wanted : Bool) (current : Option (Object β)) :
    (r.passKey k wanted current s).2.store
      = (r.writeFor k wanted current s.strategy).toList.foldl Memory.after s.store := by
  have hcalls := r.calls_passKey k s wanted current
  rw [hr] at hcalls
  exact hcalls.eq_foldl_after

end

/-- Handling a key touches what is stored under it alone, if the child that was seen there is
stored there. -/
theorem agreesExcept_passKey {r : Reconciler (Memory β) τ β} (hr : r.store = Memory.store)
    (hv : r.PlansKeepVersion) {s : PassState (Memory β) τ} (hm : s.store.Sound) {k : Key}
    {current : Option (Object β)} (hcur : ∀ o, current = some o → s.store.object? k = some o)
    (wanted : Bool) :
    Memory.AgreesExcept k s.store (r.passKey k wanted current s).2.store := by
  rw [passKey_store hr]
  cases hw : r.writeFor k wanted current s.strategy with
  | none => exact .refl _ _
  | some w =>
      cases asks_of_writeFor hw with
      | create =>
          have hagree := Memory.agreesExcept_create s.store
            (r.claimed k (r.strategy.newObject k s.strategy).1)
          rw [key_claimed] at hagree
          exact hagree
      | replace hlive hplan hne =>
          -- the new object may claim another key, but its version is stored under this one
          have hkey := hm.keyed (hcur _ rfl)
          exact Memory.agreesExcept_replace_of_version hm (hcur _ rfl) fun hne =>
            hv hplan (hkey.symm ▸ hne)
      | recreate hlive hplan => exact Memory.agreesExcept_delete s.store k
      | turnDown hlive hgo => exact Memory.agreesExcept_delete s.store k

theorem reachable_passKey {r : Reconciler (Memory β) τ β} (hr : r.store = Memory.store)
    {s : PassState (Memory β) τ} (hm : s.store.Reachable) (k : Key) (wanted : Bool)
    (current : Option (Object β)) : (r.passKey k wanted current s).2.store.Reachable := by
  rw [passKey_store hr]
  exact hm.foldl_after _

-- ===================================================== a run over keys

/-- The keys still to be handled are different, and each child that was seen at one of them is
stored there. -/
structure Ready (existing : SortedMap Key (Object β)) (ks : List Key) (m : Memory β) : Prop where
  reachable : m.Reachable
  nodup : ks.Nodup
  seen : ∀ k ∈ ks, ∀ o, existing.get? k = some o → m.object? k = some o

section

variable {r : Reconciler (Memory β) τ β} (hr : r.store = Memory.store) (hv : r.PlansKeepVersion)
  {desired : SortedSet Key} {existing : SortedMap Key (Object β)}

include hr hv

/-- Handling the next key keeps the others ready. -/
theorem Ready.step {k : Key} {ks : List Key} {s : PassState (Memory β) τ}
    (h : Ready existing (k :: ks) s.store) (wanted : Bool) :
    Ready existing ks (r.passKey k wanted (existing.get? k) s).2.store := by
  obtain ⟨hnot, hnd⟩ := List.nodup_cons.1 h.nodup
  have hagree := agreesExcept_passKey hr hv h.reachable.sound (h.seen k List.mem_cons_self) wanted
  refine ⟨reachable_passKey hr h.reachable k wanted _, hnd, fun k' hk' o ho => ?_⟩
  have hne : k' ≠ k := fun heq => hnot (heq ▸ hk')
  exact (hagree.object? hne).trans (h.seen k' (List.mem_cons_of_mem _ hk') o ho)

theorem Ready.passAll {ks ks' : List Key} {s : PassState (Memory β) τ}
    (h : Ready existing (ks ++ ks') s.store) :
    Ready existing ks' (r.passAll desired existing ks s).2.store := by
  induction ks generalizing s with
  | nil => exact h
  | cons k ks ih => exact ih (h.step hr hv (desired.contains k))

/-- A run leaves every key alone that it does not handle. -/
theorem agreesAt_passAll_of_notMem {ks : List Key} {s : PassState (Memory β) τ}
    (h : Ready existing ks s.store) {k : Key} (hk : k ∉ ks) :
    Memory.AgreesAt k s.store (r.passAll desired existing ks s).2.store := by
  induction ks generalizing s with
  | nil => exact .refl _ _
  | cons k' ks ih =>
      rw [List.mem_cons, not_or] at hk
      have hagree := agreesExcept_passKey hr hv h.reachable.sound
        (h.seen k' List.mem_cons_self) (desired.contains k')
      exact (hagree.agreesAt hk.1).trans (ih (h.step hr hv (desired.contains k')) hk.2)

/-- A run changes none of the failures. -/
theorem failures_passAll {ks : List Key} {s : PassState (Memory β) τ}
    (h : Ready existing ks s.store) :
    (r.passAll desired existing ks s).2.store.refusal? = s.store.refusal?
      ∧ (r.passAll desired existing ks s).2.store.listsFail = s.store.listsFail := by
  induction ks generalizing s with
  | nil => exact ⟨rfl, rfl⟩
  | cons k ks ih =>
      have hagree := agreesExcept_passKey hr hv h.reachable.sound
        (h.seen k List.mem_cons_self) (desired.contains k)
      obtain ⟨hrefusal, hlists⟩ := ih (h.step hr hv (desired.contains k))
      exact ⟨hrefusal.trans hagree.refusal?, hlists.trans hagree.listsFail⟩

end

/-- A run over some keys and then over others. -/
theorem passAll_append {σ : Type} (r : Reconciler σ τ β) (desired : SortedSet Key)
    (existing : SortedMap Key (Object β)) (ks ks' : List Key) (s : PassState σ τ) :
    r.passAll desired existing (ks ++ ks') s
      = ((r.passAll desired existing ks s).1
          ++ (r.passAll desired existing ks' (r.passAll desired existing ks s).2).1,
        (r.passAll desired existing ks' (r.passAll desired existing ks s).2).2) := by
  induction ks generalizing s with
  | nil => rfl
  | cons k ks ih =>
      rw [List.cons_append]
      simp only [passAll]
      rw [ih]
      rfl

section

variable {σ α : Type} {r : Reconciler σ τ β} {desired : SortedSet Key}
  {existing : SortedMap Key (Object β)} {adds : Key → PassState σ τ → List α}

theorem along_append (ks ks' : List Key) (s : PassState σ τ) :
    r.along desired existing adds (ks ++ ks') s
      = r.along desired existing adds ks s
        ++ r.along desired existing adds ks' (r.passAll desired existing ks s).2 := by
  induction ks generalizing s with
  | nil => rfl
  | cons k ks ih =>
      rw [List.cons_append]
      simp only [along, passAll, ih, List.append_assoc]

variable {about : α → Key} (habout : ∀ k s, ∀ a ∈ adds k s, about a = k)

include habout

theorem about_mem_of_mem_along {ks : List Key} {s : PassState σ τ} {a : α}
    (ha : a ∈ r.along desired existing adds ks s) : about a ∈ ks := by
  induction ks generalizing s with
  | nil => cases ha
  | cons k ks ih =>
      rcases List.mem_append.1 ha with ha | ha
      · rw [habout k s a ha]
        exact List.mem_cons_self
      · exact List.mem_cons_of_mem _ (ih ha)

theorem filter_along_of_notMem {ks : List Key} {k : Key} (hk : k ∉ ks) (s : PassState σ τ) :
    (r.along desired existing adds ks s).filter (about · = k) = [] := by
  refine List.filter_eq_nil_iff.2 fun a ha hkey => hk ?_
  rw [decide_eq_true_eq] at hkey
  exact hkey ▸ about_mem_of_mem_along habout ha

/-- If each turn adds only what is about its key, then of what a run gathers, that about one of its
keys is what the key's turn adds. -/
theorem filter_along {before rest : List Key} {k : Key} (hnd : (before ++ k :: rest).Nodup)
    (s : PassState σ τ) :
    (r.along desired existing adds (before ++ k :: rest) s).filter (about · = k)
      = adds k (r.passAll desired existing before s).2 := by
  obtain ⟨-, hrest, hapart⟩ := List.nodup_append.1 hnd
  have hbefore : k ∉ before := fun hk => hapart k hk k List.mem_cons_self rfl
  rw [along_append, List.filter_append, filter_along_of_notMem habout hbefore, List.nil_append,
    along, List.filter_append, filter_along_of_notMem habout (List.nodup_cons.1 hrest).1,
    List.append_nil]
  refine List.filter_eq_self.2 fun a ha => ?_
  rw [decide_eq_true_eq]
  exact habout k _ a ha

end

omit [DecidableEq β] [Resource β] in
theorem Ready.left {existing : SortedMap Key (Object β)} {ks ks' : List Key} {m : Memory β}
    (h : Ready existing (ks ++ ks') m) : Ready existing ks m :=
  ⟨h.reachable, (List.nodup_append.1 h.nodup).1, fun k hk => h.seen k (List.mem_append_left _ hk)⟩

-- ======================================================== a whole pass

/-- The children among the stored objects. -/
def owned {σ : Type} (r : Reconciler σ τ β) (m : Memory β) : SortedMap Key (Object β) :=
  m.objects.filter fun k o => k.space = r.parent.space && r.selects o

omit [DecidableEq β] [Resource β] in
theorem get?_owned {σ : Type} (r : Reconciler σ τ β) (m : Memory β) (k : Key) :
    (r.owned m).get? k
      = (m.object? k).filter fun o => k.space = r.parent.space && r.selects o :=
  SortedMap.get?_filter _ _ k

omit [DecidableEq β] [Resource β] in
/-- The children are the objects of the namespace that the parent owns and that carry every
label. -/
theorem get?_owned_eq_some {σ : Type} {r : Reconciler σ τ β} {m : Memory β} {k : Key}
    {o : Object β} :
    (r.owned m).get? k = some o ↔ m.object? k = some o ∧ k.space = r.parent.space
      ∧ r.parent.owns o.metadata = true ∧ o.metadata.matchesLabels r.selector = true :=
  Parent.get?_children

omit [DecidableEq β] [Resource β] in
/-- The children of a listing are those among the stored objects. -/
theorem children_matching {σ : Type} (r : Reconciler σ τ β) {m : Memory β} (hm : m.Sound) :
    r.children (Object.matching m.objects r.parent.space r.selector) = r.owned m := by
  have hkeyed : ∀ e ∈ (r.owned m).entries, (e.2.key, e.2) = e := fun e he => by
    have hget : m.object? e.1 = some e.2 :=
      SortedMap.get?_of_mem_toList (List.mem_filter.1 he).1
    rw [hm.keyed hget]
  have hsame : ∀ e : Key × Object β,
      (r.selects e.2 && (e.1.space = r.parent.space && e.2.metadata.matchesLabels r.selector))
        = (e.1.space = r.parent.space && r.selects e.2) := fun e => by
    rw [selects]
    cases r.parent.owns e.2.metadata <;> cases e.2.metadata.matchesLabels r.selector <;> simp
  have hlist : ((Object.matching m.objects r.parent.space r.selector).filter r.selects).map
      (fun o => (o.key, o)) = (r.owned m).entries := by
    rw [Object.matching, List.filter_map, List.filter_filter, List.map_map]
    refine Eq.trans ?_ ((List.map_congr_left hkeyed).trans (List.map_id _))
    exact congrArg _ (List.filter_congr fun e _ => hsame e)
  rw [children, hlist]
  exact SortedMap.ofList_entries _

omit [DecidableEq β] [Resource β] in
theorem mem_passKeys {desired : SortedSet Key} {existing : SortedMap Key (Object β)} {k : Key} :
    k ∈ passKeys desired existing ↔ k ∈ desired ∨ k ∈ existing := by
  rw [passKeys, SortedMap.mem_keys_iff, SortedMap.contains_union, SortedMap.contains_ofKeys,
    SortedMap.mem_keys_iff]
  rfl

omit [DecidableEq β] [Resource β] in
theorem ready_passKeys {σ : Type} (r : Reconciler σ τ β) (desired : SortedSet Key) {m : Memory β}
    (hm : m.Reachable) : Ready (r.owned m) (passKeys desired (r.owned m)) m where
  reachable := hm
  nodup := SortedMap.keys_nodup _
  seen := fun _ _ _ ho => (get?_owned_eq_some.1 ho).1

/-- The state of a pass in which it handles a key. -/
def turn (r : Reconciler (Memory β) τ β) (desired : SortedSet Key) (s : PassState (Memory β) τ)
    (k : Key) : PassState (Memory β) τ :=
  (r.passAll desired (r.owned s.store)
    ((passKeys desired (r.owned s.store)).takeWhile (· ≠ k)) s).2

section

variable {r : Reconciler (Memory β) τ β} (hr : r.store = Memory.store)
  {desired : SortedSet Key} {s : PassState (Memory β) τ}

include hr

omit [DecidableEq β] [Resource β] in
theorem list_of_listsFail (hl : s.store.listsFail = true) :
    r.store.list r.parent.space r.selector s.store
      = (.error (.unavailable s!"list {r.parent.space}"), s.store) := by
  rw [store_list hr, Memory.list, if_pos hl]

theorem reconcileSet_of_listsFail (hl : s.store.listsFail = true) :
    r.reconcileSet desired s
      = (.ofError (.unavailable s!"list {r.parent.space}"), s) := by
  simp only [reconcileSet, list_of_listsFail hr hl]

theorem tried_of_listsFail (hl : s.store.listsFail = true) : r.tried desired s = [] := by
  rw [tried, r.reconcileSet_traced_of_error desired (list_of_listsFail hr hl)]
  rfl

omit [DecidableEq β] [Resource β] in
theorem list_of_lists (hl : s.store.listsFail = false) :
    r.store.list r.parent.space r.selector s.store
      = (.ok (Object.matching s.store.objects r.parent.space r.selector), s.store) := by
  rw [store_list hr, Memory.list, if_neg (Bool.eq_false_iff.1 hl)]

/-- A pass whose listing succeeds is a run over its keys. -/
theorem reconcileSet_of_lists (hm : s.store.Sound) (hl : s.store.listsFail = false) :
    r.reconcileSet desired s
      = (Outcome.mergeAll (r.passAll desired (r.owned s.store)
            (passKeys desired (r.owned s.store)) s).1,
        (r.passAll desired (r.owned s.store) (passKeys desired (r.owned s.store)) s).2) := by
  simp only [reconcileSet, list_of_lists hr hl, r.children_matching hm]

theorem tried_of_lists (hm : s.store.Sound) (hl : s.store.listsFail = false) :
    r.tried desired s
      = r.writesFor desired (r.owned s.store) (passKeys desired (r.owned s.store)) s := by
  rw [tried, r.reconcileSet_traced_of_ok desired (list_of_lists hr hl), r.children_matching hm]
  rfl

end

theorem reachable_passAll {r : Reconciler (Memory β) τ β} (hr : r.store = Memory.store)
    (desired : SortedSet Key) (existing : SortedMap Key (Object β)) (ks : List Key)
    {s : PassState (Memory β) τ} (hm : s.store.Reachable) :
    (r.passAll desired existing ks s).2.store.Reachable := by
  induction ks generalizing s with
  | nil => exact hm
  | cons k ks ih => exact ih (reachable_passKey hr hm k _ _)

theorem reachable_reconcileSet {r : Reconciler (Memory β) τ β} (hr : r.store = Memory.store)
    (desired : SortedSet Key) {s : PassState (Memory β) τ} (hm : s.store.Reachable) :
    (r.reconcileSet desired s).2.store.Reachable := by
  by_cases hl : s.store.listsFail = true
  · rw [reconcileSet_of_listsFail hr hl]
    exact hm
  · rw [reconcileSet_of_lists hr hm.sound (Bool.eq_false_iff.2 hl)]
    exact reachable_passAll hr desired _ _ hm

-- =========================================================== its turns

/-- A key parts the keys of a pass into those handled before it and those handled after it. -/
theorem exists_eq_takeWhile_append {ks : List Key} {k : Key} (h : k ∈ ks) :
    ∃ rest, ks = ks.takeWhile (· ≠ k) ++ k :: rest := by
  induction ks with
  | nil => cases h
  | cons k' ks ih =>
      by_cases hk : k' = k
      · subst hk
        exact ⟨ks, by simp⟩
      · obtain ⟨rest, hrest⟩ := ih ((List.mem_cons.1 h).resolve_left (Ne.symm hk))
        refine ⟨rest, ?_⟩
        rw [List.takeWhile_cons_of_pos (by simpa using hk), List.cons_append, ← hrest]

theorem notMem_takeWhile_ne (ks : List Key) (k : Key) : k ∉ ks.takeWhile (· ≠ k) := fun h => by
  simpa using List.all_eq_true.1 List.all_takeWhile k h

omit [DecidableEq β] [Resource β] in
theorem ready_before_turn {σ : Type} (r : Reconciler σ τ β) (desired : SortedSet Key)
    {m : Memory β} (hm : m.Reachable) (k : Key) :
    Ready (r.owned m) ((passKeys desired (r.owned m)).takeWhile (· ≠ k)) m := by
  have hall := r.ready_passKeys desired hm
  rw [← List.takeWhile_append_dropWhile (p := (· ≠ k))
    (l := passKeys desired (r.owned m))] at hall
  exact hall.left

section

variable {r : Reconciler (Memory β) τ β} (hr : r.store = Memory.store) (hv : r.PlansKeepVersion)
  {desired : SortedSet Key} {s : PassState (Memory β) τ} (hm : s.store.Reachable)

include hr hv hm

theorem agreesAt_turn (k : Key) : Memory.AgreesAt k s.store (r.turn desired s k).store :=
  agreesAt_passAll_of_notMem hr hv (r.ready_before_turn desired hm k) (notMem_takeWhile_ne _ k)

/-- When its turn comes, a key holds what it held in the beginning. -/
theorem object?_turn (k : Key) : (r.turn desired s k).store.object? k = s.store.object? k :=
  (agreesAt_turn hr hv hm k).object?

theorem reachable_turn (k : Key) :
    (r.turn desired s k).store.Reachable := by
  have hall := r.ready_before_turn desired hm k
  rw [← List.append_nil (List.takeWhile _ _)] at hall
  exact (hall.passAll hr hv).reachable

theorem refusal?_turn (k : Key) : (r.turn desired s k).store.refusal? = s.store.refusal? :=
  (failures_passAll hr hv (r.ready_before_turn desired hm k)).1

/-- After its turn a key is left alone. -/
theorem agreesAt_reconcileSet (hl : s.store.listsFail = false) {k : Key}
    (hk : k ∈ passKeys desired (r.owned s.store)) :
    Memory.AgreesAt k
      (r.passKey k (desired.contains k) ((r.owned s.store).get? k) (r.turn desired s k)).2.store
      (r.reconcileSet desired s).2.store := by
  obtain ⟨rest, hks⟩ := exists_eq_takeWhile_append hk
  have hready : Ready (r.owned s.store)
      ((passKeys desired (r.owned s.store)).takeWhile (· ≠ k) ++ k :: rest) s.store :=
    hks ▸ r.ready_passKeys desired hm
  have hturn : Ready (r.owned s.store) (k :: rest) (r.turn desired s k).store :=
    hready.passAll hr hv
  rw [reconcileSet_of_lists hr hm.sound hl, hks, passAll_append]
  exact agreesAt_passAll_of_notMem hr hv (hturn.step hr hv _) (List.nodup_cons.1 hturn.nodup).1

/-- What a key holds after a pass is what it holds after its turn. -/
theorem object?_reconcileSet (hl : s.store.listsFail = false) {k : Key}
    (hk : k ∈ passKeys desired (r.owned s.store)) :
    (r.reconcileSet desired s).2.store.object? k
      = (r.passKey k (desired.contains k) ((r.owned s.store).get? k)
          (r.turn desired s k)).2.store.object? k :=
  (agreesAt_reconcileSet hr hv hm hl hk).object?

theorem agreesAt_reconcileSet_of_notMem (hl : s.store.listsFail = false) {k : Key}
    (hk : k ∉ passKeys desired (r.owned s.store)) :
    Memory.AgreesAt k s.store (r.reconcileSet desired s).2.store := by
  rw [reconcileSet_of_lists hr hm.sound hl]
  exact agreesAt_passAll_of_notMem hr hv (r.ready_passKeys desired hm) hk

end

end Reconciler

end ControlLoop
