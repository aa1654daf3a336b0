/-
Which objects a strategy is shown in a pass, and how often.

Each turn of a pass shows the strategy one object at most: the child that
the listing showed, as the store holds it after the turn's replacement,
or a child that the turn created (`Turn.object?`). So the shown objects
are those of the turns, one after the other (`shown_eq_filterMap`), and
as the keys of the turns increase, none is shown twice.

A child is said to be kept only between the answer that gives the reason
and the showing (`infix_of_kept`). No assumption is made about the store
but that its listing is answered.
-/
import ControlLoop.Proofs.Engine.Sealing
import ControlLoop.Proofs.Engine.Turns
import Mathlib.Data.List.Basic
import Mathlib.Data.List.Flatten

namespace ControlLoop

variable {σ τ β : Type}

/-- The object that is shown, with its key. -/
def Notice.shown? : Notice β → Option (Key × Object β)
  | .status k o => some (k, o)
  | _ => none

/-- The key of a child that is said to be kept. -/
def Notice.kept? : Notice β → Option Key
  | .kept k _ _ => some k
  | _ => none

/-- The object that a creation was answered with, and the key that it was asked for. -/
def Exchange.created? : Exchange β → Option (Key × Object β)
  | .create o (.ok stored) => some (o.key, stored)
  | _ => none

/-- The object that a replacement was answered with. -/
def Exchange.replaced? : Exchange β → Option (Object β)
  | .replace _ (.ok stored) => some stored
  | _ => none

/-- The object that there is to show after a turn. -/
def Turn.object? (t : Turn β) : Option (Object β) :=
  match t.current with
  | some o => some ((t.calls.findSome? Exchange.replaced?).getD o)
  | none => (t.calls.findSome? Exchange.created?).map (·.2)

/-- A listed child is shown as its replacement was answered, if it was. -/
theorem Turn.object?_of_current {t : Turn β} {o : Object β} (h : t.current = some o) :
    t.object? = some ((t.calls.findSome? Exchange.replaced?).getD o) := by
  rw [object?, h]

namespace Reconciler

-- ============================================================ one turn

section

variable {r : Reconciler σ τ β} {k : Key} {wanted : Bool} {current : Option (Object β)}
  {xs : List (Exchange β)} {ns : List (Notice β)} {a : Outcome}

/-- A turn shows the object that there is to show. -/
theorem shown_of_ends (h : r.Ends k wanted current xs ns a) :
    ns.filterMap Notice.shown?
      = ((Turn.mk k current xs ns a).object?.map fun o => (k, o)).toList := by
  cases h <;> rfl

/-- A turn says at most once that a child is kept, after it was asked and before it is shown. -/
theorem kept_of_ends (h : r.Ends k wanted current xs ns a) :
    (∀ n ∈ ns, n.kept? = none)
      ∨ ∃ o reason, ns = [.asked k o (some reason), .kept k o reason, .status k o] := by
  cases h with
  | kept reason => exact Or.inr ⟨_, reason, rfl⟩
  | _ => exact Or.inl (by simp [Notice.kept?])

/-- What a turn creates is under its key, and is what there is to show. -/
theorem created_of_ends (h : r.Ends k wanted current xs ns a) :
    xs.filterMap Exchange.created? = []
      ∨ xs.filterMap Exchange.created? = ns.filterMap Notice.shown? := by
  cases h with
  | created ho =>
      subst ho
      exact Or.inr rfl
  | _ => exact Or.inl rfl

/-- Where there was no child, an object is shown only if it was created. -/
theorem exists_created_of_ends (h : r.Ends k wanted none xs ns a) {stored : Object β}
    (hshown : (Turn.mk k none xs ns a).object? = some stored) :
    ∃ x ∈ xs, x.created? = some (k, stored) := by
  cases h with
  | created ho =>
      subst ho
      cases hshown
      exact ⟨_, List.mem_singleton_self _, rfl⟩
  | _ => cases hshown

end

-- ============================================================ all turns

theorem get?_children {r : Reconciler σ τ β} {objects : List (Object β)} {k : Key} {o : Object β}
    (h : (r.children objects).get? k = some o) :
    o ∈ objects ∧ r.selects o = true ∧ o.key = k := by
  obtain ⟨o', hmem, heq⟩ := List.mem_map.1 (SortedMap.mem_of_get?_ofList h)
  cases heq
  obtain ⟨ho, hsel⟩ := List.mem_filter.1 hmem
  exact ⟨ho, hsel, rfl⟩

theorem mem_children {r : Reconciler σ τ β} {objects : List (Object β)} {k : Key} :
    k ∈ r.children objects ↔ ∃ o ∈ objects, r.selects o = true ∧ o.key = k := by
  show (r.children objects).contains k = true ↔ _
  constructor
  · intro h
    obtain ⟨o, ho⟩ := SortedMap.mem_iff_exists_get?.1 h
    exact ⟨o, get?_children ho⟩
  · rintro ⟨o, ho, hsel, rfl⟩
    rw [children, SortedMap.ofList_eq_insertMany, SortedMap.contains_insertMany, List.map_map]
    exact Or.inl (List.mem_map_of_mem (f := Object.key) (List.mem_filter.2 ⟨ho, hsel⟩))

variable [DecidableEq β] [Resource β]

section

variable {r : Reconciler σ τ β} {desired : SortedSet Key} {objects : List (Object β)}
  {s : PassState σ τ}

theorem map_key_turns :
    (r.turns desired objects s).map (·.key) = passKeys desired (r.children objects) :=
  r.map_key_turnsFor desired (r.children objects) _ s

/-- The keys of the turns increase. -/
theorem increasing_turns :
    (r.turns desired objects s).Pairwise fun t t' => compare t.key t'.key = .lt := by
  have hkeys : ((r.turns desired objects s).map (·.key)).Pairwise
      fun k k' => compare k k' = .lt := by
    rw [map_key_turns]
    exact SortedMap.keys_increasing _
  exact List.pairwise_map.1 hkeys

/-- Whether there is a turn for a key. -/
theorem exists_turn {k : Key} (hk : k ∈ r.children objects) :
    ∃ t ∈ r.turns desired objects s, t.key = k := by
  refine List.mem_map.1 ?_
  rw [map_key_turns]
  exact mem_passKeys.2 (Or.inr hk)

/-- What is shown are the objects of the turns. -/
theorem shown_eq_filterMap :
    ((r.turns desired objects s).flatMap (·.notices)).filterMap Notice.shown?
      = (r.turns desired objects s).filterMap fun t => t.object?.map fun o => (t.key, o) := by
  rw [List.filterMap_flatMap, List.filterMap_eq_flatMap_toList]
  exact List.flatMap_congr fun t ht => shown_of_ends (ends_of_mem_turnsFor ht).2

theorem mem_shown {k : Key} {o : Object β} :
    (k, o) ∈ ((r.turns desired objects s).flatMap (·.notices)).filterMap Notice.shown?
      ↔ ∃ t ∈ r.turns desired objects s, t.key = k ∧ t.object? = some o := by
  rw [shown_eq_filterMap, List.mem_filterMap]
  constructor
  · rintro ⟨t, ht, hobject⟩
    obtain ⟨o', ho', heq⟩ := Option.map_eq_some_iff.1 hobject
    cases heq
    exact ⟨t, ht, rfl, ho'⟩
  · rintro ⟨t, ht, rfl, ho⟩
    exact ⟨t, ht, by rw [ho, Option.map_some]⟩

/-- They are shown in the order of their keys, each key once. -/
theorem increasing_shown :
    (((r.turns desired objects s).flatMap (·.notices)).filterMap Notice.shown?).Pairwise
      fun x x' => compare x.1 x'.1 = .lt := by
  rw [shown_eq_filterMap]
  refine increasing_turns.filterMap _ fun t t' hlt x hx x' hx' => ?_
  obtain ⟨o, -, rfl⟩ := Option.map_eq_some_iff.1 hx
  obtain ⟨o', -, rfl⟩ := Option.map_eq_some_iff.1 hx'
  exact hlt

/-- What was created is shown, each object for itself. -/
theorem created_sublist_shown :
    (((r.turns desired objects s).flatMap (·.calls)).filterMap Exchange.created?).Sublist
      (((r.turns desired objects s).flatMap (·.notices)).filterMap Notice.shown?) := by
  rw [List.filterMap_flatMap, List.filterMap_flatMap]
  refine List.Sublist.flatMap_right _ fun t ht => ?_
  rcases created_of_ends (ends_of_mem_turnsFor ht).2 with hnone | hsame
  · rw [hnone]
    exact List.nil_sublist _
  · rw [hsame]

/-- The keys of which an object is shown are those of the listed children and of the objects that
were created. -/
theorem shown_iff {k : Key} :
    (∃ o, (k, o) ∈ ((r.turns desired objects s).flatMap (·.notices)).filterMap Notice.shown?)
      ↔ (∃ o ∈ objects, r.selects o = true ∧ o.key = k)
        ∨ ∃ o, (k, o)
          ∈ ((r.turns desired objects s).flatMap (·.calls)).filterMap Exchange.created? := by
  constructor
  · rintro ⟨o, hmem⟩
    obtain ⟨t, ht, rfl, hobject⟩ := mem_shown.1 hmem
    obtain ⟨hcurrent, hends⟩ := ends_of_mem_turnsFor ht
    obtain ⟨k, current, xs, ns, a⟩ := t
    cases current with
    | some child =>
        exact Or.inl ⟨child, get?_children hcurrent.symm⟩
    | none =>
        refine Or.inr ⟨o, List.mem_filterMap.2 ?_⟩
        obtain ⟨x, hx, hcreated⟩ := exists_created_of_ends hends hobject
        exact ⟨x, List.mem_flatMap.2 ⟨_, ht, hx⟩, hcreated⟩
  · rintro (hlisted | ⟨o, hmem⟩)
    · have hk := mem_children.2 hlisted
      obtain ⟨t, ht, rfl⟩ := exists_turn hk
      obtain ⟨child, hchild⟩ := SortedMap.mem_iff_exists_get?.1 hk
      have hcurrent : t.current = some child := (ends_of_mem_turnsFor ht).1.trans hchild
      exact ⟨_, mem_shown.2 ⟨t, ht, rfl, Turn.object?_of_current hcurrent⟩⟩
    · exact ⟨o, created_sublist_shown.subset hmem⟩

-- ========================================================= kept children

/-- Of each key it is said at most once that its child is kept. -/
theorem nodup_kept :
    (((r.turns desired objects s).flatMap (·.notices)).filterMap Notice.kept?).Nodup := by
  have hsub : ((r.turns desired objects s).flatMap fun t => t.notices.filterMap Notice.kept?).Sublist
      ((r.turns desired objects s).flatMap fun t => [t.key]) := by
    refine List.Sublist.flatMap_right _ fun t ht => ?_
    rcases kept_of_ends (ends_of_mem_turnsFor ht).2 with hnone | ⟨o, reason, hns⟩
    · rw [List.filterMap_eq_nil_iff.2 hnone]
      exact List.nil_sublist _
    · rw [hns]
      exact List.Sublist.refl _
  rw [List.filterMap_flatMap]
  refine List.Nodup.sublist hsub ?_
  rw [← List.map_eq_flatMap, map_key_turns]
  exact SortedMap.keys_nodup _

/-- It is said right before the child is shown, and right after the strategy gave the reason. -/
theorem infix_of_kept {k : Key} {o : Object β} {reason : OrphanStatus}
    (h : .kept k o reason ∈ (r.turns desired objects s).flatMap (·.notices)) :
    [.asked k o (some reason), .kept k o reason, .status k o]
      <:+: (r.turns desired objects s).flatMap (·.notices) := by
  obtain ⟨t, ht, hmem⟩ := List.mem_flatMap.1 h
  have hinfix : t.notices <:+: (r.turns desired objects s).flatMap (·.notices) :=
    List.infix_of_mem_flatten (List.mem_map_of_mem ht)
  rcases kept_of_ends (ends_of_mem_turnsFor ht).2 with hnone | ⟨o', reason', hns⟩
  · cases hnone _ hmem
  · rw [hns] at hmem hinfix
    rcases hmem with _ | ⟨_, _ | ⟨_, _ | ⟨_, hmem⟩⟩⟩
    · exact hinfix
    · cases hmem

end

-- ============================================================= a pass

/-- What a strategy is shown in a pass whose listing is answered, whatever the store says to the
writes. The pass consists of the turns of its keys, and what is shown comes in the order of the keys,
one object for each key at most. There is one for a key if the listing shows a child there or an
object was created there, and for no other key. A listed child is shown as its replacement was
answered, and as it was listed if it was not replaced; each new child is shown as its creation was
answered. That a child is kept is said at most once, right after the strategy gave the reason and
right before the child is shown. -/
theorem shown_once {r : Reconciler σ τ β} (desired : SortedSet Key) {s : PassState σ τ} {st : σ}
    {objects : List (Object β)}
    (h : r.store.list r.parent.space r.selector s.store = (.ok objects, st)) :
    let ts := r.turns desired objects { s with store := st }
    let shown := (r.notices desired s).filterMap Notice.shown?
    let created := (r.exchanges desired s).filterMap Exchange.created?
    (r.exchanges desired s = .list (.ok objects) :: ts.flatMap (·.calls)
        ∧ r.notices desired s = ts.flatMap (·.notices)
        ∧ ts.map (·.key) = passKeys desired (r.children objects))
      ∧ shown.Pairwise (fun x x' => compare x.1 x'.1 = .lt)
      ∧ (∀ k, (∃ o, (k, o) ∈ shown)
        ↔ (∃ o ∈ objects, r.selects o = true ∧ o.key = k) ∨ ∃ o, (k, o) ∈ created)
      ∧ (∀ t ∈ ts, ∀ o, t.current = some o → o ∈ objects ∧ r.selects o = true ∧ o.key = t.key
        ∧ (t.key, (t.calls.findSome? Exchange.replaced?).getD o) ∈ shown)
      ∧ created.Sublist shown
      ∧ ((r.notices desired s).filterMap Notice.kept?).Nodup
      ∧ ∀ k o reason, .kept k o reason ∈ r.notices desired s →
        [.asked k o (some reason), .kept k o reason, .status k o] <:+: r.notices desired s := by
  intro ts shown created
  have hnotices : r.notices desired s = ts.flatMap (·.notices) := notices_of_listing h
  have hshown : shown = (ts.flatMap (·.notices)).filterMap Notice.shown? := congrArg _ hnotices
  have hcreated : created = (ts.flatMap (·.calls)).filterMap Exchange.created? := by
    rw [show created = _ from congrArg _ (exchanges_of_listing h)]
    rfl
  refine ⟨⟨exchanges_of_listing h, hnotices, map_key_turns⟩, ?_, fun k => ?_,
    fun t ht o hcurrent => ?_, ?_, ?_, fun k o reason hmem => ?_⟩
  · rw [hshown]
    exact increasing_shown
  · rw [hshown, hcreated]
    exact shown_iff
  · obtain ⟨ho, hsel, hkey⟩ := get?_children ((ends_of_mem_turnsFor ht).1.symm.trans hcurrent)
    rw [hshown]
    exact ⟨ho, hsel, hkey, mem_shown.2 ⟨t, ht, rfl, Turn.object?_of_current hcurrent⟩⟩
  · rw [hshown, hcreated]
    exact created_sublist_shown
  · rw [hnotices]
    exact nodup_kept
  · rw [hnotices] at hmem ⊢
    exact infix_of_kept hmem

/-- In the group, where a child is missing whose name is someone else's, the children are shown and
the new one, in the order of their keys. -/
theorem shown_once_group :
    let r := Sealing.reconciler .recreate
    let s : PassState (Memory ConfigMap) Nat := ⟨Sealing.group, 0, []⟩
    let shown := (r.notices Sealing.wanted s).filterMap Notice.shown?
    shown.map (·.1) = [Sealing.key "a", Sealing.key "b", Sealing.key "c", Sealing.key "e"]
      ∧ shown.Pairwise (fun x x' => compare x.1 x'.1 = .lt) := by
  intro r s shown
  have hlist : r.store.list r.parent.space r.selector s.store
      = (.ok (Object.matching Sealing.group.objects r.parent.space r.selector), Sealing.group) := rfl
  obtain ⟨-, hincreasing, -⟩ := shown_once Sealing.wanted hlist
  exact ⟨by decide, hincreasing⟩

end Reconciler

end ControlLoop
