/-
A heap that keeps a table of deadlines, and how a timer is set or dropped.

# The invariant

A heap keeps a table (`Keeps`) if it is in order, its side map is right
and its timers are the entries of the table. The empty heap keeps the
empty table.

# Setting and dropping

A new deadline puts one slot out of place, and so does a timer at the
end or one that fills a gap: what is changed before anything is sifted
has a definition of its own (`reset`, `appended`, `vacated`), for which
the side map is right and the order fails around that slot only. Sifting
does the rest, and so setting a timer is an insertion (`Keeps.push`) and
dropping one is an erasure (`Keeps.remove`, `Keeps.popFirst`).
-/
import ControlLoop.Proofs.Timers.Sifting

namespace ControlLoop

/-- The deadline of every key that has a timer. -/
abbrev Timetable (κ : Type) [Ord κ] := SortedMap κ Nat

namespace TimerHeap

variable {κ : Type} [Ord κ]

-- ========================================================= the invariant

/-- A heap in order whose timers are the entries of a table. -/
structure Keeps (h : TimerHeap κ) (m : Timetable κ) : Prop where
  ordered : h.Ordered
  indexed : h.Indexed
  timers : ∀ t, t ∈ h.timers ↔ m.get? t.key = some t.deadline

theorem keyAt?_eq_some_iff {h : TimerHeap κ} {slot : Nat} {k : κ} :
    h.keyAt? slot = some k ↔ ∃ t, h.timers[slot]? = some t ∧ t.key = k := by
  rw [keyAt?, Option.map_eq_some_iff]

theorem Indexed.eq_of_key_eq {h : TimerHeap κ} (hx : h.Indexed) {i j : Nat} {t u : Timer κ}
    (hi : h.timers[i]? = some t) (hj : h.timers[j]? = some u) (hk : t.key = u.key) : i = j :=
  hx.slot_inj (keyAt?_eq_some_iff.2 ⟨t, hi, hk⟩) (keyAt?_eq_some_iff.2 ⟨u, hj, rfl⟩)

theorem Indexed.nodup_keys {h : TimerHeap κ} (hx : h.Indexed) :
    (h.timers.toList.map (·.key)).Nodup := by
  rw [List.nodup_iff_pairwise_ne, List.pairwise_iff_getElem]
  intro i j hi hj hlt heq
  rw [List.length_map, Array.length_toList] at hi hj
  have := hx.eq_of_key_eq (Array.getElem?_eq_getElem hi) (Array.getElem?_eq_getElem hj)
    (by simpa using heq)
  omega

theorem Indexed.timer_of_slot {h : TimerHeap κ} (hx : h.Indexed) {k : κ} {slot : Nat}
    (hs : h.slots.get? k = some slot) : ∃ t, h.timers[slot]? = some t ∧ t.key = k :=
  keyAt?_eq_some_iff.1 ((hx k slot).1 hs)

/-- A heap of the same timers keeps the same table once it is in order. -/
theorem Same.keeps {h h' : TimerHeap κ} (hsame : Same h h') (ho : h'.Ordered)
    {m : Timetable κ} (ht : ∀ t, t ∈ h.timers ↔ m.get? t.key = some t.deadline) : h'.Keeps m :=
  ⟨ho, hsame.indexed, fun t => (hsame.timers t).trans (ht t)⟩

theorem keeps_empty : (empty : TimerHeap κ).Keeps ∅ where
  ordered := fun i _ hi => absurd hi (Nat.not_lt_zero i)
  indexed := fun k slot => by simp [empty, keyAt?]
  timers := fun t => by simp [empty]

variable [Std.TransOrd κ] [Std.LawfulEqOrd κ]

-- ============================================================== setting

section

variable {h : TimerHeap κ} {m : Timetable κ} {k : κ} {d : Nat}

/-- The heap with another deadline in a slot, before the slot is settled. -/
def reset (h : TimerHeap κ) (slot : Nat) (hs : slot < h.timers.size) (d : Nat) : TimerHeap κ :=
  { h with timers := h.timers.set slot { h.timers[slot] with deadline := d } }

omit [Std.TransOrd κ] [Std.LawfulEqOrd κ] in
theorem getElem?_reset {slot : Nat} (hs : slot < h.timers.size) (x : Nat) :
    (h.reset slot hs d).timers[x]?
      = if slot = x then some ⟨d, h.timers[slot].key⟩ else h.timers[x]? := by
  rw [reset, Array.getElem?_set]

omit [Std.TransOrd κ] [Std.LawfulEqOrd κ] in
theorem Indexed.reset (hx : h.Indexed) {slot : Nat} (hs : slot < h.timers.size) :
    (h.reset slot hs d).Indexed := by
  intro k x
  have hkeys : (h.reset slot hs d).keyAt? x = h.keyAt? x := by
    unfold keyAt?
    rw [getElem?_reset]
    split
    · next heq =>
        subst heq
        simp [hs]
    · rfl
  rw [hkeys]
  exact hx k x

omit [Std.TransOrd κ] [Std.LawfulEqOrd κ] in
theorem Ordered.reset (ho : h.Ordered) {slot : Nat} (hs : slot < h.timers.size) :
    (h.reset slot hs d).OrderedExcept slot := by
  refine ho.except (by simp [TimerHeap.reset]) fun i _ hne => ?_
  unfold due
  rw [getElem?_reset, if_neg (Ne.symm hne)]

/-- A key that has a timer gets another deadline. -/
theorem Keeps.push_of_some (hk : h.Keeps m) {slot : Nat} (hslot : h.slots.get? k = some slot)
    (d : Nat) : (h.push k d).Keeps (m.insert k d) := by
  obtain ⟨t₀, ht₀, hkey⟩ := hk.indexed.timer_of_slot hslot
  obtain ⟨hs, hget⟩ := Array.getElem?_eq_some_iff.1 ht₀
  have hpush : h.push k d
      = (h.reset slot hs d).settle slot (by simpa [TimerHeap.reset] using hs) := by
    rw [push, hslot]
    exact dif_pos hs
  rw [hpush]
  refine ((hk.indexed.reset hs).settle _).keeps (ordered_settle _ (hk.ordered.reset hs)) fun t => ?_
  rw [Array.mem_iff_getElem?]
  simp only [getElem?_reset, hget, hkey]
  by_cases hself : t.key = k
  · -- the only timer of the key is the one in its slot
    rw [hself, SortedMap.get?_insert_self]
    constructor
    · rintro ⟨x, hx⟩
      split at hx
      · cases hx
        rfl
      · next hne => exact absurd (hk.indexed.eq_of_key_eq ht₀ hx (hkey.trans hself.symm)) hne
    · intro hd
      refine ⟨slot, ?_⟩
      rw [if_pos rfl, Option.some.inj hd, ← hself]
  · rw [SortedMap.get?_insert_of_ne _ _ hself, ← hk.timers t, Array.mem_iff_getElem?]
    constructor
    · rintro ⟨x, hx⟩
      split at hx
      · cases hx
        exact absurd rfl hself
      · exact ⟨x, hx⟩
    · rintro ⟨x, hx⟩
      refine ⟨x, ?_⟩
      rw [if_neg, hx]
      rintro rfl
      rw [ht₀] at hx
      cases hx
      exact hself hkey

/-- The heap with one more timer at the end, before it goes up. -/
def appended (h : TimerHeap κ) (k : κ) (d : Nat) : TimerHeap κ :=
  { timers := h.timers.push ⟨d, k⟩
    slots := h.slots.insert k h.timers.size }

omit [Std.LawfulEqOrd κ] in
theorem getElem?_appended (x : Nat) :
    (h.appended k d).timers[x]? = if x = h.timers.size then some ⟨d, k⟩ else h.timers[x]? :=
  Array.getElem?_push

omit [Std.LawfulEqOrd κ] in
theorem keyAt?_appended (x : Nat) :
    (h.appended k d).keyAt? x = if x = h.timers.size then some k else h.keyAt? x := by
  unfold keyAt?
  rw [getElem?_appended]
  split <;> rfl

theorem Indexed.appended (hx : h.Indexed) (hnone : h.slots.get? k = none) :
    (h.appended k d).Indexed := by
  intro k' x
  have hslots : (h.appended k d).slots = h.slots.insert k h.timers.size := rfl
  rw [hslots, keyAt?_appended]
  by_cases hk : k' = k
  · subst hk
    have hold := hx k' x
    rw [SortedMap.get?_insert_self]
    grind
  · have hend : h.keyAt? h.timers.size = none := by simp [keyAt?]
    have hold := hx k' x
    rw [SortedMap.get?_insert_of_ne _ _ hk]
    grind

omit [Std.LawfulEqOrd κ] in
theorem Ordered.appended (ho : h.Ordered) : (h.appended k d).OrderedExcept h.timers.size := by
  have hsize : (h.appended k d).timers.size = h.timers.size + 1 := Array.size_push ..
  have hparent : ∀ i, 0 < i → i < (h.appended k d).timers.size → parentSlot i ≠ h.timers.size :=
    fun i hpos hi => by
      have := parentSlot_lt hpos
      omega
  refine ⟨fun i hpos hi hne _ => ?_, fun _ i hpos hi heq => absurd heq (hparent i hpos hi)⟩
  unfold due
  rw [getElem?_appended, getElem?_appended, if_neg hne, if_neg (hparent i hpos hi)]
  exact ho i hpos (by omega)

/-- A key that has no timer gets one. -/
theorem Keeps.push_of_none (hk : h.Keeps m) (hnone : h.slots.get? k = none) (d : Nat) :
    (h.push k d).Keeps (m.insert k d) := by
  have hsize : (h.appended k d).timers.size = h.timers.size + 1 := Array.size_push ..
  have hpush : h.push k d = ((h.appended k d).siftUp h.timers.size (by omega)).1 := by
    rw [push, hnone]
    rfl
  rw [hpush]
  have hbelow : (h.appended k d).OrderedBelow h.timers.size := by
    intro i hpos hi hparent
    have := parentSlot_lt hpos
    omega
  refine ((hk.indexed.appended hnone).siftUp _).keeps
    (ordered_siftUp _ hk.ordered.appended hbelow) fun t => ?_
  have hmem : t ∈ (h.appended k d).timers ↔ t ∈ h.timers ∨ t = ⟨d, k⟩ := Array.mem_push
  rw [hmem, hk.timers t]
  by_cases hself : t.key = k
  · have hnot : t ∉ h.timers := by
      intro ht
      obtain ⟨x, hx⟩ := Array.mem_iff_getElem?.1 ht
      have hslot := (hk.indexed k x).2 (keyAt?_eq_some_iff.2 ⟨t, hx, hself⟩)
      rw [hnone] at hslot
      cases hslot
    rw [hk.timers t] at hnot
    rw [or_iff_right hnot, hself, SortedMap.get?_insert_self, Option.some.injEq]
    constructor
    · rintro rfl
      rfl
    · rintro rfl
      rw [← hself]
  · rw [SortedMap.get?_insert_of_ne _ _ hself, or_iff_left]
    rintro rfl
    exact hself rfl

theorem Keeps.push (hk : h.Keeps m) (k : κ) (d : Nat) : (h.push k d).Keeps (m.insert k d) := by
  cases hslot : h.slots.get? k with
  | some slot => exact hk.push_of_some hslot d
  | none => exact hk.push_of_none hslot d

end

-- ============================================================== dropping

section

variable {h : TimerHeap κ} {m : Timetable κ} {slot : Nat}

/-- The heap with the last timer in place of the one in a slot, before the slot is settled. -/
def vacated (h : TimerHeap κ) (slot : Nat) (hs : slot < h.timers.size) : TimerHeap κ :=
  let timers := (h.timers.swap slot (h.timers.size - 1) hs (Nat.sub_one_lt_of_lt hs)).pop
  let slots := h.slots.erase h.timers[slot].key
  if hs' : slot < timers.size then { timers, slots := slots.insert timers[slot].key slot }
  else { timers, slots }

omit [Std.LawfulEqOrd κ] in
theorem timers_vacated (hs : slot < h.timers.size) :
    (h.vacated slot hs).timers
      = (h.timers.swap slot (h.timers.size - 1) hs (Nat.sub_one_lt_of_lt hs)).pop := by
  unfold vacated
  simp only
  split <;> rfl

omit [Std.LawfulEqOrd κ] in
theorem size_vacated (hs : slot < h.timers.size) :
    (h.vacated slot hs).timers.size = h.timers.size - 1 := by
  simp [timers_vacated hs]

omit [Std.LawfulEqOrd κ] in
theorem getElem?_vacated (hs : slot < h.timers.size) (x : Nat) :
    (h.vacated slot hs).timers[x]?
      = if x < h.timers.size - 1 then
          if x = slot then h.timers[h.timers.size - 1]? else h.timers[x]?
        else none := by
  rw [timers_vacated hs, Array.getElem?_pop, Array.size_swap]
  split
  · rw [Array.getElem?_swap]
    grind
  · rfl

omit [Std.LawfulEqOrd κ] in
theorem keyAt?_vacated (hs : slot < h.timers.size) (x : Nat) :
    (h.vacated slot hs).keyAt? x
      = if x < h.timers.size - 1 then
          if x = slot then h.keyAt? (h.timers.size - 1) else h.keyAt? x
        else none := by
  unfold keyAt?
  rw [getElem?_vacated]
  split
  · split <;> rfl
  · rfl

omit [Std.LawfulEqOrd κ] in
/-- The side map forgets the key of the slot and learns where the last timer went. -/
theorem slots_vacated (hs : slot < h.timers.size) :
    (h.vacated slot hs).slots
      = if slot < h.timers.size - 1 then
          (h.slots.erase h.timers[slot].key).insert h.timers[h.timers.size - 1].key slot
        else h.slots.erase h.timers[slot].key := by
  unfold vacated
  simp only
  split
  · next hs' =>
      have hlt : slot < h.timers.size - 1 := by simpa using hs'
      rw [if_pos hlt]
      simp
  · next hs' =>
      rw [if_neg (by simpa using hs')]

theorem Indexed.vacated (hx : h.Indexed) (hs : slot < h.timers.size) :
    (h.vacated slot hs).Indexed := by
  intro k x
  have hinj : ∀ i j, h.keyAt? i = some k → h.keyAt? j = some k → i = j := fun i j => hx.slot_inj
  have hslot := keyAt?_eq hs
  have hend : h.timers.size - 1 < h.timers.size := by omega
  have hlast := keyAt?_eq hend
  have hbound : h.keyAt? x = some k → x < h.timers.size := lt_of_keyAt?
  have hold := hx k x
  rw [slots_vacated, keyAt?_vacated]
  split
  · next hlt =>
      by_cases hk : k = h.timers[h.timers.size - 1].key
      · rw [hk, SortedMap.get?_insert_self]
        grind
      · rw [SortedMap.get?_insert_of_ne _ _ hk]
        by_cases hk' : k = h.timers[slot].key
        · rw [hk', SortedMap.get?_erase_self]
          grind
        · rw [SortedMap.get?_erase_of_ne _ hk']
          grind
  · by_cases hk' : k = h.timers[slot].key
    · rw [hk', SortedMap.get?_erase_self]
      grind
    · rw [SortedMap.get?_erase_of_ne _ hk']
      grind

omit [Std.LawfulEqOrd κ] in
theorem Ordered.vacated (ho : h.Ordered) (hs : slot < h.timers.size) :
    (h.vacated slot hs).OrderedExcept slot := by
  refine ho.except (by rw [size_vacated]; omega) fun i hi hne => ?_
  rw [size_vacated] at hi
  unfold due
  rw [getElem?_vacated, if_pos hi, if_neg hne]

/-- The timers that are left are those of the other keys. -/
theorem Keeps.timers_vacated (hk : h.Keeps m) (hs : slot < h.timers.size) (t : Timer κ) :
    t ∈ (h.vacated slot hs).timers
      ↔ (m.erase h.timers[slot].key).get? t.key = some t.deadline := by
  have hget : h.timers[slot]? = some h.timers[slot] := Array.getElem?_eq_getElem hs
  rw [Array.mem_iff_getElem?]
  simp only [getElem?_vacated]
  by_cases hself : t.key = h.timers[slot].key
  · rw [hself, SortedMap.get?_erase_self]
    constructor
    · rintro ⟨x, hx⟩
      split at hx
      · split at hx
        · have := hk.indexed.eq_of_key_eq hx hget hself
          omega
        · next hne => exact absurd (hk.indexed.eq_of_key_eq hx hget hself) hne
      · cases hx
    · intro h'
      cases h'
  · rw [SortedMap.get?_erase_of_ne _ hself, ← hk.timers t, Array.mem_iff_getElem?]
    constructor
    · rintro ⟨x, hx⟩
      split at hx
      · split at hx
        · exact ⟨_, hx⟩
        · exact ⟨_, hx⟩
      · cases hx
    · rintro ⟨x, hx⟩
      have hlt : x < h.timers.size := (Array.getElem?_eq_some_iff.1 hx).1
      have hne : x ≠ slot := by
        rintro rfl
        rw [hget] at hx
        cases hx
        exact hself rfl
      by_cases hlast : x = h.timers.size - 1
      · -- the last timer has moved to the slot
        refine ⟨slot, ?_⟩
        rw [if_pos (by omega), if_pos rfl, ← hlast]
        exact hx
      · refine ⟨x, ?_⟩
        rw [if_pos (by omega), if_neg hne]
        exact hx

/-- Where the vacated slot was the last one, no order is lost. -/
theorem Keeps.vacated_last (hk : h.Keeps m) (hs : slot < h.timers.size)
    (hlast : ¬slot < (h.vacated slot hs).timers.size) :
    (h.vacated slot hs).Keeps (m.erase h.timers[slot].key) where
  ordered := fun i hpos hi => by
    have hp := parentSlot_lt hpos
    exact (hk.ordered.vacated hs).away i hpos hi (by omega) (by omega)
  indexed := hk.indexed.vacated hs
  timers := hk.timers_vacated hs

omit [Std.LawfulEqOrd κ] in
theorem takeOut_eq (hs : slot < h.timers.size) :
    h.takeOut slot hs
      = if hs' : slot < (h.vacated slot hs).timers.size then (h.vacated slot hs).settle slot hs'
        else h.vacated slot hs := by
  unfold takeOut vacated
  simp only
  split <;> simp_all

omit [Std.LawfulEqOrd κ] in
theorem popFirst_eq (hs : 0 < h.timers.size) :
    h.popFirst hs
      = if hs' : 0 < (h.vacated 0 hs).timers.size then (h.vacated 0 hs).siftDown 0 hs'
        else h.vacated 0 hs := by
  unfold popFirst vacated
  simp only
  split <;> simp_all

theorem Keeps.takeOut (hk : h.Keeps m) (hs : slot < h.timers.size) :
    (h.takeOut slot hs).Keeps (m.erase h.timers[slot].key) := by
  rw [takeOut_eq]
  split
  · next hs' =>
      exact ((hk.indexed.vacated hs).settle hs').keeps (ordered_settle hs' (hk.ordered.vacated hs))
        (hk.timers_vacated hs)
  · next hlast => exact hk.vacated_last hs hlast

theorem Keeps.popFirst (hk : h.Keeps m) (hs : 0 < h.timers.size) :
    (h.popFirst hs).Keeps (m.erase h.timers[0].key) := by
  rw [popFirst_eq]
  split
  · next hs' =>
      have habove : (h.vacated 0 hs).OrderedAbove 0 := fun hpos => absurd hpos (Nat.lt_irrefl 0)
      exact ((hk.indexed.vacated hs).siftDown hs').keeps
        (ordered_siftDown hs' (hk.ordered.vacated hs) habove) (hk.timers_vacated hs)
  · next hlast => exact hk.vacated_last hs hlast

/-- A key is dropped, and the flag tells whether it had a timer. -/
theorem Keeps.remove (hk : h.Keeps m) (k : κ) :
    (h.remove k).1 = m.contains k ∧ (h.remove k).2.Keeps (m.erase k) := by
  rw [TimerHeap.remove]
  cases hslot : h.slots.get? k with
  | some slot =>
      obtain ⟨t, ht, hkey⟩ := hk.indexed.timer_of_slot hslot
      obtain ⟨hs, hget⟩ := Array.getElem?_eq_some_iff.1 ht
      have hm := (hk.timers t).1 (Array.mem_of_getElem? ht)
      have hcontains : m.contains k = true := by
        rw [SortedMap.contains_eq, ← hkey, hm]
        rfl
      have hout := hk.takeOut hs
      rw [hget, hkey] at hout
      simp only [dif_pos hs]
      exact ⟨hcontains.symm, hout⟩
  | none =>
      have hnone : m.get? k = none := by
        refine Option.eq_none_iff_forall_ne_some.2 fun d hd => ?_
        obtain ⟨x, hx⟩ := Array.mem_iff_getElem?.1 ((hk.timers ⟨d, k⟩).2 hd)
        have hslot' := (hk.indexed k x).2 (keyAt?_eq_some_iff.2 ⟨_, hx, rfl⟩)
        rw [hslot] at hslot'
        cases hslot'
      refine ⟨by rw [SortedMap.contains_eq, hnone]; rfl, ?_⟩
      rw [SortedMap.erase_of_get?_eq_none hnone]
      exact hk

end

end TimerHeap

end ControlLoop
