/-
Sifting restores the order of the heap and keeps everything else.

# What must hold

The heap is in order when no timer is due before the one above it
(`Ordered`), and its side map is right when it gives for every key the
slot of the key's timer and knows no other key (`Indexed`). Both are
said about what a slot holds, slots beyond the end holding nothing.

# One slot out of place

While a timer is on its way the order fails around one slot only: every
other timer is in order with the one above it, and the timers right
below that slot are in order with the one right above it
(`OrderedExcept`). This is all that is left of the order when the
deadline of a slot is changed at will or a timer from elsewhere is put
there, and it is what every exchange on the way hands on to the next
slot. A timer that finds the one above it in order has nothing to do
upwards, so the way down is enough for it (`ordered_settle`).

# Everything else

An exchange moves timers, and so no timer is lost or gained on the way
and the side map stays right (`Same`).
-/
import ControlLoop.Proofs.SortedMap
import ControlLoop.Timers.Heap

namespace ControlLoop.TimerHeap

variable {κ : Type} [Ord κ]

-- ===================================================== what a slot holds

/-- The deadline in a slot. -/
def due (h : TimerHeap κ) (slot : Nat) : Nat := (h.timers[slot]?.map (·.deadline)).getD 0

/-- The key in a slot. -/
def keyAt? (h : TimerHeap κ) (slot : Nat) : Option κ := h.timers[slot]?.map (·.key)

theorem due_eq {h : TimerHeap κ} {slot : Nat} (hs : slot < h.timers.size) :
    h.timers[slot].deadline = h.due slot := by
  simp [due, hs]

theorem keyAt?_eq {h : TimerHeap κ} {slot : Nat} (hs : slot < h.timers.size) :
    h.keyAt? slot = some h.timers[slot].key := by
  simp [keyAt?, hs]

theorem lt_of_keyAt? {h : TimerHeap κ} {slot : Nat} {k : κ} (hk : h.keyAt? slot = some k) :
    slot < h.timers.size := by
  refine Nat.lt_of_not_le fun hge => ?_
  rw [keyAt?, Array.getElem?_eq_none hge] at hk
  cases hk

theorem parentSlot_lt {slot : Nat} (h : 0 < slot) : parentSlot slot < slot := by
  unfold parentSlot
  omega

-- ============================================================ the order

/-- No timer is due before the one above it. -/
def Ordered (h : TimerHeap κ) : Prop :=
  ∀ i, 0 < i → i < h.timers.size → h.due (parentSlot i) ≤ h.due i

/-- The order fails around one slot only, and the timers below it are in order with the one above
it. -/
structure OrderedExcept (h : TimerHeap κ) (slot : Nat) : Prop where
  away : ∀ i, 0 < i → i < h.timers.size → i ≠ slot → parentSlot i ≠ slot →
    h.due (parentSlot i) ≤ h.due i
  across : 0 < slot → ∀ i, 0 < i → i < h.timers.size → parentSlot i = slot →
    h.due (parentSlot slot) ≤ h.due i

/-- A slot is in order with those below it. -/
def OrderedBelow (h : TimerHeap κ) (slot : Nat) : Prop :=
  ∀ i, 0 < i → i < h.timers.size → parentSlot i = slot → h.due slot ≤ h.due i

/-- A slot is in order with the one above it. -/
def OrderedAbove (h : TimerHeap κ) (slot : Nat) : Prop :=
  0 < slot → h.due (parentSlot slot) ≤ h.due slot

theorem OrderedExcept.ordered {h : TimerHeap κ} {slot : Nat} (ho : h.OrderedExcept slot)
    (hbelow : h.OrderedBelow slot) (habove : h.OrderedAbove slot) : h.Ordered := by
  intro i hpos hi
  by_cases hslot : i = slot
  · subst hslot
    exact habove hpos
  · by_cases hparent : parentSlot i = slot
    · rw [hparent]
      exact hbelow i hpos hi hparent
    · exact ho.away i hpos hi hslot hparent

/-- In an ordered heap the first timer is the earliest. -/
theorem Ordered.due_zero_le {h : TimerHeap κ} (ho : h.Ordered) {i : Nat}
    (hi : i < h.timers.size) : h.due 0 ≤ h.due i := by
  induction i using Nat.strongRecOn with
  | ind i ih =>
      rcases Nat.eq_zero_or_pos i with rfl | hpos
      · exact Nat.le_refl _
      · have hp := parentSlot_lt hpos
        exact Nat.le_trans (ih (parentSlot i) hp (by omega)) (ho i hpos hi)

/-- Where a heap differs from an ordered one in one slot, the order fails around that slot only. -/
theorem Ordered.except {h h' : TimerHeap κ} {slot : Nat} (ho : h.Ordered)
    (hsize : h'.timers.size ≤ h.timers.size)
    (hdue : ∀ i, i < h'.timers.size → i ≠ slot → h'.due i = h.due i) : h'.OrderedExcept slot where
  away := fun i hpos hi hslot hparent => by
    have hp := parentSlot_lt hpos
    rw [hdue i hi hslot, hdue _ (by omega) hparent]
    exact ho i hpos (by omega)
  across := fun hpos i hi hlt hparent => by
    have hp := parentSlot_lt hpos
    have hp' := parentSlot_lt hi
    rw [hdue i hlt (by omega), hdue _ (by omega) (by omega)]
    have h₁ := ho slot hpos (by omega)
    have h₂ := ho i hi (by omega)
    rw [hparent] at h₂
    exact Nat.le_trans h₁ h₂

-- ========================================================= one exchange

variable [Std.TransOrd κ]

section

variable {h : TimerHeap κ} {i j : Nat} (hi : i < h.timers.size) (hj : j < h.timers.size)

theorem getElem?_swap (x : Nat) :
    (h.swap i j hi hj).timers[x]?
      = if x = i then h.timers[j]? else if x = j then h.timers[i]? else h.timers[x]? := by
  show (h.timers.swap i j hi hj)[x]? = _
  rw [Array.getElem?_swap, ← Array.getElem?_eq_getElem hi, ← Array.getElem?_eq_getElem hj]
  by_cases hxi : x = i
  · rw [if_pos hxi, if_pos hxi.symm, hxi]
    split
    · next hji => rw [hji]
    · rfl
  · rw [if_neg hxi, if_neg (Ne.symm hxi)]
    by_cases hxj : x = j
    · rw [if_pos hxj, if_pos hxj.symm]
    · rw [if_neg hxj, if_neg (Ne.symm hxj)]

theorem due_swap (x : Nat) :
    (h.swap i j hi hj).due x
      = if x = i then h.due j else if x = j then h.due i else h.due x := by
  unfold due
  rw [getElem?_swap]
  split
  · rfl
  · split <;> rfl

theorem keyAt?_swap (x : Nat) :
    (h.swap i j hi hj).keyAt? x
      = if x = i then h.keyAt? j else if x = j then h.keyAt? i else h.keyAt? x := by
  unfold keyAt?
  rw [getElem?_swap]
  split
  · rfl
  · split <;> rfl

end

/-- A timer that is due before the one above it changes places with it, and then only the place
above may be out of order. -/
theorem OrderedExcept.swap_up {h : TimerHeap κ} {slot : Nat} (ho : h.OrderedExcept slot)
    (hbelow : h.OrderedBelow slot) (hpos : 0 < slot) (hs : slot < h.timers.size)
    (hp : parentSlot slot < h.timers.size) (hlt : h.due slot < h.due (parentSlot slot)) :
    (h.swap slot (parentSlot slot) hs hp).OrderedExcept (parentSlot slot)
      ∧ (h.swap slot (parentSlot slot) hs hp).OrderedBelow (parentSlot slot) := by
  have hps := parentSlot_lt hpos
  refine ⟨⟨fun i hi hsize hne hne' => ?_, fun hpos' i hi hsize hparent => ?_⟩,
    fun i hi hsize hparent => ?_⟩
  · rw [size_swap] at hsize
    rw [due_swap, due_swap, if_neg hne', if_neg hne]
    by_cases hslot : i = slot
    · subst hslot
      exact absurd rfl hne'
    · by_cases hbelow' : parentSlot i = slot
      · rw [if_pos hbelow', if_neg hslot]
        exact ho.across hpos i hi hsize hbelow'
      · rw [if_neg hbelow', if_neg hslot]
        exact ho.away i hi hsize hslot hbelow'
  · -- the other timer below the place above, and the one that came down
    have hpp := parentSlot_lt hpos'
    have habove := ho.away (parentSlot slot) hpos' hp (by omega) (by omega)
    rw [size_swap] at hsize
    rw [due_swap, due_swap, if_neg (by omega), if_neg (by omega)]
    by_cases hslot : i = slot
    · rw [if_pos hslot]
      exact habove
    · rw [if_neg hslot, if_neg (by have := parentSlot_lt hi; omega)]
      have hside := ho.away i hi hsize hslot (by omega)
      rw [hparent] at hside
      exact Nat.le_trans habove hside
  · rw [size_swap] at hsize
    rw [due_swap, due_swap, if_neg (by omega), if_pos rfl]
    by_cases hslot : i = slot
    · rw [if_pos hslot]
      exact Nat.le_of_lt hlt
    · rw [if_neg hslot, if_neg (by have := parentSlot_lt hi; omega)]
      have hside := ho.away i hi hsize hslot (by omega)
      rw [hparent] at hside
      exact Nat.le_trans (Nat.le_of_lt hlt) hside

/-- A timer changes places with the earliest of the two below it, and then only the place below may
be out of order. -/
theorem OrderedExcept.swap_down {h : TimerHeap κ} {slot child : Nat} (ho : h.OrderedExcept slot)
    (hs : slot < h.timers.size) (hc : child < h.timers.size) (hchild : parentSlot child = slot)
    (hpos : 0 < child) (hmin : ∀ i, 0 < i → i < h.timers.size → parentSlot i = slot →
      h.due child ≤ h.due i) (hlt : h.due child < h.due slot) :
    (h.swap slot child hs hc).OrderedExcept child
      ∧ (h.swap slot child hs hc).OrderedAbove child := by
  have hcs := parentSlot_lt hpos
  refine ⟨⟨fun i hi hsize hne hne' => ?_, fun _ i hi hsize hparent => ?_⟩, fun _ => ?_⟩
  · rw [size_swap] at hsize
    rw [due_swap, due_swap]
    by_cases hslot : i = slot
    · have hp : parentSlot i ≠ slot := by have := parentSlot_lt hi; omega
      rw [if_neg hp, if_neg hne', if_pos hslot, hslot]
      exact ho.across (by omega) child hpos hc hchild
    · rw [if_neg hslot, if_neg hne]
      by_cases hp : parentSlot i = slot
      · rw [if_pos hp]
        exact hmin i hi hsize hp
      · rw [if_neg hp, if_neg hne']
        exact ho.away i hi hsize hslot hp
  · have hip := parentSlot_lt hi
    rw [size_swap] at hsize
    rw [due_swap, due_swap, if_pos hchild, if_neg (by omega), if_neg (by omega)]
    have hside := ho.away i hi hsize (by omega) (by omega)
    rw [hparent] at hside
    exact hside
  · rw [due_swap, due_swap, if_pos hchild, if_neg (by omega), if_pos rfl]
    exact Nat.le_of_lt hlt

-- ============================================================ the sifts

omit [Std.TransOrd κ] in
/-- The earliest of a slot and the two below it is due before neither of them. -/
theorem due_earlierSlot_le {h : TimerHeap κ} {i j : Nat} (hi : i < h.timers.size) :
    h.due (h.earlierSlot i j hi) ≤ h.due i
      ∧ (j < h.timers.size → h.due (h.earlierSlot i j hi) ≤ h.due j) := by
  unfold earlierSlot
  split
  · next hj =>
      rw [due_eq, due_eq]
      split <;> omega
  · next hj => exact ⟨Nat.le_refl _, fun h' => absurd h' hj⟩

omit [Std.TransOrd κ] in
/-- A slot that is taken instead of another is due before it. -/
theorem earlierSlot_eq_or_due_lt {h : TimerHeap κ} {i j : Nat} (hi : i < h.timers.size) :
    h.earlierSlot i j hi = i ∨ h.due (h.earlierSlot i j hi) < h.due i := by
  unfold earlierSlot
  split
  · next hj =>
      rw [due_eq, due_eq]
      split
      · next hlt => exact Or.inr hlt
      · exact Or.inl rfl
  · exact Or.inl rfl

omit [Std.TransOrd κ] in
theorem due_earliestSlot_le {h : TimerHeap κ} {slot : Nat} (hs : slot < h.timers.size) {i : Nat}
    (hpos : 0 < i) (hi : i < h.timers.size) (hparent : parentSlot i = slot) :
    h.due (h.earliestSlot slot hs) ≤ h.due i := by
  have hleft := due_earlierSlot_le (j := 2 * slot + 1) hs
  have hboth := due_earlierSlot_le (j := 2 * slot + 2) (earlierSlot_lt (j := 2 * slot + 1) hs)
  unfold earliestSlot
  have hcases : i = 2 * slot + 1 ∨ i = 2 * slot + 2 := by
    unfold parentSlot at hparent
    omega
  rcases hcases with rfl | rfl
  · exact Nat.le_trans hboth.1 (hleft.2 hi)
  · exact hboth.2 hi

omit [Std.TransOrd κ] in
/-- If another slot than the upper one is the earliest, it lies right below and is due before it. -/
theorem earliestSlot_of_ne {h : TimerHeap κ} {slot : Nat} (hs : slot < h.timers.size)
    (hne : h.earliestSlot slot hs ≠ slot) :
    0 < h.earliestSlot slot hs ∧ parentSlot (h.earliestSlot slot hs) = slot
      ∧ h.due (h.earliestSlot slot hs) < h.due slot := by
  have hleft := earlierSlot_eq_or (j := 2 * slot + 1) hs
  have hboth := earlierSlot_eq_or (j := 2 * slot + 2) (earlierSlot_lt (j := 2 * slot + 1) hs)
  have hlt : h.due (h.earliestSlot slot hs) < h.due slot := by
    rcases earlierSlot_eq_or_due_lt (j := 2 * slot + 2)
        (earlierSlot_lt (j := 2 * slot + 1) hs) with hright | hright
    · rcases earlierSlot_eq_or_due_lt (j := 2 * slot + 1) hs with hfirst | hfirst
      · exact absurd (hright.trans hfirst) hne
      · rw [earliestSlot, hright]
        exact hfirst
    · exact Nat.lt_of_lt_of_le hright (due_earlierSlot_le hs).1
  refine ⟨?_, ?_, hlt⟩
  · unfold earliestSlot at hne ⊢
    omega
  · unfold earliestSlot parentSlot at *
    omega

/-- A timer that is in order with those below it finds its place on the way up. -/
theorem ordered_siftUp {h : TimerHeap κ} {slot : Nat} (hs : slot < h.timers.size)
    (ho : h.OrderedExcept slot) (hbelow : h.OrderedBelow slot) : (h.siftUp slot hs).1.Ordered := by
  -- along the way up: the order fails around the slot that was reached, and not below it
  fun_induction siftUp h slot hs with
  | case1 h slot hs hpos hp hlt ih =>
      rw [due_eq, due_eq] at hlt
      obtain ⟨ho', hbelow'⟩ := ho.swap_up hbelow hpos hs hp hlt
      exact ih ho' hbelow'
  | case2 h slot hs hpos hp hlt =>
      rw [due_eq, due_eq] at hlt
      exact ho.ordered hbelow fun _ => Nat.le_of_not_lt hlt
  | case3 h slot hs hpos => exact ho.ordered hbelow fun h' => absurd h' hpos

/-- A timer that is in order with the one above it finds its place on the way down. -/
theorem ordered_siftDown {h : TimerHeap κ} {slot : Nat} (hs : slot < h.timers.size)
    (ho : h.OrderedExcept slot) (habove : h.OrderedAbove slot) : (h.siftDown slot hs).Ordered := by
  fun_induction siftDown h slot hs with
  | case1 h slot hs heq =>
      refine ho.ordered (fun i hpos hi hparent => ?_) habove
      have hle := due_earliestSlot_le hs hpos hi hparent
      rwa [heq] at hle
  | case2 h slot hs hne ih =>
      obtain ⟨hpos, hparent, hlt⟩ := earliestSlot_of_ne hs hne
      obtain ⟨ho', habove'⟩ := ho.swap_down hs (earliestSlot_lt hs) hparent hpos
        (fun i hi hsize hp => due_earliestSlot_le hs hi hsize hp) hlt
      exact ih ho' habove'

/-- The way up says whether the timer had to go up, and stays where it is if not. -/
theorem siftUp_cases {h : TimerHeap κ} {slot : Nat} (hs : slot < h.timers.size) :
    ((h.siftUp slot hs).2 = true ∧ 0 < slot ∧ h.due slot < h.due (parentSlot slot))
      ∨ ((h.siftUp slot hs).2 = false ∧ h.OrderedAbove slot) := by
  rw [siftUp]
  split
  · next hpos =>
      simp only [due_eq]
      split
      · next hlt => exact Or.inl ⟨rfl, hpos, hlt⟩
      · next hlt => exact Or.inr ⟨rfl, fun _ => Nat.le_of_not_lt hlt⟩
  · next hpos => exact Or.inr ⟨rfl, fun h' => absurd h' hpos⟩

theorem settle_eq (h : TimerHeap κ) {slot : Nat} (hs : slot < h.timers.size) :
    h.settle slot hs
      = if (h.siftUp slot hs).2 = true then (h.siftUp slot hs).1 else h.siftDown slot hs := rfl

/-- Wherever the order fails around one slot, settling that slot restores it. -/
theorem ordered_settle {h : TimerHeap κ} {slot : Nat} (hs : slot < h.timers.size)
    (ho : h.OrderedExcept slot) : (h.settle slot hs).Ordered := by
  rw [settle_eq]
  rcases siftUp_cases hs with ⟨hmoved, hpos, hlt⟩ | ⟨hstays, habove⟩
  · rw [if_pos hmoved]
    refine ordered_siftUp hs ho fun i hi hsize hparent => ?_
    exact Nat.le_trans (Nat.le_of_lt hlt) (ho.across hpos i hi hsize hparent)
  · rw [if_neg (Bool.eq_false_iff.1 hstays)]
    exact ordered_siftDown hs ho habove

-- ====================================================== everything else

/-- The side map gives for every key the slot of its timer, and knows no other key. -/
def Indexed (h : TimerHeap κ) : Prop :=
  ∀ k slot, h.slots.get? k = some slot ↔ h.keyAt? slot = some k

omit [Std.TransOrd κ] in
theorem Indexed.slot_inj {h : TimerHeap κ} (hx : h.Indexed) {i j : Nat} {k : κ}
    (hi : h.keyAt? i = some k) (hj : h.keyAt? j = some k) : i = j := by
  have hi' := (hx k i).2 hi
  rw [(hx k j).2 hj] at hi'
  exact (Option.some.inj hi').symm

/-- Two heaps of the same timers, each with a side map that is right. -/
structure Same (h h' : TimerHeap κ) : Prop where
  indexed : h'.Indexed
  timers : ∀ t, t ∈ h'.timers ↔ t ∈ h.timers

omit [Std.TransOrd κ] in
theorem Same.trans {h h' h'' : TimerHeap κ} (h₁ : Same h h') (h₂ : Same h' h'') : Same h h'' :=
  ⟨h₂.indexed, fun t => (h₂.timers t).trans (h₁.timers t)⟩

omit [Std.TransOrd κ] in
theorem Indexed.same {h : TimerHeap κ} (hx : h.Indexed) : Same h h := ⟨hx, fun _ => Iff.rfl⟩

variable [Std.LawfulEqOrd κ]

/-- An exchange keeps the timers and the side map right. -/
theorem Indexed.swap {h : TimerHeap κ} (hx : h.Indexed) {i j : Nat} (hi : i < h.timers.size)
    (hj : j < h.timers.size) : Same h (h.swap i j hi hj) where
  indexed := fun k slot => by
    have hslots : (h.swap i j hi hj).slots
        = (h.slots.insert h.timers[j].key i).insert h.timers[i].key j := rfl
    have hinj : ∀ x y, h.keyAt? x = some k → h.keyAt? y = some k → x = y :=
      fun x y => hx.slot_inj
    have hold := hx k slot
    have hki := keyAt?_eq hi
    have hkj := keyAt?_eq hj
    rw [keyAt?_swap, hslots]
    generalize h.timers[i].key = first at hki
    generalize h.timers[j].key = second at hkj
    by_cases hfirst : k = first
    · rw [hfirst, SortedMap.get?_insert_self]
      grind
    · rw [SortedMap.get?_insert_of_ne _ _ hfirst]
      by_cases hsecond : k = second
      · rw [hsecond, SortedMap.get?_insert_self]
        grind
      · rw [SortedMap.get?_insert_of_ne _ _ hsecond]
        grind
  timers := fun t => (Array.swap_perm hi hj).mem_iff

theorem Indexed.siftUp {h : TimerHeap κ} (hx : h.Indexed) {slot : Nat}
    (hs : slot < h.timers.size) : Same h (h.siftUp slot hs).1 := by
  fun_induction TimerHeap.siftUp h slot hs with
  | case1 h slot hs hpos hp hlt ih =>
      have hswap := hx.swap hs hp
      exact hswap.trans (ih hswap.indexed)
  | case2 => exact hx.same
  | case3 => exact hx.same

theorem Indexed.siftDown {h : TimerHeap κ} (hx : h.Indexed) {slot : Nat}
    (hs : slot < h.timers.size) : Same h (h.siftDown slot hs) := by
  fun_induction TimerHeap.siftDown h slot hs with
  | case1 => exact hx.same
  | case2 h slot hs hne ih =>
      have hswap := hx.swap hs (earliestSlot_lt hs)
      exact hswap.trans (ih hswap.indexed)

theorem Indexed.settle {h : TimerHeap κ} (hx : h.Indexed) {slot : Nat}
    (hs : slot < h.timers.size) : Same h (h.settle slot hs) := by
  rw [settle_eq]
  split
  · exact hx.siftUp hs
  · exact hx.siftDown hs

end ControlLoop.TimerHeap
