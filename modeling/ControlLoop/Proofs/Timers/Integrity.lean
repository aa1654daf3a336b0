/-
The heap stays whole: no operation asks for a slot that is not there,
and every loop ends.

# Operations that may fail

The heap takes a slot only along with a proof that it is there, and it
sifts for as long as it takes. Here its operations are written once more
with neither: a slot may be missing when it is asked for, and a loop has
a number of turns (`siftUp?`, `siftDown?` and what is made of them). An
operation fails if a slot beyond the end is asked for, or if a loop is
still going when its turns are over.

# Why they never fail

On the way up each slot is half as far from the front as the one before,
on the way down twice as far, so a sift ends within as many turns as the
heap has levels (`siftUp?_eq`, `siftDown?_eq`), whatever the heap holds.
A slot that comes out of the side map is another matter: it is there if
the side map is right (`after?_eq`), and that is so after any calls.

# What holds between calls

The heap that any calls lead to keeps a table, and so it is in order,
its side map knows each key once and in its slot, and no other key
(`WellFormed`). The order alone is restored by settling a slot whatever
was put into it, as it fails around that slot only (`Ordered.set`).
-/
import ControlLoop.Proofs.Timers.Timetable

namespace ControlLoop.TimerHeap

variable {κ : Type} [Ord κ]

-- ================================================================ levels

/-- The number of levels: each has room for twice as many timers as the one above. -/
def levels (h : TimerHeap κ) : Nat := h.timers.size.log2 + 1

section

variable {h : TimerHeap κ} {slot : Nat}

theorem log2_le_log2 {m n : Nat} (h : m ≤ n) : m.log2 ≤ n.log2 := by
  rcases Nat.eq_zero_or_pos m with rfl | hpos
  · rw [Nat.log2_zero]
    exact Nat.zero_le _
  · exact (Nat.le_log2 (by omega)).2 (Nat.le_trans (Nat.log2_self_le (by omega)) h)

/-- The slot above is half as far from the front. -/
theorem log2_succ_parentSlot (hpos : 0 < slot) :
    (slot + 1).log2 = (parentSlot slot + 1).log2 + 1 := by
  have hhalf : (slot + 1) / 2 = parentSlot slot + 1 := by
    unfold parentSlot
    omega
  rw [Nat.log2_def, if_pos (by omega), hhalf]

/-- The slots below are twice as far from the front, so that the end is half as many times away. -/
theorem log2_size_div_lt (hs : slot < h.timers.size) (hne : h.earliestSlot slot hs ≠ slot) :
    (h.timers.size / (h.earliestSlot slot hs + 1)).log2 < (h.timers.size / (slot + 1)).log2 := by
  obtain ⟨hpos, hparent, -⟩ := earliestSlot_of_ne hs hne
  have hlt := earliestSlot_lt hs
  have hdouble : (slot + 1) * 2 ≤ h.earliestSlot slot hs + 1 := by
    unfold parentSlot at hparent
    omega
  have hhalf : h.timers.size / (h.earliestSlot slot hs + 1) ≤ h.timers.size / (slot + 1) / 2 := by
    rw [Nat.div_div_eq_div_mul]
    exact Nat.div_le_div_left hdouble (by omega)
  have htwo : 2 ≤ h.timers.size / (slot + 1) := by
    rw [Nat.le_div_iff_mul_le (Nat.succ_pos slot)]
    omega
  rw [Nat.log2_def (h.timers.size / (slot + 1)), if_pos htwo]
  exact Nat.lt_succ_of_le (log2_le_log2 hhalf)

theorem log2_succ_lt_levels (hs : slot < h.timers.size) : (slot + 1).log2 < h.levels :=
  Nat.lt_succ_of_le (log2_le_log2 hs)

theorem log2_size_div_lt_levels (h : TimerHeap κ) (slot : Nat) :
    (h.timers.size / (slot + 1)).log2 < h.levels :=
  Nat.lt_succ_of_le (log2_le_log2 (Nat.div_le_self ..))

end

-- ================================================ operations that may fail

/-- Exchange two timers, if both slots are there. -/
def exchanged? (timers : Array (Timer κ)) (i j : Nat) : Option (Array (Timer κ)) :=
  if h : i < timers.size ∧ j < timers.size then some (timers.swap i j h.1 h.2) else none

/-- The slot with the earlier deadline, as far as the second one is there. -/
def earlier? (h : TimerHeap κ) (i j : Nat) : Option Nat :=
  if j < h.timers.size then do
    let other ← h.timers[j]?
    let timer ← h.timers[i]?
    some (if other.deadline < timer.deadline then j else i)
  else some i

/-- The earliest of a slot and the two below it, as far as these are there. -/
def earliest? (h : TimerHeap κ) (slot : Nat) : Option Nat := do
  h.earlier? (← h.earlier? slot (2 * slot + 1)) (2 * slot + 2)

variable [Std.TransOrd κ]

def swap? (h : TimerHeap κ) (i j : Nat) : Option (TimerHeap κ) := do
  let timers ← exchanged? h.timers i j
  let first ← timers[i]?
  let second ← timers[j]?
  some ⟨timers, (h.slots.insert first.key i).insert second.key j⟩

/-- The way up, and the slot that it ends in. -/
def siftUp? (h : TimerHeap κ) (slot : Nat) : (turns : Nat) → Option (TimerHeap κ × Nat)
  | 0 => none
  | turns + 1 =>
    if 0 < slot then do
      let timer ← h.timers[slot]?
      let above ← h.timers[parentSlot slot]?
      if above.deadline ≤ timer.deadline then some (h, slot)
      else siftUp? (← h.swap? slot (parentSlot slot)) (parentSlot slot) turns
    else some (h, slot)

def siftDown? (h : TimerHeap κ) (slot : Nat) : (turns : Nat) → Option (TimerHeap κ)
  | 0 => none
  | turns + 1 => do
    let earliest ← h.earliest? slot
    if earliest = slot then some h
    else siftDown? (← h.swap? slot earliest) earliest turns

def settle? (h : TimerHeap κ) (slot : Nat) : Option (TimerHeap κ) := do
  let (up, reached) ← h.siftUp? slot h.levels
  if reached = slot then up.siftDown? slot up.levels else some up

def push? (h : TimerHeap κ) (key : κ) (deadline : Nat) : Option (TimerHeap κ) :=
  match h.slots.get? key with
  | some slot => do
    let timer ← h.timers[slot]?
    { h with timers := h.timers.setIfInBounds slot { timer with deadline } : TimerHeap κ }.settle?
      slot
  | none => do
    let longer := h.appended key deadline
    let (up, _) ← longer.siftUp? h.timers.size longer.levels
    some up

/-- The timer in a slot, and the timers without it: the last one fills the gap. -/
def withoutSlot? (timers : Array (Timer κ)) (slot : Nat) :
    Option (Timer κ × Array (Timer κ)) := do
  let timers ← exchanged? timers slot (timers.size - 1)
  some (← timers.back?, timers.pop)

/-- Note which timer fills a gap, unless the gap was at the end. -/
def noted? (timers : Array (Timer κ)) (slots : SortedMap κ Nat) (slot : Nat) :
    Option (TimerHeap κ) :=
  if slot < timers.size then do
    let timer ← timers[slot]?
    some ⟨timers, slots.insert timer.key slot⟩
  else some ⟨timers, slots⟩

def remove? (h : TimerHeap κ) (key : κ) : Option (Bool × TimerHeap κ) :=
  match h.slots.get? key with
  | some slot => do
    let (_, timers) ← withoutSlot? h.timers slot
    let rest ← noted? timers (h.slots.erase key) slot
    if slot < timers.size then some (true, ← rest.settle? slot) else some (true, rest)
  | none => some (false, h)

def popFirst? (h : TimerHeap κ) : Option (κ × TimerHeap κ) := do
  let (first, timers) ← withoutSlot? h.timers 0
  let rest ← noted? timers (h.slots.erase first.key) 0
  if 0 < timers.size then some (first.key, ← rest.siftDown? 0 rest.levels)
  else some (first.key, rest)

def popDue? (h : TimerHeap κ) (now : Nat) : (turns : Nat) → Option (List κ × TimerHeap κ)
  | 0 => none
  | turns + 1 =>
    match h.firstDeadline? with
    | some deadline =>
      if deadline ≤ now then do
        let (key, rest) ← h.popFirst?
        let (keys, rest) ← rest.popDue? now turns
        some (key :: keys, rest)
      else some ([], h)
    | none => some ([], h)

/-- The queue after a call that did not fail. What is due is taken out in at most a turn for each
timer and one more, which finds nothing due. -/
def after? (h : TimerHeap κ) : TimerCall κ → Option (TimerHeap κ)
  | .push key deadline => h.push? key deadline
  | .remove key => (h.remove? key).map (·.2)
  | .popDue now => (h.popDue? now (h.size + 1)).map (·.2)

-- ============================================================= the sifts

section

variable {h : TimerHeap κ} {slot : Nat}

omit [Ord κ] [Std.TransOrd κ] in
theorem exchanged?_eq {timers : Array (Timer κ)} {i j : Nat} (hi : i < timers.size)
    (hj : j < timers.size) : exchanged? timers i j = some (timers.swap i j hi hj) :=
  dif_pos ⟨hi, hj⟩

omit [Std.TransOrd κ] in
theorem earlier?_eq {i j : Nat} (hi : i < h.timers.size) :
    h.earlier? i j = some (h.earlierSlot i j hi) := by
  unfold earlier? earlierSlot
  split
  · next hj =>
      rw [Array.getElem?_eq_getElem hi, Array.getElem?_eq_getElem hj]
      rfl
  · rfl

omit [Std.TransOrd κ] in
theorem earliest?_eq (hs : slot < h.timers.size) :
    h.earliest? slot = some (h.earliestSlot slot hs) := by
  unfold earliest?
  rw [earlier?_eq hs]
  exact earlier?_eq (earlierSlot_lt hs)

theorem swap?_eq {i j : Nat} (hi : i < h.timers.size) (hj : j < h.timers.size) :
    h.swap? i j = some (h.swap i j hi hj) := by
  have hfirst : (h.timers.swap i j hi hj)[i]? = some h.timers[j] := by simp [hi]
  have hsecond : (h.timers.swap i j hi hj)[j]? = some h.timers[i] := by simp [hj]
  unfold swap?
  rw [exchanged?_eq hi hj]
  show (do
    let first ← (h.timers.swap i j hi hj)[i]?
    let second ← (h.timers.swap i j hi hj)[j]?
    some (TimerHeap.mk (h.timers.swap i j hi hj)
      ((h.slots.insert first.key i).insert second.key j))) = _
  rw [hfirst, hsecond]
  rfl

/-- The slot above is half as far from the front, so the way up ends within the turns that halving
takes. -/
theorem siftUp?_eq (hs : slot < h.timers.size) {turns : Nat} (hturns : (slot + 1).log2 < turns) :
    ∃ reached, h.siftUp? slot turns = some ((h.siftUp slot hs).1, reached) ∧ reached ≤ slot
      ∧ (reached = slot ↔ (h.siftUp slot hs).2 = false) := by
  fun_induction siftUp h slot hs generalizing turns with
  | case1 h slot hs hpos hp hlt ih =>
      obtain _ | turns := turns
      · omega
      rw [log2_succ_parentSlot hpos] at hturns
      obtain ⟨reached, hrun, hle, -⟩ := ih (Nat.lt_of_succ_lt_succ hturns)
      have hne : reached < slot := Nat.lt_of_le_of_lt hle (parentSlot_lt hpos)
      refine ⟨reached, ?_, Nat.le_of_lt hne, iff_of_false (Nat.ne_of_lt hne) Bool.noConfusion⟩
      rw [siftUp?, if_pos hpos, Array.getElem?_eq_getElem hs, Array.getElem?_eq_getElem hp,
        swap?_eq hs hp]
      show (if h.timers[parentSlot slot].deadline ≤ h.timers[slot].deadline then _ else _) = _
      rw [if_neg (Nat.not_le_of_lt hlt)]
      exact hrun
  | case2 h slot hs hpos hp hlt =>
      obtain _ | turns := turns
      · omega
      refine ⟨slot, ?_, Nat.le_refl slot, iff_of_true rfl rfl⟩
      rw [siftUp?, if_pos hpos, Array.getElem?_eq_getElem hs, Array.getElem?_eq_getElem hp]
      show (if h.timers[parentSlot slot].deadline ≤ h.timers[slot].deadline then _ else _) = _
      rw [if_pos (Nat.le_of_not_lt hlt)]
  | case3 h slot hs hpos =>
      obtain _ | turns := turns
      · omega
      exact ⟨slot, if_neg hpos, Nat.le_refl slot, iff_of_true rfl rfl⟩

/-- The way down ends within the turns that it takes to halve what is before the end. -/
theorem siftDown?_eq (hs : slot < h.timers.size) {turns : Nat}
    (hturns : (h.timers.size / (slot + 1)).log2 < turns) :
    h.siftDown? slot turns = some (h.siftDown slot hs) := by
  fun_induction siftDown h slot hs generalizing turns with
  | case1 h slot hs heq =>
      obtain _ | turns := turns
      · omega
      rw [siftDown?, earliest?_eq hs]
      exact if_pos heq
  | case2 h slot hs hne ih =>
      obtain _ | turns := turns
      · omega
      have hbelow := log2_size_div_lt hs hne
      rw [siftDown?, earliest?_eq hs]
      show (if h.earliestSlot slot hs = slot then some h
        else (h.swap? slot (h.earliestSlot slot hs)).bind
          fun next => next.siftDown? (h.earliestSlot slot hs) turns) = _
      rw [if_neg hne, swap?_eq hs (earliestSlot_lt hs)]
      refine ih ?_
      rw [size_swap]
      omega

/-- A timer that does not go up leaves the heap as it is. -/
theorem siftUp_of_stays (hs : slot < h.timers.size) :
    (h.siftUp slot hs).2 = false → (h.siftUp slot hs).1 = h := by
  fun_cases siftUp h slot hs with
  | case1 => exact Bool.noConfusion
  | case2 => exact fun _ => rfl
  | case3 => exact fun _ => rfl

theorem settle?_eq (hs : slot < h.timers.size) : h.settle? slot = some (h.settle slot hs) := by
  obtain ⟨reached, hup, -, hstays⟩ := siftUp?_eq hs (log2_succ_lt_levels hs)
  unfold settle?
  rw [hup, settle_eq]
  show (if reached = slot then _ else _) = _
  by_cases hreached : reached = slot
  · have hfalse := hstays.1 hreached
    rw [if_pos hreached, if_neg (Bool.eq_false_iff.1 hfalse), siftUp_of_stays hs hfalse]
    exact siftDown?_eq hs (h.log2_size_div_lt_levels slot)
  · have hmoved : (h.siftUp slot hs).2 = true :=
      eq_true_of_ne_false fun hfalse => hreached (hstays.2 hfalse)
    rw [if_neg hreached, if_pos hmoved]

end

-- ======================================================== the operations

section

variable {h : TimerHeap κ} {slot : Nat}

/-- A slot that the side map knows is there. -/
theorem push?_eq (hx : h.Indexed) (key : κ) (deadline : Nat) :
    h.push? key deadline = some (h.push key deadline) := by
  unfold push? push
  cases hslot : h.slots.get? key with
  | some slot =>
      obtain ⟨t, ht, -⟩ := hx.timer_of_slot hslot
      obtain ⟨hs, -⟩ := Array.getElem?_eq_some_iff.1 ht
      simp only [Array.getElem?_eq_getElem hs, dif_pos hs]
      show settle? { h with timers := h.timers.setIfInBounds slot _ } slot = _
      rw [Array.setIfInBounds_def, dif_pos hs]
      exact settle?_eq _
  | none =>
      have hend : h.timers.size < (h.appended key deadline).timers.size := by simp [appended]
      obtain ⟨reached, hup, -⟩ := siftUp?_eq hend (log2_succ_lt_levels hend)
      simp only [hup]
      rfl

/-- A slot that is not there is noticed. -/
example : push? ⟨#[⟨3, "a"⟩], SortedMap.ofList [("b", 1)]⟩ "b" 2 = none := rfl

theorem withoutSlot?_eq (hs : slot < h.timers.size) :
    withoutSlot? h.timers slot = some (h.timers[slot], (h.vacated slot hs).timers) := by
  unfold withoutSlot?
  rw [exchanged?_eq hs (Nat.sub_one_lt_of_lt hs), timers_vacated]
  have hlast : (h.timers.swap slot (h.timers.size - 1) hs (Nat.sub_one_lt_of_lt hs)).back?
      = some h.timers[slot] := by
    simp [Array.back?, Nat.sub_one_lt_of_lt hs]
  show (do
    let timer ← (h.timers.swap slot (h.timers.size - 1) hs (Nat.sub_one_lt_of_lt hs)).back?
    some (timer, _)) = _
  rw [hlast]
  rfl

theorem noted?_eq (hs : slot < h.timers.size) :
    noted? (h.vacated slot hs).timers (h.slots.erase h.timers[slot].key) slot
      = some (h.vacated slot hs) := by
  rw [timers_vacated]
  unfold noted? vacated
  simp only
  split
  · next hs' =>
      rw [Array.getElem?_eq_getElem hs']
      rfl
  · rfl

theorem remove?_eq (hx : h.Indexed) (key : κ) : h.remove? key = some (h.remove key) := by
  unfold remove? remove
  cases hslot : h.slots.get? key with
  | some slot =>
      obtain ⟨t, ht, hkey⟩ := hx.timer_of_slot hslot
      obtain ⟨hs, hget⟩ := Array.getElem?_eq_some_iff.1 ht
      have hnoted := noted?_eq hs
      rw [hget, hkey] at hnoted
      simp only [withoutSlot?_eq hs, dif_pos hs, takeOut_eq]
      show (do
        let rest ← noted? (h.vacated slot hs).timers (h.slots.erase key) slot
        if slot < (h.vacated slot hs).timers.size then some (true, ← rest.settle? slot)
        else some (true, rest)) = _
      rw [hnoted]
      show (if slot < (h.vacated slot hs).timers.size then _ else _) = _
      split
      · next hs' =>
          rw [settle?_eq hs']
          rfl
      · rfl
  | none => rfl

theorem popFirst?_eq (hs : 0 < h.timers.size) :
    h.popFirst? = some (h.timers[0].key, h.popFirst hs) := by
  unfold popFirst?
  rw [withoutSlot?_eq hs, popFirst_eq]
  show (do
    let rest ← noted? (h.vacated 0 hs).timers (h.slots.erase h.timers[0].key) 0
    if 0 < (h.vacated 0 hs).timers.size then
      some (h.timers[0].key, ← rest.siftDown? 0 rest.levels)
    else some (h.timers[0].key, rest)) = _
  rw [noted?_eq hs]
  show (if 0 < (h.vacated 0 hs).timers.size then _ else _) = _
  split
  · next hs' =>
      rw [siftDown?_eq hs' (log2_size_div_lt_levels _ 0)]
      rfl
  · rfl

/-- Each turn but the last one takes out a timer. -/
theorem popDue?_eq (now : Nat) {turns : Nat} (hturns : h.timers.size < turns) :
    h.popDue? now turns = some (h.popDue now) := by
  fun_induction popDue h now generalizing turns with
  | case1 h hs hdue keys rest hrest ih =>
      obtain _ | turns := turns
      · omega
      have hfewer := h.size_popFirst hs
      have hlater := @ih turns (by omega)
      rw [hrest] at hlater
      rw [popDue?, firstDeadline?, Array.getElem?_eq_getElem hs]
      show (if h.timers[0].deadline ≤ now then _ else _) = _
      rw [if_pos hdue, popFirst?_eq hs]
      show (do
        let (keys, rest) ← (h.popFirst hs).popDue? now turns
        some (h.timers[0].key :: keys, rest)) = _
      rw [hlater]
      rfl
  | case2 h hs hlate =>
      obtain _ | turns := turns
      · omega
      rw [popDue?, firstDeadline?, Array.getElem?_eq_getElem hs]
      exact if_neg hlate
  | case3 h hs =>
      obtain _ | turns := turns
      · omega
      rw [popDue?, firstDeadline?, Array.getElem?_eq_none (by omega)]
      rfl

/-- Where the side map is right, a call asks for no slot beyond the end, and its loops end. -/
theorem after?_eq (hx : h.Indexed) (c : TimerCall κ) : h.after? c = some (h.after c) := by
  cases c with
  | push key deadline => exact push?_eq hx key deadline
  | remove key =>
      rw [after?, remove?_eq hx]
      rfl
  | popDue now =>
      have hpop : h.popDue? now (h.size + 1) = some (h.popDue now) :=
        popDue?_eq now (Nat.lt_succ_self h.timers.size)
      rw [after?, hpop]
      rfl

end

-- ========================================================= after any calls

/-- No timer is due before the one above it. -/
def InOrder (timers : Array (Timer κ)) : Prop :=
  ∀ i (hi : i < timers.size), timers[(i - 1) / 2].deadline ≤ timers[i].deadline

/-- What holds of the timers and of the side map between any two calls. -/
structure WellFormed (h : TimerHeap κ) : Prop where
  distinct : (h.timers.toList.map (·.key)).Nodup
  indexed : ∀ i (hi : i < h.timers.size), h.slots.get? h.timers[i].key = some i
  known : ∀ k, h.slots.contains k = true → ∃ t ∈ h.timers, t.key = k
  ordered : InOrder h.timers

omit [Std.TransOrd κ] in
theorem ordered_iff {h : TimerHeap κ} : h.Ordered ↔ InOrder h.timers := by
  constructor
  · intro ho i hi
    rcases Nat.eq_zero_or_pos i with rfl | hpos
    · exact Nat.le_refl _
    · have hle := ho i hpos hi
      unfold parentSlot at hle
      rwa [← due_eq hi, ← due_eq (by omega)] at hle
  · intro ho i hpos hi
    have hp := parentSlot_lt hpos
    rw [← due_eq hi, ← due_eq (by omega)]
    exact ho i hi

omit [Std.TransOrd κ] in
theorem Keeps.wellFormed {h : TimerHeap κ} {m : Timetable κ} (hk : h.Keeps m) :
    h.WellFormed where
  distinct := hk.indexed.nodup_keys
  indexed := fun i hi => (hk.indexed _ i).2 (keyAt?_eq hi)
  known := fun k hcontains => by
    obtain ⟨slot, hslot⟩ := Option.isSome_iff_exists.1 (h.slots.contains_eq k ▸ hcontains)
    obtain ⟨t, ht, hkey⟩ := hk.indexed.timer_of_slot hslot
    exact ⟨t, Array.mem_of_getElem? ht, hkey⟩
  ordered := ordered_iff.1 hk.ordered

section

variable {h : TimerHeap κ} {slot : Nat} (hs : slot < h.timers.size)

theorem siftUp_perm : (h.siftUp slot hs).1.timers.Perm h.timers := by
  fun_induction siftUp h slot hs with
  | case1 h slot hs hpos hp hlt ih => exact ih.trans (Array.swap_perm hs hp)
  | case2 => exact Array.Perm.rfl
  | case3 => exact Array.Perm.rfl

theorem siftDown_perm : (h.siftDown slot hs).timers.Perm h.timers := by
  fun_induction siftDown h slot hs with
  | case1 => exact Array.Perm.rfl
  | case2 h slot hs hne ih => exact ih.trans (Array.swap_perm hs (earliestSlot_lt hs))

theorem settle_perm : (h.settle slot hs).timers.Perm h.timers := by
  rw [settle_eq]
  split
  · exact siftUp_perm hs
  · exact siftDown_perm hs

omit [Std.TransOrd κ] in
/-- Whatever is put into a slot of an ordered heap, the order fails around that slot only. -/
theorem Ordered.set (ho : h.Ordered) (t : Timer κ) :
    ({ h with timers := h.timers.set slot t hs } : TimerHeap κ).OrderedExcept slot := by
  refine ho.except (by simp) fun i _ hne => ?_
  unfold due
  rw [Array.getElem?_set_ne hs (Ne.symm hne)]

end

/-- From a heap with a table on, calls do what they should without ever failing. -/
theorem foldlM_after?_eq [Std.LawfulEqOrd κ] (calls : List (TimerCall κ)) {h : TimerHeap κ}
    {m : Timetable κ} (hk : h.Keeps m) : calls.foldlM after? h = some (calls.foldl after h) := by
  induction calls generalizing h m with
  | nil => rfl
  | cons c rest ih =>
      rw [List.foldlM_cons, after?_eq hk.indexed]
      exact ih (hk.after c)

/-- Calls from the empty heap on never fail, whatever they are: no slot is asked for that is not
there, and each sift ends within as many turns as there are levels. They leave the heap well formed.
And settling a slot puts a heap in order again, whatever else was put into that slot. -/
theorem well_formed_of_calls [Std.LawfulEqOrd κ] (calls : List (TimerCall κ)) :
    (∃ h, calls.foldlM after? (empty : TimerHeap κ) = some h ∧ h = calls.foldl after empty
      ∧ h.WellFormed)
    ∧ ∀ (h : TimerHeap κ) (slot : Nat) (hs : slot < h.timers.size) (t : Timer κ),
      InOrder h.timers →
        ∃ h', settle? { h with timers := h.timers.set slot t } slot = some h'
          ∧ InOrder h'.timers ∧ h'.timers.Perm (h.timers.set slot t) := by
  constructor
  · exact ⟨_, foldlM_after?_eq calls keeps_empty, rfl, (keeps_calls calls keeps_empty).wellFormed⟩
  · intro h slot hs t ho
    have hs' : slot < (h.timers.set slot t).size := by simpa using hs
    exact ⟨_, settle?_eq hs', ordered_iff.1 (ordered_settle hs' ((ordered_iff.2 ho).set hs t)),
      settle_perm hs'⟩

/-- One timer is reset to a later time and one is dropped; and where the second of five timers is
replaced by one that is due last, it goes down. -/
theorem well_formed_of_calls_reset :
    (∃ h, ([.push "a" 7, .push "b" 3, .push "c" 5, .push "b" 9, .remove "c", .push "d" 7,
        .popDue 7] : List (TimerCall String)).foldlM after? empty = some h ∧ h.WellFormed)
    ∧ InOrder #[Timer.mk 1 "a", ⟨4, "b"⟩, ⟨2, "c"⟩, ⟨6, "d"⟩, ⟨5, "e"⟩]
    ∧ ∃ h', settle? ⟨#[Timer.mk 1 "a", ⟨9, "z"⟩, ⟨2, "c"⟩, ⟨6, "d"⟩, ⟨5, "e"⟩], ∅⟩ 1 = some h'
      ∧ InOrder h'.timers := by
  have horder : InOrder #[Timer.mk 1 "a", ⟨4, "b"⟩, ⟨2, "c"⟩, ⟨6, "d"⟩, ⟨5, "e"⟩] := by
    unfold InOrder
    decide
  obtain ⟨⟨h, hrun, -, hwell⟩, hsettle⟩ := well_formed_of_calls
    [.push "a" 7, .push "b" 3, .push "c" 5, .push "b" 9, .remove "c", .push "d" 7, .popDue 7]
  obtain ⟨h', hsettled, horder', -⟩ := hsettle
    ⟨#[⟨1, "a"⟩, ⟨4, "b"⟩, ⟨2, "c"⟩, ⟨6, "d"⟩, ⟨5, "e"⟩], ∅⟩ 1 (by decide) ⟨9, "z"⟩ horder
  exact ⟨⟨h, hrun, hwell⟩, horder, h', hsettled, horder'⟩

end ControlLoop.TimerHeap
