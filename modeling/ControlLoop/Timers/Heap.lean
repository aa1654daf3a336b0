/-
A queue of timers in which every key has at most one.

The timers form a binary heap by deadline. A map beside it knows the
slot of every key, so that a timer can be reset or dropped wherever it
is. Among equal deadlines the shape of the heap decides: a timer moves
up only past a later deadline and down only past an earlier one, and of
two earlier children the left one is tried first.
-/
import ControlLoop.SortedMap

namespace ControlLoop

/-- A key and the time at which it is due. -/
structure Timer (κ : Type) where
  deadline : Nat
  key : κ
  deriving DecidableEq, Repr

/-- Timers in heap order, and the slot of every key. -/
structure TimerHeap (κ : Type) [Ord κ] where
  timers : Array (Timer κ)
  slots : SortedMap κ Nat

namespace TimerHeap

variable {κ : Type} [Ord κ]

def empty : TimerHeap κ := ⟨#[], ∅⟩

instance : Inhabited (TimerHeap κ) := ⟨empty⟩

def size (h : TimerHeap κ) : Nat := h.timers.size

def isEmpty (h : TimerHeap κ) : Bool := h.timers.isEmpty

/-- Whether a key has a timer. -/
def contains (h : TimerHeap κ) (key : κ) : Bool := h.slots.contains key

/-- The earliest deadline. -/
def firstDeadline? (h : TimerHeap κ) : Option Nat := h.timers[0]?.map (·.deadline)

/-- The slot above a slot. -/
def parentSlot (slot : Nat) : Nat := (slot - 1) / 2

variable [Std.TransOrd κ]

-- ====================================================== sifting

/-- Exchange two timers and note their new slots. -/
def swap (h : TimerHeap κ) (i j : Nat) (hi : i < h.timers.size) (hj : j < h.timers.size) :
    TimerHeap κ :=
  { timers := h.timers.swap i j
    slots := (h.slots.insert h.timers[j].key i).insert h.timers[i].key j }

@[simp] theorem size_swap (h : TimerHeap κ) (i j : Nat) (hi : i < h.timers.size)
    (hj : j < h.timers.size) : (h.swap i j hi hj).timers.size = h.timers.size := by
  simp [swap]

/-- Move a timer up past every later deadline above it. The flag tells whether it moved. -/
def siftUp (h : TimerHeap κ) (slot : Nat) (hs : slot < h.timers.size) : TimerHeap κ × Bool :=
  if hpos : 0 < slot then
    have hp : parentSlot slot < h.timers.size := by unfold parentSlot; omega
    if h.timers[slot].deadline < h.timers[parentSlot slot].deadline then
      ((siftUp (h.swap slot (parentSlot slot) hs hp) (parentSlot slot) (by simpa using hp)).1,
        true)
    else (h, false)
  else (h, false)
termination_by slot
decreasing_by unfold parentSlot; omega

/-- The slot with the earlier deadline; the first one if they are equal. -/
def earlierSlot (h : TimerHeap κ) (i j : Nat) (hi : i < h.timers.size) : Nat :=
  if hj : j < h.timers.size then
    if h.timers[j].deadline < h.timers[i].deadline then j else i
  else i

omit [Std.TransOrd κ] in
theorem earlierSlot_lt {h : TimerHeap κ} {i j : Nat} (hi : i < h.timers.size) :
    h.earlierSlot i j hi < h.timers.size := by
  unfold earlierSlot
  split
  · split <;> assumption
  · exact hi

omit [Std.TransOrd κ] in
theorem earlierSlot_eq_or {h : TimerHeap κ} {i j : Nat} (hi : i < h.timers.size) :
    h.earlierSlot i j hi = i ∨ h.earlierSlot i j hi = j := by
  unfold earlierSlot
  split
  · split
    · exact Or.inr rfl
    · exact Or.inl rfl
  · exact Or.inl rfl

/-- The earliest of a slot and the two below it. -/
def earliestSlot (h : TimerHeap κ) (slot : Nat) (hs : slot < h.timers.size) : Nat :=
  h.earlierSlot (h.earlierSlot slot (2 * slot + 1) hs) (2 * slot + 2) (earlierSlot_lt hs)

omit [Std.TransOrd κ] in
theorem earliestSlot_lt {h : TimerHeap κ} {slot : Nat} (hs : slot < h.timers.size) :
    h.earliestSlot slot hs < h.timers.size := earlierSlot_lt _

omit [Std.TransOrd κ] in
theorem le_earliestSlot {h : TimerHeap κ} {slot : Nat} (hs : slot < h.timers.size) :
    slot ≤ h.earliestSlot slot hs := by
  have h₁ := earlierSlot_eq_or (j := 2 * slot + 2) (earlierSlot_lt (j := 2 * slot + 1) hs)
  have h₂ := earlierSlot_eq_or (j := 2 * slot + 1) hs
  unfold earliestSlot
  omega

/-- Move a timer down past every earlier deadline below it. -/
def siftDown (h : TimerHeap κ) (slot : Nat) (hs : slot < h.timers.size) : TimerHeap κ :=
  if heq : h.earliestSlot slot hs = slot then h
  else
    siftDown (h.swap slot (h.earliestSlot slot hs) hs (earliestSlot_lt hs))
      (h.earliestSlot slot hs) (by simpa using earliestSlot_lt hs)
termination_by h.timers.size - slot
decreasing_by
  have h₁ := le_earliestSlot hs
  have h₂ := earliestSlot_lt hs
  rw [size_swap]
  omega

@[simp] theorem size_siftUp (h : TimerHeap κ) (slot : Nat) (hs : slot < h.timers.size) :
    (h.siftUp slot hs).1.timers.size = h.timers.size := by
  fun_induction siftUp h slot hs with
  | case1 h slot hs hpos hp hlt ih => simpa using ih
  | case2 => rfl
  | case3 => rfl

@[simp] theorem size_siftDown (h : TimerHeap κ) (slot : Nat) (hs : slot < h.timers.size) :
    (h.siftDown slot hs).timers.size = h.timers.size := by
  fun_induction siftDown h slot hs with
  | case1 => rfl
  | case2 h slot hs heq ih => simpa using ih

/-- Put a timer whose deadline changed where it belongs. -/
def settle (h : TimerHeap κ) (slot : Nat) (hs : slot < h.timers.size) : TimerHeap κ :=
  let (up, moved) := h.siftUp slot hs
  if moved then up else h.siftDown slot hs

-- =================================================== operations

/-- Give a key a deadline, in place of any that it has. -/
def push (h : TimerHeap κ) (key : κ) (deadline : Nat) : TimerHeap κ :=
  match h.slots.get? key with
  | some slot =>
    if hs : slot < h.timers.size then
      { h with timers := h.timers.set slot { h.timers[slot] with deadline } }.settle slot (by
        simpa using hs)
    else h
  | none =>
    ({ timers := h.timers.push ⟨deadline, key⟩
       slots := h.slots.insert key h.timers.size : TimerHeap κ }.siftUp h.timers.size (by
      simp)).1

/-- Take out the timer in a slot: the last timer fills the gap. -/
def takeOut (h : TimerHeap κ) (slot : Nat) (hs : slot < h.timers.size) : TimerHeap κ :=
  let timers := (h.timers.swap slot (h.timers.size - 1)).pop
  let slots := h.slots.erase h.timers[slot].key
  if hs' : slot < timers.size then
    { timers, slots := slots.insert timers[slot].key slot : TimerHeap κ }.settle slot hs'
  else { timers, slots }

/-- Drop the timer of a key. The flag tells whether it had one. -/
def remove (h : TimerHeap κ) (key : κ) : Bool × TimerHeap κ :=
  match h.slots.get? key with
  | some slot => (true, if hs : slot < h.timers.size then h.takeOut slot hs else h)
  | none => (false, h)

/-- Take out the first timer. -/
def popFirst (h : TimerHeap κ) (hs : 0 < h.timers.size) : TimerHeap κ :=
  let timers := (h.timers.swap 0 (h.timers.size - 1)).pop
  let slots := h.slots.erase h.timers[0].key
  if hs' : 0 < timers.size then
    { timers, slots := slots.insert timers[0].key 0 : TimerHeap κ }.siftDown 0 hs'
  else { timers, slots }

theorem size_popFirst (h : TimerHeap κ) (hs : 0 < h.timers.size) :
    (h.popFirst hs).timers.size + 1 = h.timers.size := by
  unfold popFirst
  simp only
  split
  · simp only [size_siftDown, Array.size_pop, Array.size_swap]
    omega
  · simp only [Array.size_pop, Array.size_swap]
    omega

/-- Take out every timer that is due, earliest first. -/
def popDue (h : TimerHeap κ) (now : Nat) : List κ × TimerHeap κ :=
  if hs : 0 < h.timers.size then
    if h.timers[0].deadline ≤ now then
      let (keys, rest) := popDue (h.popFirst hs) now
      (h.timers[0].key :: keys, rest)
    else ([], h)
  else ([], h)
termination_by h.timers.size
decreasing_by
  have := h.size_popFirst hs
  omega

end TimerHeap

end ControlLoop
