/-
The queue of timers behaves as a table of deadlines.

# The table

What a queue is for fits in a map from keys to deadlines (`Timetable`):
a timer is set or reset by an insertion and dropped by an erasure, and
taking out what is due leaves the entries that are not. The heap, its
side map and the way timers move in it are only there to do this fast.

# Taking out what is due

The first timer has the earliest deadline, so taking it out as long as
it is due takes out every key that is due, each once and the earliest
first (`Popped`), and leaves the other entries (`Keeps.popDue`).

# What follows

Each call hands on that the heap keeps the table, and so whatever calls
were made, everything that can be asked of the heap has the answer that
the table gives (`shows_of_calls`).
-/
import ControlLoop.Proofs.Timers.Keeping

namespace ControlLoop

/-- What can be asked of a queue of timers that changes it. -/
inductive TimerCall (κ : Type) where
  | push (key : κ) (deadline : Nat)
  | remove (key : κ)
  | popDue (now : Nat)
  deriving DecidableEq, Repr

section

variable {κ : Type} [Ord κ] [Std.TransOrd κ]

/-- The queue after a call. -/
def TimerHeap.after (h : TimerHeap κ) : TimerCall κ → TimerHeap κ
  | .push key deadline => h.push key deadline
  | .remove key => (h.remove key).2
  | .popDue now => (h.popDue now).2

/-- The table after a call. -/
def Timetable.after (m : Timetable κ) : TimerCall κ → Timetable κ
  | .push key deadline => m.insert key deadline
  | .remove key => m.erase key
  | .popDue now => m.filter fun _ deadline => now < deadline

end

namespace TimerHeap

variable {κ : Type} [Ord κ]

/-- The deadline that the queue has for a key. -/
def deadline? (h : TimerHeap κ) (key : κ) : Option Nat :=
  (h.slots.get? key).bind fun slot => h.timers[slot]?.map (·.deadline)

variable [Std.TransOrd κ] [Std.LawfulEqOrd κ]

-- ============================================================ expiring

section

variable {h : TimerHeap κ} {m : Timetable κ}

omit [Std.TransOrd κ] [Std.LawfulEqOrd κ] in
/-- The first timer has the earliest deadline of the table. -/
theorem Keeps.first_le (hk : h.Keeps m) (hs : 0 < h.timers.size) :
    m.get? h.timers[0].key = some h.timers[0].deadline
      ∧ ∀ k d, m.get? k = some d → h.timers[0].deadline ≤ d := by
  refine ⟨(hk.timers _).1 (Array.getElem_mem hs), fun k d hd => ?_⟩
  obtain ⟨x, hx, hget⟩ := Array.mem_iff_getElem.1 ((hk.timers ⟨d, k⟩).2 hd)
  have hle := hk.ordered.due_zero_le hx
  rw [← due_eq hs, ← due_eq hx, hget] at hle
  exact hle

/-- Keys that are due, each once, earliest first. -/
structure Popped (m : Timetable κ) (now : Nat) (ks : List κ) : Prop where
  nodup : ks.Nodup
  mem : ∀ k, k ∈ ks ↔ ∃ d, m.get? k = some d ∧ d ≤ now
  sorted : ks.Pairwise fun k k' => ∀ d d', m.get? k = some d → m.get? k' = some d' → d ≤ d'

/-- A key that is due first comes before what is due without it. -/
theorem Popped.cons {now d : Nat} {k : κ} {ks : List κ} (hp : Popped (m.erase k) now ks)
    (hd : m.get? k = some d) (hle : d ≤ now) (hmin : ∀ k' d', m.get? k' = some d' → d ≤ d') :
    Popped m now (k :: ks) := by
  have hnot : k ∉ ks := fun hmem => by
    obtain ⟨d', hd', -⟩ := (hp.mem k).1 hmem
    rw [SortedMap.get?_erase_self] at hd'
    cases hd'
  have hne : ∀ k' ∈ ks, k' ≠ k := fun k' hmem heq => hnot (heq ▸ hmem)
  refine ⟨List.nodup_cons.2 ⟨hnot, hp.nodup⟩, fun k' => ?_, List.pairwise_cons.2 ⟨?_, ?_⟩⟩
  · rw [List.mem_cons]
    by_cases hk' : k' = k
    · subst hk'
      exact ⟨fun _ => ⟨d, hd, hle⟩, fun _ => Or.inl rfl⟩
    · rw [or_iff_right hk', hp.mem, SortedMap.get?_erase_of_ne _ hk']
  · intro k' _ d₁ d' hd₁ hd'
    rw [hd] at hd₁
    cases hd₁
    exact hmin k' d' hd'
  · refine List.Pairwise.imp_of_mem (fun {a b} ha hb hab d₁ d₂ h₁ h₂ => ?_) hp.sorted
    rw [← SortedMap.get?_erase_of_ne m (hne a ha)] at h₁
    rw [← SortedMap.get?_erase_of_ne m (hne b hb)] at h₂
    exact hab d₁ d₂ h₁ h₂

/-- Where nothing is due, nothing is taken out. -/
theorem popped_nil (now : Nat) (hlate : ∀ k d, m.get? k = some d → now < d) :
    Popped m now [] ∧ (m.filter fun _ d => now < d) = m := by
  refine ⟨⟨List.nodup_nil, fun k => ?_, List.Pairwise.nil⟩, ?_⟩
  · refine iff_of_false List.not_mem_nil ?_
    rintro ⟨d, hd, hle⟩
    exact absurd (hlate k d hd) (Nat.not_lt_of_le hle)
  · refine SortedMap.ext_get? fun k => Option.ext fun d => ?_
    rw [SortedMap.get?_filter, Option.filter_eq_some_iff]
    exact ⟨fun h' => h'.1, fun h' => ⟨h', decide_eq_true (hlate k d h')⟩⟩

theorem Keeps.popDue (hk : h.Keeps m) (now : Nat) :
    Popped m now (h.popDue now).1 ∧ (h.popDue now).2.Keeps (m.filter fun _ d => now < d) := by
  -- on the timers that are left, one less after each that was due
  fun_induction TimerHeap.popDue h now generalizing m with
  | case1 h hs hdue keys rest hrest ih =>
      obtain ⟨hfirst, hmin⟩ := hk.first_le hs
      obtain ⟨hpopped, hkeeps⟩ := ih (hk.popFirst hs)
      rw [hrest] at hpopped hkeeps
      refine ⟨hpopped.cons hfirst hdue hmin, ?_⟩
      have hfilter : (m.erase h.timers[0].key).filter (fun _ d => decide (now < d))
          = m.filter fun _ d => decide (now < d) := SortedMap.ext_get? fun k => by
        rw [SortedMap.get?_filter, SortedMap.get?_filter]
        by_cases hkey : k = h.timers[0].key
        · rw [hkey, SortedMap.get?_erase_self, hfirst]
          simp [Option.filter, Nat.not_lt_of_le hdue]
        · rw [SortedMap.get?_erase_of_ne _ hkey]
      rwa [hfilter] at hkeeps
  | case2 h hs hlate =>
      obtain ⟨-, hmin⟩ := hk.first_le hs
      obtain ⟨hpopped, hfilter⟩ := popped_nil (m := m) now fun k d hd =>
        Nat.lt_of_lt_of_le (Nat.lt_of_not_le hlate) (hmin k d hd)
      rw [hfilter]
      exact ⟨hpopped, hk⟩
  | case3 h hs =>
      obtain ⟨hpopped, hfilter⟩ := popped_nil (m := m) now fun k d hd => by
        obtain ⟨x, hx, -⟩ := Array.mem_iff_getElem.1 ((hk.timers ⟨d, k⟩).2 hd)
        omega
      rw [hfilter]
      exact ⟨hpopped, hk⟩

/-- Keys that are due, each once, are the keys of the entries that are due. -/
theorem Popped.perm {now : Nat} {ks : List κ} (hp : Popped m now ks) :
    ks.Perm (m.filter fun _ d => d ≤ now).keys := by
  refine (List.perm_ext_iff_of_nodup hp.nodup (SortedMap.keys_nodup _)).2 fun k => ?_
  rw [hp.mem, SortedMap.mem_keys_iff, SortedMap.contains_eq, Option.isSome_iff_exists]
  refine exists_congr fun d => ?_
  rw [SortedMap.get?_filter, Option.filter_eq_some_iff, decide_eq_true_iff]

end

-- ============================================================== a run

theorem Keeps.after {h : TimerHeap κ} {m : Timetable κ} (hk : h.Keeps m) (c : TimerCall κ) :
    (h.after c).Keeps (m.after c) := by
  cases c with
  | push k d => exact hk.push k d
  | remove k => exact (hk.remove k).2
  | popDue now => exact (hk.popDue now).2

theorem keeps_calls (calls : List (TimerCall κ)) {h : TimerHeap κ} {m : Timetable κ}
    (hk : h.Keeps m) : (calls.foldl after h).Keeps (calls.foldl Timetable.after m) := by
  induction calls generalizing h m with
  | nil => exact hk
  | cons c rest ih => exact ih (hk.after c)

section

variable {h : TimerHeap κ} {m : Timetable κ}

omit [Std.TransOrd κ] [Std.LawfulEqOrd κ] in
theorem Keeps.deadline? (hk : h.Keeps m) (k : κ) :
    h.deadline? k = m.get? k := by
  refine Option.ext fun d => ?_
  rw [← hk.timers ⟨d, k⟩, TimerHeap.deadline?, Option.bind_eq_some_iff]
  constructor
  · rintro ⟨slot, hslot, hd⟩
    obtain ⟨t, ht, rfl⟩ := hk.indexed.timer_of_slot hslot
    rw [ht] at hd
    cases hd
    exact Array.mem_of_getElem? ht
  · intro hmem
    obtain ⟨x, hx⟩ := Array.mem_iff_getElem?.1 hmem
    refine ⟨x, (hk.indexed k x).2 (keyAt?_eq_some_iff.2 ⟨_, hx, rfl⟩), ?_⟩
    rw [hx]
    rfl

omit [Std.TransOrd κ] [Std.LawfulEqOrd κ] in
theorem Keeps.contains (hk : h.Keeps m) (k : κ) : h.contains k = m.contains k := by
  have hdead := hk.deadline? k
  rw [TimerHeap.contains, SortedMap.contains_eq, SortedMap.contains_eq, ← hdead,
    TimerHeap.deadline?]
  cases hslot : h.slots.get? k with
  | none => rfl
  | some slot =>
      obtain ⟨t, ht, -⟩ := hk.indexed.timer_of_slot hslot
      simp [ht]

theorem Keeps.size (hk : h.Keeps m) : h.size = m.size := by
  have hperm : (h.timers.toList.map (·.key)).Perm m.keys := by
    refine (List.perm_ext_iff_of_nodup hk.indexed.nodup_keys m.keys_nodup).2 fun k => ?_
    rw [SortedMap.mem_keys_iff, SortedMap.contains_eq, Option.isSome_iff_exists, List.mem_map]
    constructor
    · rintro ⟨t, ht, rfl⟩
      exact ⟨t.deadline, (hk.timers t).1 (Array.mem_toList_iff.1 ht)⟩
    · rintro ⟨d, hd⟩
      exact ⟨⟨d, k⟩, Array.mem_toList_iff.2 ((hk.timers ⟨d, k⟩).2 hd), rfl⟩
  have hlength := hperm.length_eq
  rw [List.length_map, Array.length_toList] at hlength
  rw [TimerHeap.size, hlength]
  exact List.length_map ..

theorem mem_values_iff {d : Nat} : d ∈ m.values ↔ ∃ k, m.get? k = some d := by
  rw [SortedMap.values, List.mem_map]
  constructor
  · rintro ⟨⟨k, d'⟩, hmem, rfl⟩
    exact ⟨k, SortedMap.get?_of_mem_toList hmem⟩
  · rintro ⟨k, hd⟩
    exact ⟨(k, d), SortedMap.mem_toList_of_get? hd, rfl⟩

theorem Keeps.firstDeadline? (hk : h.Keeps m) : h.firstDeadline? = m.values.min? := by
  rw [TimerHeap.firstDeadline?]
  by_cases hs : 0 < h.timers.size
  · obtain ⟨hfirst, hmin⟩ := hk.first_le hs
    rw [Array.getElem?_eq_getElem hs, Option.map_some]
    refine (List.min?_eq_some_iff.2 ⟨mem_values_iff.2 ⟨_, hfirst⟩, fun d hd => ?_⟩).symm
    obtain ⟨k, hd⟩ := mem_values_iff.1 hd
    exact hmin k d hd
  · have hempty : m.values = [] := by
      refine List.eq_nil_iff_forall_not_mem.2 fun d hd => ?_
      obtain ⟨k, hd⟩ := mem_values_iff.1 hd
      obtain ⟨x, hx, -⟩ := Array.mem_iff_getElem.1 ((hk.timers ⟨d, k⟩).2 hd)
      omega
    rw [hempty, Array.getElem?_eq_none (by omega)]
    rfl

theorem Keeps.isEmpty (hk : h.Keeps m) : h.isEmpty = m.isEmpty := by
  have hsize : h.timers.size = m.entries.length := hk.size
  rw [Bool.eq_iff_iff, TimerHeap.isEmpty, SortedMap.isEmpty, Array.isEmpty_iff_size_eq_zero,
    List.isEmpty_iff_length_eq_zero, hsize]

end

/-- Everything that can be asked of the heap has the answer that the table gives. -/
structure Shows (h : TimerHeap κ) (m : Timetable κ) : Prop where
  size : h.size = m.size
  isEmpty : h.isEmpty = m.isEmpty
  contains : ∀ k, h.contains k = m.contains k
  deadline : ∀ k, h.deadline? k = m.get? k
  first : h.firstDeadline? = m.values.min?
  removed : ∀ k, (h.remove k).1 = m.contains k
  popped : ∀ now, (h.popDue now).1.Perm (m.filter fun _ deadline => deadline ≤ now).keys
  sorted : ∀ now, (h.popDue now).1.Pairwise fun k k' =>
    ∀ d d', m.get? k = some d → m.get? k' = some d' → d ≤ d'

theorem Keeps.shows {h : TimerHeap κ} {m : Timetable κ} (hk : h.Keeps m) : h.Shows m where
  size := hk.size
  isEmpty := hk.isEmpty
  contains := hk.contains
  deadline := hk.deadline?
  first := hk.firstDeadline?
  removed := fun k => (hk.remove k).1
  popped := fun now => (hk.popDue now).1.perm
  sorted := fun now => (hk.popDue now).1.sorted

/-- After any calls the heap answers as the table of the latest deadlines does. -/
theorem shows_of_calls (calls : List (TimerCall κ)) :
    (calls.foldl after (empty : TimerHeap κ)).Shows
      (calls.foldl Timetable.after (∅ : Timetable κ)) :=
  (keeps_calls calls keeps_empty).shows

/-- One timer is reset to a later time, one is dropped, and the two that are due together come out
in some order. -/
theorem shows_of_calls_reset :
    (([.push "a" 7, .push "b" 3, .push "c" 5, .push "b" 9, .remove "c", .push "d" 7]
        : List (TimerCall String)).foldl after empty).firstDeadline? = some 7
      ∧ ((([.push "a" 7, .push "b" 3, .push "c" 5, .push "b" 9, .remove "c", .push "d" 7]
        : List (TimerCall String)).foldl after empty).popDue 8).1.Perm ["a", "d"] :=
  ⟨(shows_of_calls _).first.trans (by decide), (shows_of_calls _).popped 8⟩

end TimerHeap

end ControlLoop
