/-
What the loop did, and which keys are due by that.

# The ledger

The loop does two things: it handles a command, or its timer fires and
it hands out keys. A ledger of both, oldest first (`Deed`), decides when
a key is to come: at the deadline that was drawn when it was queued last,
unless it was dropped or handed out since (`dueAfter`). No heap and no
timer is left in this.

# What a firing hands out

A firing is timely if it hands out the keys that are due by the ledger
in front of it, each once and the earliest first (`Timely`). Then each of
them was asked for last (`LastAsked`), nothing that is due stays behind,
and in a ledger whose firings are all timely no key comes more often than
it was queued (`handouts_le_requests`).
-/
import ControlLoop.Resync
import Mathlib.Data.List.Induction

namespace ControlLoop.Resync

def Command.key : Command → Key
  | .enqueue key => key
  | .dequeue key => key

/-- What the loop did, and when. -/
inductive Deed where
  /-- It handled a command. Where that was to enqueue, `delay` is the jittered period, if there is
  a span that long. -/
  | handled (now : Nat) (delay : Option Duration) (c : Command)
  | fired (now : Nat) (keys : List Key)
  deriving DecidableEq

namespace Deed

/-- The deed decides anew when a key is due. -/
def IsAbout (k : Key) : Deed → Prop
  | .handled _ _ c => c.key = k
  | .fired _ keys => k ∈ keys

/-- When a key is due after a deed, given when it was due before. -/
def due (k : Key) : Deed → Option Nat → Option Nat
  | .handled now delay (.enqueue key), old =>
    if key = k then delay.bind (deadline? now) else old
  | .handled _ _ (.dequeue key), old => if key = k then none else old
  | .fired _ keys, old => if k ∈ keys then none else old

def isRequest (k : Key) : Deed → Bool
  | .handled _ _ c => c = .enqueue k
  | .fired _ _ => false

def keys : Deed → List Key
  | .handled _ _ _ => []
  | .fired _ keys => keys

theorem due_of_not_isAbout {k : Key} {deed : Deed} (h : ¬ deed.IsAbout k) (old : Option Nat) :
    deed.due k old = old := by
  cases deed with
  | handled now delay c => cases c <;> exact if_neg h
  | fired now keys => exact if_neg h

theorem count_keys_of_not_isAbout {k : Key} {deed : Deed} (h : ¬ deed.IsAbout k) :
    deed.keys.count k = 0 := by
  cases deed with
  | handled now delay c => exact List.count_nil
  | fired now keys => exact List.count_eq_zero_of_not_mem h

/-- A key is due after a deed about it only if that was to queue it. -/
theorem of_due_eq_some {k : Key} {deed : Deed} {old : Option Nat} {x : Nat}
    (h : deed.due k old = some x) (habout : deed.IsAbout k) :
    ∃ now d, deed = .handled now (some d) (.enqueue k) ∧ deadline? now d = some x := by
  cases deed with
  | handled now delay c =>
      cases c with
      | enqueue key =>
          obtain rfl : key = k := habout
          rw [due, if_pos rfl, Option.bind_eq_some_iff] at h
          obtain ⟨d, rfl, hd⟩ := h
          exact ⟨now, d, rfl, hd⟩
      | dequeue key =>
          obtain rfl : key = k := habout
          rw [due, if_pos rfl] at h
          cases h
  | fired now keys =>
      have hk : k ∈ keys := habout
      rw [due, if_pos hk] at h
      cases h

/-- Only a request makes a key due. -/
theorem due_none_of_not_isRequest {k : Key} {deed : Deed} (h : deed.isRequest k = false) :
    deed.due k none = none := by
  cases deed with
  | handled now delay c =>
      cases c with
      | enqueue key =>
          have hne : key ≠ k := fun heq => by simp [isRequest, heq] at h
          exact if_neg hne
      | dequeue key => exact ite_self none
  | fired now keys => exact ite_self none

end Deed

-- ============================================================ when due

/-- When a key is to be handed out, by what was done so far. -/
def dueAfter (deeds : List Deed) (k : Key) : Option Nat :=
  deeds.foldl (fun old deed => deed.due k old) none

def requests (k : Key) (deeds : List Deed) : Nat := deeds.countP (Deed.isRequest k)

def handouts (k : Key) (deeds : List Deed) : Nat := (deeds.flatMap Deed.keys).count k

theorem dueAfter_concat (deeds : List Deed) (deed : Deed) (k : Key) :
    dueAfter (deeds ++ [deed]) k = deed.due k (dueAfter deeds k) := by
  rw [dueAfter, List.foldl_append]
  rfl

/-- What is not about a key leaves open when it is due. -/
theorem dueAfter_append_of_quiet {front back : List Deed} {k : Key}
    (h : ∀ deed ∈ back, ¬ deed.IsAbout k) : dueAfter (front ++ back) k = dueAfter front k := by
  induction back using List.reverseRecOn with
  | nil => rw [List.append_nil]
  | append_singleton back deed ih =>
      rw [← List.append_assoc, dueAfter_concat, Deed.due_of_not_isAbout (h deed (by simp)),
        ih fun deed' hmem => h deed' (List.mem_append_left _ hmem)]

/-- A key that was dropped is not due before it is queued again. -/
theorem dueAfter_of_dropped {front back : List Deed} {now : Nat} {delay : Option Duration}
    {k : Key} (h : ∀ deed ∈ back, deed.isRequest k = false) :
    dueAfter (front ++ .handled now delay (.dequeue k) :: back) k = none := by
  induction back using List.reverseRecOn with
  | nil => rw [dueAfter_concat, Deed.due, if_pos rfl]
  | append_singleton back deed ih =>
      rw [← List.cons_append, ← List.append_assoc, dueAfter_concat,
        ih fun deed' hmem => h deed' (List.mem_append_left _ hmem)]
      exact Deed.due_none_of_not_isRequest (h deed (by simp))

theorem requests_concat (k : Key) (deeds : List Deed) (deed : Deed) :
    requests k (deeds ++ [deed]) = requests k deeds + if deed.isRequest k then 1 else 0 := by
  rw [requests, List.countP_append, List.countP_singleton]
  rfl

theorem handouts_concat (k : Key) (deeds : List Deed) (deed : Deed) :
    handouts k (deeds ++ [deed]) = handouts k deeds + deed.keys.count k := by
  rw [handouts, List.flatMap_append, List.count_append, List.flatMap_singleton]
  rfl

theorem le_of_deadline? {now x : Nat} {d : Duration} (h : deadline? now d = some x) :
    x = now + d.toNanos := by
  simp only [deadline?] at h
  split at h
  · exact (Option.some.inj h).symm
  · cases h

theorem isSome_deadline?_iff {now : Nat} {d : Duration} :
    (deadline? now d).isSome = true ↔ (now + d.toNanos) / nanosPerSecond ≤ lastSecond := by
  simp [deadline?, Option.isSome_ite]

/-- An instant before one at which a period leads to a deadline is such an instant too. -/
theorem isSome_deadline?_of_le {delay : Option Duration} {now now' : Nat} (hle : now ≤ now')
    (h : (delay.bind (deadline? now')).isSome = true) :
    (delay.bind (deadline? now)).isSome = true := by
  cases delay with
  | none => cases h
  | some d =>
      rw [Option.bind_some, isSome_deadline?_iff] at h ⊢
      exact Nat.le_trans (Nat.div_le_div_right (Nat.add_le_add_right hle _)) h

/-- A key that is due was queued, and nothing was done about it since. -/
theorem exists_request_of_due {deeds : List Deed} {k : Key} {x : Nat}
    (h : dueAfter deeds k = some x) :
    ∃ front back now d, deeds = front ++ .handled now (some d) (.enqueue k) :: back
      ∧ (∀ deed ∈ back, ¬ deed.IsAbout k) ∧ x = now + d.toNanos := by
  induction deeds using List.reverseRecOn with
  | nil => cases h
  | append_singleton deeds deed ih =>
      rw [dueAfter_concat] at h
      by_cases habout : deed.IsAbout k
      · obtain ⟨now, d, rfl, hd⟩ := Deed.of_due_eq_some h habout
        exact ⟨deeds, [], now, d, rfl, fun _ h => absurd h List.not_mem_nil, le_of_deadline? hd⟩
      · rw [Deed.due_of_not_isAbout habout] at h
        obtain ⟨front, back, now, d, rfl, hback, hx⟩ := ih h
        refine ⟨front, back ++ [deed], now, d, by simp, fun deed' hmem => ?_, hx⟩
        rcases List.mem_append.1 hmem with hmem | hmem
        · exact hback deed' hmem
        · exact List.mem_singleton.1 hmem ▸ habout

-- ============================================================= firings

/-- The last thing that was done about a key was to queue it, and its delay is over. -/
def LastAsked (deeds : List Deed) (now : Nat) (k : Key) : Prop :=
  ∃ front back then_ d, deeds = front ++ .handled then_ (some d) (.enqueue k) :: back
    ∧ (∀ deed ∈ back, ¬ deed.IsAbout k) ∧ then_ + d.toNanos ≤ now

/-- The keys are those that are due, each once and the earliest first. -/
structure Timely (deeds : List Deed) (now : Nat) (keys : List Key) : Prop where
  nodup : keys.Nodup
  mem_iff : ∀ k, k ∈ keys ↔ ∃ x, dueAfter deeds k = some x ∧ x ≤ now
  sorted : keys.Pairwise fun k k' =>
    ∀ x x', dueAfter deeds k = some x → dueAfter deeds k' = some x' → x ≤ x'

section

variable {deeds : List Deed} {now : Nat} {keys : List Key}

theorem Timely.lastAsked (h : Timely deeds now keys) {k : Key} (hk : k ∈ keys) :
    LastAsked deeds now k := by
  obtain ⟨x, hx, hle⟩ := (h.mem_iff k).1 hk
  obtain ⟨front, back, then_, d, hdeeds, hback, rfl⟩ := exists_request_of_due hx
  exact ⟨front, back, then_, d, hdeeds, hback, hle⟩

/-- Nothing that is due stays behind. -/
theorem Timely.late (h : Timely deeds now keys) {k : Key} {x : Nat}
    (hx : dueAfter (deeds ++ [.fired now keys]) k = some x) : now < x := by
  rw [dueAfter_concat, Deed.due] at hx
  split at hx
  · cases hx
  · next hk =>
    exact Nat.lt_of_not_le fun hle => hk ((h.mem_iff k).2 ⟨x, hx, hle⟩)

end

/-- A key that was dropped is queued again before it is handed out. -/
theorem LastAsked.exists_request {front back : List Deed} {then_ now : Nat}
    {delay : Option Duration} {k : Key}
    (h : LastAsked (front ++ .handled then_ delay (.dequeue k) :: back) now k) :
    ∃ deed ∈ back, deed.isRequest k = true := by
  obtain ⟨front', back', then', d, heq, hquiet, -⟩ := h
  rcases List.append_eq_append_iff.1 heq with ⟨mid, hfront, hrest⟩ | ⟨mid, hfront, hrest⟩
  · -- the request comes after the front, and is not the dropping itself
    cases mid with
    | nil => cases hrest
    | cons deed mid =>
        obtain ⟨-, rfl⟩ := List.cons.inj hrest
        exact ⟨_, List.mem_append_right _ List.mem_cons_self, by simp [Deed.isRequest]⟩
  · cases mid with
    | nil => cases hrest
    | cons deed mid =>
        obtain ⟨-, rfl⟩ := List.cons.inj hrest
        exact absurd rfl (hquiet (.handled then_ delay (.dequeue k)) (by simp))

def AllTimely (deeds : List Deed) : Prop :=
  ∀ before now keys after, deeds = before ++ .fired now keys :: after → Timely before now keys

theorem AllTimely.of_concat {deeds : List Deed} {deed : Deed} (h : AllTimely (deeds ++ [deed])) :
    AllTimely deeds := fun before now keys after heq =>
  h before now keys (after ++ [deed]) (by simp [heq])

theorem AllTimely.concat {deeds : List Deed} {deed : Deed} (h : AllTimely deeds)
    (hdeed : ∀ now keys, deed = .fired now keys → Timely deeds now keys) :
    AllTimely (deeds ++ [deed]) := by
  intro before now keys after heq
  rcases List.eq_nil_or_concat after with rfl | ⟨after', last, rfl⟩
  · obtain ⟨rfl, hlast⟩ := List.append_inj' heq rfl
    exact hdeed now keys (List.cons.inj hlast).1
  · have heq : deeds ++ [deed] = (before ++ .fired now keys :: after') ++ [last] := by
      rw [heq, List.concat_eq_append, List.append_assoc, List.cons_append]
    exact h before now keys after' (List.append_inj' heq rfl).1

/-- No key is handed out more often than it was queued: what was queued last may still be to
come. -/
theorem handouts_le_requests {deeds : List Deed} (h : AllTimely deeds) (k : Key) :
    handouts k deeds + (if (dueAfter deeds k).isSome then 1 else 0) ≤ requests k deeds := by
  induction deeds using List.reverseRecOn with
  | nil => exact Nat.le_refl 0
  | append_singleton deeds deed ih =>
      have ih := ih h.of_concat
      rw [handouts_concat, requests_concat, dueAfter_concat]
      by_cases habout : deed.IsAbout k
      · cases deed with
        | handled now delay c =>
            cases c with
            | enqueue key =>
                -- one more request, and at most one key to come
                obtain rfl : key = k := habout
                have hcome : (if (Deed.due key (.handled now delay (.enqueue key))
                    (dueAfter deeds key)).isSome then 1 else 0) ≤ 1 := by split <;> omega
                simp only [Deed.keys, Deed.isRequest, List.count_nil, decide_true, if_true]
                omega
            | dequeue key =>
                obtain rfl : key = k := habout
                simp [Deed.keys, Deed.isRequest, Deed.due]
                omega
        | fired now keys =>
            -- what was to come has come, once
            have hk : k ∈ keys := habout
            have htimely := h deeds now keys [] rfl
            obtain ⟨x, hx, -⟩ := (htimely.mem_iff k).1 hk
            have hone := List.nodup_iff_count.1 htimely.nodup k
            simp [hx] at ih
            simp [Deed.keys, Deed.isRequest, Deed.due, hk]
            omega
      · rw [Deed.due_of_not_isAbout habout, Deed.count_keys_of_not_isAbout habout]
        omega

end ControlLoop.Resync
