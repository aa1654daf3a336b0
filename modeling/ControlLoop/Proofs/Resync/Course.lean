/-
Every key comes when it was asked for last, and only then.

# The course of the loop

Others send commands, take the events, or leave. The loop itself handles
the oldest command, whatever period is drawn for it, or fires when its
first timer is due; if both can be done, either may be next, and time
only goes on (`Course.Step`). Each handling and each firing goes down in
the ledger, a firing with the keys that are new among the events.

# The invariant

As long as the loop runs, its queue of timers holds for every key the
deadline that follows from the ledger, and all firings so far were timely
(`Course.Kept`). The queue behaves as a table of deadlines, so a command
changes it as it changes what is due by the ledger; and what a firing
takes out of it is what is due. Everything that is said of runs is then
read off the ledger.

# The loop as it is run

Letting the time pass on a loop (`Resync.advance`) is a run of these
steps, so what is proved of all runs holds of it.
-/
import ControlLoop.Proofs.Resync.Ledger
import ControlLoop.Proofs.Timers.Timetable
import Mathlib.Logic.Relation

namespace ControlLoop.Resync

-- ============================================================== the run

/-- The loop at an instant, and the ledger of what it did. -/
structure Course where
  loop : Resync
  clock : Nat
  deeds : List Deed

def newEvents (r r' : Resync) : List Key := r'.events.drop r.events.length

namespace Course

def start (now : Nat) : Course := ⟨Resync.start, now, []⟩

/-- What may happen next. -/
inductive Step : Course → Course → Prop
  | send {c : Course} (cmd : Command) : Step c { c with loop := c.loop.send cmd }
  | receive {c : Course} : Step c { c with loop := c.loop.receive.2 }
  | dropSender {c : Course} : Step c { c with loop := c.loop.dropSender }
  | dropReceiver {c : Course} : Step c { c with loop := c.loop.dropReceiver }
  /-- The loop takes the oldest command, with any period that may be drawn. -/
  | handle {c : Course} {now : Nat} {cmd : Command} {rest : List Command}
      (delay : Option Duration) (hruns : c.loop.running = true) (hnow : c.clock ≤ now)
      (hnext : c.loop.commands = cmd :: rest) :
      Step c ⟨{ c.loop with commands := rest }.handle now delay cmd, now,
        c.deeds ++ [.handled now delay cmd]⟩
  /-- The first timer is due, and the loop hands out keys. -/
  | fire {c : Course} {now head : Nat} (hruns : c.loop.running = true) (hnow : c.clock ≤ now)
      (hhead : c.loop.timers.firstDeadline? = some head) (hdue : head ≤ now)
      (htaken : c.loop.hasReceiver = true) :
      Step c ⟨c.loop.fire now, now,
        c.deeds ++ [.fired now (newEvents c.loop (c.loop.fire now))]⟩
  /-- The first timer is due, but nobody takes the keys. -/
  | abandon {c : Course} {now head : Nat} (hruns : c.loop.running = true) (hnow : c.clock ≤ now)
      (hhead : c.loop.timers.firstDeadline? = some head) (hdue : head ≤ now)
      (hleft : c.loop.hasReceiver = false) : Step c ⟨c.loop.fire now, now, c.deeds⟩
  /-- No command is left, and none can come. -/
  | close {c : Course} (hnone : c.loop.commands = []) (hgone : c.loop.hasSender = false) :
      Step c { c with loop := { c.loop with running := false } }
  /-- Commands that a loop left behind as it stopped are lost. -/
  | forget {c : Course} (hstopped : c.loop.running = false) :
      Step c { c with loop := { c.loop with commands := [] } }

-- ======================================================== the invariant

/-- What holds all along a course. -/
structure Kept (c : Course) : Prop where
  table : ∃ m : Timetable Key, c.loop.timers.Keeps m
    ∧ (c.loop.running = true → ∀ k, m.get? k = dueAfter c.deeds k)
  timely : AllTimely c.deeds

theorem kept_start (now : Nat) : (start now).Kept where
  table := ⟨∅, TimerHeap.keeps_empty, fun _ _ => rfl⟩
  timely := fun before now keys after heq => by simp [start] at heq

theorem Kept.of_timers {c c' : Course} (h : c.Kept) (htimers : c'.loop.timers = c.loop.timers)
    (hruns : c'.loop.running = true → c.loop.running = true) (hdeeds : c'.deeds = c.deeds) :
    c'.Kept := by
  obtain ⟨m, hm, hdue⟩ := h.table
  refine ⟨⟨m, htimers ▸ hm, fun hr => ?_⟩, hdeeds ▸ h.timely⟩
  rw [hdeeds]
  exact hdue (hruns hr)

/-- A command changes the timers as it changes what is due. -/
theorem Kept.handle {c : Course} (h : c.Kept) (hruns : c.loop.running = true) (now : Nat)
    (delay : Option Duration) (cmd : Command) (rest : List Command) :
    Kept ⟨{ c.loop with commands := rest }.handle now delay cmd, now,
      c.deeds ++ [.handled now delay cmd]⟩ := by
  refine ⟨?_, h.timely.concat fun _ _ heq => nomatch heq⟩
  obtain ⟨m, hm, hdue⟩ := h.table
  have hdue := hdue hruns
  cases cmd with
  | enqueue key =>
      cases hdelay : delay.bind (deadline? now) with
      | none =>
          -- the deadline lies behind the end of the clock, and the loop stops
          exact ⟨m, by simpa [Resync.handle, hdelay] using hm, fun hr => by
            simp [Resync.handle, hdelay] at hr⟩
      | some at_ =>
          refine ⟨m.insert key at_, by simpa [Resync.handle, hdelay] using hm.push key at_,
            fun _ k => ?_⟩
          rw [dueAfter_concat, Deed.due, hdelay]
          by_cases hk : key = k
          · rw [hk, SortedMap.get?_insert_self, if_pos rfl]
          · rw [SortedMap.get?_insert_of_ne _ _ (Ne.symm hk), if_neg hk, hdue]
  | dequeue key =>
      refine ⟨m.erase key, (hm.remove key).2, fun _ k => ?_⟩
      rw [dueAfter_concat, Deed.due]
      by_cases hk : key = k
      · rw [hk, SortedMap.get?_erase_self, if_pos rfl]
      · rw [SortedMap.get?_erase_of_ne _ (Ne.symm hk), if_neg hk, hdue]

-- ============================================================== a firing

theorem popDue_ne_nil {h : TimerHeap Key} {m : Timetable Key} (hm : h.Keeps m) {now head : Nat}
    (hhead : h.firstDeadline? = some head) (hdue : head ≤ now) : (h.popDue now).1 ≠ [] := by
  rw [hm.firstDeadline?] at hhead
  obtain ⟨k, hk⟩ := TimerHeap.mem_values_iff.1 (List.min?_eq_some_iff.1 hhead).1
  exact List.ne_nil_of_mem (((hm.popDue now).1.mem k).2 ⟨head, hk, hdue⟩)

/-- The first timer is due when something is taken out of the queue. -/
theorem exists_head_of_popDue_ne_nil {h : TimerHeap Key} {m : Timetable Key} (hm : h.Keeps m)
    {now : Nat} (hne : (h.popDue now).1 ≠ []) :
    ∃ head, h.firstDeadline? = some head ∧ head ≤ now := by
  obtain ⟨k, hk⟩ := List.exists_mem_of_ne_nil _ hne
  obtain ⟨x, hx, hle⟩ := ((hm.popDue now).1.mem k).1 hk
  have hmem := TimerHeap.mem_values_iff.2 ⟨k, hx⟩
  rw [hm.firstDeadline?]
  cases hmin : m.values.min? with
  | none =>
      rw [List.min?_eq_none_iff] at hmin
      rw [hmin] at hmem
      cases hmem
  | some head => exact ⟨head, rfl, Nat.le_trans ((List.min?_eq_some_iff.1 hmin).2 x hmem) hle⟩

theorem fire_of_taken {r : Resync} {now : Nat} (hne : (r.timers.popDue now).1 ≠ [])
    (htaken : r.hasReceiver = true) :
    r.fire now = { r with
      timers := (r.timers.popDue now).2, events := r.events ++ (r.timers.popDue now).1 } := by
  simp [fire, hne, htaken]

theorem fire_of_left {r : Resync} {now : Nat} (hne : (r.timers.popDue now).1 ≠ [])
    (hleft : r.hasReceiver = false) :
    r.fire now = { r with timers := (r.timers.popDue now).2, running := false } := by
  simp [fire, hne, hleft]

theorem fire_of_none {r : Resync} {now : Nat} (hnone : (r.timers.popDue now).1 = []) :
    r.fire now = r := by
  simp [fire, hnone]

/-- What is taken out of a queue that holds what is due by the ledger is timely. -/
theorem timely_of_popped {m : Timetable Key} {deeds : List Deed} {now : Nat} {keys : List Key}
    (hp : TimerHeap.Popped m now keys) (hdue : ∀ k, m.get? k = dueAfter deeds k) :
    Timely deeds now keys := by
  have heq : m.get? = dueAfter deeds := funext hdue
  exact ⟨hp.nodup, heq ▸ hp.mem, heq ▸ hp.sorted⟩

/-- A firing hands out what is due, and leaves the rest. -/
theorem Kept.fire {c : Course} (h : c.Kept) (hruns : c.loop.running = true) {now head : Nat}
    (hhead : c.loop.timers.firstDeadline? = some head) (hdue : head ≤ now)
    (htaken : c.loop.hasReceiver = true) :
    Kept ⟨c.loop.fire now, now,
      c.deeds ++ [.fired now (newEvents c.loop (c.loop.fire now))]⟩ := by
  obtain ⟨m, hm, hledger⟩ := h.table
  have hledger := hledger hruns
  obtain ⟨hpopped, hleft⟩ := hm.popDue now
  have hfire := fire_of_taken (popDue_ne_nil hm hhead hdue) htaken
  have hnew : newEvents c.loop (c.loop.fire now) = (c.loop.timers.popDue now).1 := by
    rw [hfire, newEvents, List.drop_left]
  have htimely := timely_of_popped hpopped hledger
  rw [hnew, hfire]
  refine ⟨⟨_, hleft, fun _ k => ?_⟩, h.timely.concat fun now' keys heq => ?_⟩
  · rw [dueAfter_concat, Deed.due, SortedMap.get?_filter, hledger]
    cases hx : dueAfter c.deeds k with
    | none => simp
    | some x =>
        by_cases hle : x ≤ now
        · rw [if_pos ((htimely.mem_iff k).2 ⟨x, hx, hle⟩)]
          simp [Option.filter, hle]
        · have hk : k ∉ (c.loop.timers.popDue now).1 := fun hmem => by
            obtain ⟨x', hx', hle'⟩ := (htimely.mem_iff k).1 hmem
            rw [hx, Option.some.injEq] at hx'
            omega
          rw [if_neg hk]
          simp [Option.filter, Nat.lt_of_not_le hle]
  · obtain ⟨rfl, rfl⟩ := Deed.fired.inj heq
    exact htimely

-- ============================================================= every run

theorem Kept.abandon {c : Course} (h : c.Kept) {now head : Nat}
    (hhead : c.loop.timers.firstDeadline? = some head) (hdue : head ≤ now)
    (hleft : c.loop.hasReceiver = false) : Kept ⟨c.loop.fire now, now, c.deeds⟩ := by
  obtain ⟨m, hm, -⟩ := h.table
  rw [fire_of_left (popDue_ne_nil hm hhead hdue) hleft]
  exact ⟨⟨_, (hm.popDue now).2, fun hr => nomatch hr⟩, h.timely⟩

theorem Kept.step {c c' : Course} (h : c.Kept) (hstep : Step c c') : c'.Kept := by
  cases hstep with
  | send cmd =>
      have hsend : (c.loop.send cmd).timers = c.loop.timers
          ∧ (c.loop.send cmd).running = c.loop.running := by
        unfold Resync.send
        split <;> exact ⟨rfl, rfl⟩
      exact h.of_timers hsend.1 (fun hr => hsend.2 ▸ hr) rfl
  | receive =>
      have hreceive : c.loop.receive.2.timers = c.loop.timers
          ∧ c.loop.receive.2.running = c.loop.running := by
        unfold Resync.receive
        split <;> exact ⟨rfl, rfl⟩
      exact h.of_timers hreceive.1 (fun hr => hreceive.2 ▸ hr) rfl
  | dropSender => exact h.of_timers rfl id rfl
  | dropReceiver => exact h.of_timers rfl id rfl
  | handle delay hruns hnow hnext => exact h.handle hruns _ delay _ _
  | fire hruns hnow hhead hdue htaken => exact h.fire hruns hhead hdue htaken
  | abandon hruns hnow hhead hdue hleft => exact h.abandon hhead hdue hleft
  | close hnone hgone => exact h.of_timers rfl (fun hr => nomatch hr) rfl
  | forget hstopped => exact h.of_timers rfl id rfl

theorem Kept.run {c c' : Course} (h : c.Kept) (hrun : Relation.ReflTransGen Step c c') :
    c'.Kept := by
  induction hrun with
  | refl => exact h
  | tail _ hstep ih => exact ih.step hstep

end Course

/-- However the loop runs, its queue holds what is due by the ledger, and whenever it fires, it hands
out the keys that are due at that moment, each once and the earliest first, and nothing that is due
stays behind. So a key comes only if it was queued last and its delay is over, not between being
dropped and being queued again, and not more often than it was queued. -/
theorem handed_out_when_due {began : Nat} {c : Course}
    (hrun : Relation.ReflTransGen Course.Step (Course.start began) c) :
    (c.loop.running = true → ∀ k, c.loop.timers.deadline? k = dueAfter c.deeds k)
      ∧ (∀ before now keys after, c.deeds = before ++ .fired now keys :: after →
        Timely before now keys
          ∧ (∀ k ∈ keys, LastAsked before now k)
          ∧ ∀ k x, dueAfter (before ++ [.fired now keys]) k = some x → now < x)
      ∧ (∀ front then_ delay k mid now keys after,
        c.deeds = front ++ .handled then_ delay (.dequeue k) :: mid ++ .fired now keys :: after →
        k ∈ keys → ∃ deed ∈ mid, deed.isRequest k = true)
      ∧ ∀ k, handouts k c.deeds ≤ requests k c.deeds := by
  have hkept := (Course.kept_start began).run hrun
  refine ⟨fun hruns k => ?_, fun before now keys after heq => ?_, ?_, fun k => ?_⟩
  · obtain ⟨m, hm, hdue⟩ := hkept.table
    rw [hm.deadline?, hdue hruns]
  · have htimely := hkept.timely before now keys after heq
    exact ⟨htimely, fun k => htimely.lastAsked, fun k x => htimely.late⟩
  · intro front then_ delay k mid now keys after heq hk
    exact ((hkept.timely _ now keys after heq).lastAsked hk).exists_request
  · have := handouts_le_requests hkept.timely k
    omega

/-- Two keys are queued, the first once more before its delay is over, and the second is dropped and
queued again. Both are due when the timer fires at last, the second one first. -/
theorem handed_out_when_due_of_debounce :
    ∃ c, Relation.ReflTransGen Course.Step (Course.start 0) c
      ∧ c.deeds = [.handled 0 (some ⟨0, 10⟩) (.enqueue ⟨"db", "a"⟩),
          .handled 1 (some ⟨0, 12⟩) (.enqueue ⟨"db", "b"⟩),
          .handled 4 (some ⟨0, 20⟩) (.enqueue ⟨"db", "a"⟩),
          .handled 5 none (.dequeue ⟨"db", "b"⟩),
          .handled 5 (some ⟨0, 16⟩) (.enqueue ⟨"db", "b"⟩),
          .fired 30 [⟨"db", "b"⟩, ⟨"db", "a"⟩]]
      ∧ c.loop.timers.deadline? ⟨"db", "a"⟩ = dueAfter c.deeds ⟨"db", "a"⟩
      ∧ handouts ⟨"db", "a"⟩ c.deeds ≤ requests ⟨"db", "a"⟩ c.deeds := by
  have hrun := Relation.ReflTransGen.refl (r := Course.Step) (a := Course.start 0)
  have hrun := hrun.tail (.send (.enqueue ⟨"db", "a"⟩))
  have hrun := hrun.tail (.send (.enqueue ⟨"db", "b"⟩))
  have hrun := hrun.tail (@Course.Step.handle _ 0 _ _ (some ⟨0, 10⟩) rfl (by decide) rfl)
  have hrun := hrun.tail (@Course.Step.handle _ 1 _ _ (some ⟨0, 12⟩) rfl (by decide) rfl)
  have hrun := hrun.tail (.send (.enqueue ⟨"db", "a"⟩))
  have hrun := hrun.tail (.send (.dequeue ⟨"db", "b"⟩))
  have hrun := hrun.tail (.send (.enqueue ⟨"db", "b"⟩))
  have hrun := hrun.tail (@Course.Step.handle _ 4 _ _ (some ⟨0, 20⟩) rfl (by decide) rfl)
  have hrun := hrun.tail (@Course.Step.handle _ 5 _ _ none rfl (by decide) rfl)
  have hrun := hrun.tail (@Course.Step.handle _ 5 _ _ (some ⟨0, 16⟩) rfl (by decide) rfl)
  have hrun := hrun.tail
    (@Course.Step.fire _ 30 21 rfl (by decide) (by decide +kernel) (by decide) rfl)
  have hlaw := handed_out_when_due hrun
  exact ⟨_, hrun, by decide +kernel, hlaw.1 (by decide +kernel) _, hlaw.2.2.2 _⟩

end ControlLoop.Resync
