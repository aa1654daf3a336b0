/-
No live object is lost from looking at every object again.

# The patrol

Passes over objects begin and end while the resync loop handles commands
and fires timers, in whatever order (`Patrol.Step`). A pass ends with what
it comes to or at the deadline; it is counted then, and sends its command.
Nobody closes the channels to the loop, and every deadline that is drawn
is on the clock.

# What is kept

The loop goes on running. Its timers hold what is due by the diary, and
the queue of commands is what was sent and not taken yet
(`Patrol.Sound`). Each step keeps this, so it holds all along, and where
an object is that was looked at follows from the diary alone: its command
waits, or was taken, and then a timer waits until the key is handed out
(`never_lost`).
-/
import ControlLoop.Metrics
import ControlLoop.Proofs.Controller.Diary
import ControlLoop.Proofs.Resync.Course

namespace ControlLoop

-- ============================================================= counting

/-- How often something was counted under two labels. -/
def Counts.count (cs : Counts) (first second : String) : Nat :=
  ((cs.get? first).bind (·.get? second)).getD 0

theorem Counts.count_increment (cs : Counts) (first second first' second' : String) :
    (cs.increment first second).count first' second'
      = cs.count first' second' + if first = first' ∧ second = second' then 1 else 0 := by
  unfold increment count
  by_cases hfirst : first' = first
  · subst hfirst
    rw [SortedMap.get?_insert_self, Option.bind_some]
    by_cases hsecond : second' = second
    · subst hsecond
      rw [SortedMap.get?_insert_self, if_pos ⟨rfl, rfl⟩]
      cases cs.get? first' <;> rfl
    · rw [SortedMap.get?_insert_of_ne _ _ hsecond, if_neg fun h => hsecond h.2.symm]
      cases cs.get? first' <;> rfl
  · rw [SortedMap.get?_insert_of_ne _ _ hfirst, if_neg fun h => hfirst h.1.symm]
    rfl

namespace Metrics

/-- How many passes of a controller were timed. -/
def timed (m : Metrics) (controller : String) : Nat :=
  ((m.durations.get? controller).map (·.count)).getD 0

theorem timed_observe (m : Metrics) (controller : String) (took : Duration) (outcome : String) :
    (m.observe controller took outcome).timed controller = m.timed controller + 1 := by
  unfold timed observe
  rw [SortedMap.get?_insert_self]
  cases m.durations.get? controller <;> rfl

end Metrics

namespace Controller

open Resync (Command Deed dueAfter deadline? newEvents)

-- ============================================================ the patrol

theorem key_resyncCommand (m : Metadata) : (resyncCommand m).key = m.key := by
  unfold resyncCommand
  split <;> rfl

theorem command_supervise (timeout : Duration) (m : Metadata) (pass : Pass) :
    (supervise timeout m pass).command = resyncCommand m := by
  unfold supervise
  split <;> rfl

/-- A pass that is over by the deadline comes to its own result. -/
theorem result_supervise (timeout : Duration) (m : Metadata) (pass : Pass) :
    (supervise timeout m pass).result
      = if pass.takes.waitMillis ≤ timeout.waitMillis then pass.result
        else .error (.timeout timeout) := by
  by_cases h : pass.takes.waitMillis ≤ timeout.waitMillis
  · rw [supervise, if_pos h, if_pos h]
  · rw [supervise, if_neg h, if_neg h]

/-- Passes over objects and the loop that makes them come again. -/
structure Patrol where
  loop : Resync
  clock : Nat
  /-- The passes that have begun and are not over. -/
  active : List Visit
  metrics : Metrics
  diary : List Entry

namespace Patrol

def start (now : Nat) : Patrol := ⟨Resync.start, now, [], Metrics.empty, []⟩

/-- What may happen next, in a controller of some name whose passes have a deadline. -/
inductive Step (timeout : Duration) (name : String) : Patrol → Patrol → Prop
  | begin {p : Patrol} {now : Nat} (object : Metadata) (pass : Pass) (hnow : p.clock ≤ now) :
    Step timeout name p { p with clock := now, active := p.active ++ [⟨now, object, pass⟩] }
  /-- A pass is over: it is counted, and its command is sent. -/
  | finish {p : Patrol} {now : Nat} {front back : List Visit} {v : Visit} {report : Report}
      (hactive : p.active = front ++ v :: back)
      (hreport : report = supervise timeout v.object v.pass) (hnow : p.clock ≤ now)
      (hover : v.began + report.took.toNanos ≤ now) :
      Step timeout name p
        ⟨p.loop.send report.command, now, front ++ back,
          p.metrics.observe name report.took report.label, p.diary ++ [.passed v report]⟩
  /-- The loop takes the oldest command. A period that is drawn leads to a deadline on the clock. -/
  | handle {p : Patrol} {now : Nat} {cmd : Command} {rest : List Command}
      (delay : Option Duration) (hnow : p.clock ≤ now) (hnext : p.loop.commands = cmd :: rest)
      (hclock : (∃ k, cmd = .enqueue k) → (delay.bind (deadline? now)).isSome = true) :
      Step timeout name p
        { p with
          loop := { p.loop with commands := rest }.handle now delay cmd
          clock := now
          diary := p.diary ++ [.done (.handled now delay cmd)] }
  /-- The first timer is due, and the loop hands out keys. -/
  | fire {p : Patrol} {now head : Nat} (hnow : p.clock ≤ now)
      (hhead : p.loop.timers.firstDeadline? = some head) (hdue : head ≤ now) :
      Step timeout name p
        { p with
          loop := p.loop.fire now
          clock := now
          diary := p.diary ++ [.done (.fired now (newEvents p.loop (p.loop.fire now)))] }
  /-- The keys that were handed out are taken. -/
  | receive {p : Patrol} : Step timeout name p { p with loop := p.loop.receive.2 }

-- ========================================================= the invariant

/-- The loop of a patrol, with what it did. -/
def course (p : Patrol) : Resync.Course := ⟨p.loop, p.clock, deeds p.diary⟩

/-- The loop runs, and both of its channels are open. -/
structure Open (r : Resync) : Prop where
  running : r.running = true
  sender : r.hasSender = true
  receiver : r.hasReceiver = true

/-- What holds all along. -/
structure Sound (timeout : Duration) (name : String) (p : Patrol) : Prop where
  isOpen : Open p.loop
  kept : p.course.Kept
  queue : sent p.diary = taken p.diary ++ p.loop.commands
  inOrder : InOrder p.diary
  /-- Every deadline that was drawn is on the clock. -/
  scheduled : ∀ now delay k, .done (.handled now delay (.enqueue k)) ∈ p.diary →
    (delay.bind (deadline? now)).isSome = true
  supervised : ∀ v report, .passed v report ∈ p.diary →
    report = supervise timeout v.object v.pass
  counted : ∀ label, p.metrics.outcomes.count name label
    = (reports p.diary).countP fun report => decide (report.label = label)
  timed : p.metrics.timed name = (reports p.diary).length

theorem sound_start (timeout : Duration) (name : String) (now : Nat) :
    Sound timeout name (start now) where
  isOpen := ⟨rfl, rfl, rfl⟩
  kept := Resync.Course.kept_start now
  queue := rfl
  inOrder := inOrder_nil
  scheduled := fun _ _ _ h => by cases h
  supervised := fun _ _ h => by cases h
  counted := fun _ => rfl
  timed := rfl

section

variable {timeout : Duration} {name : String} {p : Patrol}

-- ------------------------------------------------------------ the loop

/-- A command changes the timers and nothing else, if its deadline is on the clock. -/
theorem exists_timers_handle {r : Resync} {now : Nat} {delay : Option Duration} {cmd : Command}
    (hclock : (∃ k, cmd = .enqueue k) → (delay.bind (deadline? now)).isSome = true) :
    ∃ timers, r.handle now delay cmd = { r with timers } := by
  cases cmd with
  | enqueue key =>
      obtain ⟨at_, hat⟩ := Option.isSome_iff_exists.1 (hclock ⟨key, rfl⟩)
      exact ⟨_, by rw [Resync.handle, hat]⟩
  | dequeue key => exact ⟨_, rfl⟩

/-- A firing changes the timers and the keys that were handed out, and nothing else. -/
theorem exists_timers_fire {r : Resync} (h : Open r) (now : Nat) :
    ∃ timers events, r.fire now = { r with timers, events } := by
  by_cases hnone : (r.timers.popDue now).1 = []
  · exact ⟨_, _, Resync.Course.fire_of_none hnone⟩
  · exact ⟨_, _, Resync.Course.fire_of_taken hnone h.receiver⟩

theorem Open.send {r : Resync} (h : Open r) (c : Command) :
    r.send c = { r with commands := r.commands ++ [c] } :=
  if_pos (Bool.and_eq_true_iff.2 ⟨h.running, h.sender⟩)

theorem Open.receive {r : Resync} (h : Open r) : r.receive.2 = { r with events := [] } := by
  rw [Resync.receive, if_pos h.receiver]

-- ------------------------------------------------------- step by step

/-- Nothing is lost while the diary stays as it is, and so do the commands and the timers. -/
theorem Sound.of_diary (h : Sound timeout name p) {p' : Patrol} (hopen : Open p'.loop)
    (htimers : p'.loop.timers = p.loop.timers) (hcommands : p'.loop.commands = p.loop.commands)
    (hmetrics : p'.metrics = p.metrics) (hdiary : p'.diary = p.diary) :
    Sound timeout name p' where
  isOpen := hopen
  kept := h.kept.of_timers htimers (fun _ => h.isOpen.running) (congrArg deeds hdiary)
  queue := by
    rw [hdiary, hcommands]
    exact h.queue
  inOrder := hdiary ▸ h.inOrder
  scheduled := hdiary ▸ h.scheduled
  supervised := hdiary ▸ h.supervised
  counted := by
    rw [hdiary, hmetrics]
    exact h.counted
  timed := by
    rw [hdiary, hmetrics]
    exact h.timed

/-- What the loop does goes down in the diary. -/
theorem Sound.done (h : Sound timeout name p) {deed : Deed} {loop : Resync} {now : Nat}
    (hopen : Open loop) (hkept : Resync.Course.Kept ⟨loop, now, deeds p.diary ++ [deed]⟩)
    (hqueue : p.loop.commands = taken [.done deed] ++ loop.commands)
    (hscheduled : ∀ then_ delay k, deed = .handled then_ delay (.enqueue k) →
      (delay.bind (deadline? then_)).isSome = true) :
    Sound timeout name
      { p with loop := loop, clock := now, diary := p.diary ++ [.done deed] } := by
  have hreports : reports (p.diary ++ [.done deed]) = reports p.diary := by
    rw [reports_append]
    exact List.append_nil _
  have hsent : sent (p.diary ++ [.done deed]) = sent p.diary := by
    rw [sent_append]
    exact List.append_nil _
  have hqueue' : sent (p.diary ++ [.done deed])
      = taken (p.diary ++ [.done deed]) ++ loop.commands := by
    rw [hsent, taken_append, h.queue, hqueue, List.append_assoc]
  have hdeeds : deeds (p.diary ++ [.done deed]) = deeds p.diary ++ [deed] := deeds_append _ _
  refine ⟨hopen, ?_, hqueue', h.inOrder.concat hqueue', fun then_ delay k hmem => ?_,
    fun v report hmem => ?_, fun label => ?_, ?_⟩
  · rw [course, hdeeds]
    exact hkept
  · rcases List.mem_append.1 hmem with hmem | hmem
    · exact h.scheduled then_ delay k hmem
    · cases List.mem_singleton.1 hmem
      exact hscheduled then_ delay k rfl
  · rcases List.mem_append.1 hmem with hmem | hmem
    · exact h.supervised v report hmem
    · cases List.mem_singleton.1 hmem
  · rw [hreports]
    exact h.counted label
  · rw [hreports]
    exact h.timed

theorem Sound.handle (h : Sound timeout name p) {now : Nat} {cmd : Command} {rest : List Command}
    {delay : Option Duration} (hnext : p.loop.commands = cmd :: rest)
    (hclock : (∃ k, cmd = .enqueue k) → (delay.bind (deadline? now)).isSome = true) :
    Sound timeout name
      { p with
        loop := { p.loop with commands := rest }.handle now delay cmd
        clock := now
        diary := p.diary ++ [.done (.handled now delay cmd)] } := by
  obtain ⟨timers, hhandle⟩ := exists_timers_handle (r := { p.loop with commands := rest }) hclock
  refine h.done ?_ (h.kept.handle h.isOpen.running now delay cmd rest) ?_ ?_
  · rw [hhandle]
    exact ⟨h.isOpen.running, h.isOpen.sender, h.isOpen.receiver⟩
  · rw [hhandle]
    exact hnext
  · rintro then_ delay' k heq
    cases heq
    exact hclock ⟨k, rfl⟩

theorem Sound.fire (h : Sound timeout name p) {now head : Nat}
    (hhead : p.loop.timers.firstDeadline? = some head) (hdue : head ≤ now) :
    Sound timeout name
      { p with
        loop := p.loop.fire now
        clock := now
        diary := p.diary ++ [.done (.fired now (newEvents p.loop (p.loop.fire now)))] } := by
  obtain ⟨timers, events, hfire⟩ := exists_timers_fire h.isOpen now
  refine h.done ?_ (h.kept.fire h.isOpen.running hhead hdue h.isOpen.receiver) ?_
    fun _ _ _ heq => by cases heq
  · rw [hfire]
    exact ⟨h.isOpen.running, h.isOpen.sender, h.isOpen.receiver⟩
  · rw [hfire]
    rfl

theorem Sound.finish (h : Sound timeout name p) {now : Nat} {active : List Visit} {v : Visit}
    {report : Report} (hreport : report = supervise timeout v.object v.pass) :
    Sound timeout name
      ⟨p.loop.send report.command, now, active, p.metrics.observe name report.took report.label,
        p.diary ++ [.passed v report]⟩ := by
  have hreports : reports (p.diary ++ [.passed v report]) = reports p.diary ++ [report] :=
    reports_append _ _
  have hsent : sent (p.diary ++ [.passed v report]) = sent p.diary ++ [report.command] :=
    sent_append _ _
  have htaken : taken (p.diary ++ [.passed v report]) = taken p.diary := by
    rw [taken_append]
    exact List.append_nil _
  have hdeeds : deeds (p.diary ++ [.passed v report]) = deeds p.diary := by
    rw [deeds_append]
    exact List.append_nil _
  have hqueue : sent (p.diary ++ [.passed v report])
      = taken (p.diary ++ [.passed v report]) ++ (p.loop.commands ++ [report.command]) := by
    rw [hsent, htaken, h.queue, List.append_assoc]
  refine ⟨?_, ?_, ?_, h.inOrder.concat hqueue, fun then_ delay k hmem => ?_,
    fun v' report' hmem => ?_, fun label => ?_, ?_⟩
  · rw [h.isOpen.send]
    exact ⟨h.isOpen.running, h.isOpen.sender, h.isOpen.receiver⟩
  · refine h.kept.of_timers ?_ (fun _ => h.isOpen.running) hdeeds
    rw [course, h.isOpen.send]
    rfl
  · rw [h.isOpen.send]
    exact hqueue
  · rcases List.mem_append.1 hmem with hmem | hmem
    · exact h.scheduled then_ delay k hmem
    · cases List.mem_singleton.1 hmem
  · rcases List.mem_append.1 hmem with hmem | hmem
    · exact h.supervised v' report' hmem
    · cases List.mem_singleton.1 hmem
      exact hreport
  · rw [hreports, List.countP_append, List.countP_singleton, ← h.counted]
    rw [Metrics.observe, Counts.count_increment]
    simp
  · rw [hreports, List.length_append, Metrics.timed_observe, h.timed]
    rfl

theorem Sound.step (h : Sound timeout name p) {p' : Patrol} (hstep : Step timeout name p p') :
    Sound timeout name p' := by
  cases hstep with
  | begin object pass hnow => exact h.of_diary h.isOpen rfl rfl rfl rfl
  | finish hactive hreport hnow hover => exact h.finish hreport
  | handle delay hnow hnext hclock => exact h.handle hnext hclock
  | fire hnow hhead hdue => exact h.fire hhead hdue
  | receive =>
      rw [h.isOpen.receive]
      exact h.of_diary ⟨h.isOpen.running, h.isOpen.sender, h.isOpen.receiver⟩ rfl rfl rfl rfl

theorem Sound.run (h : Sound timeout name p) {p' : Patrol}
    (hrun : Relation.ReflTransGen (Step timeout name) p p') : Sound timeout name p' := by
  induction hrun with
  | refl => exact h
  | tail _ hstep ih => exact ih.step hstep

-- ========================================================= where a key is

theorem Sound.deadline? (h : Sound timeout name p) (k : Key) :
    p.loop.timers.deadline? k = dueAfter (deeds p.diary) k := by
  obtain ⟨m, hm, hdue⟩ := h.kept.table
  exact (hm.deadline? k).trans (hdue h.isOpen.running k)

/-- The commands of passes over other objects are about other keys. -/
theorem Sound.key_ne_of_mem_sent (h : Sound timeout name p) {es : List Entry} {k : Key}
    (hes : es ⊆ p.diary) (hother : ∀ v report, .passed v report ∈ es → v.object.key ≠ k) :
    ∀ c ∈ sent es, c.key ≠ k := by
  intro c hc
  obtain ⟨e, he, hsent⟩ := List.mem_filterMap.1 hc
  cases e with
  | done deed => cases hsent
  | passed v report =>
      obtain rfl := Option.some.inj hsent
      rw [h.supervised v report (hes he), command_supervise, key_resyncCommand]
      exact hother v report he

/-- An object that is not going away waits to be queued, or waits for its timer, or was handed
out. -/
theorem Sound.waits_or_due (h : Sound timeout name p) {before after : List Entry} {v : Visit}
    {report : Report} (hdiary : p.diary = before ++ .passed v report :: after)
    (hlive : v.object.isTerminating = false)
    (hlast : ∀ v' report', .passed v' report' ∈ after → v'.object.key ≠ v.object.key) :
    (∃ front, p.loop.commands = front ++ .enqueue v.object.key :: sent after)
      ∨ ∃ mid now delay later,
        after = mid ++ .done (.handled now delay (.enqueue v.object.key)) :: later
        ∧ taken (before ++ mid) = sent before
        ∧ ((∃ at_, p.loop.timers.deadline? v.object.key = some at_)
          ∨ ∃ then_ keys, .done (.fired then_ keys) ∈ later ∧ v.object.key ∈ keys) := by
  have hmem : ∀ e ∈ after, e ∈ p.diary := fun e he => by
    rw [hdiary]
    exact List.mem_append_right _ (List.mem_cons_of_mem _ he)
  have hcommand : report.command = .enqueue v.object.key := by
    rw [h.supervised v report (by simp [hdiary]), command_supervise, resyncCommand,
      if_neg (Bool.eq_false_iff.1 hlive)]
  have hquiet := h.key_ne_of_mem_sent hmem hlast
  rcases waits_or_taken (hdiary ▸ h.inOrder) (hdiary ▸ h.queue) with hwaits
    | ⟨mid, now, delay, later, rfl, htaken, hrest⟩
  · rw [hcommand] at hwaits
    exact Or.inl hwaits
  · rw [hcommand] at hdiary hmem ⊢
    refine Or.inr ⟨mid, now, delay, later, rfl, htaken, ?_⟩
    obtain ⟨at_, hat⟩ := Option.isSome_iff_exists.1
      (h.scheduled now delay _ (hmem _ (List.mem_append_right _ List.mem_cons_self)))
    have hsplit : p.diary = (before ++ .passed v report :: mid)
        ++ .done (.handled now delay (.enqueue v.object.key)) :: later := by
      rw [hdiary, List.append_assoc, List.cons_append]
    rw [h.deadline?, hsplit]
    refine (due_or_fired hat fun c hc => hquiet c ?_).imp_left fun hdue => ⟨at_, hdue⟩
    rw [hrest]
    exact List.mem_append_left _ hc

end

end Patrol

/-- However passes end while the resync loop works, as long as its channels stay open and its
deadlines are on the clock. The loop goes on running. Each pass comes to its own result if it is over
by the deadline, and else to a timeout; it sends one command, to queue the object unless it is going
away, and the loop takes the commands in the order in which they were sent; and it is counted once,
as a success or under the word for its error. A key whose last pass saw an object that is not going
away waits to be queued, and nothing but the commands of later passes waits behind it, or the loop
has taken that command; then a timer waits, or the key was handed out since. And a key that was
dropped has no timer before it is queued again. -/
theorem never_lost {timeout : Duration} {name : String} {began : Nat} {p : Patrol}
    (hrun : Relation.ReflTransGen (Patrol.Step timeout name) (Patrol.start began) p) :
    p.loop.running = true
      ∧ (∀ v report, .passed v report ∈ p.diary →
        report.result = (if v.pass.takes.waitMillis ≤ timeout.waitMillis then v.pass.result
          else .error (.timeout timeout))
        ∧ report.command = (if v.object.isTerminating then .dequeue v.object.key
          else .enqueue v.object.key)
        ∧ report.label = match report.result with
          | .ok _ => "success"
          | .error e => e.label)
      ∧ sent p.diary = taken p.diary ++ p.loop.commands
      ∧ ((∀ label, p.metrics.outcomes.count name label
          = (reports p.diary).countP fun report => decide (report.label = label))
        ∧ p.metrics.timed name = (reports p.diary).length)
      ∧ (∀ before v report after, p.diary = before ++ .passed v report :: after →
        v.object.isTerminating = false →
        (∀ v' report', .passed v' report' ∈ after → v'.object.key ≠ v.object.key) →
        (∃ front, p.loop.commands = front ++ .enqueue v.object.key :: sent after)
          ∨ ∃ mid now delay later,
            after = mid ++ .done (.handled now delay (.enqueue v.object.key)) :: later
            ∧ taken (before ++ mid) = sent before
            ∧ ((∃ at_, p.loop.timers.deadline? v.object.key = some at_)
              ∨ ∃ then_ keys, .done (.fired then_ keys) ∈ later ∧ v.object.key ∈ keys))
      ∧ ∀ before now delay k after,
        p.diary = before ++ .done (.handled now delay (.dequeue k)) :: after →
        .enqueue k ∉ taken after → p.loop.timers.deadline? k = none := by
  have h := (Patrol.sound_start timeout name began).run hrun
  refine ⟨h.isOpen.running, fun v report hmem => ⟨?_, ?_, rfl⟩, h.queue, ⟨h.counted, h.timed⟩,
    fun before v report after => h.waits_or_due, fun before now delay k after hdiary hquiet => ?_⟩
  · rw [h.supervised v report hmem]
    exact result_supervise _ _ _
  · rw [h.supervised v report hmem]
    exact command_supervise _ _ _
  · rw [h.deadline?, hdiary]
    exact not_due_of_dropped hquiet

/-- A pass over a live object is not over by its deadline, and in the meantime another one finds its
object going away. The second object has no timer once the loop took its command, and the first one
is handed out when its delay is over. -/
theorem never_lost_of_timeout :
    let live : Metadata := { Metadata.empty with name := some "a", space := some "db" }
    let going : Metadata :=
      { Metadata.empty with
        name := some "b", space := some "db", deletionTimestamp := some ⟨2024, 1, 1, 0, 0, 0⟩ }
    ∃ p, Relation.ReflTransGen (Patrol.Step (Duration.ofSeconds 1) "db") (Patrol.start 0) p
      ∧ deeds p.diary = [.handled 1000000000 none (.dequeue going.key),
          .handled 1000000000 (some ⟨0, 10⟩) (.enqueue live.key),
          .fired 1000000010 [live.key]]
      ∧ p.metrics.timed "db" = 2 ∧ p.metrics.outcomes.count "db" "timeout" = 1
      ∧ p.loop.timers.deadline? going.key = none := by
  intro live going
  have hgone : supervise (Duration.ofSeconds 1) going ⟨Duration.zero, .ok .awaitChange⟩
      = ⟨.ok .awaitChange, Duration.zero, .dequeue going.key⟩ := if_pos (by decide)
  have hlate : supervise (Duration.ofSeconds 1) live ⟨Duration.ofSeconds 5, .ok .awaitChange⟩
      = ⟨.error (.timeout (Duration.ofSeconds 1)), Duration.ofSeconds 1, .enqueue live.key⟩ :=
    if_neg (by decide)
  have hrun := Relation.ReflTransGen.refl (r := Patrol.Step (Duration.ofSeconds 1) "db")
    (a := Patrol.start 0)
  have hrun := hrun.tail (.begin live ⟨Duration.ofSeconds 5, .ok .awaitChange⟩ (Nat.le_refl 0))
  have hrun := hrun.tail (.begin going ⟨Duration.zero, .ok .awaitChange⟩ (Nat.le_refl 0))
  have hrun := hrun.tail
    (@Patrol.Step.finish _ _ _ 1 [_] [] _ _ rfl hgone.symm (by decide) (by decide))
  have hrun := hrun.tail
    (@Patrol.Step.finish _ _ _ 1000000000 [] [] _ _ rfl hlate.symm (by decide) (by decide))
  have hrun := hrun.tail
    (@Patrol.Step.handle _ _ _ 1000000000 (.dequeue going.key) _ none (by decide) rfl
      fun ⟨k, hk⟩ => by cases hk)
  have hrun := hrun.tail
    (@Patrol.Step.handle _ _ _ 1000000000 (.enqueue live.key) _ (some ⟨0, 10⟩) (by decide) rfl
      fun _ => rfl)
  have hrun := hrun.tail
    (@Patrol.Step.fire _ _ _ 1000000010 1000000010 (by decide) (by decide +kernel) (by decide))
  obtain ⟨-, -, -, ⟨hcounted, htimed⟩, -, hdropped⟩ := never_lost hrun
  refine ⟨_, hrun, ?_, htimed, hcounted "timeout", ?_⟩
  · decide +kernel
  · exact hdropped [.passed _ _, .passed _ _] _ _ _ [.done _, .done _] rfl (by decide)

end Controller

end ControlLoop
