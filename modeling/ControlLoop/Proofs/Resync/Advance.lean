/-
Letting the time pass is a run of the loop.

`Resync.advance` takes all commands that were sent, fires what is due,
and then fires timer after timer up to an instant. Each of these is made
of steps that the loop takes by itself (`Works`): a command at a time,
one firing per timer that becomes due, the end when nobody can send any
more. So the loop as it is run goes down in the ledger like any other
course, and what holds of all courses holds of it (`exists_run_advance`).

What carries the argument from one firing to the next is that a firing
leaves only timers that are due later, so that time only goes on. And
whatever instant is picked, the work before it can be told from the work
after it (`exists_standing`), so that others may do something in between.
-/
import ControlLoop.Proofs.Resync.Course

namespace ControlLoop.Resync.Course

-- ======================================================= the loop alone

/-- What the loop does by itself, if the same period is drawn whenever one is. -/
inductive Works (delay : Option Duration) : Course → Course → Prop
  | handle {c : Course} {now : Nat} {cmd : Command} {rest : List Command}
      (hruns : c.loop.running = true) (hnow : c.clock ≤ now)
      (hnext : c.loop.commands = cmd :: rest) :
      Works delay c ⟨{ c.loop with commands := rest }.handle now delay cmd, now,
        c.deeds ++ [.handled now delay cmd]⟩
  | fire {c : Course} {now head : Nat} (hruns : c.loop.running = true) (hnow : c.clock ≤ now)
      (hhead : c.loop.timers.firstDeadline? = some head) (hdue : head ≤ now)
      (htaken : c.loop.hasReceiver = true) :
      Works delay c ⟨c.loop.fire now, now,
        c.deeds ++ [.fired now (newEvents c.loop (c.loop.fire now))]⟩
  | abandon {c : Course} {now head : Nat} (hruns : c.loop.running = true) (hnow : c.clock ≤ now)
      (hhead : c.loop.timers.firstDeadline? = some head) (hdue : head ≤ now)
      (hleft : c.loop.hasReceiver = false) : Works delay c ⟨c.loop.fire now, now, c.deeds⟩
  | close {c : Course} (hnone : c.loop.commands = []) (hgone : c.loop.hasSender = false) :
      Works delay c { c with loop := { c.loop with running := false } }
  | forget {c : Course} (hstopped : c.loop.running = false) :
      Works delay c { c with loop := { c.loop with commands := [] } }

variable {delay : Option Duration}

theorem Works.step {c c' : Course} (h : Works delay c c') : Step c c' := by
  cases h with
  | handle hruns hnow hnext => exact .handle delay hruns hnow hnext
  | fire hruns hnow hhead hdue htaken => exact .fire hruns hnow hhead hdue htaken
  | abandon hruns hnow hhead hdue hleft => exact .abandon hruns hnow hhead hdue hleft
  | close hnone hgone => exact .close hnone hgone
  | forget hstopped => exact .forget hstopped

theorem Works.clock_le {c c' : Course} (h : Works delay c c') : c.clock ≤ c'.clock := by
  cases h with
  | handle hruns hnow hnext => exact hnow
  | fire hruns hnow hhead hdue htaken => exact hnow
  | abandon hruns hnow hhead hdue hleft => exact hnow
  | close hnone hgone => exact Nat.le_refl _
  | forget hstopped => exact Nat.le_refl _

/-- What the loop does at an instant it can do after a wait up to then. -/
theorem Works.after_wait {c c' d : Course} (h : Works delay c c') (hloop : d.loop = c.loop)
    (hdeeds : d.deeds = c.deeds) (hclock : d.clock ≤ c'.clock) :
    ∃ d', Works delay d d' ∧ d'.loop = c'.loop ∧ d'.deeds = c'.deeds ∧ d'.clock ≤ c'.clock := by
  obtain ⟨loop, clock, deeds⟩ := d
  obtain rfl : loop = c.loop := hloop
  obtain rfl : deeds = c.deeds := hdeeds
  cases h with
  | handle hruns hnow hnext => exact ⟨_, .handle hruns hclock hnext, rfl, rfl, Nat.le_refl _⟩
  | fire hruns hnow hhead hdue htaken =>
      exact ⟨_, .fire hruns hclock hhead hdue htaken, rfl, rfl, Nat.le_refl _⟩
  | abandon hruns hnow hhead hdue hleft =>
      exact ⟨_, .abandon hruns hclock hhead hdue hleft, rfl, rfl, Nat.le_refl _⟩
  | close hnone hgone => exact ⟨_, .close hnone hgone, rfl, rfl, hclock⟩
  | forget hstopped => exact ⟨_, .forget hstopped, rfl, rfl, hclock⟩

/-- At any instant the loop stands somewhere, and goes on from there. -/
theorem exists_standing {c c' : Course} (hrun : Relation.ReflTransGen (Works delay) c c')
    {now : Nat} (hnow : c.clock ≤ now) :
    ∃ mid d, Relation.ReflTransGen (Works delay) c mid ∧ mid.clock ≤ now
      ∧ Relation.ReflTransGen (Works delay) { mid with clock := now } d
      ∧ d.loop = c'.loop ∧ d.deeds = c'.deeds ∧ d.clock ≤ max now c'.clock := by
  induction hrun with
  | refl => exact ⟨c, _, .refl, hnow, .refl, rfl, rfl, Nat.le_max_left _ _⟩
  | @tail b c' hrun hstep ih =>
      by_cases hbefore : c'.clock ≤ now
      · exact ⟨c', _, hrun.tail hstep, hbefore, .refl, rfl, rfl, Nat.le_max_left _ _⟩
      · obtain ⟨mid, d, hmid, hclock, hrest, hloop, hdeeds, hd⟩ := ih
        have hlater : d.clock ≤ c'.clock :=
          Nat.le_trans hd (Nat.max_le.2 ⟨Nat.le_of_not_le hbefore, hstep.clock_le⟩)
        obtain ⟨d', hstep', hloop', hdeeds', hd'⟩ := hstep.after_wait hloop hdeeds hlater
        exact ⟨mid, d', hmid, hclock, hrest.tail hstep', hloop', hdeeds',
          Nat.le_trans hd' (Nat.le_max_right _ _)⟩

/-- Work of the loop that leads to a state of it, within a time. -/
def Leads (delay : Option Duration) (c : Course) (r : Resync) (now : Nat) : Prop :=
  ∃ c', Relation.ReflTransGen (Works delay) c c' ∧ c'.loop = r ∧ c'.clock ≤ now

/-- The timers of a loop that runs are due later than an instant. -/
def Later (r : Resync) (now : Nat) : Prop :=
  r.running = true → ∀ head, r.timers.firstDeadline? = some head → now < head

theorem Leads.refl {c : Course} {now : Nat} (h : c.clock ≤ now) : Leads delay c c.loop now :=
  ⟨c, .refl, rfl, h⟩

theorem run_of_works {c c' : Course} (h : Relation.ReflTransGen (Works delay) c c') :
    Relation.ReflTransGen Step c c' :=
  Relation.ReflTransGen.mono (fun _ _ => Works.step) _ _ h

/-- Work can be put together, as the later part begins where the first one ends. -/
theorem Leads.trans {c : Course} (hc : c.Kept) {r r' : Resync} {now now' : Nat}
    (h : Leads delay c r now)
    (h' : ∀ c', c'.Kept → c'.loop = r → c'.clock ≤ now → Leads delay c' r' now') :
    Leads delay c r' now' := by
  obtain ⟨c', hrun, hloop, hclock⟩ := h
  obtain ⟨c'', hrun', hloop', hclock'⟩ := h' c' (hc.run (run_of_works hrun)) hloop hclock
  exact ⟨c'', hrun.trans hrun', hloop', hclock'⟩

-- ============================================================= commands

theorem handle_commands (r : Resync) (now : Nat) (delay : Option Duration) (cmd : Command)
    (rest : List Command) :
    { r with commands := rest }.handle now delay cmd
      = { r.handle now delay cmd with commands := rest } := by
  cases cmd with
  | enqueue key =>
      simp only [handle]
      cases delay.bind (deadline? now) <;> rfl
  | dequeue key => rfl

/-- What a loop does with commands, one after the other. -/
def handleAll (now : Nat) (delay : Option Duration) (cmds : List Command) (r : Resync) : Resync :=
  cmds.foldl (fun r c => if r.running then r.handle now delay c else r) r

theorem handleAll_cons_of_running {now : Nat} {delay : Option Duration} {r : Resync}
    (h : r.running = true) (cmd : Command) (rest : List Command) :
    handleAll now delay (cmd :: rest) r = handleAll now delay rest (r.handle now delay cmd) := by
  rw [handleAll, List.foldl_cons, if_pos h]
  rfl

theorem handleAll_of_stopped {now : Nat} {delay : Option Duration} {r : Resync}
    (h : r.running = false) (cmds : List Command) : handleAll now delay cmds r = r := by
  induction cmds with
  | nil => rfl
  | cons cmd rest ih => rw [handleAll, List.foldl_cons, h]; exact ih

theorem leads_handleAll (delay : Option Duration) {now : Nat} (cmds : List Command) {c : Course}
    (hcmds : c.loop.commands = cmds) (hruns : c.loop.running = true) (hclock : c.clock ≤ now) :
    Leads delay c (handleAll now delay cmds { c.loop with commands := [] }) now := by
  induction cmds generalizing c with
  | nil =>
      have hloop : { c.loop with commands := [] } = c.loop := by rw [← hcmds]
      rw [hloop]
      exact .refl hclock
  | cons cmd rest ih =>
      have hstep := @Works.handle delay _ _ _ _ hruns hclock hcmds
      have hnext : ∀ cs, { c.loop with commands := cs }.handle now delay cmd
          = { c.loop.handle now delay cmd with commands := cs } := handle_commands _ _ _ _
      rw [hnext] at hstep
      rw [handleAll_cons_of_running (r := { c.loop with commands := [] }) hruns, hnext]
      by_cases hgoes : (c.loop.handle now delay cmd).running = true
      · obtain ⟨c', hrun, hloop, hc'⟩ := ih
          (c := ⟨{ c.loop.handle now delay cmd with commands := rest }, now,
            c.deeds ++ [.handled now delay cmd]⟩) rfl hgoes (Nat.le_refl now)
        exact ⟨c', .head hstep hrun, hloop, hc'⟩
      · -- the loop stopped, and the commands left behind are lost
        have hstopped := Bool.eq_false_iff.2 hgoes
        rw [handleAll_of_stopped (r := { c.loop.handle now delay cmd with commands := [] }) hstopped]
        exact ⟨_, .tail (.single hstep) (.forget hstopped), rfl, Nat.le_refl now⟩

theorem commands_handleAll (now : Nat) (delay : Option Duration) (cmds : List Command) (r : Resync) :
    (handleAll now delay cmds r).commands = r.commands := by
  induction cmds generalizing r with
  | nil => rfl
  | cons cmd rest ih =>
      rw [handleAll, List.foldl_cons]
      refine (ih _).trans ?_
      split
      · rw [show r = { r with commands := r.commands } from rfl, handle_commands]
      · rfl

theorem leads_takeCommands (delay : Option Duration) {now : Nat} {c : Course}
    (hruns : c.loop.running = true) (hclock : c.clock ≤ now) :
    Leads delay c (c.loop.takeCommands now delay) now := by
  obtain ⟨c', hrun, hloop, hc'⟩ := leads_handleAll delay _ rfl hruns hclock
  have htake : c.loop.takeCommands now delay
      = if c'.loop.hasSender then c'.loop else { c'.loop with running := false } := by
    rw [hloop]
    rfl
  rw [htake]
  by_cases hsender : c'.loop.hasSender = true
  · rw [if_pos hsender]
    exact ⟨c', hrun, rfl, hc'⟩
  · have hnone : c'.loop.commands = [] := by rw [hloop, commands_handleAll]
    rw [if_neg hsender]
    exact ⟨_, hrun.tail (.close hnone (Bool.eq_false_iff.2 hsender)), rfl, hc'⟩

-- ============================================================== firings

/-- A firing is a step where something is due, and else nothing. -/
theorem leads_fire (delay : Option Duration) {c : Course} (hc : c.Kept)
    (hruns : c.loop.running = true) {now : Nat} (hclock : c.clock ≤ now) :
    Leads delay c (c.loop.fire now) now := by
  obtain ⟨m, hm, -⟩ := hc.table
  by_cases hnone : (c.loop.timers.popDue now).1 = []
  · rw [fire_of_none hnone]
    exact .refl hclock
  · obtain ⟨head, hhead, hdue⟩ := exists_head_of_popDue_ne_nil hm hnone
    cases htaken : c.loop.hasReceiver with
    | true => exact ⟨_, .single (.fire hruns hclock hhead hdue htaken), rfl, Nat.le_refl now⟩
    | false => exact ⟨_, .single (.abandon hruns hclock hhead hdue htaken), rfl, Nat.le_refl now⟩

theorem later_fire {c : Course} (hc : c.Kept) (now : Nat) : Later (c.loop.fire now) now := by
  obtain ⟨m, hm, -⟩ := hc.table
  obtain ⟨hpopped, hleft⟩ := hm.popDue now
  intro hruns head hhead
  by_cases hnone : (c.loop.timers.popDue now).1 = []
  · rw [fire_of_none hnone] at hhead
    exact Nat.lt_of_not_le fun hdue => popDue_ne_nil hm hhead hdue hnone
  · have htimers : (c.loop.fire now).timers = (c.loop.timers.popDue now).2 := by
      cases htaken : c.loop.hasReceiver with
      | true => rw [fire_of_taken hnone htaken]
      | false => rw [fire_of_left hnone htaken]
    rw [htimers, hleft.firstDeadline?] at hhead
    obtain ⟨k, hk⟩ := TimerHeap.mem_values_iff.1 (List.min?_eq_some_iff.1 hhead).1
    rw [SortedMap.get?_filter, Option.filter_eq_some_iff] at hk
    exact of_decide_eq_true hk.2

theorem leads_fireUntil (delay : Option Duration) {until_ : Nat} (rounds : Nat) {c : Course}
    (hc : c.Kept) (hclock : c.clock ≤ until_) (hlater : Later c.loop c.clock) :
    Leads delay c (c.loop.fireUntil until_ rounds) until_ := by
  induction rounds generalizing c with
  | zero => exact .refl hclock
  | succ rounds ih =>
      rw [fireUntil]
      cases hhead : c.loop.timers.firstDeadline? with
      | none => exact .refl hclock
      | some at_ =>
          by_cases hgoes : (c.loop.running && decide (at_ ≤ until_)) = true
          · obtain ⟨hruns, hdue⟩ := Bool.and_eq_true_iff.1 hgoes
            have hdue : at_ ≤ until_ := of_decide_eq_true hdue
            simp only [if_pos hgoes]
            refine (leads_fire delay hc hruns (Nat.le_of_lt (hlater hruns at_ hhead))).trans hc
              fun c' hc' hloop hclock' => ?_
            rw [← hloop]
            refine ih hc' (Nat.le_trans hclock' hdue) fun hruns' head hhead' => ?_
            rw [hloop] at hruns' hhead'
            exact Nat.lt_of_le_of_lt hclock' (later_fire hc at_ hruns' head hhead')
          · simp only [if_neg hgoes]
            exact .refl hclock

-- ======================================================= the time passes

theorem leads_settle (delay : Option Duration) {now : Nat} {c : Course} (hc : c.Kept)
    (hclock : c.clock ≤ now) : Leads delay c (c.loop.settle now delay) now := by
  unfold settle
  by_cases hruns : c.loop.running = true
  · rw [if_pos hruns]
    refine (leads_takeCommands delay hruns hclock).trans hc fun c' hc' hloop hclock' => ?_
    rw [← hloop]
    by_cases hgoes : c'.loop.running = true
    · rw [if_pos hgoes]
      exact leads_fire delay hc' hgoes hclock'
    · rw [if_neg hgoes]
      exact .refl hclock'
  · rw [if_neg hruns]
    exact .refl hclock

/-- After a loop has done everything it can do at an instant, its timers are due later. -/
theorem later_settle (delay : Option Duration) {now : Nat} {c : Course} (hc : c.Kept)
    (hclock : c.clock ≤ now) : Later (c.loop.settle now delay) now := by
  unfold settle
  by_cases hruns : c.loop.running = true
  · rw [if_pos hruns]
    obtain ⟨c', hrun, hloop, -⟩ := leads_takeCommands delay hruns hclock
    rw [← hloop]
    by_cases hgoes : c'.loop.running = true
    · rw [if_pos hgoes]
      exact later_fire (hc.run (run_of_works hrun)) now
    · rw [if_neg hgoes]
      exact fun hruns' => absurd hruns' hgoes
  · rw [if_neg hruns]
    exact fun hruns' => absurd hruns' hruns

/-- Letting the time pass is work of the loop. -/
theorem leads_advance (delay : Option Duration) {now until_ : Nat} {c : Course} (hc : c.Kept)
    (hclock : c.clock ≤ now) (huntil : now ≤ until_) :
    Leads delay c (c.loop.advance now until_ delay) until_ := by
  have hlater := later_settle delay hc hclock
  refine (leads_settle delay hc hclock).trans hc fun c' hc' hloop hclock' => ?_
  rw [advance, ← hloop]
  refine leads_fireUntil delay _ hc' (Nat.le_trans hclock' huntil) fun hruns head hhead => ?_
  exact Nat.lt_of_le_of_lt hclock' (hlater (hloop ▸ hruns) head (hloop ▸ hhead))

/-- Letting the time pass on a loop, from an instant on that the course has reached, continues the
course. -/
theorem exists_run_advance {began : Nat} {c : Course}
    (hrun : Relation.ReflTransGen Step (Course.start began) c) (delay : Option Duration)
    {now until_ : Nat} (hclock : c.clock ≤ now) (huntil : now ≤ until_) :
    ∃ c', Relation.ReflTransGen Step c c' ∧ c'.loop = c.loop.advance now until_ delay
      ∧ c'.clock ≤ until_ := by
  obtain ⟨c', hworks, hloop, hclock'⟩ :=
    leads_advance delay ((kept_start began).run hrun) hclock huntil
  exact ⟨c', run_of_works hworks, hloop, hclock'⟩

end ControlLoop.Resync.Course
