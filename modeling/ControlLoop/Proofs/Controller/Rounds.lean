/-
The run of a controller is a patrol.

A controller with one object makes a pass whenever one is due, lets the
time of the resync loop pass up to the end of it, and sends its command
(`Startup.run`). Letting the time pass is work of the loop, so each of
these is made of steps of a patrol, and a patrol follows the run from
pass to pass (`Follows`). What holds of all patrols holds of the run
(`exists_patrol_run`).

The run lets the time pass up to the end of a pass at once, the beginning
of the pass included. As a patrol the two are told apart: the loop stands
somewhere when the pass begins, and goes on from there. That no pass
begins before the instant that the loop has reached follows from the
timers, which are due later once the command of a pass was handled
(`Awaits`).
-/
import ControlLoop.Controller.Run
import ControlLoop.Proofs.Controller.Patrol
import ControlLoop.Proofs.Resync.Advance

namespace ControlLoop.Controller

open Duration (nanosPerMilli)
open Resync (Deed deadline? isSome_deadline?_of_le)
open Resync.Course (Works Later exists_standing leads_advance leads_settle later_settle)

-- ======================================================== the loop at work

namespace Patrol

/-- Part of a patrol in which no pass begins and none ends. -/
structure Idles (timeout : Duration) (name : String) (p p' : Patrol) : Prop where
  run : Relation.ReflTransGen (Step timeout name) p p'
  active : p'.active = p.active
  diary : ∃ ds : List Deed, p'.diary = p.diary ++ ds.map .done

section

variable {timeout : Duration} {name : String} {p p' p'' : Patrol} {delay : Option Duration}

theorem Idles.refl (p : Patrol) : Idles timeout name p p := ⟨.refl, rfl, [], by simp⟩

theorem Idles.trans (h : Idles timeout name p p') (h' : Idles timeout name p' p'') :
    Idles timeout name p p'' := by
  obtain ⟨ds, hds⟩ := h.diary
  obtain ⟨ds', hds'⟩ := h'.diary
  refine ⟨h.run.trans h'.run, h'.active.trans h.active, ds ++ ds', ?_⟩
  rw [hds', hds, List.map_append, List.append_assoc]

theorem Idles.reports (h : Idles timeout name p p') : reports p'.diary = reports p.diary := by
  obtain ⟨ds, hds⟩ := h.diary
  have hnone : Controller.reports (ds.map Entry.done) = [] := by
    rw [Controller.reports, List.filterMap_map]
    exact List.filterMap_eq_nil_iff.2 fun _ _ => rfl
  rw [hds, reports_append, hnone, List.append_nil]

theorem Idles.of_passed (h : Idles timeout name p p') {v : Visit} {report : Report}
    (hmem : .passed v report ∈ p'.diary) : .passed v report ∈ p.diary := by
  obtain ⟨ds, hds⟩ := h.diary
  rw [hds, List.mem_append, List.mem_map] at hmem
  rcases hmem with hmem | ⟨deed, -, heq⟩
  · exact hmem
  · cases heq

/-- A loop whose channels are open works by handling commands and by firing. -/
theorem exists_idles_of_works (h : Sound timeout name p) {c' : Resync.Course}
    (hwork : Works delay p.course c') (hclock : (delay.bind (deadline? c'.clock)).isSome = true) :
    ∃ p', Idles timeout name p p' ∧ p'.course = c' := by
  cases hwork with
  | @handle now cmd rest hruns hnow hnext =>
      refine ⟨_, ⟨.single (.handle delay hnow hnext fun _ => hclock), rfl,
        [.handled now delay cmd], rfl⟩, ?_⟩
      rw [course, deeds_append]
      rfl
  | @fire now head hruns hnow hhead hdue htaken =>
      refine ⟨_, ⟨.single (.fire hnow hhead hdue), rfl,
        [.fired now (Resync.newEvents p.loop (p.loop.fire now))], rfl⟩, ?_⟩
      rw [course, deeds_append]
      rfl
  | abandon hruns hnow hhead hdue hleft =>
      exact absurd hleft (ne_false_of_eq_true h.isOpen.receiver)
  | close hnone hgone => exact absurd hgone (ne_false_of_eq_true h.isOpen.sender)
  | forget hstopped => exact absurd hstopped (ne_false_of_eq_true h.isOpen.running)

theorem exists_idles_of_run (h : Sound timeout name p) {c' : Resync.Course}
    (hrun : Relation.ReflTransGen (Works delay) p.course c') {until_ : Nat}
    (huntil : c'.clock ≤ until_)
    (hclock : ∀ now ≤ until_, (delay.bind (deadline? now)).isSome = true) :
    ∃ p', Idles timeout name p p' ∧ p'.course = c' := by
  induction hrun with
  | refl => exact ⟨p, .refl p, rfl⟩
  | tail _ hwork ih =>
      obtain ⟨p', hidles, rfl⟩ := ih (Nat.le_trans hwork.clock_le huntil)
      obtain ⟨p'', hidles', hcourse⟩ :=
        exists_idles_of_works (h.run hidles.run) hwork (hclock _ huntil)
      exact ⟨p'', hidles.trans hidles', hcourse⟩

/-- The keys that the loop handed out are taken. -/
theorem idles_receive (p : Patrol) :
    Idles timeout name p { p with loop := p.loop.receive.2 } :=
  ⟨.single .receive, rfl, [], (List.append_nil _).symm⟩

end

end Patrol

-- ============================================================ the rounds

/-- To round up to a whole number of units is to lose nothing. -/
theorem le_div_mul_of_pred {n : Nat} (hn : 0 < n) (a : Nat) : a ≤ (a + (n - 1)) / n * n := by
  have hdiv := Nat.div_add_mod' (a + (n - 1)) n
  have hmod := Nat.mod_lt (a + (n - 1)) hn
  omega

theorem nanosPerMilli_pos : 0 < nanosPerMilli := by decide

theorem toNanos_le_waitMillis (d : Duration) : d.toNanos ≤ d.waitMillis * nanosPerMilli :=
  le_div_mul_of_pred nanosPerMilli_pos _

theorem le_tickOf {tick nanos : Nat} (h : tick * nanosPerMilli ≤ nanos) : tick ≤ Run.tickOf nanos :=
  Nat.le_of_mul_le_mul_right (Nat.le_trans h (le_div_mul_of_pred nanosPerMilli_pos _))
    nanosPerMilli_pos

section

variable {timeout : Duration} {name : String} {m : Metadata} {active : List Visit} {p : Patrol}
  {r : Run} {delay : Option Duration} {last tick : Nat}

/-- A patrol over an object has come as far as a run, while some passes are going on. -/
structure Follows (timeout : Duration) (name : String) (m : Metadata) (active : List Visit)
    (p : Patrol) (r : Run) : Prop where
  run : Relation.ReflTransGen (Patrol.Step timeout name) (Patrol.start 0) p
  loop : p.loop = r.resync
  clock : p.clock ≤ r.clock * nanosPerMilli
  active : p.active = active
  reports : reports p.diary = r.reports
  object : ∀ v report, .passed v report ∈ p.diary → v.object = m

/-- The next pass of a run begins no earlier than the run has come. -/
structure Awaits (r : Run) : Prop where
  timer : Later r.resync (r.clock * nanosPerMilli)
  due : ∀ due, r.due = some due → r.clock ≤ due

theorem follows_fresh (timeout : Duration) (name : String) (m : Metadata) :
    Follows timeout name m [] (Patrol.start 0) (Run.fresh m) where
  run := .refl
  loop := rfl
  clock := Nat.zero_le _
  active := rfl
  reports := rfl
  object := fun _ _ hmem => by cases hmem

theorem awaits_fresh (m : Metadata) : Awaits (Run.fresh m) where
  timer := fun _ _ hhead => by cases hhead
  due := fun due _ => Nat.zero_le due

theorem Follows.sound (h : Follows timeout name m active p r) : p.Sound timeout name :=
  (Patrol.sound_start timeout name 0).run h.run

theorem Follows.idles (h : Follows timeout name m active p r) {p' : Patrol} {r' : Run}
    (hidles : Patrol.Idles timeout name p p') (hloop : p'.loop = r'.resync)
    (hclock : p'.clock ≤ r'.clock * nanosPerMilli) (hreports : r'.reports = r.reports) :
    Follows timeout name m active p' r' where
  run := h.run.trans hidles.run
  loop := hloop
  clock := hclock
  active := hidles.active.trans h.active
  reports := hidles.reports.trans (h.reports.trans hreports.symm)
  object := fun v report hmem => h.object v report (hidles.of_passed hmem)

-- ------------------------------------------------------- what a run does

/-- Work of the loop, and then the keys that it handed out are taken. -/
theorem Follows.works (h : Follows timeout name m active p r) {r' : Run} {c' : Resync.Course}
    (hwork : Relation.ReflTransGen (Works delay) p.course c')
    (hloop : c'.loop.receive.2 = r'.resync) (huntil : c'.clock ≤ r'.clock * nanosPerMilli)
    (hclock : (delay.bind (deadline? (r'.clock * nanosPerMilli))).isSome = true)
    (hreports : r'.reports = r.reports) : ∃ p', Follows timeout name m active p' r' := by
  obtain ⟨p', hidles, rfl⟩ := Patrol.exists_idles_of_run h.sound hwork huntil fun now hnow =>
    isSome_deadline?_of_le hnow hclock
  exact ⟨_, h.idles (hidles.trans (Patrol.idles_receive p')) hloop huntil hreports⟩

/-- The time passes. -/
theorem Follows.advance (h : Follows timeout name m active p r) (htick : r.clock ≤ tick)
    (hclock : (delay.bind (deadline? (tick * nanosPerMilli))).isSome = true) :
    ∃ p', Follows timeout name m active p' (r.advance delay tick).2 := by
  obtain ⟨c', hwork, hloop, huntil⟩ := leads_advance delay h.sound.kept h.clock
    (Nat.mul_le_mul_right nanosPerMilli htick)
  refine h.works hwork ?_ huntil hclock rfl
  rw [hloop, Patrol.course, h.loop]
  rfl

/-- The time passes, and at some tick on the way a pass begins. -/
theorem Follows.visit (h : Follows timeout name m [] p r) (pass : Pass) {endTick : Nat}
    (htick : r.clock ≤ tick) (hend : tick ≤ endTick)
    (hclock : (delay.bind (deadline? (endTick * nanosPerMilli))).isSome = true) :
    ∃ p', Follows timeout name m [⟨tick * nanosPerMilli, m, pass⟩] p'
      (r.advance delay endTick).2 := by
  have hbegin : r.clock * nanosPerMilli ≤ tick * nanosPerMilli := Nat.mul_le_mul_right _ htick
  have hover : tick * nanosPerMilli ≤ endTick * nanosPerMilli := Nat.mul_le_mul_right _ hend
  obtain ⟨c', hwork, hloop, huntil⟩ :=
    leads_advance delay h.sound.kept h.clock (Nat.le_trans hbegin hover)
  obtain ⟨mid, d, hmid, hmidclock, hrest, hdloop, -, hdclock⟩ :=
    exists_standing hwork (Nat.le_trans h.clock hbegin)
  obtain ⟨p₁, hidles, rfl⟩ := Patrol.exists_idles_of_run h.sound hmid hmidclock fun now hnow =>
    isSome_deadline?_of_le (Nat.le_trans hnow hover) hclock
  have hfollows : Follows timeout name m [⟨tick * nanosPerMilli, m, pass⟩]
      { p₁ with
        clock := tick * nanosPerMilli
        active := p₁.active ++ [⟨tick * nanosPerMilli, m, pass⟩] }
      { r with resync := p₁.loop, clock := tick } :=
    ⟨(h.run.trans hidles.run).tail (.begin m pass hmidclock), rfl, Nat.le_refl _,
      by rw [hidles.active, h.active]; rfl, hidles.reports.trans h.reports,
      fun v report hmem => h.object v report (hidles.of_passed hmem)⟩
  refine hfollows.works hrest ?_ (Nat.le_trans hdclock (Nat.max_le.2 ⟨hover, huntil⟩)) hclock rfl
  rw [hdloop, hloop, Patrol.course, h.loop]
  rfl

/-- A pass is over. -/
theorem Follows.report {v : Visit} {report : Report} (h : Follows timeout name m [v] p r)
    (hobject : v.object = m) (hreport : report = supervise timeout v.object v.pass)
    (hover : v.began + report.took.toNanos ≤ r.clock * nanosPerMilli) :
    ∃ p', Follows timeout name m [] p'
      { r with resync := r.resync.send report.command, reports := r.reports ++ [report] } := by
  refine ⟨_, h.run.tail (@Patrol.Step.finish _ _ _ _ [] [] _ _ h.active hreport h.clock hover),
    congrArg (·.send report.command) h.loop, Nat.le_refl _, rfl, ?_, fun v' report' hmem => ?_⟩
  · rw [reports_append, h.reports]
    rfl
  · rcases List.mem_append.1 hmem with hmem | hmem
    · exact h.object v' report' hmem
    · cases List.mem_singleton.1 hmem
      exact hobject

/-- The loop does what it can do at once. -/
theorem Follows.settle (h : Follows timeout name m active p r)
    (hclock : (delay.bind (deadline? (r.clock * nanosPerMilli))).isSome = true) :
    (∃ p', Follows timeout name m active p'
        { r with resync := r.resync.settle (r.clock * nanosPerMilli) delay })
      ∧ Later (r.resync.settle (r.clock * nanosPerMilli) delay) (r.clock * nanosPerMilli) := by
  have hlater := later_settle delay h.sound.kept h.clock
  obtain ⟨c', hwork, hloop, huntil⟩ := leads_settle delay h.sound.kept h.clock
  obtain ⟨p', hidles, rfl⟩ := Patrol.exists_idles_of_run h.sound hwork huntil fun now hnow =>
    isSome_deadline?_of_le hnow hclock
  rw [Patrol.course, h.loop] at hlater
  refine ⟨⟨p', h.idles hidles ?_ huntil rfl⟩, hlater⟩
  show p'.loop = _
  rw [show p'.loop = _ from hloop, Patrol.course, h.loop]

-- ------------------------------------------------------ pass after pass

/-- What makes a pass begin is no earlier than the run has come, and no later than it goes. -/
theorem Awaits.nextCue? (h : Awaits r) {cue : Run.Cue} (hcue : r.nextCue? last = some cue) :
    (∃ due, cue = .delay due ∧ r.clock ≤ due ∧ due ≤ last)
      ∨ ∃ tick, cue = .timer tick ∧ r.clock ≤ tick ∧ tick ≤ last := by
  have htimer : (r.resyncTick?.filter (· < last)).map Run.Cue.timer = some cue →
      ∃ tick, cue = .timer tick ∧ r.clock ≤ tick ∧ tick ≤ last := by
    intro hsome
    obtain ⟨tick, htick, rfl⟩ := Option.map_eq_some_iff.1 hsome
    obtain ⟨hfires, hlast⟩ := Option.filter_eq_some_iff.1 htick
    rw [Run.resyncTick?] at hfires
    split at hfires
    · obtain ⟨head, hhead, rfl⟩ := Option.map_eq_some_iff.1 hfires
      have hruns : r.resync.running = true := (Bool.and_eq_true_iff.1 ‹_›).2
      exact ⟨_, rfl, le_tickOf (Nat.le_of_lt (h.timer hruns head hhead)),
        Nat.le_of_lt (of_decide_eq_true hlast)⟩
    · cases hfires
  rw [Run.nextCue?] at hcue
  cases hdue : r.due with
  | none =>
      rw [hdue] at hcue
      exact Or.inr (htimer hcue)
  | some due =>
      rw [hdue] at hcue
      dsimp only at hcue
      split at hcue
      · exact Or.inr (htimer hcue)
      · split at hcue
        · exact Or.inl ⟨due, (Option.some.inj hcue).symm, h.due due hdue, ‹_›⟩
        · cases hcue

/-- The patrol is there when a pass is about to begin. -/
theorem Follows.begin (h : Follows timeout name m [] p r) (hawaits : Awaits r) {cue : Run.Cue}
    (hcue : r.nextCue? last = some cue)
    (hclock : (delay.bind (deadline? (last * nanosPerMilli))).isSome = true) :
    (∃ p', Follows timeout name m [] p' (r.begin delay cue).2)
      ∧ (r.begin delay cue).2.clock ≤ (r.begin delay cue).1 := by
  rcases hawaits.nextCue? hcue with ⟨due, rfl, hdue, -⟩ | ⟨tick, rfl, htick, hlast⟩
  · exact ⟨⟨p, h.idles (.refl p) h.loop h.clock rfl⟩, hdue⟩
  · obtain ⟨p', hp'⟩ := h.advance htick
      (isSome_deadline?_of_le (Nat.mul_le_mul_right nanosPerMilli hlast) hclock)
    exact ⟨⟨p', hp'.idles (.refl p') hp'.loop hp'.clock rfl⟩, Nat.le_refl tick⟩

theorem le_of_dueAfter {action : Action} {due : Nat} (h : Run.dueAfter tick action = some due) :
    tick ≤ due := by
  cases action with
  | requeue wait =>
      obtain rfl := Option.some.inj h
      exact Nat.le_add_right _ _
  | awaitChange => cases h

/-- The patrol is there when a pass is over. -/
theorem Follows.finish (h : Follows timeout name m [] p r) {pass : Pass} {report : Report}
    (hreport : report = supervise timeout m pass) (htick : r.clock ≤ tick)
    (hclock : (delay.bind
      (deadline? ((tick + report.took.waitMillis) * nanosPerMilli))).isSome = true) :
    (∃ p', Follows timeout name m [] p'
        (r.finish delay (tick + report.took.waitMillis) report))
      ∧ Awaits (r.finish delay (tick + report.took.waitMillis) report) := by
  have hover : tick * nanosPerMilli + report.took.toNanos
      ≤ (tick + report.took.waitMillis) * nanosPerMilli := by
    rw [Nat.add_mul]
    exact Nat.add_le_add_left (toNanos_le_waitMillis _) _
  obtain ⟨p₁, hvisit⟩ := h.visit pass htick (Nat.le_add_right tick report.took.waitMillis) hclock
  obtain ⟨p₂, hdone⟩ := hvisit.report rfl hreport hover
  obtain ⟨⟨p₃, hsettled⟩, hlater⟩ := hdone.settle hclock
  refine ⟨⟨p₃, hsettled.idles (.refl p₃) hsettled.loop hsettled.clock rfl⟩, hlater,
    fun due hdue => ?_⟩
  rw [Run.finish] at hdue
  dsimp only at hdue
  split at hdue
  · exact Nat.le_of_eq (Option.some.inj hdue)
  · exact le_of_dueAfter hdue

/-- Pass after pass the patrol is where the run is. -/
theorem Follows.passes {config : Config}
    (hclock : (delay.bind (deadline? (last * nanosPerMilli))).isSome = true) (bound : Nat)
    {passes : List Pass} (h : Follows config.reconcileTimeout name m [] p r) (hawaits : Awaits r) :
    ∃ p', Follows config.reconcileTimeout name m [] p'
      (r.passes config m delay last bound passes) := by
  induction bound generalizing passes p r with
  | zero => exact ⟨p, h⟩
  | succ bound ih =>
      cases passes with
      | nil => exact ⟨p, h⟩
      | cons pass rest =>
          rw [Run.passes]
          cases hcue : r.nextCue? last with
          | none => exact ⟨p, h⟩
          | some cue =>
              dsimp only
              obtain ⟨⟨p₁, hbegun⟩, htick⟩ := h.begin hawaits hcue hclock
              split
              · exact ⟨p₁, hbegun⟩
              · have hbefore := Nat.le_of_lt (Nat.lt_of_not_le ‹_›)
                obtain ⟨⟨p₂, hover⟩, hawaits'⟩ := hbegun.finish rfl htick
                  (isSome_deadline?_of_le (Nat.mul_le_mul_right nanosPerMilli hbefore) hclock)
                exact ih hover hawaits'

end

/-- The run of a controller is a patrol over its object, with the same reports and the same state of
the resync loop, as long as every deadline of the time that it is given is on the clock. -/
theorem exists_patrol_run (startup : Startup) (config : Config) (m : Metadata)
    {delay : Option Duration} {span : Duration} (passes : List Pass) (name : String)
    (hclock : (delay.bind (deadline? (span.waitMillis * nanosPerMilli))).isSome = true) :
    ∃ p, Relation.ReflTransGen (Patrol.Step config.reconcileTimeout name) (Patrol.start 0) p
      ∧ p.loop = (startup.run config m delay span passes).resync
      ∧ reports p.diary = (startup.run config m delay span passes).reports
      ∧ ∀ v report, .passed v report ∈ p.diary → v.object = m := by
  have hfresh := follows_fresh config.reconcileTimeout name m
  have hfollows : ∃ p, Follows config.reconcileTimeout name m [] p
      (startup.run config m delay span passes) := by
    rw [Startup.run]
    split
    · exact ⟨_, hfresh⟩
    · exact hfresh.passes hclock _ (awaits_fresh m)
  obtain ⟨p, hp⟩ := hfollows
  exact ⟨p, hp.run, hp.loop, hp.reports, hp.object⟩

end ControlLoop.Controller
