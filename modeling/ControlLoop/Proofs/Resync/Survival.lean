/-
The loop goes on as long as someone asks and someone listens.

# What can stop it

The loop ends by itself when no more commands can come, and when nobody
takes the keys. Apart from that it only stops when there is no deadline
for a key: the jittered period is longer than any span, or the clock does
not get that far. So it goes on if every period that was drawn leads to a
deadline (`Course.Serves.step`).

# Which periods lead to deadlines

Settings that are accepted have a period of whole seconds, at least one
(`Config.exists_resyncPeriod`). If it is not over four fifths of the
longest span, then whatever is drawn is a span, close to the product with
the factor, and not over twice the period; and no more than that has to be
left of the clock (`exists_deadline`). Longer periods are accepted too,
though, and with the longest of them the loop may stop as soon as a key is
queued (`longest_span_stops_loop`).
-/
import ControlLoop.Proofs.Duration.Grammar
import ControlLoop.Proofs.Resync.Course
import ControlLoop.Proofs.Timers.Jittering

namespace ControlLoop

-- ====================================================== accepted periods

/-- A period in accepted settings is whole seconds, and not zero. -/
theorem Config.exists_resyncPeriod {text : String} {config : Config}
    (hparse : Duration.parse text = .ok config.resyncPeriod) (hvalid : config.validate = .ok ()) :
    ∃ n, config.resyncPeriod = Duration.ofSeconds n ∧ 0 < n ∧ n ≤ Duration.maxSeconds := by
  obtain ⟨n, k, -, -, hperiod⟩ := Duration.parse_eq_ok_iff.1 hparse
  refine ⟨_, hperiod, ?_, Nat.min_le_right _ _⟩
  rw [Nat.pos_iff_ne_zero]
  intro hzero
  have hnone : config.invalid? = none := by
    unfold validate at hvalid
    split at hvalid
    · cases hvalid
    · assumption
  have hisZero : config.resyncPeriod.isZero = true := by
    rw [hperiod, hzero]
    rfl
  unfold invalid? at hnone
  rw [if_pos hisZero] at hnone
  split at hnone <;> cases hnone

namespace Resync

variable {period : Duration}

/-- Each key that was queued got a jittered period, at a time when the clock had twice the period
ahead. -/
def EachJittered (period : Duration) (deeds : List Deed) : Prop :=
  ∀ now delay key, .handled now delay (.enqueue key) ∈ deeds →
    (∃ words, delay = (Timers.jittered period words).1)
      ∧ (now + 2 * period.toNanos) / nanosPerSecond ≤ lastSecond

/-- With twice the period ahead of the clock, whatever is drawn leads to a deadline. -/
theorem exists_deadline {n : Nat} (hpos : 0 < n) (words : List Nat) {now : Nat}
    (hclock : (now + 2 * (Duration.ofSeconds n).toNanos) / nanosPerSecond ≤ lastSecond) :
    ∃ x, (Timers.jittered (Duration.ofSeconds n) words).1.bind (deadline? now) = some x := by
  have hle : n ≤ Timers.longestPeriod := by
    -- half of what the clock can show is less than what can be jittered
    rw [Duration.toNanos_ofSeconds] at hclock
    unfold Timers.longestPeriod Duration.maxSeconds
    unfold lastSecond nanosPerSecond at hclock
    omega
  have hdrawn := Timers.isDrawn_drawFactor 0 words
  obtain ⟨d, hd, hnear⟩ := Timers.exists_scaled hpos hle hdrawn
  have htwice := Timers.toNanos_le_of_near hpos hdrawn.factor hnear
  refine ⟨now + d.toNanos, ?_⟩
  show (Timers.scaled _ _).bind _ = _
  rw [hd, Option.bind_some]
  exact if_pos ((Nat.div_le_div_right (Nat.add_le_add_left htwice now)).trans hclock)

namespace Course

/-- The loop runs, unless nobody asks any more or nobody listens. -/
def Serves (c : Course) : Prop :=
  c.loop.running = true ∨ c.loop.hasSender = false ∨ c.loop.hasReceiver = false

theorem Step.exists_deeds_eq {c c' : Course} (h : Step c c') :
    ∃ more, c'.deeds = c.deeds ++ more := by
  cases h
  case handle => exact ⟨_, rfl⟩
  case fire => exact ⟨_, rfl⟩
  all_goals exact ⟨[], (List.append_nil _).symm⟩

theorem Serves.of_flags {c c' : Course} (h : c.Serves) (hruns : c'.loop.running = c.loop.running)
    (hsender : c'.loop.hasSender = c.loop.hasSender)
    (hreceiver : c'.loop.hasReceiver = c.loop.hasReceiver) : c'.Serves := by
  unfold Serves
  rw [hruns, hsender, hreceiver]
  exact h

/-- With a deadline for every key, no step stops the loop while someone asks and someone listens. -/
theorem Serves.step {c c' : Course} (h : c.Serves) (hstep : Step c c')
    (hdeadlines : ∀ now delay key, .handled now delay (.enqueue key) ∈ c'.deeds →
      ∃ x, delay.bind (deadline? now) = some x) : c'.Serves := by
  cases hstep with
  | send cmd =>
      unfold Resync.send
      split
      · exact h.of_flags rfl rfl rfl
      · exact h
  | receive =>
      unfold Resync.receive
      split
      · exact h.of_flags rfl rfl rfl
      · exact h
  | dropSender => exact Or.inr (Or.inl rfl)
  | dropReceiver => exact Or.inr (Or.inr rfl)
  | handle delay hruns hnow hnext =>
      left
      rename_i now cmd rest
      cases cmd with
      | enqueue key =>
          have hmem : Deed.handled now delay (.enqueue key)
              ∈ c.deeds ++ [.handled now delay (.enqueue key)] :=
            List.mem_append_right _ (List.mem_singleton_self _)
          obtain ⟨x, hx⟩ := hdeadlines now delay key hmem
          simp only [Resync.handle, hx]
          exact hruns
      | dequeue key => exact hruns
  | fire hruns hnow hhead hdue htaken =>
      left
      unfold Resync.fire
      simp only [htaken, if_true]
      split <;> exact hruns
  | abandon hruns hnow hhead hdue hleft =>
      right; right
      unfold Resync.fire
      simp only [hleft]
      split
      · exact hleft
      · rfl
  | close hnone hgone => exact Or.inr (Or.inl hgone)
  | forget hstopped => exact h.of_flags rfl rfl rfl

theorem Serves.run {began : Nat} {c : Course}
    (hrun : Relation.ReflTransGen Step (Course.start began) c)
    (hdeadlines : ∀ now delay key, .handled now delay (.enqueue key) ∈ c.deeds →
      ∃ x, delay.bind (deadline? now) = some x) : c.Serves := by
  induction hrun with
  | refl => exact Or.inl rfl
  | tail hrun hstep ih =>
      obtain ⟨more, hmore⟩ := hstep.exists_deeds_eq
      refine (ih fun now delay key hmem => ?_).step hstep hdeadlines
      rw [hmore] at hdeadlines
      exact hdeadlines now delay key (List.mem_append_left _ hmem)

end Course

/-- If the period in accepted settings is not over four fifths of the longest span, all its exact
products with factors are spans, and only then. What is drawn is then a span, and off from the
product by rounding only. As long as the clock has twice the period ahead whenever a key is queued,
the loop goes on until nobody asks any more or nobody listens. -/
theorem survives_requests {text : String} {config : Config}
    (hparse : Duration.parse text = .ok config.resyncPeriod) (hvalid : config.validate = .ok ()) :
    ((∀ f, Timers.IsFactor f → f * config.resyncPeriod.toNanos ≤ Duration.longest.toNanos)
        ↔ config.resyncPeriod.seconds ≤ Timers.longestPeriod)
      ∧ (config.resyncPeriod.seconds ≤ Timers.longestPeriod →
        ∀ words, ∃ f d, Timers.IsFactor f
          ∧ f = (Timers.drawFactor 0 words).1.magnitude
          ∧ (Timers.jittered config.resyncPeriod words).1 = some d
          ∧ |(d.toNanos : ℚ) - f * config.resyncPeriod.toNanos|
            ≤ f * config.resyncPeriod.toNanos / 2 ^ 51 + 1 / 2)
      ∧ ∀ began c, Relation.ReflTransGen Course.Step (Course.start began) c →
        EachJittered config.resyncPeriod c.deeds →
        c.loop.running = true ∨ c.loop.hasSender = false ∨ c.loop.hasReceiver = false := by
  obtain ⟨n, hperiod, hpos, hn⟩ := Config.exists_resyncPeriod hparse hvalid
  rw [hperiod]
  refine ⟨Timers.products_fit_iff hn, ?_, ?_⟩
  · intro hle words
    have hdrawn := Timers.isDrawn_drawFactor 0 words
    obtain ⟨d, hd, hnear⟩ := Timers.exists_scaled hpos hle hdrawn
    exact ⟨_, d, hdrawn.factor, rfl, hd, hnear⟩
  · intro began c hrun hjittered
    apply Course.Serves.run hrun
    intro now delay key hmem
    obtain ⟨⟨words, rfl⟩, hclock⟩ := hjittered now delay key hmem
    exact exists_deadline hpos words hclock

/-- Ten minutes, and a key that is queued and handled. -/
theorem survives_requests_every_ten_minutes :
    ∃ c, Relation.ReflTransGen Course.Step (Course.start 0) c
      ∧ c.deeds = [.handled 0 (some (Duration.ofSeconds 600)) (.enqueue ⟨"db", "a"⟩)]
      ∧ (c.loop.running = true ∨ c.loop.hasSender = false ∨ c.loop.hasReceiver = false)
      ∧ ∃ d, (Timers.jittered (Duration.ofSeconds 600) [0]).1 = some d := by
  have hlaw := @survives_requests "10m" Config.default (by decide +kernel) rfl
  have hdrawn : (Timers.jittered (Duration.ofSeconds 600) [2 ^ 63]).1
      = some (Duration.ofSeconds 600) := by decide +kernel
  have hrun := Relation.ReflTransGen.refl (r := Course.Step) (a := Course.start 0)
  have hrun := hrun.tail (.send (.enqueue ⟨"db", "a"⟩))
  have hrun := hrun.tail
    (@Course.Step.handle _ 0 _ _ (some (Duration.ofSeconds 600)) rfl (by decide) rfl)
  obtain ⟨-, hdrawnAll, hserves⟩ := hlaw
  obtain ⟨f, d, -, -, hd, -⟩ := hdrawnAll (by decide) [0]
  refine ⟨_, hrun, rfl, hserves 0 _ hrun ?_, d, hd⟩
  intro now delay key hmem
  obtain ⟨rfl, rfl, -⟩ := Deed.handled.inj (List.mem_singleton.1 hmem)
  exact ⟨⟨_, hdrawn.symm⟩, by decide⟩

/-- The longest span is accepted as a period. Its exact product with nine eighths is no span. With
the factor one, rounding the seconds already leads beyond the spans, and then a key that is queued
stops the loop. -/
theorem longest_span_stops_loop :
    ∃ config : Config, Duration.parse "18446744073709551615" = .ok config.resyncPeriod
      ∧ config.validate = .ok ()
      ∧ Timers.IsFactor (9 / 8)
      ∧ (Duration.longest.toNanos : ℚ) < 9 / 8 * config.resyncPeriod.toNanos
      ∧ (Timers.jittered config.resyncPeriod [2 ^ 63]).1 = none
      ∧ ∃ c, Relation.ReflTransGen Course.Step (Course.start 0) c
        ∧ c.deeds = [.handled 0 (Timers.jittered config.resyncPeriod [2 ^ 63]).1
            (.enqueue ⟨"db", "a"⟩)]
        ∧ c.loop.running = false ∧ c.loop.hasSender = true ∧ c.loop.hasReceiver = true := by
  have hnone : (Timers.jittered (Duration.ofSeconds Duration.maxSeconds) [2 ^ 63]).1 = none := by
    decide +kernel
  have hover : 8 * Duration.longest.toNanos
      < 9 * (Duration.ofSeconds Duration.maxSeconds).toNanos := by decide
  have hrun := Relation.ReflTransGen.refl (r := Course.Step) (a := Course.start 0)
  have hrun := hrun.tail (.send (.enqueue ⟨"db", "a"⟩))
  have hrun := hrun.tail (@Course.Step.handle _ 0 _ _ none rfl (by decide) rfl)
  refine ⟨{ Config.default with resyncPeriod := Duration.ofSeconds Duration.maxSeconds },
    by decide +kernel, rfl, ⟨by norm_num, by norm_num⟩, ?_, hnone, _, hrun, ?_, rfl, rfl, rfl⟩
  · have hcast : (8 * Duration.longest.toNanos : ℚ)
        < 9 * (Duration.ofSeconds Duration.maxSeconds).toNanos := by exact_mod_cast hover
    show (Duration.longest.toNanos : ℚ) < 9 / 8 * (Duration.ofSeconds Duration.maxSeconds).toNanos
    linarith only [hcast]
  · rw [hnone]
    rfl

end Resync

end ControlLoop
