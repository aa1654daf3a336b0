/-
What a jittered period comes to.

# The factor

Whatever random words come, the factor drawn from them lies between three
quarters and five quarters (`isDrawn_drawFactor`). It is a number of 53
binary digits, so it stays below five quarters by at least the last of
them (`IsDrawn.magnitude_le`), and that keeps the longest periods in
bounds.

# The product

Three roundings lie between the exact product and the jittered period:
the seconds are rounded to 53 digits, then the product, and then this is
rounded to the nanosecond. Together they change it by no more than one
part in two to the fifty-first, and half a nanosecond
(`exists_scaled`).

# The longest period

The exact products of a period all fit into a span if the period is not
over four fifths of what a span can hold, and of longer ones some do not
(`products_fit_iff`). The roundings do not move this bound in the wrong
direction: up to it the rounded product fits too.
-/
import ControlLoop.Proofs.Number.Rounding
import ControlLoop.Timers.Jitter

namespace ControlLoop

namespace Duration

/-- The longest span. -/
def longest : Duration := ⟨maxSeconds, nanosPerSecond - 1⟩

theorem toNanos_ofNanos (n : Nat) : (ofNanos n).toNanos = n := Nat.div_add_mod' n nanosPerSecond

theorem toNanos_ofSeconds (n : Nat) : (ofSeconds n).toNanos = n * nanosPerSecond := by
  unfold toNanos ofSeconds
  exact Nat.add_zero _

end Duration

namespace Timers

open Number (Binary Format binary64 roundDiv)
open Number.Format (sound_binary64)

-- ========================================================== the factor

/-- What a period may be multiplied with. -/
structure IsFactor (f : ℚ) : Prop where
  least : 3 / 4 ≤ f
  most : f < 5 / 4

/-- A factor as it is drawn, with 53 digits. -/
structure IsDrawn (x : Binary) : Prop where
  fits : x.Fits binary64
  factor : IsFactor x.magnitude

theorem magnitude_leastFactor : leastFactor.magnitude = 3 / 4 := by
  unfold Binary.magnitude leastFactor
  norm_num

theorem magnitude_factorEnd : factorEnd.magnitude = 5 / 4 := by
  unfold Binary.magnitude factorEnd
  norm_num

theorem fits_leastFactor : leastFactor.Fits binary64 := ⟨by decide, by decide, by decide⟩

/-- A word leads to a factor, or is passed over. -/
theorem isDrawn_of_accepted? {word : Nat} {x : Binary} (h : accepted? word = some x) :
    IsDrawn x := by
  obtain ⟨hx, hlt⟩ := Option.filter_eq_some_iff.1 h
  have hden : 0 < Nat.pow 2 53 := by decide
  obtain ⟨hfits, hpos⟩ := Format.fits_round sound_binary64 hden hx
  refine ⟨hfits, ?_, ?_⟩
  · rw [← magnitude_leastFactor]
    apply Format.le_round sound_binary64 hden fits_leastFactor _ hx
    rw [magnitude_leastFactor, le_div_iff₀ (by exact_mod_cast hden)]
    have hleast : (3 * 2 ^ 51 : ℚ) ≤ (word / Nat.pow 2 12 + 3 * Nat.pow 2 51 : Nat) := by
      exact_mod_cast Nat.le_add_left (3 * 2 ^ 51) (word / Nat.pow 2 12)
    refine le_trans (le_of_eq ?_) hleast
    rw [Nat.pow_eq]
    norm_num
  · rw [← magnitude_factorEnd]
    exact (Binary.cmp_eq_lt_iff hpos rfl).1 (of_decide_eq_true hlt)

theorem isDrawn_drawFactor (taken : Nat) (words : List Nat) :
    IsDrawn (drawFactor taken words).1 := by
  induction words generalizing taken with
  | nil =>
      refine ⟨fits_leastFactor, ?_, ?_⟩
      · exact magnitude_leastFactor.ge
      · show leastFactor.magnitude < 5 / 4
        rw [magnitude_leastFactor]
        norm_num
  | cons word words ih =>
      unfold drawFactor
      cases hx : accepted? word with
      | some x => exact isDrawn_of_accepted? hx
      | none => exact ih (taken + 1)

/-- A factor stays below five quarters by the last of its digits. -/
theorem IsDrawn.magnitude_le {x : Binary} (h : IsDrawn x) :
    x.magnitude ≤ (5 * 2 ^ 50 - 1) / 2 ^ 52 := by
  by_cases hexp : -52 ≤ x.exponent
  · obtain ⟨k, hk⟩ := Binary.exists_magnitude_eq hexp
    have hmost := h.factor.most
    rw [hk, zpow_neg, ← div_eq_mul_inv] at hmost ⊢
    rw [div_lt_div_iff₀ (by positivity) (by positivity)] at hmost
    have hlt : (k : ℚ) < (5 * 2 ^ 50 : Nat) := by
      push_cast
      linarith
    have hsucc : k + 1 ≤ 5 * 2 ^ 50 := Nat.succ_le_of_lt (by exact_mod_cast hlt)
    have hle : (k : ℚ) + 1 ≤ 5 * 2 ^ 50 := by exact_mod_cast hsucc
    exact div_le_div_of_nonneg_right (by linarith) (by positivity)
  · -- such a number has no digit in front of the point
    have hlt := h.fits.magnitude_lt.trans_le
      (Number.zpow_le_zpow (d := binary64.precision + x.exponent) (e := 0) (by
        show (53 : Int) + x.exponent ≤ 0
        omega))
    rw [zpow_zero] at hlt
    refine hlt.le.trans ?_
    norm_num

-- ======================================================= the roundings

/-- The most whole seconds whose products with all factors are spans. -/
def longestPeriod : Nat := 4 * (Duration.maxSeconds + 1) / 5

/-- A number of the format that is not below the longest period. -/
def periodBound : Binary := ⟨false, 7205759403792794, 11⟩

/-- The largest number of the format that is a span in seconds. -/
def spanBound : Binary := ⟨false, 2 ^ 53 - 1, 11⟩

theorem fits_periodBound : periodBound.Fits binary64 := ⟨by decide, by decide, by decide⟩

theorem fits_spanBound : spanBound.Fits binary64 := ⟨by decide, by decide, by decide⟩

theorem magnitude_periodBound : periodBound.magnitude = 7205759403792794 * 2 ^ 11 := by
  unfold Binary.magnitude periodBound
  norm_num

theorem magnitude_spanBound : spanBound.magnitude = (2 ^ 53 - 1) * 2 ^ 11 := by
  unfold Binary.magnitude spanBound
  norm_num

theorem longestPeriod_le : (longestPeriod : ℚ) ≤ periodBound.magnitude := by
  have hle : longestPeriod ≤ 7205759403792794 * 2 ^ 11 := by decide
  rw [magnitude_periodBound]
  exact_mod_cast hle

/-- A ratio that is not tiny has all the digits that the format can hold. -/
theorem filled_of_quarter_le {q : ℚ} (h : 1 / 4 ≤ q) :
    (2 : ℚ) ^ ((binary64.precision : Int) - 1 + binary64.minExponent) ≤ q := by
  refine le_trans (Number.zpow_le_zpow (e := -2) (by decide)) (le_trans ?_ h)
  norm_num

/-- The fraction of whole seconds. -/
def noFraction : Binary := ⟨false, 0, binary64.minExponent⟩

/-- Whole seconds have no fraction that could change them. -/
theorem toBinary_ofSeconds (n : Nat) :
    (Duration.ofSeconds n).toBinary
      = (Binary.ofNat binary64 n).bind fun whole => whole.add binary64 noFraction := by
  have hnanos : Binary.ofNat binary64 0 = some noFraction := rfl
  have hbillion : Binary.ofNat binary64 nanosPerSecond = some ⟨false, 8388608000000000, -23⟩ := by
    decide +kernel
  have hfraction : noFraction.div binary64 ⟨false, 8388608000000000, -23⟩ = some noFraction := by
    decide +kernel
  unfold Duration.toBinary Duration.ofSeconds
  simp only [hnanos, hbillion, hfraction, Option.bind_eq_bind, Option.bind_some]

/-- The seconds of a period are rounded once. -/
theorem exists_toBinary {n : Nat} (hpos : 0 < n) {y : Binary} (hy : y.Fits binary64)
    (hle : (n : ℚ) ≤ y.magnitude) :
    ∃ w, (Duration.ofSeconds n).toBinary = some w ∧ w.magnitude ≤ y.magnitude
      ∧ |w.magnitude - n| ≤ n / 2 ^ 53 := by
  have hone : ((n : ℚ) / (1 : Nat)) = n := by rw [Nat.cast_one, div_one]
  have hn : (1 : ℚ) ≤ n := by exact_mod_cast hpos
  have hfilled := filled_of_quarter_le (le_trans (by norm_num) (hn.trans_eq hone.symm))
  obtain ⟨whole, hwhole, hbound⟩ :=
    Format.round_le false sound_binary64 Nat.one_pos hy (hone.trans_le hle)
  have hnear := Format.round_near sound_binary64 Nat.one_pos hfilled hwhole
  obtain ⟨hfits, hsign⟩ := Format.fits_round sound_binary64 Nat.one_pos hwhole
  obtain ⟨w, hw, hsame⟩ := Binary.exists_add_zero sound_binary64 hfits hsign
  rw [hone] at hnear
  refine ⟨w, ?_, hsame ▸ hbound, hsame ▸ hnear⟩
  rw [toBinary_ofSeconds, Binary.ofNat, hwhole]
  exact hw

/-- A number of seconds is a span, to the nearest nanosecond. -/
theorem exists_durationOf {p : Binary} (hle : p.magnitude ≤ spanBound.magnitude) :
    ∃ d, durationOf p = some d ∧ |(d.toNanos : ℚ) - p.magnitude * nanosPerSecond| ≤ 1 / 2 := by
  have hvalue : ((p.ratio.1 * nanosPerSecond : Nat) : ℚ) / p.ratio.2
      = p.magnitude * nanosPerSecond := by
    rw [← p.ratio_value]
    push_cast
    ring
  have hnear := Number.abs_roundDiv_sub_le (p.ratio.1 * nanosPerSecond) p.ratio_den_pos
  rw [hvalue] at hnear
  have hmost : roundDiv (p.ratio.1 * nanosPerSecond) p.ratio.2
      ≤ (2 ^ 53 - 1) * 2 ^ 11 * nanosPerSecond := by
    apply Number.roundDiv_le p.ratio_den_pos
    rw [hvalue]
    push_cast
    rw [magnitude_spanBound] at hle
    exact mul_le_mul_of_nonneg_right (by linarith) (by positivity)
  refine ⟨Duration.ofNanos (roundDiv (p.ratio.1 * nanosPerSecond) p.ratio.2), if_pos ?_, ?_⟩
  · exact (Nat.div_le_div_right hmost).trans (by decide)
  · rw [Duration.toNanos_ofNanos]
    exact hnear

/-- The product with a factor is rounded once, and stays a span in seconds. -/
theorem exists_mul {x w : Binary} (hx : IsDrawn x) (hle : w.magnitude ≤ periodBound.magnitude)
    (hpos : 1 / 2 ≤ w.magnitude) :
    ∃ p, x.mul binary64 w = some p ∧ p.magnitude ≤ spanBound.magnitude
      ∧ |p.magnitude - x.magnitude * w.magnitude| ≤ x.magnitude * w.magnitude / 2 ^ 53 := by
  have hden := Number.scaled_den_pos (x.significand * w.significand) Nat.one_pos
    (x.exponent + w.exponent)
  have hvalue := Binary.product_value x w
  have hmost : x.magnitude * w.magnitude ≤ spanBound.magnitude := by
    refine (mul_le_mul hx.magnitude_le hle w.magnitude_nonneg (by norm_num)).trans ?_
    rw [magnitude_periodBound, magnitude_spanBound]
    norm_num
  have hleast : 1 / 4 ≤ x.magnitude * w.magnitude := by
    refine le_trans ?_ (mul_le_mul hx.factor.least hpos (by norm_num) x.magnitude_nonneg)
    norm_num
  obtain ⟨p, hp, hbound⟩ := Format.round_le (x.negative != w.negative) sound_binary64
    hden fits_spanBound (hvalue.trans_le hmost)
  have hnear := Format.round_near sound_binary64 hden
    (filled_of_quarter_le (hleast.trans_eq hvalue.symm)) hp
  rw [hvalue] at hnear
  exact ⟨p, hp, hbound, hnear⟩

/-- Three roundings in a row, two of them by a small part of what is rounded. -/
theorem near_of_roundings {n w x p b d ε : ℚ} (hn : 0 ≤ n) (hx : 0 ≤ x) (hb : 0 ≤ b) (hε : 0 ≤ ε)
    (hsmall : ε ≤ 1) (hw : |w - n| ≤ n * ε) (hp : |p - x * w| ≤ x * w * ε)
    (hd : |d - p * b| ≤ 1 / 2) : |d - x * (n * b)| ≤ x * (n * b) * (4 * ε) + 1 / 2 := by
  have hscaled : |x * w - x * n| ≤ x * (n * ε) := by
    rw [← mul_sub, abs_mul, abs_of_nonneg hx]
    exact mul_le_mul_of_nonneg_left hw hx
  have htwice : w ≤ 2 * n := by
    have hwhole := mul_le_mul_of_nonneg_left hsmall hn
    have := (abs_le.1 hw).2
    linarith
  have hsecond : x * w * ε ≤ x * (2 * n) * ε :=
    mul_le_mul_of_nonneg_right (mul_le_mul_of_nonneg_left htwice hx) hε
  have hfirst : |p - x * n| ≤ x * n * (4 * ε) := by
    have hsum := abs_sub_le p (x * w) (x * n)
    have hnonneg : 0 ≤ x * n * ε := by positivity
    linarith
  have hseconds : |p * b - x * (n * b)| ≤ x * (n * b) * (4 * ε) := by
    rw [show p * b - x * (n * b) = (p - x * n) * b by ring, abs_mul, abs_of_nonneg hb]
    refine (mul_le_mul_of_nonneg_right hfirst hb).trans (le_of_eq ?_)
    ring
  have hsum := abs_sub_le d (p * b) (x * (n * b))
  linarith

/-- Up to the longest period, every drawn factor gives a span, and it is almost the product. -/
theorem exists_scaled {n : Nat} (hpos : 0 < n) (hle : n ≤ longestPeriod) {x : Binary}
    (hx : IsDrawn x) :
    ∃ d, scaled (Duration.ofSeconds n) x = some d
      ∧ |(d.toNanos : ℚ) - x.magnitude * (Duration.ofSeconds n).toNanos|
        ≤ x.magnitude * (Duration.ofSeconds n).toNanos / 2 ^ 51 + 1 / 2 := by
  have hn : (1 : ℚ) ≤ n := by exact_mod_cast hpos
  have hbound : (n : ℚ) ≤ periodBound.magnitude := (Nat.cast_le.2 hle).trans longestPeriod_le
  obtain ⟨w, hw, hwbound, hwnear⟩ := exists_toBinary hpos fits_periodBound hbound
  have hhalf : 1 / 2 ≤ w.magnitude := by
    have hpart : (n : ℚ) / 2 ^ 53 ≤ n / 2 :=
      div_le_div_of_nonneg_left (by positivity) two_pos (le_self_pow₀ one_le_two (by decide))
    have hlow := (abs_le.1 (hwnear.trans hpart)).1
    linarith only [hlow, hn]
  obtain ⟨p, hp, hpbound, hpnear⟩ := exists_mul hx hwbound hhalf
  obtain ⟨d, hd, hdnear⟩ := exists_durationOf hpbound
  refine ⟨d, ?_, ?_⟩
  · rw [scaled, hw, Option.bind_eq_bind, Option.bind_some, hp, Option.bind_some, hd]
  · have hfour : (1 : ℚ) / 2 ^ 51 = 4 * (1 / 2 ^ 53) := by norm_num
    rw [Duration.toNanos_ofSeconds, Nat.cast_mul, div_eq_mul_one_div _ ((2 : ℚ) ^ 51), hfour]
    rw [div_eq_mul_one_div] at hwnear hpnear
    exact near_of_roundings (by positivity) x.magnitude_nonneg (by positivity) (by positivity)
      (by norm_num) hwnear hpnear hdnear

/-- What is drawn is not over twice the period. -/
theorem toNanos_le_of_near {n : Nat} (hpos : 0 < n) {f : ℚ} (hf : IsFactor f) {d : Duration}
    (hnear : |(d.toNanos : ℚ) - f * (Duration.ofSeconds n).toNanos|
      ≤ f * (Duration.ofSeconds n).toNanos / 2 ^ 51 + 1 / 2) :
    d.toNanos ≤ 2 * (Duration.ofSeconds n).toNanos := by
  have hnanos : 2 ≤ (Duration.ofSeconds n).toNanos := by
    rw [Duration.toNanos_ofSeconds]
    exact le_trans (by decide) (Nat.mul_le_mul_right nanosPerSecond hpos)
  generalize (Duration.ofSeconds n).toNanos = p at hnear hnanos
  have hp : (2 : ℚ) ≤ p := by exact_mod_cast hnanos
  have hproduct : f * p ≤ 5 / 4 * p := mul_le_mul_of_nonneg_right hf.most.le (by positivity)
  have hnonneg : 0 ≤ f * p := mul_nonneg (le_trans (by norm_num) hf.least) (by positivity)
  have hpart : f * p / 2 ^ 51 ≤ f * p / 4 :=
    div_le_div_of_nonneg_left hnonneg (by norm_num) (by norm_num)
  have hhigh := (abs_le.1 hnear).2
  have hle : (d.toNanos : ℚ) ≤ 2 * p := by linarith only [hhigh, hpart, hproduct, hp]
  exact_mod_cast hle

-- =================================================== the exact product

theorem le_longestPeriod_iff {n : Nat} : n ≤ longestPeriod ↔ 5 * n ≤ 4 * Duration.maxSeconds := by
  unfold longestPeriod Duration.maxSeconds
  omega

/-- The first product of so many seconds that is no span any more. -/
theorem toNanos_longest :
    (Duration.longest.toNanos : ℚ) + 1 = (Duration.maxSeconds + 1 : Nat) * nanosPerSecond := by
  have hend : Duration.longest.toNanos + 1 = (Duration.maxSeconds + 1) * nanosPerSecond := by decide
  exact_mod_cast hend

/-- Up to the longest period a product has less than five quarters of so many seconds, which is not
more than the whole seconds of a span. -/
theorem product_le {n : Nat} (hle : n ≤ longestPeriod) {f : ℚ} (hf : IsFactor f) :
    f * (Duration.ofSeconds n).toNanos ≤ Duration.longest.toNanos := by
  have hlong : (5 * n : ℚ) ≤ 4 * Duration.maxSeconds := by
    exact_mod_cast le_longestPeriod_iff.1 hle
  have hseconds : f * n ≤ Duration.maxSeconds := by
    have hmost := mul_le_mul_of_nonneg_right hf.most.le (Nat.cast_nonneg n : (0 : ℚ) ≤ n)
    linarith
  have hbillion : (1 : ℚ) ≤ nanosPerSecond := by exact_mod_cast (by decide : 1 ≤ nanosPerSecond)
  have hnanos := mul_le_mul_of_nonneg_right hseconds (zero_le_one.trans hbillion)
  have hend := toNanos_longest
  push_cast at hend
  rw [Duration.toNanos_ofSeconds, Nat.cast_mul]
  linarith

/-- For a longer period there is a factor that leads to the first second behind the spans. -/
theorem exists_product_over {n : Nat} (hlong : longestPeriod < n) (hn : n ≤ Duration.maxSeconds) :
    ∃ f, IsFactor f ∧ Duration.longest.toNanos < f * (Duration.ofSeconds n).toNanos := by
  have hover : 4 * (Duration.maxSeconds + 1) < 5 * n := by
    have hnot := mt le_longestPeriod_iff.2 (Nat.not_le.2 hlong)
    unfold Duration.maxSeconds at hnot ⊢
    omega
  have hpos : (0 : ℚ) < n := by exact_mod_cast Nat.zero_lt_of_lt hlong
  have hlast : (n : ℚ) ≤ (Duration.maxSeconds + 1 : Nat) := by exact_mod_cast Nat.le_succ_of_le hn
  have hoverq : (4 * (Duration.maxSeconds + 1 : Nat) : ℚ) < 5 * n := by exact_mod_cast hover
  refine ⟨(Duration.maxSeconds + 1 : Nat) / n, ⟨?_, ?_⟩, ?_⟩
  · rw [le_div_iff₀ hpos]
    linarith
  · rw [div_lt_iff₀ hpos]
    linarith
  · rw [Duration.toNanos_ofSeconds, Nat.cast_mul, ← mul_assoc, div_mul_cancel₀ _ hpos.ne',
      ← toNanos_longest]
    exact lt_add_one _

/-- The exact products with all factors fit into a span up to the longest period, and only up to
there. -/
theorem products_fit_iff {n : Nat} (hn : n ≤ Duration.maxSeconds) :
    (∀ f, IsFactor f → f * (Duration.ofSeconds n).toNanos ≤ Duration.longest.toNanos)
      ↔ n ≤ longestPeriod := by
  refine ⟨?_, fun hle f => product_le hle⟩
  intro hfit
  by_contra hlong
  obtain ⟨f, hf, hover⟩ := exists_product_over (not_le.1 hlong) hn
  exact absurd (hfit f hf) (not_le.2 hover)

end Timers

end ControlLoop
