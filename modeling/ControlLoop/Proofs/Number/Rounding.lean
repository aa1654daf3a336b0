/-
How far rounding moves a number.

# The unit

Rounding a positive ratio picks a unit, the power of two by which the
ratio has as many binary digits as the format holds, or the smallest unit
there is (`Format.unitExponent`). The result is the nearest multiple of
the unit; all else is the spelling of that multiple
(`Format.exists_round_eq`). So it is off by at most half a unit, and by
how much of the ratio itself that is, the digits of the format tell
(`Format.round_near`).

# No number of the format is crossed

A number of the format that is not below the ratio is a multiple of its
unit, or so large that the last unit below it is a larger one; either way
rounding does not pass it (`Format.round_le`), and likewise from below
(`Format.le_round`). In particular there is no overflow below a number of
the format, and numbers of the format stay as they are.
-/
import ControlLoop.Number.Binary
import Mathlib.Algebra.Order.Field.Power
import Mathlib.Data.Rat.Cast.Order
import Mathlib.Tactic.FieldSimp
import Mathlib.Tactic.Linarith
import Mathlib.Tactic.Positivity
import Mathlib.Tactic.Ring

namespace ControlLoop.Number

variable {num den : Nat}

-- ================================================= to a whole number

/-- The nearest whole number to a quotient is at most one half away. -/
theorem abs_roundDiv_sub_le (num : Nat) (hden : 0 < den) :
    |(roundDiv num den : ℚ) - num / den| ≤ 1 / 2 := by
  have hpos : (0 : ℚ) < den := by exact_mod_cast hden
  have hrest : num % den < den := Nat.mod_lt _ hden
  have hquot : (num : ℚ) / den = (num / den : Nat) + ((num % den : Nat) : ℚ) / den := by
    rw [div_eq_iff hpos.ne', add_mul, div_mul_cancel₀ _ hpos.ne']
    exact_mod_cast (Nat.div_add_mod' num den).symm
  rw [hquot]
  unfold roundDiv
  generalize num / den = q
  generalize num % den = r at hrest
  have hr : (0 : ℚ) ≤ (r : ℚ) / den := by positivity
  have hlow : 2 * r ≤ den → (r : ℚ) / den ≤ 1 / 2 := by
    intro h
    rw [div_le_iff₀ hpos]
    have : (2 * r : ℚ) ≤ den := by exact_mod_cast h
    linarith
  have hhigh : den ≤ 2 * r → 1 / 2 ≤ (r : ℚ) / den ∧ (r : ℚ) / den ≤ 1 := by
    intro h
    rw [le_div_iff₀ hpos, div_le_one hpos]
    have h2 : (den : ℚ) ≤ 2 * r := by exact_mod_cast h
    have h1 : (r : ℚ) ≤ den := by exact_mod_cast hrest.le
    constructor <;> linarith
  rw [abs_le]
  dsimp only
  split
  · have := hlow (by omega)
    constructor <;> linarith
  · split
    · obtain ⟨h1, h2⟩ := hhigh (by omega)
      push_cast
      constructor <;> linarith
    · split
      · have := hlow (by omega)
        constructor <;> linarith
      · obtain ⟨h1, h2⟩ := hhigh (by omega)
        push_cast
        constructor <;> linarith

/-- Rounding a quotient passes no whole number. -/
theorem roundDiv_le (hden : 0 < den) {k : Nat} (h : (num : ℚ) / den ≤ k) :
    roundDiv num den ≤ k := by
  have hnear := (abs_le.1 (abs_roundDiv_sub_le num hden)).2
  have hlt : (roundDiv num den : ℚ) < (k + 1 : Nat) := by
    push_cast
    linarith
  exact Nat.le_of_lt_succ (by exact_mod_cast hlt)

theorem le_roundDiv (hden : 0 < den) {k : Nat} (h : (k : ℚ) ≤ num / den) :
    k ≤ roundDiv num den := by
  have hnear := (abs_le.1 (abs_roundDiv_sub_le num hden)).1
  have hlt : (k : ℚ) < (roundDiv num den + 1 : Nat) := by
    push_cast
    linarith
  exact Nat.le_of_lt_succ (by exact_mod_cast hlt)

-- ==================================================== powers of two

theorem scaled_den_pos (num : Nat) (hden : 0 < den) (e : Int) : 0 < (scaled num den e).2 := by
  unfold scaled
  split
  · exact hden
  · exact Nat.mul_pos hden (Nat.pow_pos (by decide))

theorem scaled_value (num den : Nat) (e : Int) :
    ((scaled num den e).1 : ℚ) / (scaled num den e).2 = num / den * 2 ^ e := by
  unfold scaled
  split
  · next he =>
    have hpow : (2 : ℚ) ^ e = 2 ^ e.toNat := by
      rw [← zpow_natCast, Int.toNat_of_nonneg he]
    rw [hpow]
    show ((num * 2 ^ e.toNat : Nat) : ℚ) / den = _
    push_cast
    ring
  · next he =>
    have hpow : (2 : ℚ) ^ e = (2 ^ (-e).toNat)⁻¹ := by
      rw [← zpow_natCast, Int.toNat_of_nonneg (by omega), zpow_neg, inv_inv]
    rw [hpow]
    show (num : ℚ) / ((den * 2 ^ (-e).toNat : Nat) : ℚ) = _
    push_cast
    rw [div_mul_eq_div_div, div_eq_mul_inv _ ((2 : ℚ) ^ (-e).toNat)]

theorem zpow_le_zpow {d e : Int} (h : d ≤ e) : (2 : ℚ) ^ d ≤ 2 ^ e :=
  zpow_le_zpow_right₀ (by norm_num) h

theorem lt_of_zpow_lt {d e : Int} (h : (2 : ℚ) ^ d < 2 ^ e) : d < e :=
  (zpow_lt_zpow_iff_right₀ (by norm_num)).1 h

-- ============================================================ values

/-- The absolute value of a number. -/
def Binary.magnitude (x : Binary) : ℚ := x.significand * 2 ^ x.exponent

/-- The number is one of the format. -/
structure Binary.Fits (x : Binary) (fmt : Format) : Prop where
  digits : x.significand < 2 ^ fmt.precision
  least : fmt.minExponent ≤ x.exponent
  most : x.exponent ≤ fmt.maxExponent

theorem Binary.ratio_value (x : Binary) : (x.ratio.1 : ℚ) / x.ratio.2 = x.magnitude := by
  unfold ratio magnitude
  rw [scaled_value, Nat.cast_one, div_one]

theorem Binary.ratio_den_pos (x : Binary) : 0 < x.ratio.2 := scaled_den_pos _ (by decide) _

namespace Format

/-- The format has digits and exponents. -/
structure Sound (fmt : Format) : Prop where
  precision : 0 < fmt.precision
  exponents : fmt.minExponent ≤ fmt.maxExponent

theorem sound_binary64 : binary64.Sound := ⟨by decide, by decide⟩

variable {fmt : Format} {negative : Bool}

-- ========================================================== the unit

theorem log2_spec {n : Nat} (hn : 0 < n) :
    (2 : ℚ) ^ (n.log2 : Int) ≤ n ∧ (n : ℚ) < 2 ^ (n.log2 + 1 : Int) := by
  constructor
  · rw [zpow_natCast]
    exact_mod_cast Nat.log2_self_le hn.ne'
  · have hlt := Nat.lt_log2_self (n := n)
    exact_mod_cast hlt

/-- Comparing a ratio at another exponent is comparing it with a power of two. -/
theorem scaled_lt_iff (num : Nat) (hden : 0 < den) (g : Int) (k : Nat) :
    (scaled num den (-g)).1 < (scaled num den (-g)).2 * 2 ^ k
      ↔ (num / den : ℚ) < 2 ^ (k + g) := by
  have hpos : (0 : ℚ) < (scaled num den (-g)).2 := by
    exact_mod_cast scaled_den_pos num hden (-g)
  have hvalue := scaled_value num den (-g)
  rw [zpow_neg, ← div_eq_mul_inv] at hvalue
  rw [zpow_add₀ two_ne_zero, ← div_lt_iff₀ (by positivity), ← hvalue, div_lt_iff₀' hpos,
    zpow_natCast]
  exact_mod_cast Iff.rfl

/-- A ratio fills the digits of the format at its filling exponent. -/
theorem fillingExponent_spec (hfmt : fmt.Sound) (hnum : 0 < num) (hden : 0 < den) :
    (2 : ℚ) ^ (fmt.precision - 1 + fmt.fillingExponent num den) ≤ num / den
      ∧ (num / den : ℚ) < 2 ^ (fmt.precision + fmt.fillingExponent num den) := by
  have hprec := hfmt.precision
  obtain ⟨hnum1, hnum2⟩ := log2_spec hnum
  obtain ⟨hden1, hden2⟩ := log2_spec hden
  unfold fillingExponent
  generalize hg : (num.log2 : Int) - den.log2 - (fmt.precision - 1 : Nat) = g
  -- each number is known up to a factor of two, so the quotient is up to a factor of four
  have hlow : (2 : ℚ) ^ (fmt.precision - 1 + (g - 1)) ≤ num / den := by
    rw [show (fmt.precision : Int) - 1 + (g - 1) = num.log2 - (den.log2 + 1) by omega,
      zpow_sub₀ two_ne_zero]
    exact div_le_div₀ (by positivity) hnum1 (by exact_mod_cast hden) hden2.le
  have hhigh : (num / den : ℚ) < 2 ^ (fmt.precision + g) := by
    rw [show (fmt.precision : Int) + g = num.log2 + 1 - den.log2 by omega, zpow_sub₀ two_ne_zero]
    exact div_lt_div₀ hnum2 hden1 (by positivity) (by positivity)
  have htest := scaled_lt_iff num hden g (fmt.precision - 1)
  rw [show ((fmt.precision - 1 : Nat) : Int) + g = fmt.precision - 1 + g by omega] at htest
  dsimp only [Nat.pow_eq]
  split
  · next hlt =>
    refine ⟨hlow, ?_⟩
    rw [show (fmt.precision : Int) + (g - 1) = fmt.precision - 1 + g by omega]
    exact htest.1 hlt
  · next hge =>
    exact ⟨not_lt.1 fun h => hge (htest.2 h), hhigh⟩

/-- The exponent of the unit to whose multiples a ratio is rounded. -/
def unitExponent (fmt : Format) (num den : Nat) : Int :=
  max fmt.minExponent (fmt.fillingExponent num den)

/-- How many units there are in a ratio, to the nearest. -/
def units (fmt : Format) (num den : Nat) : Nat :=
  roundDiv (scaled num den (-fmt.unitExponent num den)).1
    (scaled num den (-fmt.unitExponent num den)).2

theorem units_value (fmt : Format) (num den : Nat) :
    ((scaled num den (-fmt.unitExponent num den)).1 : ℚ)
        / (scaled num den (-fmt.unitExponent num den)).2
      = num / den / 2 ^ fmt.unitExponent num den := by
  rw [scaled_value, zpow_neg, div_eq_mul_inv (num / den : ℚ)]

/-- What lies on one side of so many units does not get to the other. -/
theorem units_le (hden : 0 < den) {k : Nat}
    (h : (num / den : ℚ) ≤ k * 2 ^ fmt.unitExponent num den) : fmt.units num den ≤ k := by
  apply roundDiv_le (scaled_den_pos num hden _)
  rw [units_value, div_le_iff₀ (by positivity)]
  exact h

theorem le_units (hden : 0 < den) {k : Nat}
    (h : (k : ℚ) * 2 ^ fmt.unitExponent num den ≤ num / den) : k ≤ fmt.units num den := by
  apply le_roundDiv (scaled_den_pos num hden _)
  rw [units_value, le_div_iff₀ (by positivity)]
  exact h

/-- Rounding is off by half a unit at most. -/
theorem units_near (fmt : Format) (num : Nat) (hden : 0 < den) :
    |fmt.units num den * 2 ^ fmt.unitExponent num den - (num / den : ℚ)|
      ≤ 2 ^ fmt.unitExponent num den / 2 := by
  have hnear := abs_roundDiv_sub_le (scaled num den (-fmt.unitExponent num den)).1
    (scaled_den_pos num hden (-fmt.unitExponent num den))
  rw [units_value] at hnear
  have hpos : (0 : ℚ) < 2 ^ fmt.unitExponent num den := by positivity
  have hscale : ∀ m : ℚ, |m * 2 ^ fmt.unitExponent num den - num / den|
      = |m - num / den / 2 ^ fmt.unitExponent num den| * 2 ^ fmt.unitExponent num den := by
    intro m
    rw [← abs_of_pos hpos, ← abs_mul, abs_of_pos hpos, sub_mul, div_mul_cancel₀ _ hpos.ne']
  rw [hscale]
  have hscaled := mul_le_mul_of_nonneg_right hnear hpos.le
  rw [div_mul_eq_mul_div, one_mul] at hscaled
  exact hscaled

/-- A ratio has no more units than the format has digits for. -/
theorem units_le_pow (hfmt : fmt.Sound) (hnum : 0 < num) (hden : 0 < den) :
    fmt.units num den ≤ 2 ^ fmt.precision := by
  apply units_le hden
  push_cast
  rw [← zpow_natCast, ← zpow_add₀ two_ne_zero]
  exact (fillingExponent_spec hfmt hnum hden).2.le.trans
    (zpow_le_zpow (Int.add_le_add_left (le_max_right _ _) _))

/-- Above the smallest unit, a ratio has as many units as need all digits of the format. -/
theorem pow_le_of_minExponent_lt (hfmt : fmt.Sound) (hnum : 0 < num) (hden : 0 < den)
    (h : fmt.minExponent < fmt.unitExponent num den) :
    (2 : ℚ) ^ (fmt.precision - 1 + fmt.unitExponent num den) ≤ num / den := by
  have hunit : fmt.unitExponent num den = fmt.fillingExponent num den := by
    unfold unitExponent at h ⊢
    omega
  rw [hunit]
  exact (fillingExponent_spec hfmt hnum hden).1

-- ========================================================== rounding

/-- How so many units are spelled: if all digits are used up by a power of two, with one digit less
at the next exponent. -/
def spelling (fmt : Format) (m : Nat) (e : Int) : Nat × Int :=
  if m = 2 ^ fmt.precision then (2 ^ (fmt.precision - 1), e + 1) else (m, e)

theorem round_of_pos (hnum : 0 < num) :
    fmt.round negative num den
      = if fmt.maxExponent < (fmt.spelling (fmt.units num den) (fmt.unitExponent num den)).2
        then none else some ⟨negative, (fmt.spelling (fmt.units num den) (fmt.unitExponent num den)).1,
          (fmt.spelling (fmt.units num den) (fmt.unitExponent num den)).2⟩ := by
  unfold round
  rw [if_neg hnum.ne']
  rfl

/-- Rounding spells the nearest number of units, unless there is no exponent for it. -/
theorem exists_round_eq (hfmt : fmt.Sound) (hnum : 0 < num) (hden : 0 < den) :
    ∃ x : Binary, x.negative = negative ∧ x.significand < 2 ^ fmt.precision
      ∧ x.magnitude = fmt.units num den * 2 ^ fmt.unitExponent num den
      ∧ (x.exponent = fmt.unitExponent num den
        ∨ fmt.units num den = 2 ^ fmt.precision ∧ x.exponent = fmt.unitExponent num den + 1)
      ∧ fmt.round negative num den = if fmt.maxExponent < x.exponent then none else some x := by
  have hprec := hfmt.precision
  rw [round_of_pos hnum]
  unfold spelling
  by_cases hfull : fmt.units num den = 2 ^ fmt.precision
  · -- one digit more than the format has, but the last one is a zero
    rw [if_pos hfull]
    refine ⟨⟨negative, 2 ^ (fmt.precision - 1), fmt.unitExponent num den + 1⟩, rfl, ?_, ?_,
      Or.inr ⟨hfull, rfl⟩, rfl⟩
    · exact Nat.pow_lt_pow_right (by decide) (by omega)
    · have hpow : (2 : ℚ) ^ fmt.precision = 2 ^ (fmt.precision - 1) * 2 := by
        rw [← pow_succ, Nat.sub_add_cancel hprec]
      rw [hfull, Binary.magnitude, zpow_add_one₀ two_ne_zero]
      push_cast
      rw [hpow]
      ring
  · rw [if_neg hfull]
    refine ⟨⟨negative, fmt.units num den, fmt.unitExponent num den⟩, rfl, ?_, rfl, Or.inl rfl, rfl⟩
    exact Nat.lt_of_le_of_ne (units_le_pow hfmt hnum hden) hfull

/-- What comes out is a number of the format. -/
theorem fits_round (hfmt : fmt.Sound) (hden : 0 < den) {x : Binary}
    (hx : fmt.round negative num den = some x) : x.Fits fmt ∧ x.negative = negative := by
  rcases Nat.eq_zero_or_pos num with rfl | hnum
  · rw [round, if_pos rfl] at hx
    obtain rfl := Option.some.inj hx
    exact ⟨⟨Nat.pow_pos (by decide), Int.le_refl _, hfmt.exponents⟩, rfl⟩
  · obtain ⟨y, hneg, hdigits, -, hexp, hround⟩ := exists_round_eq hfmt hnum hden
    rw [hround] at hx
    split at hx
    · cases hx
    · next hmost =>
      obtain rfl := Option.some.inj hx
      have hleast : fmt.minExponent ≤ fmt.unitExponent num den := le_max_left _ _
      exact ⟨⟨hdigits, by omega, by omega⟩, hneg⟩

end Format

-- ====================================== numbers of the format and units

namespace Binary

variable {fmt : Format} {y : Binary}

theorem magnitude_nonneg (x : Binary) : 0 ≤ x.magnitude := by
  unfold magnitude
  positivity

/-- A number is a multiple of every smaller power of two. -/
theorem exists_magnitude_eq {e : Int} (h : e ≤ y.exponent) :
    ∃ k : Nat, y.magnitude = k * 2 ^ e := by
  refine ⟨y.significand * 2 ^ (y.exponent - e).toNat, ?_⟩
  unfold magnitude
  rw [Nat.cast_mul, Nat.cast_pow, Nat.cast_ofNat, ← zpow_natCast, Int.toNat_of_nonneg (by omega),
    mul_assoc, ← zpow_add₀ two_ne_zero, sub_add_cancel]

theorem Fits.magnitude_lt (hy : y.Fits fmt) :
    y.magnitude < 2 ^ (fmt.precision + y.exponent) := by
  have hdigits : (y.significand : ℚ) < 2 ^ fmt.precision := by exact_mod_cast hy.digits
  unfold magnitude
  rw [zpow_add₀ two_ne_zero, zpow_natCast]
  exact mul_lt_mul_of_pos_right hdigits (by positivity)

/-- With a smaller exponent than the unit of a ratio, a number lies below the ratio, and below all
that has as many units. -/
theorem Fits.magnitude_lt_of_exponent_lt (hy : y.Fits fmt) {e : Int} (h : y.exponent < e) :
    y.magnitude < 2 ^ (fmt.precision - 1 + e) :=
  hy.magnitude_lt.trans_le (zpow_le_zpow (by omega))

end Binary

namespace Format

variable {fmt : Format} {negative : Bool} {y : Binary}

/-- Rounding does not pass a number of the format above, so up to there it does not overflow. -/
theorem round_le (negative : Bool) (hfmt : fmt.Sound) (hden : 0 < den) (hy : y.Fits fmt)
    (h : (num / den : ℚ) ≤ y.magnitude) :
    ∃ x, fmt.round negative num den = some x ∧ x.magnitude ≤ y.magnitude := by
  rcases Nat.eq_zero_or_pos num with rfl | hnum
  · refine ⟨⟨negative, 0, fmt.minExponent⟩, if_pos rfl, ?_⟩
    have hzero : (⟨negative, 0, fmt.minExponent⟩ : Binary).magnitude = 0 := by
      simp [Binary.magnitude]
    rw [hzero]
    exact y.magnitude_nonneg
  · obtain ⟨x, -, -, hvalue, hexp, hround⟩ := exists_round_eq hfmt hnum hden
    have hunit : fmt.unitExponent num den ≤ y.exponent := by
      by_contra hlt
      have hsmall := hy.magnitude_lt_of_exponent_lt (not_le.1 hlt)
      have hlarge := pow_le_of_minExponent_lt hfmt hnum hden (hy.least.trans_lt (not_le.1 hlt))
      linarith
    obtain ⟨k, hk⟩ := Binary.exists_magnitude_eq hunit
    have hunits : fmt.units num den ≤ k := units_le hden (hk ▸ h)
    have hle : x.magnitude ≤ y.magnitude := by
      rw [hvalue, hk]
      exact mul_le_mul_of_nonneg_right (by exact_mod_cast hunits) (by positivity)
    have hmost : x.exponent ≤ fmt.maxExponent := by
      have hmost := hy.most
      rcases hexp with hexp | ⟨hfull, hexp⟩
      · omega
      · -- all digits are used up by a power of two, which needs a larger exponent
        rw [hvalue, hfull, Nat.cast_pow, Nat.cast_ofNat, ← zpow_natCast,
          ← zpow_add₀ two_ne_zero] at hle
        have := lt_of_zpow_lt (hle.trans_lt hy.magnitude_lt)
        omega
    exact ⟨x, hround.trans (if_neg (Int.not_lt.2 hmost)), hle⟩

/-- Rounding does not pass a number of the format below. -/
theorem le_round (hfmt : fmt.Sound) (hden : 0 < den) (hy : y.Fits fmt)
    (h : y.magnitude ≤ num / den) {x : Binary} (hx : fmt.round negative num den = some x) :
    y.magnitude ≤ x.magnitude := by
  rcases Nat.eq_zero_or_pos num with rfl | hnum
  · rw [Nat.cast_zero, zero_div] at h
    exact h.trans x.magnitude_nonneg
  · obtain ⟨x', -, -, hvalue, -, hround⟩ := exists_round_eq hfmt hnum hden
    rw [hround] at hx
    split at hx
    · cases hx
    · obtain rfl := Option.some.inj hx
      rw [hvalue]
      by_cases hunit : fmt.unitExponent num den ≤ y.exponent
      · obtain ⟨k, hk⟩ := Binary.exists_magnitude_eq hunit
        have hunits : k ≤ fmt.units num den := le_units hden (hk ▸ h)
        rw [hk]
        exact mul_le_mul_of_nonneg_right (by exact_mod_cast hunits) (by positivity)
      · have hprec := hfmt.precision
        have hlarge := pow_le_of_minExponent_lt hfmt hnum hden (hy.least.trans_lt (not_le.1 hunit))
        have hsmall := hy.magnitude_lt_of_exponent_lt (not_le.1 hunit)
        rw [zpow_add₀ two_ne_zero,
          show (fmt.precision : Int) - 1 = (fmt.precision - 1 : Nat) by omega,
          zpow_natCast] at hlarge hsmall
        have hunits : 2 ^ (fmt.precision - 1) ≤ fmt.units num den := by
          apply le_units hden
          push_cast
          exact hlarge
        have hcast : (2 : ℚ) ^ (fmt.precision - 1) ≤ fmt.units num den := by exact_mod_cast hunits
        exact hsmall.le.trans (mul_le_mul_of_nonneg_right hcast (by positivity))

/-- Unless the ratio is so small that it lacks digits, rounding changes it by a factor that is as
close to one as the format has digits. -/
theorem round_near (hfmt : fmt.Sound) (hden : 0 < den)
    (h : (2 : ℚ) ^ (fmt.precision - 1 + fmt.minExponent) ≤ num / den) {x : Binary}
    (hx : fmt.round negative num den = some x) :
    |x.magnitude - num / den| ≤ num / den / 2 ^ fmt.precision := by
  have hnum : 0 < num := by
    rcases Nat.eq_zero_or_pos num with rfl | hnum
    · rw [Nat.cast_zero, zero_div] at h
      exact absurd h (not_le.2 (by positivity))
    · exact hnum
  obtain ⟨x', -, -, hvalue, -, hround⟩ := exists_round_eq hfmt hnum hden
  rw [hround] at hx
  split at hx
  · cases hx
  · obtain rfl := Option.some.inj hx
    have hfull : (2 : ℚ) ^ (fmt.precision - 1 + fmt.unitExponent num den) ≤ num / den := by
      rcases (le_max_left fmt.minExponent _).eq_or_lt with heq | hlt
      · have hunit : fmt.unitExponent num den = fmt.minExponent := heq.symm
        rw [hunit]
        exact h
      · exact pow_le_of_minExponent_lt hfmt hnum hden hlt
    rw [hvalue]
    refine (units_near fmt num hden).trans ?_
    rw [le_div_iff₀ (by positivity)]
    refine le_trans (le_of_eq ?_) hfull
    rw [zpow_add₀ two_ne_zero, zpow_sub_one₀ two_ne_zero, zpow_natCast]
    ring

end Format

-- ========================================================= operations

namespace Binary

variable {fmt : Format} {x y : Binary}

theorem aligned_value (hx : x.negative = false) {e : Int} (h : e ≤ x.exponent) :
    (x.aligned e : ℚ) * 2 ^ e = x.magnitude := by
  have haligned : x.aligned e = x.significand * 2 ^ (x.exponent - e).toNat := by
    unfold aligned
    rw [hx]
    rfl
  unfold magnitude
  rw [haligned, Int.cast_mul, Int.cast_pow, Int.cast_natCast, Int.cast_ofNat, ← zpow_natCast,
    Int.toNat_of_nonneg (by omega), mul_assoc, ← zpow_add₀ two_ne_zero, sub_add_cancel]

/-- Numbers without a sign are compared by their absolute values. -/
theorem cmp_eq_lt_iff (hx : x.negative = false) (hy : y.negative = false) :
    x.cmp y = .lt ↔ x.magnitude < y.magnitude := by
  unfold cmp
  rw [Int.compare_eq_lt, ← aligned_value hx (min_le_left x.exponent y.exponent),
    ← aligned_value hy (min_le_right x.exponent y.exponent), mul_lt_mul_iff_left₀ (by positivity),
    Int.cast_lt]

theorem product_value (x y : Binary) :
    ((scaled (x.significand * y.significand) 1 (x.exponent + y.exponent)).1 : ℚ)
        / (scaled (x.significand * y.significand) 1 (x.exponent + y.exponent)).2
      = x.magnitude * y.magnitude := by
  unfold magnitude
  rw [scaled_value, zpow_add₀ two_ne_zero]
  push_cast
  ring

/-- Adding zero to a number of the format does not change it. -/
theorem exists_add_zero (hfmt : fmt.Sound) (hx : x.Fits fmt) (hpos : x.negative = false) :
    ∃ w, x.add fmt ⟨false, 0, fmt.minExponent⟩ = some w ∧ w.magnitude = x.magnitude := by
  have hmin : min x.exponent fmt.minExponent = fmt.minExponent := min_eq_right hx.least
  have htotal : x.aligned fmt.minExponent
      + (⟨false, 0, fmt.minExponent⟩ : Binary).aligned fmt.minExponent
      = x.aligned fmt.minExponent := by simp [aligned]
  have hnonneg : 0 ≤ x.aligned fmt.minExponent := by
    simp [aligned, hpos]
  unfold add
  dsimp only
  rw [hmin, htotal]
  have hden := scaled_den_pos (x.aligned fmt.minExponent).natAbs Nat.one_pos fmt.minExponent
  have hvalue : ((scaled (x.aligned fmt.minExponent).natAbs 1 fmt.minExponent).1 : ℚ)
      / (scaled (x.aligned fmt.minExponent).natAbs 1 fmt.minExponent).2 = x.magnitude := by
    rw [scaled_value, ← aligned_value hpos hx.least, Nat.cast_one, div_one]
    congr 1
    rw [← Int.cast_natCast, Int.natAbs_of_nonneg hnonneg]
  obtain ⟨w, hw, hle⟩ := Format.round_le _ hfmt hden hx hvalue.le
  exact ⟨w, hw, le_antisymm hle (Format.le_round hfmt hden hx hvalue.ge hw)⟩

end Binary

end ControlLoop.Number
