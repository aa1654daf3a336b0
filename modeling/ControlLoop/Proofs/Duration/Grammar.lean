/-
Which texts are spans of time.

# The grammar

A text says a span if it is a numeral with a unit directly behind it, or
with none, between any white space (`Spells`). Numerals and units have
rules of their own, which do not know how a text is cut: a numeral is one
digit, or a numeral with one more digit behind it (`IsNumeral`), and a
unit is one of three letters or is left out (`IsUnit`).

# Why the text is cut in the right places

No digit and no unit is white space, so taking the white space off at
both ends leaves numeral and unit whole (`trimBlank_between`). No unit
begins with a digit, so the digits in front are the numeral
(`Spells.cuts`). The other way round nothing is lost by the cuts, so what
they find says where the parts are.

# Two ways to be too large

A numeral beyond the longest span is no number at all, and the text is
refused. A product beyond it counts as the longest span.
-/
import ControlLoop.Config
import Mathlib.Data.List.DropRight
import Mathlib.Data.List.TakeWhile

namespace ControlLoop

-- ========================================================= white space

namespace Text

/-- White space at both ends is all that is taken off. -/
theorem exists_trimBlank (cs : List Char) :
    ∃ front back, cs = front ++ trimBlank cs ++ back ∧ (∀ c ∈ front, isBlank c = true)
      ∧ ∀ c ∈ back, isBlank c = true := by
  refine ⟨cs.takeWhile isBlank, (cs.dropWhile isBlank).rtakeWhile isBlank, ?_,
    fun c => List.mem_takeWhile_imp, fun c => List.mem_rtakeWhile_imp⟩
  have hback : trimBlank cs ++ (cs.dropWhile isBlank).rtakeWhile isBlank
      = cs.dropWhile isBlank := List.rdropWhile_append_rtakeWhile
  rw [List.append_assoc, hback, List.takeWhile_append_dropWhile]

/-- What has no white space in it is left whole. -/
theorem trimBlank_between {front core back : List Char} (hfront : ∀ c ∈ front, isBlank c = true)
    (hcore : ∀ c ∈ core, isBlank c = false) (hback : ∀ c ∈ back, isBlank c = true)
    (hne : core ≠ []) : trimBlank (front ++ core ++ back) = core := by
  have hfirst : (core ++ back).dropWhile isBlank = core ++ back := by
    rw [List.dropWhile_eq_self_iff]
    intro _
    rw [List.getElem_append_left (List.length_pos_iff.2 hne), hcore _ (List.getElem_mem _)]
    simp
  have hlast : core.reverse.dropWhile isBlank = core.reverse := by
    rw [List.dropWhile_eq_self_iff]
    intro _
    rw [hcore _ (List.mem_reverse.1 (List.getElem_mem _))]
    simp
  unfold trimBlank
  rw [List.append_assoc, List.dropWhile_append_of_pos hfront, hfirst, List.reverse_append,
    List.dropWhile_append_of_pos (by simpa using hback), hlast, List.reverse_reverse]

end Text

namespace Duration

-- =========================================================== numerals

/-- Decimal digits that say a number; there may be zeros in front. -/
inductive IsNumeral : List Char → Nat → Prop
  | digit {d : Nat} (hd : d < 10) : IsNumeral [d.digitChar] d
  | snoc {cs : List Char} {n d : Nat} (h : IsNumeral cs n) (hd : d < 10) :
      IsNumeral (cs ++ [d.digitChar]) (10 * n + d)

theorem digitsValue_concat (cs : List Char) (c : Char) :
    digitsValue (cs ++ [c]) = 10 * digitsValue cs + (c.toNat - '0'.toNat) := by
  unfold digitsValue
  rw [List.foldl_append]
  rfl

theorem digitChar_value {d : Nat} (hd : d < 10) : d.digitChar.toNat - '0'.toNat = d := by
  have hall : ∀ d < 10, d.digitChar.toNat - '0'.toNat = d := by decide
  exact hall d hd

theorem exists_digitChar {c : Char} (h : c.isDigit = true) :
    ∃ d < 10, c = d.digitChar ∧ c.toNat - '0'.toNat = d := by
  have hrange : 48 ≤ c.toNat ∧ c.toNat ≤ 57 := Char.isDigit_iff_toNat.1 h
  have hall : ∀ n < 58, 48 ≤ n → Char.ofNat n = (n - 48).digitChar := by decide
  refine ⟨c.toNat - 48, by omega, ?_, rfl⟩
  rw [← hall c.toNat (by omega) hrange.1, Char.ofNat_toNat]

theorem IsNumeral.ne_nil {cs : List Char} {n : Nat} (h : IsNumeral cs n) : cs ≠ [] := by
  cases h <;> simp

/-- Numerals are read digit by digit. -/
theorem isNumeral_iff {cs : List Char} {n : Nat} :
    IsNumeral cs n ↔ cs ≠ [] ∧ (∀ c ∈ cs, c.isDigit = true) ∧ digitsValue cs = n := by
  constructor
  · intro h
    refine ⟨h.ne_nil, ?_⟩
    induction h with
    | digit hd =>
        refine ⟨?_, (digitsValue_concat [] _).trans ?_⟩
        · simp [Nat.isDigit_digitChar, hd]
        · rw [digitChar_value hd]
          exact Nat.zero_add _
    | snoc h hd ih =>
        obtain ⟨hdigits, hvalue⟩ := ih
        refine ⟨?_, ?_⟩
        · intro c hc
          rcases List.mem_append.1 hc with hc | hc
          · exact hdigits c hc
          · rw [List.mem_singleton.1 hc, Nat.isDigit_digitChar]
            exact decide_eq_true hd
        · rw [digitsValue_concat, hvalue, digitChar_value hd]
  · intro ⟨hne, hdigits, hvalue⟩
    subst hvalue
    induction cs using List.reverseRecOn with
    | nil => exact absurd rfl hne
    | append_singleton cs c ih =>
        obtain ⟨d, hd, rfl, hvalue⟩ := exists_digitChar (hdigits c (by simp))
        rw [digitsValue_concat, hvalue]
        by_cases hnil : cs = []
        · rw [hnil]
          show IsNumeral [d.digitChar] (10 * 0 + d)
          rw [Nat.mul_zero, Nat.zero_add]
          exact .digit hd
        · exact .snoc (ih hnil fun c hc => hdigits c (List.mem_append_left _ hc)) hd

/-- A number is written as a numeral for it. -/
theorem isNumeral_toString (n : Nat) : IsNumeral (toString n).toList n := by
  rw [Nat.toString_eq_ofList_toDigits, String.toList_ofList, isNumeral_iff]
  refine ⟨Nat.toDigits_ne_nil, ?_, Nat.ofDigitChars_ten_toDigits⟩
  intro c hc
  exact Nat.isDigit_of_mem_toDigits (by decide) (by decide) hc

-- ============================================================== units

/-- How a unit is written, and how many seconds it has. -/
inductive IsUnit : List Char → Nat → Prop
  | bare : IsUnit [] 1
  | seconds : IsUnit ['s'] 1
  | minutes : IsUnit ['m'] 60
  | hours : IsUnit ['h'] 3600

theorem unitSeconds?_eq_some_iff {unit : List Char} {k : Nat} :
    unitSeconds? unit = some k ↔ IsUnit unit k := by
  constructor
  · intro h
    unfold unitSeconds? at h
    split at h
    · next hbare =>
      obtain rfl := Option.some.inj h
      rcases hbare with rfl | rfl
      · exact .bare
      · exact .seconds
    · split at h
      · next hm =>
        obtain rfl := Option.some.inj h
        exact hm ▸ .minutes
      · split at h
        · next hh =>
          obtain rfl := Option.some.inj h
          exact hh ▸ .hours
        · cases h
  · intro h
    cases h <;> rfl

/-- A unit has no white space, and does not begin with a digit. -/
theorem IsUnit.letters {unit : List Char} {k : Nat} (h : IsUnit unit k) :
    unit.any Text.isBlank = false ∧ unit.takeWhile Char.isDigit = []
      ∧ unit.dropWhile Char.isDigit = unit := by
  cases h <;> exact ⟨rfl, rfl, rfl⟩

-- ============================================================= a span

/-- A text says so many units, each of so many seconds. -/
def Spells (text : String) (n perUnit : Nat) : Prop :=
  ∃ front numeral unit back, text.toList = front ++ (numeral ++ unit) ++ back
    ∧ (∀ c ∈ front, Text.isBlank c = true) ∧ (∀ c ∈ back, Text.isBlank c = true)
    ∧ IsNumeral numeral n ∧ IsUnit unit perUnit

theorem not_isBlank_of_isDigit {c : Char} (h : c.isDigit = true) : Text.isBlank c = false := by
  obtain ⟨d, hd, rfl, -⟩ := exists_digitChar h
  have hall : ∀ d < 10, Text.isBlank d.digitChar = false := by decide
  exact hall d hd

/-- The cuts that reading makes are those of the grammar. -/
theorem Spells.cuts {text : String} {n k : Nat} (h : Spells text n k) :
    ∃ numeral unit, Text.trimBlank text.toList = numeral ++ unit
      ∧ (numeral ++ unit).takeWhile Char.isDigit = numeral
      ∧ (numeral ++ unit).dropWhile Char.isDigit = unit
      ∧ IsNumeral numeral n ∧ IsUnit unit k := by
  obtain ⟨front, numeral, unit, back, htext, hfront, hback, hnumeral, hunit⟩ := h
  obtain ⟨hne, hdigits, -⟩ := isNumeral_iff.1 hnumeral
  obtain ⟨hsolid, htake, hdrop⟩ := hunit.letters
  refine ⟨numeral, unit, ?_, ?_, ?_, hnumeral, hunit⟩
  · rw [htext]
    apply Text.trimBlank_between hfront _ hback (by simp [hne])
    intro c hc
    rcases List.mem_append.1 hc with hc | hc
    · exact not_isBlank_of_isDigit (hdigits c hc)
    · exact Bool.not_eq_true _ ▸ List.any_eq_false.1 hsolid c hc
  · rw [List.takeWhile_append_of_pos hdigits, htake, List.append_nil]
  · rw [List.dropWhile_append_of_pos hdigits, hdrop]

/-- What the cuts find says a number, since they lose nothing. -/
theorem spells_of_cuts {text : String} {k : Nat}
    (hne : (Text.trimBlank text.toList).takeWhile Char.isDigit ≠ [])
    (hunit : IsUnit ((Text.trimBlank text.toList).dropWhile Char.isDigit) k) :
    Spells text (digitsValue ((Text.trimBlank text.toList).takeWhile Char.isDigit)) k := by
  obtain ⟨front, back, htext, hfront, hback⟩ := Text.exists_trimBlank text.toList
  refine ⟨front, (Text.trimBlank text.toList).takeWhile Char.isDigit, _, back, ?_, hfront, hback,
    ?_, hunit⟩
  · rw [List.takeWhile_append_dropWhile]
    exact htext
  · rw [isNumeral_iff]
    exact ⟨hne, fun c => List.mem_takeWhile_imp, rfl⟩

/-- What is read says a number that is not too large, and the product is cut at the longest
span. -/
theorem parse_eq_ok_iff {text : String} {d : Duration} :
    parse text = .ok d
      ↔ ∃ n k, Spells text n k ∧ n ≤ maxSeconds ∧ d = ofSeconds (Nat.min (n * k) maxSeconds) := by
  constructor
  · intro h
    unfold parse at h
    simp only at h
    split at h
    · cases h
    · next hnumber =>
      push Not at hnumber
      split at h
      · cases h
      · next k hunit =>
        exact ⟨_, k, spells_of_cuts hnumber.1 (unitSeconds?_eq_some_iff.1 hunit), hnumber.2,
          (Except.ok.inj h).symm⟩
  · intro ⟨n, k, hspells, hle, hd⟩
    obtain ⟨numeral, unit, htrim, htake, hdrop, hnumeral, hunit⟩ := hspells.cuts
    obtain ⟨hne, -, hvalue⟩ := isNumeral_iff.1 hnumeral
    unfold parse
    simp only [htrim, htake, hdrop, hvalue, unitSeconds?_eq_some_iff.2 hunit, hne, false_or]
    rw [if_neg (Nat.not_lt.2 hle), hd]

/-- A number of seconds is written with or without the unit. -/
theorem spells_toString (n : Nat) (unit : String) (hunit : IsUnit unit.toList 1) :
    Spells (toString n ++ unit) n 1 := by
  refine ⟨[], _, _, [], ?_, by simp, by simp, isNumeral_toString n, hunit⟩
  rw [String.toList_append, List.nil_append, List.append_nil]

theorem parse_of_spells_seconds {text : String} {n : Nat} (h : Spells text n 1)
    (hle : n ≤ maxSeconds) : parse text = .ok (ofSeconds n) := by
  rw [parse_eq_ok_iff]
  refine ⟨n, 1, h, hle, ?_⟩
  rw [Nat.mul_one]
  exact congrArg ofSeconds (Nat.min_eq_left hle).symm

/-- A text is read as a span exactly if it says a number of units that is at most the longest span
in seconds; it is as many whole seconds, or the longest span if there are more. So every number of
seconds up to that is read back from how it is written, with or without the unit. -/
theorem spans_read_by_grammar :
    (∀ text d, parse text = .ok d
        ↔ ∃ n k, Spells text n k ∧ n ≤ maxSeconds
          ∧ d = ofSeconds (Nat.min (n * k) maxSeconds))
      ∧ ∀ n ≤ maxSeconds, parse (toString n) = .ok (ofSeconds n)
        ∧ parse (toString n ++ "s") = .ok (ofSeconds n) := by
  refine ⟨fun text d => parse_eq_ok_iff, ?_⟩
  intro n hle
  refine ⟨?_, parse_of_spells_seconds (spells_toString n "s" .seconds) hle⟩
  have hbare : Spells (toString n ++ "") n 1 := spells_toString n "" .bare
  rw [String.append_empty] at hbare
  exact parse_of_spells_seconds hbare hle

/-- So many hours that they count as the longest span, with zeros in front and an ideographic space
before them; and the most seconds that are read as they are written. -/
theorem spans_read_of_many_hours :
    parse "\u3000\n005124095576030432h " = .ok (ofSeconds maxSeconds)
      ∧ parse (toString maxSeconds ++ "s") = .ok (ofSeconds maxSeconds) := by
  obtain ⟨hgrammar, hseconds⟩ := spans_read_by_grammar
  refine ⟨(hgrammar _ _).2 ⟨5124095576030432, 3600, ?_, by decide, rfl⟩,
    (hseconds maxSeconds (Nat.le_refl _)).2⟩
  refine ⟨"\u3000\n".toList, "005124095576030432".toList, ['h'], [' '], rfl,
    List.all_eq_true.1 rfl, List.all_eq_true.1 rfl, ?_, .hours⟩
  rw [isNumeral_iff]
  exact ⟨by simp, List.all_eq_true.1 (by decide), by decide⟩

end Duration

end ControlLoop
