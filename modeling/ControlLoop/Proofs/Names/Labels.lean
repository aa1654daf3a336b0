/-
Labels between dots.

# Where a dot may stand

That all labels of a name begin and end with a letter or digit shows in
the neighbours of each dot: both are letters or digits. A text is `Neat`
if this is so, if it begins with a letter or digit, and if it does not
end in a dot; dashes may stand at its end. A neat text that ends with a
letter or digit has sound labels, and no other text has
(`forall_isLabel_splitOn`). Unlike the labels, neighbours are easy to
keep an eye on when a text is cut or goes on.

# Cleaning

Cleaning drops dashes next to dots, and empty labels. But for dashes at
the beginning, which no dot is next to, it leaves neat text: behind an
`x` what it leaves is neat (`neat_cons_cleaned`). It only ever drops
characters (`cleaned_sublist`), and none of neat text
(`cleaned_of_neat`).
-/
import ControlLoop.Names
import Mathlib.Data.List.Chain
import Mathlib.Data.List.DropRight

namespace ControlLoop.Names

/-- A letter or digit of a name. -/
def isAlnum (c : Char) : Bool := isLowerLetter c || isDigitChar c

theorem ne_of_isAlnum {c d : Char} (hc : isAlnum c = true) (hd : isAlnum d = false) : c ≠ d := by
  intro heq
  rw [heq, hd] at hc
  cases hc

/-- A label that begins and ends with a letter or digit, and so is not empty. -/
structure IsLabel (label : List Char) : Prop where
  first : label.head?.any isAlnum = true
  last : label.getLast?.any isAlnum = true

-- ========================================================= neat texts

/-- Neighbours of which neither is a dot, unless the other one is a letter or digit. -/
def Beside (a b : Char) : Prop :=
  (a = '.' → isAlnum b = true) ∧ (b = '.' → isAlnum a = true)

/-- A text that begins with a letter or digit, and whose dots stand between letters or digits. -/
structure Neat (cs : List Char) : Prop where
  first : cs.head?.any isAlnum = true
  beside : cs.IsChain Beside
  last : cs.getLast? ≠ some '.'

instance (a b : Char) : Decidable (Beside a b) :=
  inferInstanceAs (Decidable ((a = '.' → isAlnum b = true) ∧ (b = '.' → isAlnum a = true)))

instance (cs : List Char) : Decidable (Neat cs) :=
  decidable_of_iff (cs.head?.any isAlnum = true ∧ cs.IsChain Beside ∧ cs.getLast? ≠ some '.')
    ⟨fun ⟨hfirst, hbeside, hlast⟩ => ⟨hfirst, hbeside, hlast⟩,
      fun ⟨hfirst, hbeside, hlast⟩ => ⟨hfirst, hbeside, hlast⟩⟩

theorem isChain_beside_of_notMem {cs : List Char} (h : '.' ∉ cs) : cs.IsChain Beside := by
  induction cs with
  | nil => exact .nil
  | cons a cs ih =>
      rw [List.mem_cons, not_or] at h
      refine List.isChain_cons.2 ⟨fun b hb => ⟨fun ha => absurd ha.symm h.1, fun hb' => ?_⟩, ih h.2⟩
      rw [hb'] at hb
      exact absurd (List.mem_of_mem_head? hb) h.2

theorem neat_iff_of_notMem {cs : List Char} (h : '.' ∉ cs) :
    Neat cs ↔ cs.head?.any isAlnum = true :=
  ⟨Neat.first, fun hfirst => ⟨hfirst, isChain_beside_of_notMem h,
    fun hlast => h (List.mem_of_getLast? hlast)⟩⟩

theorem isChain_beside_append_dot {label cs : List Char} (h : '.' ∉ label) :
    (label ++ '.' :: cs).IsChain Beside
      ↔ (∀ a ∈ label.getLast?, isAlnum a = true) ∧ (∀ b ∈ cs.head?, isAlnum b = true)
        ∧ cs.IsChain Beside := by
  rw [List.isChain_append, List.isChain_cons]
  constructor
  · rintro ⟨-, ⟨hnext, hcs⟩, hseam⟩
    exact ⟨fun a ha => (hseam a ha '.' rfl).2 rfl, fun b hb => (hnext b hb).1 rfl, hcs⟩
  · rintro ⟨hlast, hfirst, hcs⟩
    refine ⟨isChain_beside_of_notMem h,
      ⟨fun b hb => ⟨fun _ => hfirst b hb, fun hdot => ?_⟩, hcs⟩,
      fun a ha b hb => ⟨fun hdot => ?_, fun _ => hlast a ha⟩⟩
    · rw [← hdot]
      exact hfirst b hb
    · exact absurd (hdot ▸ List.mem_of_getLast? ha) h

theorem getLast?_append_dot (label : List Char) {cs : List Char} (h : cs ≠ []) :
    (label ++ '.' :: cs).getLast? = cs.getLast? := by
  obtain ⟨b, cs, rfl⟩ := List.exists_cons_of_ne_nil h
  rw [List.getLast?_append_of_ne_nil _ (List.cons_ne_nil _ _), List.getLast?_cons_cons]

theorem Neat.ne_nil {cs : List Char} (h : Neat cs) : cs ≠ [] := by
  rintro rfl
  cases h.first

/-- A letter or digit in front keeps a text neat. -/
theorem Neat.cons {c : Char} {cs : List Char} (hc : isAlnum c = true) (h : Neat cs) :
    Neat (c :: cs) := by
  obtain ⟨b, cs, rfl⟩ := List.exists_cons_of_ne_nil h.ne_nil
  refine ⟨hc, List.isChain_cons.2 ⟨fun d hd => ⟨fun hdot => ?_, fun _ => hc⟩, h.beside⟩, ?_⟩
  · exact absurd hdot (ne_of_isAlnum hc rfl)
  · rw [List.getLast?_cons_cons]
    exact h.last

/-- A neat text is neat from its second character on, if that is a letter or digit too. -/
theorem Neat.tail {c : Char} {cs : List Char} (h : Neat (c :: cs))
    (hfirst : cs.head?.any isAlnum = true) : Neat cs := by
  cases cs with
  | nil => cases hfirst
  | cons b cs =>
      refine ⟨hfirst, (List.isChain_cons.1 h.beside).2, fun hdot => h.last ?_⟩
      rw [List.getLast?_cons_cons, hdot]

/-- Before a dot of a neat text stands a label, and after it neat text again. -/
theorem neat_append_dot {label cs : List Char} (h : '.' ∉ label) :
    Neat (label ++ '.' :: cs) ↔ IsLabel label ∧ Neat cs := by
  constructor
  · rintro ⟨hfirst, hbeside, hlast⟩
    obtain ⟨hlabel, hnext, hcs⟩ := (isChain_beside_append_dot h).1 hbeside
    cases label with
    | nil => exact absurd hfirst (ne_of_isAlnum · rfl rfl)
    | cons a label =>
        cases cs with
        | nil => exact absurd List.getLast?_concat hlast
        | cons b cs =>
            rw [getLast?_append_dot _ (List.cons_ne_nil _ _)] at hlast
            refine ⟨⟨hfirst, ?_⟩, hnext b rfl, hcs, hlast⟩
            rw [List.getLast?_cons]
            exact hlabel _ List.getLast?_cons
  · rintro ⟨⟨hfirst, hlast⟩, hneat⟩
    cases label with
    | nil => cases hfirst
    | cons a label =>
        refine ⟨hfirst, (isChain_beside_append_dot h).2 ⟨fun c hc => ?_, fun c hc => ?_,
          hneat.beside⟩, fun hdot => hneat.last ?_⟩
        · rw [hc] at hlast
          exact hlast
        · have hnext := hneat.first
          rw [hc] at hnext
          exact hnext
        · rw [← hdot, getLast?_append_dot _ hneat.ne_nil]

-- ============================================================= labels

theorem joinDots_cons {label : List Char} {ls : List (List Char)} (h : ls ≠ []) :
    joinDots (label :: ls) = label ++ '.' :: joinDots ls := by
  rw [joinDots, List.intercalate_cons_of_ne_nil h, List.append_assoc, List.singleton_append]
  rfl

theorem joinDots_cons_cons (c : Char) (label : List Char) (ls : List (List Char)) :
    joinDots ((c :: label) :: ls) = c :: joinDots (label :: ls) := by
  cases ls with
  | nil => rfl
  | cons next ls => rfl

theorem joinDots_singleton (label : List Char) : joinDots [label] = label :=
  List.intercalate_singleton

theorem notMem_of_mem_splitOn {cs label : List Char} (h : label ∈ cs.splitOn '.') :
    '.' ∉ label := by
  induction cs generalizing label with
  | nil =>
      obtain rfl := List.mem_singleton.1 h
      exact List.not_mem_nil
  | cons c cs ih =>
      rw [List.splitOn_cons_eq_if_modifyHead] at h
      split at h
      · rcases List.mem_cons.1 h with rfl | h
        · exact List.not_mem_nil
        · exact ih h
      · next hc =>
        rcases hsplit : cs.splitOn '.' with _ | ⟨head, rest⟩
        · exact absurd hsplit (List.splitOn_ne_nil _ _)
        · rw [hsplit] at h ih
          rcases List.mem_cons.1 h with rfl | h
          · rw [List.mem_cons, not_or]
            exact ⟨fun heq => hc (beq_iff_eq.2 heq.symm), ih List.mem_cons_self⟩
          · exact ih (List.mem_cons_of_mem _ h)

/-- Labels joined by dots are all sound exactly if what they are joined to is neat and ends with a
letter or digit. -/
theorem forall_isLabel_iff {ls : List (List Char)} (hne : ls ≠ [])
    (hdots : ∀ label ∈ ls, '.' ∉ label) :
    (∀ label ∈ ls, IsLabel label)
      ↔ Neat (joinDots ls) ∧ (joinDots ls).getLast?.any isAlnum = true := by
  induction ls with
  | nil => exact absurd rfl hne
  | cons label ls ih =>
      have hhere : '.' ∉ label := hdots label List.mem_cons_self
      rw [List.forall_mem_cons]
      cases ls with
      | nil =>
          rw [joinDots_singleton, neat_iff_of_notMem hhere]
          exact ⟨fun h => ⟨h.1.first, h.1.last⟩, fun h => ⟨⟨h.1, h.2⟩, nofun⟩⟩
      | cons next ls =>
          have hrest := ih (List.cons_ne_nil _ _) fun l hl => hdots l (List.mem_cons_of_mem _ hl)
          rw [joinDots_cons (List.cons_ne_nil _ _), neat_append_dot hhere, hrest, and_assoc]
          refine and_congr_right fun _ => and_congr_right fun hneat => ?_
          rw [getLast?_append_dot _ hneat.ne_nil]

/-- All labels of a text are sound exactly if it is neat and ends with a letter or digit. -/
theorem forall_isLabel_splitOn {cs : List Char} :
    (∀ label ∈ cs.splitOn '.', IsLabel label)
      ↔ Neat cs ∧ cs.getLast?.any isAlnum = true := by
  have h := forall_isLabel_iff (List.splitOn_ne_nil '.' cs) fun _ => notMem_of_mem_splitOn
  rwa [joinDots, List.intercalate_splitOn] at h

theorem splitDots_eq_splitOn (cs : List Char) : splitDots cs = cs.splitOn '.' := by
  fun_induction splitDots cs with
  | case1 => rfl
  | case2 cs ih =>
      rw [ih, List.splitOn_cons_eq_if_modifyHead]
      exact (if_pos rfl).symm
  | case3 c cs hc hnil ih =>
      rw [ih] at hnil
      exact absurd hnil (List.splitOn_ne_nil _ _)
  | case4 c cs hc label ls hcons ih =>
      rw [ih] at hcons
      rw [List.splitOn_cons_eq_if_modifyHead, if_neg fun h => hc (beq_iff_eq.1 h), hcons]
      rfl

theorem joinDots_splitDots (cs : List Char) : joinDots (splitDots cs) = cs := by
  rw [splitDots_eq_splitOn, joinDots, List.intercalate_splitOn]

-- =========================================================== cleaning

/-- Characters of a label: letters, digits and dashes. -/
def IsPlain (label : List Char) : Prop := ∀ c ∈ label, isAlnum c = true ∨ c = '-'

theorem IsPlain.notMem {label : List Char} (h : IsPlain label) : '.' ∉ label := by
  intro hdot
  rcases h _ hdot with halnum | heq
  · cases halnum
  · cases heq

theorem IsPlain.sublist {label label' : List Char} (h : IsPlain label)
    (hsub : label'.Sublist label) : IsPlain label' := fun c hc => h c (hsub.subset hc)

theorem trimEnd_front (p : Char → Bool) (cs : List Char) : trimEnd p cs <+: cs :=
  List.rdropWhile_prefix p cs

/-- Without the dashes in front a label begins well, if anything is left of it. -/
theorem IsPlain.first_dropWhile {label : List Char} (h : IsPlain label)
    (hne : label.dropWhile isDash ≠ []) : (label.dropWhile isDash).head?.any isAlnum = true := by
  obtain ⟨c, rest, hc⟩ := List.exists_cons_of_ne_nil hne
  have hnot := List.head?_dropWhile_not isDash label
  rw [hc] at hnot ⊢
  have hmem : c ∈ label := (List.dropWhile_sublist isDash).subset (hc ▸ List.mem_cons_self)
  exact (h c hmem).resolve_right fun heq => by
    rw [heq] at hnot
    cases hnot

/-- Without the dashes at its end a label ends well, if anything is left of it. -/
theorem IsPlain.last_trimEnd {label : List Char} (h : IsPlain label)
    (hne : trimEnd isDash label ≠ []) : (trimEnd isDash label).getLast?.any isAlnum = true := by
  have hnot := List.rdropWhile_last_not isDash label hne
  have hmem := (trimEnd_front isDash label).subset (List.getLast_mem hne)
  rw [List.getLast?_eq_some_getLast hne]
  exact (h _ hmem).resolve_right fun heq => hnot (decide_eq_true heq)

/-- A label in front of what is empty or neat makes neat text. -/
theorem neat_joinDots_cons {label : List Char} {ls : List (List Char)} (hplain : IsPlain label)
    (hlabel : IsLabel label) (h : ls = [] ∨ Neat (joinDots ls)) :
    Neat (joinDots (label :: ls)) := by
  by_cases hne : ls = []
  · rw [hne, joinDots_singleton]
    exact (neat_iff_of_notMem hplain.notMem).2 hlabel.first
  · rw [joinDots_cons hne]
    exact (neat_append_dot hplain.notMem).2 ⟨hlabel, h.resolve_left hne⟩

/-- The labels that cleaning keeps: trimmed, and without those that are empty then. -/
def kept (first : Bool) (ls : List (List Char)) : List (List Char) :=
  (trimAtDots first ls).filter fun label => !label.isEmpty

theorem filter_nonempty_cons (label : List Char) (ls : List (List Char)) :
    (label :: ls).filter (fun label => !label.isEmpty)
      = if label = [] then ls.filter fun label => !label.isEmpty
        else label :: ls.filter fun label => !label.isEmpty := by
  cases label with
  | nil => rfl
  | cons c label => rfl

/-- A label without the dashes in front, unless it is the first one. -/
def trimFront (first : Bool) (label : List Char) : List Char :=
  if first then label else label.dropWhile isDash

theorem trimFront_sublist (first : Bool) (label : List Char) :
    (trimFront first label).Sublist label := by
  cases first with
  | true => exact List.Sublist.refl label
  | false => exact List.dropWhile_sublist isDash

theorem kept_singleton (first : Bool) (label : List Char) :
    kept first [label] = if trimFront first label = [] then [] else [trimFront first label] :=
  filter_nonempty_cons _ []

theorem kept_cons (first : Bool) (label next : List Char) (ls : List (List Char)) :
    kept first (label :: next :: ls)
      = if trimEnd isDash (trimFront first label) = [] then kept false (next :: ls)
        else trimEnd isDash (trimFront first label) :: kept false (next :: ls) :=
  filter_nonempty_cons _ (trimAtDots false (next :: ls))

theorem head?_of_front {cs cs' : List Char} (h : cs' <+: cs) (hne : cs' ≠ []) :
    cs'.head? = cs.head? := by
  obtain ⟨rest, rfl⟩ := h
  obtain ⟨c, cs', rfl⟩ := List.exists_cons_of_ne_nil hne
  rfl

/-- After a dot, what is kept of labels is neat, if anything is. -/
theorem neat_kept_false {ls : List (List Char)} (hplain : ∀ label ∈ ls, IsPlain label) :
    kept false ls = [] ∨ Neat (joinDots (kept false ls)) := by
  induction ls with
  | nil => exact Or.inl rfl
  | cons label ls ih =>
      have hlabel := hplain label List.mem_cons_self
      have hfront := hlabel.sublist (trimFront_sublist false label)
      cases ls with
      | nil =>
          rw [kept_singleton]
          by_cases hnil : trimFront false label = []
          · exact Or.inl (if_pos hnil)
          · rw [if_neg hnil, joinDots_singleton]
            exact Or.inr ((neat_iff_of_notMem hfront.notMem).2 (hlabel.first_dropWhile hnil))
      | cons next ls =>
          have hrest := ih fun l hl => hplain l (List.mem_cons_of_mem _ hl)
          rw [kept_cons]
          by_cases hnil : trimEnd isDash (trimFront false label) = []
          · rw [if_pos hnil]
            exact hrest
          · have hcut := trimEnd_front isDash (trimFront false label)
            have hfirst := hlabel.first_dropWhile fun h => hnil (congrArg (trimEnd isDash) h)
            rw [if_neg hnil]
            refine Or.inr (neat_joinDots_cons (hfront.sublist hcut.sublist) ⟨?_, ?_⟩ hrest)
            · rw [head?_of_front hcut hnil]
              exact hfirst
            · exact hfront.last_trimEnd hnil

/-- From the beginning, what is kept of labels is neat behind an `x`. -/
theorem neat_kept_true {ls : List (List Char)} (hplain : ∀ label ∈ ls, IsPlain label) :
    Neat ('x' :: joinDots (kept true ls)) := by
  have hx : Neat ['x'] := (neat_iff_of_notMem (by decide)).2 rfl
  have hmarked : ∀ {label}, IsPlain label → IsPlain ('x' :: label) := fun h =>
    List.forall_mem_cons.2 ⟨Or.inl rfl, h⟩
  cases ls with
  | nil => exact hx
  | cons label ls =>
      have hlabel := hplain label List.mem_cons_self
      cases ls with
      | nil =>
          rw [kept_singleton]
          by_cases hnil : trimFront true label = []
          · rw [if_pos hnil]
            exact hx
          · rw [if_neg hnil, joinDots_singleton]
            exact (neat_iff_of_notMem (hmarked hlabel).notMem).2 rfl
      | cons next ls =>
          have hrest := neat_kept_false fun l hl => hplain l (List.mem_cons_of_mem _ hl)
          rw [kept_cons]
          by_cases hnil : trimEnd isDash (trimFront true label) = []
          · rw [if_pos hnil]
            rcases hrest with hnone | hneat
            · rw [hnone]
              exact hx
            · exact hneat.cons rfl
          · rw [if_neg hnil, ← joinDots_cons_cons]
            have htrimmed := hlabel.sublist (trimEnd_front isDash label).sublist
            refine neat_joinDots_cons (hmarked htrimmed) ⟨rfl, ?_⟩ hrest
            rw [List.getLast?_cons_of_ne_nil hnil]
            exact hlabel.last_trimEnd hnil

theorem mem_joinDots {label : List Char} {ls : List (List Char)} (h : label ∈ ls) {c : Char}
    (hc : c ∈ label) : c ∈ joinDots ls := by
  induction ls with
  | nil => cases h
  | cons head ls ih =>
      by_cases hne : ls = []
      · subst hne
        obtain rfl := List.mem_singleton.1 h
        rw [joinDots_singleton]
        exact hc
      · rw [joinDots_cons hne, List.mem_append]
        rcases List.mem_cons.1 h with rfl | h
        · exact Or.inl hc
        · exact Or.inr (List.mem_cons_of_mem _ (ih h))

theorem notMem_of_mem_splitDots {cs label : List Char} (h : label ∈ splitDots cs) :
    '.' ∉ label := by
  rw [splitDots_eq_splitOn] at h
  exact notMem_of_mem_splitOn h

/-- Cleaned text is neat behind an `x`. -/
theorem neat_cons_cleaned {cs : List Char} (h : ∀ c ∈ cs, isAlnum c = true ∨ c = '-' ∨ c = '.') :
    Neat ('x' :: cleaned cs) := by
  refine neat_kept_true fun label hlabel c hc => ?_
  have hmem := mem_joinDots hlabel hc
  rw [joinDots_splitDots] at hmem
  rcases h c hmem with halnum | hdash | rfl
  · exact Or.inl halnum
  · exact Or.inr hdash
  · exact absurd hc (notMem_of_mem_splitDots hlabel)

theorem joinDots_kept_sublist (first : Bool) (ls : List (List Char)) :
    (joinDots (kept first ls)).Sublist (joinDots ls) := by
  induction ls generalizing first with
  | nil => exact List.nil_sublist _
  | cons label ls ih =>
      have hfront := trimFront_sublist first label
      cases ls with
      | nil =>
          rw [kept_singleton, joinDots_singleton]
          split
          · exact List.nil_sublist _
          · rw [joinDots_singleton]
            exact hfront
      | cons next ls =>
          have hlabel := (trimEnd_front isDash _).sublist.trans hfront
          have hrest := (ih false).trans (List.sublist_cons_self '.' _)
          rw [kept_cons, joinDots_cons (List.cons_ne_nil next ls)]
          split
          · exact hrest.trans (List.sublist_append_right _ _)
          · by_cases hnone : kept false (next :: ls) = []
            · rw [hnone, joinDots_singleton]
              exact hlabel.trans (List.sublist_append_left _ _)
            · rw [joinDots_cons hnone]
              exact hlabel.append ((ih false).cons_cons '.')

/-- Cleaning only drops characters. -/
theorem cleaned_sublist (cs : List Char) : (cleaned cs).Sublist cs := by
  have h := joinDots_kept_sublist true (splitDots cs)
  rwa [joinDots_splitDots] at h

theorem trimFront_of_first (first : Bool) {label : List Char}
    (h : label.head?.any isAlnum = true) : trimFront first label = label := by
  cases first with
  | true => rfl
  | false =>
      obtain ⟨c, label, rfl⟩ : ∃ c rest, label = c :: rest := by
        cases label with
        | nil => cases h
        | cons c label => exact ⟨c, label, rfl⟩
      exact List.dropWhile_cons_of_neg fun hdash =>
        absurd (of_decide_eq_true hdash) (ne_of_isAlnum h rfl)

theorem trimEnd_isDash_of_last {label : List Char} (h : label.getLast?.any isAlnum = true) :
    trimEnd isDash label = label := by
  refine List.rdropWhile_eq_self_iff.2 fun hne hdash => ?_
  rw [List.getLast?_eq_some_getLast hne] at h
  exact ne_of_isAlnum h rfl (of_decide_eq_true hdash)

/-- Of the labels of neat text all are kept as they are. -/
theorem kept_of_neat {first : Bool} {ls : List (List Char)} (hdots : ∀ label ∈ ls, '.' ∉ label)
    (h : Neat (joinDots ls)) : kept first ls = ls := by
  induction ls generalizing first with
  | nil => rfl
  | cons label ls ih =>
      cases ls with
      | nil =>
          rw [joinDots_singleton] at h
          rw [kept_singleton, trimFront_of_first first h.first, if_neg h.ne_nil]
      | cons next ls =>
          rw [joinDots_cons (List.cons_ne_nil next ls),
            neat_append_dot (hdots label List.mem_cons_self)] at h
          obtain ⟨hlabel, hrest⟩ := h
          have hne : label ≠ [] := by
            rintro rfl
            cases hlabel.first
          rw [kept_cons, trimFront_of_first first hlabel.first, trimEnd_isDash_of_last hlabel.last,
            if_neg hne, ih (fun l hl => hdots l (List.mem_cons_of_mem _ hl)) hrest]

/-- Cleaning leaves neat text as it is. -/
theorem cleaned_of_neat {cs : List Char} (h : Neat cs) : cleaned cs = cs := by
  have hkept : kept true (splitDots cs) = splitDots cs :=
    kept_of_neat (fun _ => notMem_of_mem_splitDots) (by rwa [joinDots_splitDots])
  show joinDots (kept true (splitDots cs)) = cs
  rw [hkept, joinDots_splitDots]

end ControlLoop.Names
