/-
Generated names keep to their constraints.

# What is said

A name is valid (`IsValid`) if it is neither empty nor too long, begins
as it has to, holds allowed characters only, and if every label of it
begins and ends with a letter or digit. Names made within constraints
are valid whatever the parts are, if only the constraints leave room for
the digest (`isValid_joinWithin`). Parts whose plain name is valid are
left as they are, and no others (`joinWithin_eq_join`).

# Why it holds

The readable portion of a name is a text that a name can go on from
(`IsStem`): neat, well begun and in allowed characters. So is what a cut
leaves of it, without the dashes and dots at its end, and so is either
with dashes behind it. What then ends in a digest is valid. The other
way round, a plain name that is valid has such a text before its digest,
and there nothing is left to be folded, cleaned or put in front.
-/
import ControlLoop.Proofs.Digest.Digits
import ControlLoop.Proofs.Names.Labels

namespace ControlLoop.Names

-- ======================================================= valid names

/-- What stands between the dots of a name; all of it, where dots are not allowed. -/
def labels (constraints : Constraints) (cs : List Char) : List (List Char) :=
  if constraints.allowDots then cs.splitOn '.' else [cs]

/-- Whether a character may stand in a name. -/
def IsAllowed (constraints : Constraints) (c : Char) : Prop :=
  isAlnum c = true ∨ c = '-' ∨ c = '.' ∧ constraints.allowDots = true

/-- A name that keeps to constraints. -/
structure IsValid (constraints : Constraints) (name : String) : Prop where
  nonempty : name ≠ ""
  size : name.utf8ByteSize ≤ constraints.maxLength
  start : constraints.letterStart = true → name.toList.head?.any isLowerLetter = true
  allowed : ∀ c ∈ name.toList, IsAllowed constraints c
  isLabel : ∀ label ∈ labels constraints name.toList, IsLabel label

instance (label : List Char) : Decidable (IsLabel label) :=
  decidable_of_iff (label.head?.any isAlnum = true ∧ label.getLast?.any isAlnum = true)
    ⟨fun h => ⟨h.1, h.2⟩, fun h => ⟨h.first, h.last⟩⟩

instance (constraints : Constraints) (c : Char) : Decidable (IsAllowed constraints c) :=
  inferInstanceAs (Decidable (_ ∨ _ ∨ _ ∧ _))

-- by the characters of the text, not by all that there are
instance (constraints : Constraints) (cs : List Char) :
    Decidable (∀ c ∈ cs, IsAllowed constraints c) := List.decidableBAll (IsAllowed constraints) cs

instance (constraints : Constraints) (name : String) : Decidable (IsValid constraints name) :=
  decidable_of_iff (name ≠ "" ∧ name.utf8ByteSize ≤ constraints.maxLength
      ∧ (constraints.letterStart = true → name.toList.head?.any isLowerLetter = true)
      ∧ (∀ c ∈ name.toList, IsAllowed constraints c)
      ∧ ∀ label ∈ labels constraints name.toList, IsLabel label)
    ⟨fun ⟨hne, hsize, hstart, hallowed, hlabels⟩ => ⟨hne, hsize, hstart, hallowed, hlabels⟩,
      fun ⟨hne, hsize, hstart, hallowed, hlabels⟩ => ⟨hne, hsize, hstart, hallowed, hlabels⟩⟩

-- ======================================================== characters

theorem isAlnum_of_isLowerLetter {c : Char} (h : isLowerLetter c = true) : isAlnum c = true := by
  rw [isAlnum, h, Bool.true_or]

theorem val_le_of_isAlnum {c : Char} (h : isAlnum c = true) : c.val ≤ 127 := by
  simp only [isAlnum, isLowerLetter, isDigitChar, Bool.or_eq_true, Bool.and_eq_true,
    decide_eq_true_eq] at h
  rcases h with ⟨-, h⟩ | ⟨-, h⟩
  · exact UInt32.le_trans h (by decide)
  · exact UInt32.le_trans h (by decide)

theorem IsAllowed.utf8Size {constraints : Constraints} {c : Char} (h : IsAllowed constraints c) :
    c.utf8Size = 1 := by
  refine Char.utf8Size_eq_one_iff.2 ?_
  rcases h with h | rfl | ⟨rfl, -⟩
  · exact val_le_of_isAlnum h
  · decide
  · decide

/-- Letters and digits are as they are in lower case. -/
theorem toLower_of_isAlnum {c : Char} (h : isAlnum c = true) : c.toLower = c := by
  unfold Char.toLower
  split
  · next hupper =>
    simp only [isAlnum, isLowerLetter, isDigitChar, Bool.or_eq_true, Bool.and_eq_true,
      decide_eq_true_eq] at h
    rcases h with ⟨h, -⟩ | ⟨-, h⟩
    · exact absurd (UInt32.le_trans h hupper.2) (by decide)
    · exact absurd (UInt32.le_trans hupper.1 h) (by decide)
  · rfl

theorem isAllowed_allowedChar (constraints : Constraints) (c : Char) :
    IsAllowed constraints (allowedChar constraints c) := by
  unfold allowedChar
  by_cases hplain : (isLowerLetter c.toLower || isDigitChar c.toLower || c.toLower = '-') = true
  · simp only [if_pos hplain]
    rw [Bool.or_eq_true, decide_eq_true_eq] at hplain
    exact hplain.imp id Or.inl
  · simp only [if_neg hplain]
    split
    · next hdot =>
      rw [Bool.and_eq_true, decide_eq_true_eq] at hdot
      exact Or.inr (Or.inr hdot)
    · exact Or.inr (Or.inl rfl)

theorem allowedChar_of_isAllowed {constraints : Constraints} {c : Char}
    (h : IsAllowed constraints c) : allowedChar constraints c = c := by
  rcases h with h | rfl | ⟨rfl, hdots⟩
  · simp only [allowedChar, toLower_of_isAlnum h]
    rw [← isAlnum, h]
    exact if_pos (Bool.true_or _)
  · rfl
  · rw [allowedChar, hdots]
    rfl

-- ============================================== the readable portion

theorem startsWell_iff {constraints : Constraints} {cs : List Char} :
    startsWell constraints cs = true ↔ cs.head?.any isAlnum = true
      ∧ (constraints.letterStart = true → cs.head?.any isLowerLetter = true) := by
  cases cs with
  | nil => exact ⟨nofun, fun h => absurd h.1 Bool.false_ne_true⟩
  | cons c cs =>
      rw [startsWell]
      cases hletter : constraints.letterStart with
      | true => exact ⟨fun h => ⟨isAlnum_of_isLowerLetter h, fun _ => h⟩, fun h => h.2 rfl⟩
      | false => exact ⟨fun h => ⟨h, nofun⟩, fun h => h.1⟩

/-- A text that a name can go on from: neat, with a beginning and characters as they have to be. -/
structure IsStem (constraints : Constraints) (cs : List Char) : Prop where
  neat : Neat cs
  start : constraints.letterStart = true → cs.head?.any isLowerLetter = true
  allowed : ∀ c ∈ cs, IsAllowed constraints c

instance (constraints : Constraints) (cs : List Char) : Decidable (IsStem constraints cs) :=
  decidable_of_iff (Neat cs ∧ (constraints.letterStart = true → cs.head?.any isLowerLetter = true)
      ∧ ∀ c ∈ cs, IsAllowed constraints c)
    ⟨fun ⟨hneat, hstart, hallowed⟩ => ⟨hneat, hstart, hallowed⟩,
      fun ⟨hneat, hstart, hallowed⟩ => ⟨hneat, hstart, hallowed⟩⟩

/-- The readable portion of a name is such a text. -/
theorem isStem_readable (constraints : Constraints) (parts : List String) :
    IsStem constraints (readable constraints parts) := by
  have hallowed : ∀ c ∈ (joined parts).map (allowedChar constraints), IsAllowed constraints c := by
    intro c hc
    obtain ⟨d, -, rfl⟩ := List.mem_map.1 hc
    exact isAllowed_allowedChar constraints d
  have hneat := neat_cons_cleaned fun c hc => (hallowed c hc).imp id (Or.imp id And.left)
  have hcleaned : ∀ c ∈ cleaned ((joined parts).map (allowedChar constraints)),
      IsAllowed constraints c := fun c hc => hallowed c ((cleaned_sublist _).subset hc)
  unfold readable
  by_cases hstart : startsWell constraints
      (cleaned ((joined parts).map (allowedChar constraints))) = true
  · rw [if_pos hstart]
    obtain ⟨hfirst, hletter⟩ := startsWell_iff.1 hstart
    exact ⟨hneat.tail hfirst, hletter, hcleaned⟩
  · rw [if_neg hstart]
    exact ⟨hneat, fun _ => rfl, List.forall_mem_cons.2 ⟨Or.inl rfl, hcleaned⟩⟩

/-- What is left of such a text after a cut is one, without the dashes and dots at its end. -/
theorem IsStem.cut {constraints : Constraints} {cs : List Char} (h : IsStem constraints cs)
    {n : Nat} (hn : 0 < n) : IsStem constraints (trimEnd isDashOrDot (cs.take n)) := by
  have hfront : trimEnd isDashOrDot (cs.take n) <+: cs :=
    (trimEnd_front _ _).trans <| List.take_prefix n cs
  -- the first character is neither a dash nor a dot, so it stays
  have hne : trimEnd isDashOrDot (cs.take n) ≠ [] := by
    intro hnil
    obtain ⟨c, rest, rfl⟩ := List.exists_cons_of_ne_nil h.neat.ne_nil
    obtain ⟨n, rfl⟩ := Nat.exists_eq_succ_of_ne_zero (Nat.ne_of_gt hn)
    have hc : isDashOrDot c = true := List.rdropWhile_eq_nil_iff.1 hnil c List.mem_cons_self
    rw [isDashOrDot, Bool.or_eq_true, decide_eq_true_eq, decide_eq_true_eq] at hc
    have hfirst : isAlnum c = true := h.neat.first
    rcases hc with rfl | rfl
    · cases hfirst
    · cases hfirst
  have hhead := head?_of_front hfront hne
  have hbeside : (trimEnd isDashOrDot (cs.take n)).IsChain Beside := by
    obtain ⟨rest, hrest⟩ := hfront
    exact (List.isChain_append.1 (hrest.symm ▸ h.neat.beside)).1
  refine ⟨⟨?_, hbeside, fun hdot => ?_⟩, fun hletter => ?_,
    fun c hc => h.allowed c (hfront.subset hc)⟩
  · rw [hhead]
    exact h.neat.first
  · have hnot := List.rdropWhile_last_not isDashOrDot (cs.take n) hne
    rw [List.getLast?_eq_some_getLast hne, Option.some.injEq] at hdot
    exact hnot (hdot ▸ rfl)
  · rw [hhead]
    exact h.start hletter

/-- Such a text goes on with letters, digits and dashes. -/
theorem IsStem.append {constraints : Constraints} {cs rest : List Char}
    (h : IsStem constraints cs) (hrest : IsPlain rest) : IsStem constraints (cs ++ rest) := by
  have hfirst : (cs ++ rest).head? = cs.head? := by
    rw [List.head?_append_of_ne_nil _ h.neat.ne_nil]
  refine ⟨⟨?_, List.isChain_append.2 ⟨h.neat.beside, isChain_beside_of_notMem hrest.notMem,
    fun a ha b hb => ⟨fun hdot => ?_, fun hdot => ?_⟩⟩, fun hdot => ?_⟩, fun hletter => ?_,
    fun c hc => ?_⟩
  · rw [hfirst]
    exact h.neat.first
  · exact absurd (hdot ▸ ha) h.neat.last
  · exact absurd (hdot ▸ List.mem_of_mem_head? hb) hrest.notMem
  · by_cases hnil : rest = []
    · rw [hnil, List.append_nil] at hdot
      exact h.neat.last hdot
    · rw [List.getLast?_append_of_ne_nil _ hnil] at hdot
      exact hrest.notMem (List.mem_of_getLast? hdot)
  · rw [hfirst]
    exact h.start hletter
  · rcases List.mem_append.1 hc with hc | hc
    · exact h.allowed c hc
    · exact (hrest c hc).imp id Or.inl

-- ========================================================= the digest

theorem length_partsDigest (parts : List String) : (partsDigest parts).length = digestLength := by
  rw [partsDigest, List.length_take, Digest.length_ofBytes]
  rfl

theorem exists_digit_of_mem_partsDigest {parts : List String} {c : Char}
    (h : c ∈ partsDigest parts) : ∃ n < 16, c = Nat.digitChar n :=
  Digest.exists_digit_of_mem_ofBytes (List.mem_of_mem_take h)

theorem isAlnum_of_mem_partsDigest {parts : List String} {c : Char} (h : c ∈ partsDigest parts) :
    isAlnum c = true := by
  have hdigit : ∀ n < 16, isAlnum (Nat.digitChar n) = true := by decide
  obtain ⟨n, hn, rfl⟩ := exists_digit_of_mem_partsDigest h
  exact hdigit n hn

/-- The digest of no parts begins with a letter. -/
theorem first_partsDigest_nil : (partsDigest []).head?.any isLowerLetter = true := by
  rw [partsDigest, Digest.ofBytes, Digest.hexText, String.toList_ofList]
  decide +kernel

-- ======================================================= what is valid

theorem utf8ByteSize_ofList {cs : List Char} (h : ∀ c ∈ cs, c.utf8Size = 1) :
    (String.ofList cs).utf8ByteSize = cs.length := by
  induction cs with
  | nil => rfl
  | cons c cs ih =>
      rw [String.ofList_cons, String.utf8ByteSize_append, String.utf8ByteSize_singleton,
        h c List.mem_cons_self, ih fun d hd => h d (List.mem_cons_of_mem _ hd), List.length_cons,
        Nat.add_comm]

theorem isValid_ofList {constraints : Constraints} {cs : List Char} (h : IsStem constraints cs)
    (hlast : cs.getLast?.any isAlnum = true) (hsize : cs.length ≤ constraints.maxLength) :
    IsValid constraints (String.ofList cs) where
  nonempty := fun hempty => h.neat.ne_nil (String.ofList_eq_empty_iff.1 hempty)
  size := by
    rw [utf8ByteSize_ofList fun c hc => (h.allowed c hc).utf8Size]
    exact hsize
  start := fun hletter => by
    rw [String.toList_ofList]
    exact h.start hletter
  allowed := fun c hc => by
    rw [String.toList_ofList] at hc
    exact h.allowed c hc
  isLabel := by
    rw [String.toList_ofList, labels]
    split
    · exact forall_isLabel_splitOn.2 ⟨h.neat, hlast⟩
    · exact List.forall_mem_singleton.2 ⟨h.neat.first, hlast⟩

/-- What a name ends in: letters and digits, as many as a digest has. -/
structure IsDigest (digest : List Char) : Prop where
  length : digest.length = digestLength
  alnum : ∀ c ∈ digest, isAlnum c = true

theorem isDigest_partsDigest (parts : List String) : IsDigest (partsDigest parts) :=
  ⟨length_partsDigest parts, fun _ => isAlnum_of_mem_partsDigest⟩

section

variable {digest : List Char} (h : IsDigest digest)

include h

theorem IsDigest.isPlain : IsPlain digest := fun c hc => Or.inl (h.alnum c hc)

theorem IsDigest.ne_nil : digest ≠ [] := by
  rintro rfl
  cases h.length

/-- Whatever ends in a digest ends in a letter or digit. -/
theorem IsDigest.last (cs : List Char) : (cs ++ digest).getLast?.any isAlnum = true := by
  rw [List.getLast?_append_of_ne_nil _ h.ne_nil, List.getLast?_eq_some_getLast h.ne_nil]
  exact h.alnum _ (List.getLast_mem _)

variable {constraints : Constraints}

/-- A digest that begins with a letter is a name of its own. -/
theorem IsDigest.isValid (hfirst : digest.head?.any isLowerLetter = true)
    (hsize : 8 ≤ constraints.maxLength) : IsValid constraints (String.ofList digest) := by
  refine isValid_ofList ⟨(neat_iff_of_notMem h.isPlain.notMem).2 ?_, fun _ => hfirst,
    fun c hc => Or.inl (h.alnum c hc)⟩ (h.last []) (h.length ▸ hsize)
  obtain ⟨c, rest, rfl⟩ := List.exists_cons_of_ne_nil h.ne_nil
  exact isAlnum_of_isLowerLetter hfirst

variable {cs : List Char} (hstem : IsStem constraints cs)

include hstem

theorem IsDigest.isValid_append (hfits : (cs ++ '-' :: digest).length ≤ constraints.maxLength) :
    IsValid constraints (String.ofList (cs ++ '-' :: digest)) := by
  have hlast := h.last (cs ++ ['-'])
  rw [List.append_assoc] at hlast
  exact isValid_ofList (hstem.append (List.forall_mem_cons.2 ⟨Or.inr rfl, h.isPlain⟩)) hlast hfits

theorem IsDigest.isValid_cut (hroom : 12 ≤ constraints.maxLength) :
    IsValid constraints (String.ofList (trimEnd isDashOrDot
        (cs.take (constraints.maxLength - (digest.length + cutMark.length)))
      ++ cutMark ++ digest)) := by
  have hcut : IsPlain cutMark := fun c hc => by
    rw [List.eq_of_mem_replicate (show c ∈ List.replicate 3 '-' from hc)]
    exact Or.inr rfl
  have hkeep : 0 < constraints.maxLength - (digest.length + cutMark.length) := by
    rw [h.length]
    exact Nat.sub_pos_of_lt hroom
  refine isValid_ofList (((hstem.cut hkeep).append hcut).append h.isPlain) (h.last _) ?_
  have hle := (trimEnd_front isDashOrDot
    (cs.take (constraints.maxLength - (digest.length + cutMark.length)))).length_le
  rw [List.length_take, h.length] at hle
  rw [List.length_append, List.length_append, h.length]
  have hmark : digestLength + cutMark.length = 11 := rfl
  omega

end

-- ======================================================== made names

theorem join_cons (part : String) (parts : List String) :
    join (part :: parts)
      = String.ofList (joined (part :: parts) ++ '-' :: partsDigest (part :: parts)) := rfl

theorem joinWithin_cons (constraints : Constraints) (part : String) (parts : List String) :
    joinWithin constraints (part :: parts)
      = if (readable constraints (part :: parts) ++ '-' :: partsDigest (part :: parts)).length
          ≤ constraints.maxLength
        then String.ofList
          (readable constraints (part :: parts) ++ '-' :: partsDigest (part :: parts))
        else String.ofList
          (trimEnd isDashOrDot ((readable constraints (part :: parts)).take
              (constraints.maxLength
                - ((partsDigest (part :: parts)).length + cutMark.length)))
            ++ cutMark ++ partsDigest (part :: parts)) := by
  rw [joinWithin]
  exact if_neg Bool.false_ne_true

/-- A name that is made within constraints is valid, if these leave room for a character, the mark
of a cut and the digest. -/
theorem isValid_joinWithin {constraints : Constraints} (h : 12 ≤ constraints.maxLength)
    (parts : List String) : IsValid constraints (joinWithin constraints parts) := by
  have hdigest := isDigest_partsDigest parts
  cases parts with
  | nil => exact hdigest.isValid first_partsDigest_nil (Nat.le_trans (by decide) h)
  | cons part parts =>
      have hstem := isStem_readable constraints (part :: parts)
      rw [joinWithin_cons]
      split
      · next hfits => exact hdigest.isValid_append hstem hfits
      · exact hdigest.isValid_cut hstem h

/-- Parts of which a label and a dot have to be cleaned, within constraints that just leave room. -/
theorem isValid_joinWithin_tight :
    IsValid ⟨12, true, true⟩ (joinWithin ⟨12, true, true⟩ ["-1.", "_Ä"]) :=
  @isValid_joinWithin ⟨12, true, true⟩ (by decide) ["-1.", "_Ä"]

/-- A valid name can go on from what stands before its last dash. -/
theorem isStem_of_isValid {constraints : Constraints} {cs rest : List Char}
    (h : IsValid constraints (String.ofList (cs ++ '-' :: rest))) : IsStem constraints cs := by
  obtain ⟨-, -, hstart, hallowed, hlabels⟩ := h
  rw [String.toList_ofList] at hstart hallowed hlabels
  have hcs : ∀ c ∈ cs, IsAllowed constraints c := fun c hc =>
    hallowed c (List.mem_append_left _ hc)
  have hfirst : (cs ++ '-' :: rest).head?.any isAlnum = true := by
    rw [labels] at hlabels
    split at hlabels
    · exact (forall_isLabel_splitOn.1 hlabels).1.first
    · exact (hlabels _ List.mem_cons_self).first
  cases cs with
  | nil => cases hfirst
  | cons c cs =>
      refine ⟨?_, hstart, hcs⟩
      by_cases hdots : constraints.allowDots = true
      · rw [labels, if_pos hdots] at hlabels
        obtain ⟨hbeside, -, hseam⟩ :=
          List.isChain_append.1 (forall_isLabel_splitOn.1 hlabels).1.beside
        refine ⟨hfirst, hbeside, fun hdot => ?_⟩
        cases (hseam '.' hdot '-' rfl).1 rfl
      · refine (neat_iff_of_notMem fun hdot => ?_).2 hfirst
        rcases hcs '.' hdot with halnum | hdash | ⟨-, hallow⟩
        · cases halnum
        · cases hdash
        · exact hdots hallow

theorem readable_of_isStem {constraints : Constraints} {parts : List String}
    (h : IsStem constraints (joined parts)) : readable constraints parts = joined parts := by
  have hmap : (joined parts).map (allowedChar constraints) = joined parts :=
    (List.map_congr_left fun c hc => allowedChar_of_isAllowed (h.allowed c hc)).trans
      (List.map_id _)
  rw [readable, hmap, cleaned_of_neat h.neat]
  exact if_pos (startsWell_iff.2 ⟨h.neat.first, h.start⟩)

theorem IsValid.length_le {constraints : Constraints} {cs : List Char}
    (h : IsValid constraints (String.ofList cs)) : cs.length ≤ constraints.maxLength := by
  obtain ⟨-, hsize, -, hallowed, -⟩ := h
  rw [String.toList_ofList] at hallowed
  rw [← utf8ByteSize_ofList fun c hc => (hallowed c hc).utf8Size]
  exact hsize

/-- Parts that give a valid name anyway are left as they are; within constraints that leave room, no
others are. -/
theorem joinWithin_eq_join (constraints : Constraints) (parts : List String) :
    (IsValid constraints (join parts) → joinWithin constraints parts = join parts)
      ∧ (12 ≤ constraints.maxLength → joinWithin constraints parts = join parts →
        IsValid constraints (join parts)) := by
  refine ⟨fun h => ?_, fun hroom heq => heq ▸ isValid_joinWithin hroom parts⟩
  cases parts with
  | nil => rw [joinWithin, join, if_pos List.isEmpty_nil, if_pos List.isEmpty_nil]
  | cons part parts =>
      rw [join_cons] at h ⊢
      have hstem := isStem_of_isValid h
      have hfits := h.length_le
      rw [joinWithin_cons, readable_of_isStem hstem, if_pos hfits]

/-- A dash at the end of the last part is no reason to change a name. -/
theorem joinWithin_eq_join_dotted :
    joinWithin dnsSubdomain ["shard.example", "zone1-"] = join ["shard.example", "zone1-"]
      ∧ IsValid dnsSubdomain (join ["shard.example", "zone1-"]) := by
  obtain ⟨hsame, hvalid⟩ := joinWithin_eq_join dnsSubdomain ["shard.example", "zone1-"]
  -- what the digest is does not matter
  have hdigest := isDigest_partsDigest ["shard.example", "zone1-"]
  have hstem : IsStem dnsSubdomain (joined ["shard.example", "zone1-"]) := by decide
  have hfits : (joined ["shard.example", "zone1-"]
      ++ '-' :: partsDigest ["shard.example", "zone1-"]).length ≤ dnsSubdomain.maxLength := by
    rw [List.length_append, List.length_cons, hdigest.length]
    decide
  have heq := hsame (hdigest.isValid_append hstem hfits)
  exact ⟨heq, hvalid (by decide) heq⟩

end ControlLoop.Names
