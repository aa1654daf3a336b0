/-
What the next steps of a group are, and what a pass makes of them.

Two facts carry everything that is said about drains later. A member
moves only from `draining` to `acknowledged`, or, while nothing blocks
the group, from `acknowledged` to `finished` if it is the first to wait
(`transitions_cases`). And a pass changes a member only where the live
group still agrees with the group that the pass saw (`pass_cases`),
whatever part of its steps it writes.
-/
import ControlLoop.Drain.History
import ControlLoop.Proofs.SortedMap

namespace ControlLoop.Drain

variable {ι : Type} [Ord ι] [Std.TransOrd ι] [Std.LawfulEqOrd ι]

-- ================================================= what is looked for

/-- A group is blocked by a member that is asked to drain and by one that has finished. -/
theorem Group.isBlocked_iff {g : Group ι} :
    g.isBlocked = true
      ↔ ∃ id, g.get? id = some .draining ∨ g.get? id = some .finished := by
  rw [Group.isBlocked, List.any_eq_true]
  constructor
  · rintro ⟨s, hs, hblock⟩
    obtain ⟨⟨id, s'⟩, hmem, rfl⟩ := List.mem_map.1 hs
    have hget : g.get? id = some s' := SortedMap.get?_of_mem_toList hmem
    refine ⟨id, ?_⟩
    rw [hget]
    simpa using hblock
  · rintro ⟨id, h | h⟩
    · exact ⟨_, List.mem_map.2 ⟨_, SortedMap.mem_toList_of_get? h, rfl⟩, rfl⟩
    · exact ⟨_, List.mem_map.2 ⟨_, SortedMap.mem_toList_of_get? h, rfl⟩, rfl⟩

/-- The first member that waits does wait, and every other one that waits comes after it. -/
theorem Group.firstAcknowledged_spec {g : Group ι} {a : ι}
    (h : g.firstAcknowledged = some a) :
    g.get? a = some .acknowledged
      ∧ ∀ b, g.get? b = some .acknowledged → b = a ∨ compare a b = .lt := by
  obtain ⟨⟨a', s⟩, hfind, rfl⟩ := Option.map_eq_some_iff.1 h
  obtain ⟨hs, front, rest, hlist, hfront⟩ := List.find?_eq_some_iff_append.1 hfind
  have hs : s = .acknowledged := by simpa using hs
  subst hs
  refine ⟨SortedMap.get?_of_mem_toList (List.mem_of_find?_eq_some hfind), fun b hb => ?_⟩
  have hmem := SortedMap.mem_toList_of_get? hb
  rw [hlist, List.mem_append, List.mem_cons] at hmem
  rcases hmem with hmem | heq | hmem
  · have := hfront _ hmem
    simp at this
  · exact Or.inl (congrArg Prod.fst heq)
  · -- behind the find, and keys increase along the list
    have hinc : (front ++ (a', DrainState.acknowledged) :: rest).Pairwise
        fun x y => compare x.1 y.1 = .lt := hlist ▸ g.increasing
    have htail := (List.pairwise_append.1 hinc).2.1
    exact Or.inr ((List.pairwise_cons.1 htail).1 _ hmem)

omit [Std.TransOrd ι] in
theorem Group.exists_firstAcknowledged {g : Group ι} {b : ι}
    (h : g.get? b = some .acknowledged) : ∃ a, g.firstAcknowledged = some a := by
  have hsome : (g.toList.find? fun e => e.2 = .acknowledged).isSome = true :=
    List.find?_isSome.2 ⟨_, SortedMap.mem_toList_of_get? h, by simp⟩
  obtain ⟨e, hfind⟩ := Option.isSome_iff_exists.1 hsome
  exact ⟨e.1, congrArg (Option.map Prod.fst) hfind⟩

/-- Who is the first to wait in a free group is so in a later one as well, if it still waits there
and nobody waits there who had not been asked to drain before. -/
theorem Group.firstAcknowledged_of_asked {g g' : Group ι} {b : ι} (hfree : g.isBlocked = false)
    (hfirst : g.firstAcknowledged = some b) (hb : g'.get? b = some .acknowledged)
    (hasked : ∀ a, g'.get? a = some .acknowledged →
      ∃ s, g.get? a = some s ∧ s ≠ .notDraining) : g'.firstAcknowledged = some b := by
  obtain ⟨-, hleast⟩ := Group.firstAcknowledged_spec hfirst
  obtain ⟨a, ha⟩ := Group.exists_firstAcknowledged hb
  obtain ⟨haw, hleast'⟩ := Group.firstAcknowledged_spec ha
  rcases hleast' b hb with rfl | hlt
  · exact ha
  · -- `a` waits later, in front of `b`, but neither waited before nor blocked the group
    have hblock : ¬ ∃ id, g.get? id = some .draining ∨ g.get? id = some .finished := by
      rw [← Group.isBlocked_iff, hfree]
      exact Bool.false_ne_true
    obtain ⟨s, hs, hne⟩ := hasked a haw
    cases s with
    | notDraining => exact absurd rfl hne
    | draining => exact absurd ⟨a, Or.inl hs⟩ hblock
    | finished => exact absurd ⟨a, Or.inr hs⟩ hblock
    | acknowledged =>
        rcases hleast a hs with rfl | hgt
        · simp at hlt
        · have := Std.TransCmp.lt_trans hlt hgt
          simp at this

-- ====================================================== the next steps

/-- The two ways in which a member moves. -/
theorem Group.transitions_cases {g : Group ι} {id : ι} {s : DrainState}
    (h : g.transitions.get? id = some s) :
    (g.get? id = some .draining ∧ s = .acknowledged)
      ∨ (g.isBlocked = false ∧ g.firstAcknowledged = some id ∧ s = .finished) := by
  have hmem := SortedMap.mem_of_get?_ofList h
  rcases List.mem_append.1 hmem with hack | hprom
  · obtain ⟨⟨id', s'⟩, hmem', hif⟩ := List.mem_filterMap.1 hack
    by_cases hs : s' = .draining
    · subst hs
      simp only [if_true, Option.some.injEq, Prod.mk.injEq] at hif
      obtain ⟨rfl, rfl⟩ := hif
      exact Or.inl ⟨SortedMap.get?_of_mem_toList hmem', rfl⟩
    · simp [hs] at hif
  · rw [Option.mem_toList] at hprom
    cases hb : g.isBlocked with
    | true => simp [hb] at hprom
    | false =>
        simp only [hb, Bool.false_eq_true, if_false] at hprom
        obtain ⟨a, ha, heq⟩ := Option.map_eq_some_iff.1 hprom
        simp only [Prod.mk.injEq] at heq
        obtain ⟨rfl, rfl⟩ := heq
        exact Or.inr ⟨rfl, ha, rfl⟩

-- ============================================================ one pass

variable [DecidableEq ι]

/-- A write changes at most its own member, and that one only if it is as it was seen. -/
theorem Group.writeUnchanged_cases (seen live : Group ι) (id id' : ι) (s : DrainState) :
    (Group.writeUnchanged seen live id s).get? id' = live.get? id'
      ∨ (id' = id ∧ live.get? id = seen.get? id
        ∧ (Group.writeUnchanged seen live id s).get? id' = some s) := by
  unfold Group.writeUnchanged
  split
  · next heq =>
    by_cases hid : id' = id
    · subst hid
      exact Or.inr ⟨rfl, heq, SortedMap.get?_insert_self live id' s⟩
    · exact Or.inl (SortedMap.get?_insert_of_ne live s hid)
  · exact Or.inl rfl

/-- Many writes change a member only if it is as it was seen, and to a state that was to be
written. -/
theorem Group.foldl_writeUnchanged_cases (seen : Group ι) (id : ι) :
    ∀ (steps : List (ι × DrainState)) (live : Group ι),
      (steps.foldl (fun live e => Group.writeUnchanged seen live e.1 e.2) live).get? id
          = live.get? id
        ∨ (live.get? id = seen.get? id ∧ ∃ s, (id, s) ∈ steps
          ∧ (steps.foldl (fun live e => Group.writeUnchanged seen live e.1 e.2) live).get? id
            = some s) := by
  intro steps
  induction steps with
  | nil => exact fun _ => Or.inl rfl
  | cons e rest ih =>
      intro live
      rw [List.foldl_cons]
      have hfirst := Group.writeUnchanged_cases seen live e.1 id e.2
      rcases ih (Group.writeUnchanged seen live e.1 e.2) with hkeep | ⟨hseen, s, hmem, hs⟩
      · rw [hkeep]
        rcases hfirst with h | ⟨rfl, hlive, h⟩
        · exact Or.inl h
        · exact Or.inr ⟨hlive, e.2, List.mem_cons_self, h⟩
      · refine Or.inr ⟨?_, s, List.mem_cons_of_mem _ hmem, hs⟩
        rcases hfirst with h | ⟨rfl, hlive, -⟩
        · rw [← h, hseen]
        · exact hlive

/-- A pass leaves a member alone, or finds it as it was seen and makes its next step, which was among
those to be written. -/
theorem History.pass_cases (h : History ι) (view : Option Nat) (only : Option (List ι))
    (id : ι) :
    (h.step (.pass view only)).2.current.get? id = h.current.get? id
      ∨ (h.current.get? id = (h.view view).get? id
        ∧ (only.map (·.contains id)).getD true = true
        ∧ ∃ s, (h.view view).transitions.get? id = some s
          ∧ (h.step (.pass view only)).2.current.get? id = some s) := by
  rcases Group.foldl_writeUnchanged_cases (h.view view) id
      ((h.view view).transitions.toList.filter
        fun e => (only.map (·.contains e.1)).getD true) h.current with h' | ⟨hseen, s, hmem, hs⟩
  · exact Or.inl h'
  · obtain ⟨hstep, honly⟩ := List.mem_filter.1 hmem
    exact Or.inr ⟨hseen, honly, s, SortedMap.get?_of_mem_toList hstep, hs⟩

end ControlLoop.Drain
