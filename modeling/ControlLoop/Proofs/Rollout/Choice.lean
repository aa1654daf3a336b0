/-
The next step of a cascade depends on the group and not on how it is
listed.

# Places

Members are released in the order of their places (`Candidate.place`):
whether they are primary, how far their drains have come, and the id,
the first of these that differs deciding. Places are ordered linearly,
and members at the same place have the same id (`id_eq_of_place_eq`).
So although two members may stand at one place, where ids repeat, the
id that is at the front is always the same.

# Decisions

What a decision says of a group (`Decides`) speaks of its members alone.
The step that is taken says the truth (`decides_next`), and two
decisions that are true of the same members are the same, unless both
of them name someone who is unwell (`Decides.agree`).
-/
import ControlLoop.Rollout.Release
import Mathlib.Data.Prod.Lex
import Mathlib.Data.String.Basic

namespace ControlLoop.Rollout

-- =============================================================== places

/-- The states of a drain, the furthest first. -/
def furthestFirst : List DrainState := [.finished, .acknowledged, .draining, .notDraining]

/-- Where a member stands in the order of release: primaries last, else those further drained first,
else by id. -/
def Candidate.place (c : Candidate) : Bool ×ₗ Nat ×ₗ String :=
  toLex (c.primary, toLex (furthestFirst.idxOf c.drain, c.id))

theorem Candidate.id_eq_of_place_eq {a b : Candidate} (h : a.place = b.place) : a.id = b.id :=
  congrArg (fun p => (ofLex (ofLex p).2).2) h

/-- A higher rank is an earlier place. -/
theorem compare_rank (s t : DrainState) :
    compare t.rank s.rank = compare (furthestFirst.idxOf s) (furthestFirst.idxOf t) := by
  cases s <;> cases t <;> rfl

/-- The order of release is that of the places. -/
theorem Candidate.isLE_order_iff {a b : Candidate} :
    (a.order b).isLE = true ↔ a.place ≤ b.place := by
  unfold Candidate.order Candidate.place
  rw [compare_rank, Ordering.isLE_then_iff_or, Ordering.isLE_then_iff_or, Prod.Lex.toLex_le_toLex,
    Prod.Lex.toLex_le_toLex, compare_lt_iff_lt, compare_lt_iff_lt, compare_eq_iff_eq,
    compare_eq_iff_eq, Ordering.isLE_iff_ne_gt, ← Ne.eq_def, compare_le_iff_le]

-- ============================================================= the first

theorem firstInOrder_eq_none_iff {cs : List Candidate} : firstInOrder cs = none ↔ cs = [] := by
  cases cs with
  | nil => exact iff_of_true rfl rfl
  | cons d rest =>
      refine iff_of_false ?_ (List.cons_ne_nil d rest)
      rw [firstInOrder]
      cases firstInOrder rest <;> exact Option.some_ne_none _

theorem mem_of_firstInOrder {cs : List Candidate} {c : Candidate} (h : firstInOrder cs = some c) :
    c ∈ cs := by
  induction cs generalizing c with
  | nil => cases h
  | cons d rest ih =>
      rw [firstInOrder] at h
      cases hrest : firstInOrder rest with
      | none =>
          rw [hrest] at h
          obtain rfl := Option.some.inj h
          exact List.mem_cons_self
      | some best =>
          rw [hrest] at h
          obtain rfl := Option.some.inj h
          split
          · exact List.mem_cons_self
          · exact List.mem_cons_of_mem _ (ih hrest)

/-- Nobody stands before the first. -/
theorem place_le_of_firstInOrder {cs : List Candidate} {c d : Candidate}
    (h : firstInOrder cs = some c) (hd : d ∈ cs) : c.place ≤ d.place := by
  induction cs generalizing c with
  | nil => cases h
  | cons e rest ih =>
      rw [firstInOrder] at h
      cases hrest : firstInOrder rest with
      | none =>
          rw [hrest] at h
          obtain rfl := Option.some.inj h
          rw [firstInOrder_eq_none_iff.1 hrest] at hd
          rw [List.mem_singleton.1 hd]
      | some best =>
          rw [hrest] at h
          obtain rfl := Option.some.inj h
          by_cases hle : (e.order best).isLE = true
          · rw [if_pos hle]
            rcases List.mem_cons.1 hd with rfl | hd
            · exact le_refl _
            · exact (Candidate.isLE_order_iff.1 hle).trans (ih hrest hd)
          · rw [if_neg hle]
            rcases List.mem_cons.1 hd with rfl | hd
            · exact le_of_not_ge fun hge => hle (Candidate.isLE_order_iff.2 hge)
            · exact ih hrest hd

-- ============================================================ decisions

/-- What a decision says of a group. -/
inductive Decides (cs : List Candidate) : Decision → Prop
  /-- A released member is unwell. -/
  | abort {c : Candidate} (hc : c ∈ cs) (hsick : c.released = true ∧ c.healthy = false) :
      Decides cs (.abort c.id)
  /-- All released members are well, and one of them is not done yet. -/
  | wait (hwell : ∀ c ∈ cs, c.released = true → c.healthy = true)
      (hflight : ∃ c ∈ cs, c.released = true ∧ c.scheduled = true) : Decides cs .wait
  /-- Nobody is in flight, and this member comes before all others that are scheduled. -/
  | release {c : Candidate} (hwell : ∀ d ∈ cs, d.released = true → d.healthy = true)
      (hfree : ∀ d ∈ cs, d.released = true → d.scheduled = false) (hc : c ∈ cs)
      (hscheduled : c.scheduled = true)
      (hfirst : ∀ d ∈ cs, d.scheduled = true → c.place ≤ d.place) : Decides cs (.release c.id)
  /-- All released members are well, and nobody is scheduled. -/
  | done (hwell : ∀ c ∈ cs, c.released = true → c.healthy = true)
      (hidle : ∀ c ∈ cs, c.scheduled = false) : Decides cs .done

theorem well_of_find? {cs : List Candidate} (h : cs.find? Candidate.isSick = none) :
    ∀ c ∈ cs, c.released = true → c.healthy = true := by
  intro c hc hreleased
  have htest := List.find?_eq_none.1 h c hc
  simpa [Candidate.isSick, hreleased] using htest

theorem free_of_any {cs : List Candidate} (h : ¬cs.any Candidate.isInFlight = true) :
    ∀ c ∈ cs, c.released = true → c.scheduled = false := by
  intro c hc hreleased
  by_contra hscheduled
  have htest := Bool.and_eq_true_iff.2 ⟨hreleased, eq_true_of_ne_false hscheduled⟩
  exact h (List.any_eq_true.2 ⟨c, hc, htest⟩)

/-- Where nobody is in flight, whoever is scheduled waits. -/
theorem mem_waiting {cs : List Candidate} {c : Candidate}
    (hfree : ∀ d ∈ cs, d.released = true → d.scheduled = false) (hc : c ∈ cs)
    (hscheduled : c.scheduled = true) : c ∈ cs.filter Candidate.isWaiting := by
  refine List.mem_filter.2 ⟨hc, ?_⟩
  cases hreleased : c.released with
  | false => simp [Candidate.isWaiting, hscheduled, hreleased]
  | true => cases (hfree c hc hreleased).symm.trans hscheduled

/-- The step that is taken says the truth about the group. -/
theorem decides_next (cs : List Candidate) : Decides cs (next cs) := by
  unfold next
  split
  · next sick hsick =>
      have htest := List.find?_some hsick
      rw [Candidate.isSick, Bool.and_eq_true, Bool.not_eq_true'] at htest
      exact .abort (List.mem_of_find?_eq_some hsick) htest
  · next hnone =>
      have hwell := well_of_find? hnone
      by_cases hflight : cs.any Candidate.isInFlight = true
      · rw [if_pos hflight]
        obtain ⟨c, hc, htest⟩ := List.any_eq_true.1 hflight
        exact .wait hwell ⟨c, hc, Bool.and_eq_true_iff.1 htest⟩
      · rw [if_neg hflight]
        have hfree := free_of_any hflight
        split
        · next c hfirst =>
            obtain ⟨hc, htest⟩ := List.mem_filter.1 (mem_of_firstInOrder hfirst)
            exact .release hwell hfree hc (Bool.and_eq_true_iff.1 htest).1 fun d hd hscheduled =>
              place_le_of_firstInOrder hfirst (mem_waiting hfree hd hscheduled)
        · next hempty =>
            refine .done hwell fun c hc => ?_
            by_contra hscheduled
            have hmem := mem_waiting hfree hc (eq_true_of_ne_false hscheduled)
            rw [firstInOrder_eq_none_iff.1 hempty] at hmem
            cases hmem

-- ====================================================== only the group

namespace Decides

variable {cs cs' : List Candidate} {d d' : Decision}

/-- A decision says the same of groups with the same members. -/
theorem of_mem_iff (h : Decides cs d) (hmem : ∀ c, c ∈ cs ↔ c ∈ cs') : Decides cs' d := by
  cases h with
  | abort hc hsick => exact .abort ((hmem _).1 hc) hsick
  | wait hwell hflight =>
      obtain ⟨c, hc, hflight⟩ := hflight
      exact .wait (fun e he => hwell e ((hmem e).2 he)) ⟨c, (hmem c).1 hc, hflight⟩
  | release hwell hfree hc hscheduled hfirst =>
      exact .release (fun e he => hwell e ((hmem e).2 he)) (fun e he => hfree e ((hmem e).2 he))
        ((hmem _).1 hc) hscheduled fun e he => hfirst e ((hmem e).2 he)
  | done hwell hidle =>
      exact .done (fun e he => hwell e ((hmem e).2 he)) fun e he => hidle e ((hmem e).2 he)

theorem abort_iff (h : Decides cs d) :
    (∃ id, d = .abort id) ↔ ∃ c ∈ cs, c.released = true ∧ c.healthy = false := by
  constructor
  · rintro ⟨id, rfl⟩
    cases h with
    | abort hc hsick => exact ⟨_, hc, hsick⟩
  · rintro ⟨c, hc, hreleased, hsick⟩
    cases h with
    | abort _ _ => exact ⟨_, rfl⟩
    | wait hwell _ => cases hsick.symm.trans (hwell c hc hreleased)
    | release hwell _ _ _ _ => cases hsick.symm.trans (hwell c hc hreleased)
    | done hwell _ => cases hsick.symm.trans (hwell c hc hreleased)

theorem wait_iff (h : Decides cs d) :
    d = .wait ↔ (∀ c ∈ cs, c.released = true → c.healthy = true)
      ∧ ∃ c ∈ cs, c.released = true ∧ c.scheduled = true := by
  constructor
  · rintro rfl
    cases h with
    | wait hwell hflight => exact ⟨hwell, hflight⟩
  · rintro ⟨hwell, c, hc, hreleased, hscheduled⟩
    cases h with
    | abort hs hsick => cases hsick.2.symm.trans (hwell _ hs hsick.1)
    | wait _ _ => rfl
    | release _ hfree _ _ _ => cases hscheduled.symm.trans (hfree c hc hreleased)
    | done _ hidle => cases hscheduled.symm.trans (hidle c hc)

theorem done_iff (h : Decides cs d) :
    d = .done ↔ (∀ c ∈ cs, c.released = true → c.healthy = true)
      ∧ ∀ c ∈ cs, c.scheduled = false := by
  constructor
  · rintro rfl
    cases h with
    | done hwell hidle => exact ⟨hwell, hidle⟩
  · rintro ⟨hwell, hidle⟩
    cases h with
    | abort hs hsick => cases hsick.2.symm.trans (hwell _ hs hsick.1)
    | wait _ hflight =>
        obtain ⟨c, hc, -, hscheduled⟩ := hflight
        cases hscheduled.symm.trans (hidle c hc)
    | release _ _ hc hscheduled _ => cases hscheduled.symm.trans (hidle _ hc)
    | done _ _ => rfl

theorem release_iff (h : Decides cs d) {id : String} :
    d = .release id ↔ (∀ c ∈ cs, c.released = true → c.healthy = true)
      ∧ (∀ c ∈ cs, c.released = true → c.scheduled = false)
      ∧ ∃ c ∈ cs, c.id = id ∧ c.scheduled = true ∧ c.released = false
        ∧ ∀ e ∈ cs, e.scheduled = true → c.place ≤ e.place := by
  constructor
  · rintro rfl
    cases h with
    | release hwell hfree hc hscheduled hfirst =>
        refine ⟨hwell, hfree, _, hc, rfl, hscheduled, ?_, hfirst⟩
        by_contra hreleased
        cases hscheduled.symm.trans (hfree _ hc (eq_true_of_ne_false hreleased))
  · rintro ⟨hwell, hfree, c, hc, rfl, hscheduled, -, hfirst⟩
    cases h with
    | abort hs hsick => cases hsick.2.symm.trans (hwell _ hs hsick.1)
    | wait _ hflight =>
        obtain ⟨e, he, hreleased, hscheduled'⟩ := hflight
        cases hscheduled'.symm.trans (hfree e he hreleased)
    | release _ _ he hscheduled' hfirst' =>
        -- both stand before each other, so their places and with them their ids are the same
        have hplace := le_antisymm (hfirst' c hc hscheduled) (hfirst _ he hscheduled')
        rw [Candidate.id_eq_of_place_eq hplace]
    | done _ hidle => cases hscheduled.symm.trans (hidle c hc)

/-- Decisions about one group are the same, but for who of several is called unwell. -/
theorem agree (h : Decides cs d) (h' : Decides cs d') : d' = d
    ∨ ∃ c ∈ cs, ∃ c' ∈ cs, (c.released = true ∧ c.healthy = false)
      ∧ (c'.released = true ∧ c'.healthy = false) ∧ d = .abort c.id ∧ d' = .abort c'.id := by
  cases d with
  | abort id =>
      right
      obtain ⟨id', rfl⟩ := h'.abort_iff.2 (h.abort_iff.1 ⟨id, rfl⟩)
      cases h with
      | abort hc hsick =>
          cases h' with
          | abort hc' hsick' => exact ⟨_, hc, _, hc', hsick, hsick', rfl, rfl⟩
  | wait => exact Or.inl (h'.wait_iff.2 (h.wait_iff.1 rfl))
  | release id => exact Or.inl (h'.release_iff.2 (h.release_iff.1 rfl))
  | done => exact Or.inl (h'.done_iff.2 (h.done_iff.1 rfl))

end Decides

/-- What is decided about a group and by what precedence; and that a group that is listed in another
order gets the same decision, except that of several who are unwell another one may be named. -/
theorem next_told_by_group (cs : List Candidate) :
    ((∃ id, next cs = .abort id) ↔ ∃ c ∈ cs, c.released = true ∧ c.healthy = false)
      ∧ (∀ id, next cs = .abort id →
        ∃ c ∈ cs, c.id = id ∧ c.released = true ∧ c.healthy = false)
      ∧ (next cs = .wait ↔ (∀ c ∈ cs, c.released = true → c.healthy = true)
        ∧ ∃ c ∈ cs, c.released = true ∧ c.scheduled = true)
      ∧ (next cs = .done ↔ (∀ c ∈ cs, c.released = true → c.healthy = true)
        ∧ ∀ c ∈ cs, c.scheduled = false)
      ∧ (∀ id, next cs = .release id ↔ (∀ c ∈ cs, c.released = true → c.healthy = true)
        ∧ (∀ c ∈ cs, c.released = true → c.scheduled = false)
        ∧ ∃ c ∈ cs, c.id = id ∧ c.scheduled = true ∧ c.released = false
          ∧ ∀ e ∈ cs, e.scheduled = true → c.place ≤ e.place)
      ∧ ∀ cs', cs.Perm cs' → next cs' = next cs
        ∨ ∃ c ∈ cs, ∃ c' ∈ cs, (c.released = true ∧ c.healthy = false)
          ∧ (c'.released = true ∧ c'.healthy = false) ∧ c.id ≠ c'.id
          ∧ next cs = .abort c.id ∧ next cs' = .abort c'.id := by
  have h := decides_next cs
  refine ⟨h.abort_iff, fun id hid => ?_, h.wait_iff, h.done_iff, fun id => h.release_iff,
    fun cs' hperm => ?_⟩
  · rw [hid] at h
    cases h with
    | abort hc hsick => exact ⟨_, hc, rfl, hsick⟩
  · have h' : Decides cs (next cs') := (decides_next cs').of_mem_iff fun c => hperm.symm.mem_iff
    rcases h.agree h' with heq | ⟨c, hc, c', hc', hsick, hsick', heq, heq'⟩
    · exact Or.inl heq
    · by_cases hid : c.id = c'.id
      · exact Or.inl (by rw [heq, heq', hid])
      · exact Or.inr ⟨c, hc, c', hc', hsick, hsick', hid, heq, heq'⟩

/-- A primary, and two members that share an id. -/
def twins : List Candidate :=
  [⟨"a", true, false, true, true, .finished⟩, ⟨"b", true, false, true, false, .notDraining⟩,
   ⟨"b", true, false, true, false, .acknowledged⟩, ⟨"c", true, false, true, false, .draining⟩]

/-- Two released members that are both unwell. -/
def ailing : List Candidate :=
  [⟨"a", true, true, false, false, .notDraining⟩, ⟨"b", false, true, false, false, .notDraining⟩]

/-- The twin that is further drained goes first, in whatever order they are listed; of the unwell the
one that is listed first is named. -/
theorem next_told_by_group_listed :
    (twins.Perm twins.reverse ∧ next twins.reverse = .release "b")
      ∧ next ailing = .abort "a" ∧ (∃ c ∈ ailing, c.id = "a" ∧ c.released = true ∧ c.healthy = false)
      ∧ ailing.Perm ailing.reverse ∧ next ailing.reverse = .abort "b" := by
  have htwins : twins.Perm twins.reverse := (List.reverse_perm twins).symm
  have hailing : ailing.Perm ailing.reverse := (List.reverse_perm ailing).symm
  obtain ⟨-, -, -, -, hrelease, hperm⟩ := next_told_by_group twins
  obtain ⟨-, hnamed, -⟩ := next_told_by_group ailing
  have hnext : next twins = .release "b" := (hrelease "b").2 ⟨by decide, by decide, by decide⟩
  refine ⟨⟨htwins, ?_⟩, by decide, hnamed "a" (by decide), hailing, by decide⟩
  rcases hperm _ htwins with heq | ⟨c, -, -, -, -, -, -, habort, -⟩
  · exact heq.trans hnext
  · cases hnext.symm.trans habort

end ControlLoop.Rollout
