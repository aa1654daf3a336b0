/-
A cascade releases everyone who is scheduled, once and in order.

# What is still to do

Take a group in which no id is repeated, everyone is well and nobody is
released (`Quiet`). Those who are scheduled can be listed by their
places, each strictly before the next (`Due`). The next step is to
release the head of this list, and it is to do nothing more if the list
is empty (`Due.next_cons`, `Due.next_nil`). While that member is in
flight the group is told to wait (`Due.wait_mark`). When its change has
been made the group is quiet again and the list has lost its head
(`Due.round`), so that the whole run can be read off the list that was
due in the beginning (`released_in_order`).
-/
import ControlLoop.Proofs.Rollout.Choice
import Mathlib.Data.List.Nodup
import Mathlib.Logic.Function.Iterate

namespace ControlLoop.Rollout

-- =============================================================== rounds

/-- Allow a member to make its change. -/
def mark (id : String) (cs : List Candidate) : List Candidate :=
  cs.map fun c => if c.id = id then { c with released := true } else c

/-- The change of a member has been made. -/
def complete (id : String) (cs : List Candidate) : List Candidate :=
  cs.map fun c => if c.id = id then { c with scheduled := false, released := false } else c

/-- Release whoever is next, and let the change be made. -/
def round (cs : List Candidate) : List Candidate :=
  match next cs with
  | .release id => complete id (mark id cs)
  | _ => cs

def Decision.released? : Decision → Option String
  | .release id => some id
  | _ => none

/-- The ids that are released in so many rounds, in turn. -/
def releases : Nat → List Candidate → List String
  | 0, _ => []
  | n + 1, cs => (next cs).released?.toList ++ releases n (round cs)

-- ======================================================== quiet groups

/-- No id is repeated, everyone is well, and nobody is released. -/
structure Quiet (cs : List Candidate) : Prop where
  nodup : (cs.map (·.id)).Nodup
  healthy : ∀ c ∈ cs, c.healthy = true
  unreleased : ∀ c ∈ cs, c.released = false

theorem complete_mark (id : String) (cs : List Candidate) : complete id (mark id cs)
    = cs.map fun c => if c.id = id then { c with scheduled := false, released := false } else c := by
  unfold complete mark
  rw [List.map_map]
  refine List.map_congr_left fun c _ => ?_
  by_cases hid : c.id = id
  · simp [hid]
  · simp [hid]

theorem Quiet.complete_mark {cs : List Candidate} (h : Quiet cs) (id : String) :
    Quiet (complete id (mark id cs)) := by
  have hfrom : ∀ c ∈ complete id (mark id cs), ∃ d ∈ cs,
      c.healthy = d.healthy ∧ (c.released = false ∨ c = d) := by
    intro c hc
    rw [Rollout.complete_mark] at hc
    obtain ⟨d, hd, rfl⟩ := List.mem_map.1 hc
    refine ⟨d, hd, ?_⟩
    split
    · exact ⟨rfl, Or.inl rfl⟩
    · exact ⟨rfl, Or.inr rfl⟩
  constructor
  · have hids : (complete id (mark id cs)).map (·.id) = cs.map (·.id) := by
      rw [Rollout.complete_mark, List.map_map]
      refine List.map_congr_left fun c _ => ?_
      show (if c.id = id then _ else c).id = c.id
      split <;> rfl
    rw [hids]
    exact h.nodup
  · intro c hc
    obtain ⟨d, hd, hhealthy, -⟩ := hfrom c hc
    exact hhealthy.trans (h.healthy d hd)
  · intro c hc
    obtain ⟨d, hd, -, hreleased | rfl⟩ := hfrom c hc
    · exact hreleased
    · exact h.unreleased c hd

theorem Quiet.round {cs : List Candidate} (h : Quiet cs) : Quiet (round cs) := by
  unfold Rollout.round
  split
  · exact h.complete_mark _
  · exact h

/-- Who is scheduled after a round is who was so before and has another id. -/
theorem filter_complete_mark (id : String) (cs : List Candidate) :
    (complete id (mark id cs)).filter (·.scheduled)
      = (cs.filter (·.scheduled)).filter (·.id ≠ id) := by
  rw [complete_mark]
  induction cs with
  | nil => rfl
  | cons c rest ih =>
      rw [List.map_cons]
      by_cases hid : c.id = id
      · cases hscheduled : c.scheduled <;> simp_all
      · cases hscheduled : c.scheduled <;> simp_all

-- ========================================================== what is due

/-- The scheduled members of a group, by their places. -/
structure Due (cs ms : List Candidate) : Prop where
  perm : ms.Perm (cs.filter (·.scheduled))
  increasing : ms.Pairwise fun a b => a.place < b.place

namespace Due

variable {cs ms : List Candidate} {m : Candidate}

theorem mem_iff (h : Due cs ms) {c : Candidate} : c ∈ ms ↔ c ∈ cs ∧ c.scheduled = true := by
  rw [h.perm.mem_iff, List.mem_filter]

theorem next_nil (h : Due cs []) (hquiet : Quiet cs) : next cs = .done := by
  refine (decides_next cs).done_iff.2 ⟨fun c hc _ => hquiet.healthy c hc, fun c hc => ?_⟩
  by_contra hscheduled
  cases h.mem_iff.2 ⟨hc, eq_true_of_ne_false hscheduled⟩

/-- The first of those who are due is released. -/
theorem next_cons (h : Due cs (m :: ms)) (hquiet : Quiet cs) : next cs = .release m.id := by
  obtain ⟨hm, hscheduled⟩ := h.mem_iff.1 List.mem_cons_self
  refine (decides_next cs).release_iff.2 ⟨fun c hc _ => hquiet.healthy c hc, fun c hc hreleased => ?_,
    m, hm, rfl, hscheduled, hquiet.unreleased m hm, fun c hc hscheduled => ?_⟩
  · cases (hquiet.unreleased c hc).symm.trans hreleased
  · rcases List.mem_cons.1 (h.mem_iff.2 ⟨hc, hscheduled⟩) with rfl | hrest
    · exact le_refl _
    · exact le_of_lt ((List.pairwise_cons.1 h.increasing).1 c hrest)

/-- Nothing else is released before the change has been made. -/
theorem wait_mark (h : Due cs (m :: ms)) (hquiet : Quiet cs) : next (mark m.id cs) = .wait := by
  obtain ⟨hm, hscheduled⟩ := h.mem_iff.1 List.mem_cons_self
  refine (decides_next _).wait_iff.2 ⟨fun c hc _ => ?_, { m with released := true }, ?_, rfl,
    hscheduled⟩
  · obtain ⟨d, hd, rfl⟩ := List.mem_map.1 hc
    split
    · exact hquiet.healthy d hd
    · exact hquiet.healthy d hd
  · exact List.mem_map.2 ⟨m, hm, if_pos rfl⟩

/-- Where nobody is due a round does nothing. -/
theorem round_nil (h : Due cs []) (hquiet : Quiet cs) : Rollout.round cs = cs := by
  unfold Rollout.round
  rw [h.next_nil hquiet]

/-- A round takes the head off the list of those who are due. -/
theorem round (h : Due cs (m :: ms)) (hquiet : Quiet cs) : Due (round cs) ms := by
  have hround : Rollout.round cs = complete m.id (mark m.id cs) := by
    unfold Rollout.round
    rw [h.next_cons hquiet]
  -- no other member that is due has the id of the first
  have hids : ((m :: ms).map (·.id)).Nodup :=
    (h.perm.map _).nodup_iff.2 (hquiet.nodup.sublist (List.filter_sublist.map _))
  have hrest : (m :: ms).filter (·.id ≠ m.id) = ms := by
    rw [List.filter_cons_of_neg (by simp), List.filter_eq_self]
    intro c hc
    refine decide_eq_true fun hid => (List.nodup_cons.1 hids).1 ?_
    exact List.mem_map.2 ⟨c, hc, hid⟩
  constructor
  · rw [hround, filter_complete_mark]
    have hperm := h.perm.filter (·.id ≠ m.id)
    rwa [hrest] at hperm
  · exact (List.pairwise_cons.1 h.increasing).2

end Due

/-- Every quiet group has its list of those who are due. -/
theorem Quiet.exists_due {cs : List Candidate} (h : Quiet cs) : ∃ ms, Due cs ms := by
  let before (a b : Candidate) : Bool := a.place ≤ b.place
  refine ⟨(cs.filter (·.scheduled)).mergeSort before, List.mergeSort_perm _ _, ?_⟩
  have hle : ((cs.filter (·.scheduled)).mergeSort before).Pairwise fun a b => before a b = true :=
    List.pairwise_mergeSort
      (fun a b c hab hbc => decide_eq_true ((of_decide_eq_true hab).trans (of_decide_eq_true hbc)))
      (fun a b => by simpa [before] using le_total a.place b.place) _
  have hids : (((cs.filter (·.scheduled)).mergeSort before).map (·.id)).Nodup :=
    ((List.mergeSort_perm _ _).map _).nodup_iff.2 (h.nodup.sublist (List.filter_sublist.map _))
  -- at the same place there would be the same id
  refine (hle.and (List.pairwise_map.1 hids)).imp fun ⟨hab, hne⟩ => ?_
  exact lt_of_le_of_ne (of_decide_eq_true hab) fun heq => hne (Candidate.id_eq_of_place_eq heq)

-- ============================================================ whole runs

/-- After some rounds the rest of those who were due is due. -/
theorem Due.iterate {cs ms : List Candidate} (h : Due cs ms) (hquiet : Quiet cs) (n : Nat) :
    Quiet (Rollout.round^[n] cs) ∧ Due (Rollout.round^[n] cs) (ms.drop n) := by
  induction n generalizing cs ms with
  | zero => exact ⟨hquiet, h⟩
  | succ n ih =>
      rw [Function.iterate_succ_apply]
      cases ms with
      | nil =>
          rw [h.round_nil hquiet, List.drop_nil]
          have hrest := ih h hquiet
          rwa [List.drop_nil] at hrest
      | cons m ms => exact ih (h.round hquiet) hquiet.round

theorem Due.releases {cs ms : List Candidate} (h : Due cs ms) (hquiet : Quiet cs) (n : Nat) :
    releases n cs = (ms.map (·.id)).take n := by
  induction n generalizing cs ms with
  | zero => rfl
  | succ n ih =>
      rw [Rollout.releases]
      cases ms with
      | nil =>
          rw [h.next_nil hquiet, h.round_nil hquiet, ih h hquiet, List.map_nil, List.take_nil,
            List.take_nil]
          rfl
      | cons m ms =>
          rw [h.next_cons hquiet, ih (h.round hquiet) hquiet.round]
          rfl

/-- The step that is taken after some rounds. -/
theorem Due.next_iterate {cs ms : List Candidate} (h : Due cs ms) (hquiet : Quiet cs) (n : Nat) :
    next (Rollout.round^[n] cs) = (ms[n]?.map fun m => .release m.id).getD .done := by
  obtain ⟨hquiet', hdue⟩ := h.iterate hquiet n
  rw [← List.head?_drop]
  cases hrest : ms.drop n with
  | nil =>
      rw [hrest] at hdue
      exact hdue.next_nil hquiet'
  | cons m rest =>
      rw [hrest] at hdue
      exact hdue.next_cons hquiet'

/-- A cascade over a quiet group releases the scheduled members and nobody else, each once, primaries
last, the further drained ones first and otherwise by id. One at a time is in flight, and after as
many rounds as members were scheduled there is nothing more to do, for good. -/
theorem released_in_order (cs : List Candidate) (h : Quiet cs) :
    (∃ ms : List Candidate, ms.Perm (cs.filter (·.scheduled))
        ∧ ms.Pairwise (fun a b => a.place < b.place)
        ∧ ∀ n, releases n cs = (ms.map (·.id)).take n)
      ∧ (∀ n id, next (round^[n] cs) = .release id → next (mark id (round^[n] cs)) = .wait)
      ∧ ∀ n, next (round^[n] cs) = .done ↔ (cs.filter (·.scheduled)).length ≤ n := by
  obtain ⟨ms, hdue⟩ := h.exists_due
  refine ⟨⟨ms, hdue.perm, hdue.increasing, hdue.releases h⟩, fun n id hnext => ?_, fun n => ?_⟩
  · obtain ⟨hquiet, hrest⟩ := hdue.iterate h n
    cases hms : ms.drop n with
    | nil =>
        rw [hms] at hrest
        cases (hrest.next_nil hquiet).symm.trans hnext
    | cons m rest =>
        rw [hms] at hrest
        obtain rfl := Decision.release.inj ((hrest.next_cons hquiet).symm.trans hnext)
        exact hrest.wait_mark hquiet
  · rw [hdue.next_iterate h, ← hdue.perm.length_eq, ← List.getElem?_eq_none_iff]
    cases ms[n]? with
    | none => exact iff_of_true rfl rfl
    | some m => exact iff_of_false Decision.noConfusion (Option.some_ne_none m)

/-- A primary, two members of which one is about to go, and one that nothing is wanted of. -/
def quartet : List Candidate :=
  [⟨"a", true, false, true, true, .finished⟩, ⟨"b", true, false, true, false, .notDraining⟩,
   ⟨"c", false, false, true, false, .finished⟩, ⟨"d", true, false, true, false, .acknowledged⟩]

theorem released_in_order_quartet : Quiet quartet ∧ releases 3 quartet = ["d", "b", "a"]
      ∧ next (mark "d" quartet) = .wait ∧ ∀ n, next (round^[n] quartet) = .done ↔ 3 ≤ n := by
  have hquiet : Quiet quartet := ⟨by decide, by decide, by decide⟩
  obtain ⟨-, hwait, hdone⟩ := released_in_order quartet hquiet
  exact ⟨hquiet, by decide, hwait 0 "d" (by decide), hdone⟩

end ControlLoop.Rollout
