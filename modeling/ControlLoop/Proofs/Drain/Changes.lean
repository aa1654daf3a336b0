/-
Annotations tell the states of the drain protocol faithfully, whatever
else is there and whatever was there before.

# One annotation at a time

To each state belong some of the three marks, as many as the state has
come steps (`marks`). A state that is written leaves the marks that
belong to it, with the values that they have, adds those that are
missing, and takes the others away; no other annotation is touched
(`annotation?_apply`). So what is written can be written again without
a change (`apply_apply`), even at another time.

# Any sequence of changes

Each operation of the protocol makes one valid state of another
(`Change.leads`), so a valid state stays valid along any sequence of
operations (`state_makeAll`): the impossible combination of marks is
reached from none of them. The three operations that carry a drain on
do not move it backwards (`Change.rank_le_leads`).
-/
import ControlLoop.Object
import ControlLoop.Proofs.Drain.Marks

namespace ControlLoop.Drain

-- ========================================================== the marks

/-- The annotations that tell the state. -/
def stateMarks : List String := [startedMark, acknowledgedMark, finishedMark]

/-- The annotations that belong to a state: one for each step that the drain has come. -/
def marks (s : DrainState) : List String := stateMarks.take s.rank

/-- What is written under a mark that is missing. -/
def writtenMark (now k : String) : String := if k = startedMark then "" else now

theorem supportedMark_notMem_stateMarks : supportedMark ∉ stateMarks := by decide

theorem mem_stateMarks {k : String} :
    k ∈ stateMarks ↔ k = startedMark ∨ k = acknowledgedMark ∨ k = finishedMark := by
  simp [stateMarks]

theorem mem_marks_acknowledged {k : String} :
    k ∈ marks .acknowledged ↔ k = startedMark ∨ k = acknowledgedMark := by
  simp [marks, stateMarks, DrainState.rank]

-- ===================================================== one annotation

section

variable (now : String) (m : Metadata) (k : String)

/-- Clearing takes all marks away. -/
theorem annotation?_clear :
    (clear m).annotation? k = if k ∈ stateMarks then none else m.annotation? k := by
  unfold clear
  rw [Metadata.annotation?_unannotate, Metadata.annotation?_unannotate,
    Metadata.annotation?_unannotate]
  by_cases hs : k = startedMark
  · simp [stateMarks, hs]
  · by_cases ha : k = acknowledgedMark
    · simp [stateMarks, ha]
    · simp [stateMarks, hs, ha]

/-- An acknowledgement adds those of its two marks that are missing. -/
theorem annotation?_acknowledge :
    (acknowledge now m).annotation? k
      = if k ∈ marks .acknowledged then some ((m.annotation? k).getD (writtenMark now k))
        else m.annotation? k := by
  obtain ⟨hsa, -, -⟩ := marks_distinct
  rw [acknowledge_eq, Metadata.annotation?_modify_insertIfNew,
    Metadata.annotation?_modify_insertIfNew]
  by_cases hs : k = startedMark
  · subst hs
    simp [mem_marks_acknowledged, writtenMark, hsa]
  · by_cases ha : k = acknowledgedMark
    · subst ha
      simp [mem_marks_acknowledged, writtenMark, hs]
    · simp [mem_marks_acknowledged, hs, ha]

/-- The end of a drain adds those of all marks that are missing. -/
theorem annotation?_finish :
    (finish now m).annotation? k
      = if k ∈ stateMarks then some ((m.annotation? k).getD (writtenMark now k))
        else m.annotation? k := by
  obtain ⟨-, hsf, haf⟩ := marks_distinct
  unfold finish
  rw [Metadata.annotation?_modify_insertIfNew, annotation?_acknowledge]
  by_cases hf : k = finishedMark
  · subst hf
    simp [mem_stateMarks, mem_marks_acknowledged, writtenMark, hsf.symm, haf.symm]
  · simp [mem_stateMarks, mem_marks_acknowledged, hf]

/-- What is found under a name after a state was written. -/
theorem annotation?_apply (s : DrainState) :
    (apply now s m).annotation? k
      = if k ∈ marks s then some ((m.annotation? k).getD (writtenMark now k))
        else if k ∈ stateMarks then none
        else m.annotation? k := by
  obtain ⟨hsa, hsf, haf⟩ := marks_distinct
  cases s with
  | notDraining => exact annotation?_clear m k
  | draining =>
      rw [apply_draining_eq]
      unfold start
      rw [Metadata.annotation?_modify_insertIfNew, Metadata.annotation?_modify_erase,
        Metadata.annotation?_modify_erase]
      by_cases hs : k = startedMark
      · subst hs
        simp [marks, stateMarks, DrainState.rank, writtenMark, hsa, hsf]
      · by_cases hf : k = finishedMark
        · simp [marks, stateMarks, DrainState.rank, hf, hsf.symm]
        · simp [marks, stateMarks, DrainState.rank, hs, hf]
  | acknowledged =>
      show (acknowledge now (m.modifyAnnotations (·.erase finishedMark))).annotation? k = _
      rw [annotation?_acknowledge, Metadata.annotation?_modify_erase]
      by_cases hf : k = finishedMark
      · subst hf
        simp [mem_stateMarks, mem_marks_acknowledged, hsf.symm, haf.symm]
      · -- the other two belong to the state
        have hmarks : k ∈ stateMarks ↔ k ∈ marks .acknowledged := by
          simp [mem_stateMarks, mem_marks_acknowledged, hf]
        rw [if_neg hf]
        by_cases hk : k ∈ marks .acknowledged
        · rw [if_pos hk, if_pos hk]
        · rw [if_neg hk, if_neg hk, if_neg fun h => hk (hmarks.1 h)]
  | finished =>
      show (finish now m).annotation? k = if k ∈ stateMarks then _ else _
      rw [annotation?_finish]
      by_cases hk : k ∈ stateMarks
      · rw [if_pos hk, if_pos hk]
      · rw [if_neg hk, if_neg hk, if_neg hk]

end

-- ===================================================== a state applied

/-- The annotations are all that changes. -/
theorem apply_eq (now : String) (s : DrainState) (m : Metadata) :
    apply now s m = { m with annotations := (apply now s m).annotations } := by
  cases s <;> rfl

/-- A map of annotations is there afterwards unless there was none and none is needed. -/
theorem isSome_annotations_apply (now : String) (s : DrainState) (m : Metadata) :
    (apply now s m).annotations.isSome = (m.annotations.isSome || s != .notDraining) := by
  obtain ⟨_, _, _, _, _, _, annotations, _, _⟩ := m
  cases s <;> cases annotations <;> rfl

/-- A state that is written stays as it is when it is written again, at whatever time. -/
theorem apply_apply (now now' : String) (s : DrainState) (m : Metadata) :
    apply now' s (apply now s m) = apply now s m := by
  refine Metadata.ext_annotation? (apply_eq now' s _) ?_ fun k => ?_
  · rw [isSome_annotations_apply, isSome_annotations_apply, Bool.or_assoc, Bool.or_self]
  · rw [annotation?_apply, annotation?_apply]
    by_cases hk : k ∈ marks s
    · rw [if_pos hk, if_pos hk]
      rfl
    · rw [if_neg hk, if_neg hk]
      split
      · rfl
      · rfl

-- ============================================================ changes

/-- The operations of the protocol on a member. -/
inductive Change where
  | start (reason : String)
  | acknowledge (now : String)
  | finish (now : String)
  | clear
  | markSupported
  | apply (now : String) (s : DrainState)

namespace Change

def make : Change → Metadata → Metadata
  | .start reason => Drain.start reason
  | .acknowledge now => Drain.acknowledge now
  | .finish now => Drain.finish now
  | .clear => Drain.clear
  | .markSupported => Drain.markSupported
  | .apply now s => Drain.apply now s

/-- The operation carries a drain on. -/
def isForward : Change → Bool
  | .start _ | .acknowledge _ | .finish _ => true
  | .clear | .markSupported | .apply _ _ => false

/-- The state that an operation makes of a state. -/
def leads : Change → DrainState → DrainState
  | .start _, s => if s = .notDraining then .draining else s
  | .acknowledge _, s => if s = .finished then .finished else .acknowledged
  | .finish _, _ => .finished
  | .clear, _ => .notDraining
  | .markSupported, s => s
  | .apply _ t, _ => t

/-- An operation that carries a drain on moves no state backwards. -/
theorem rank_le_leads {c : Change} (h : c.isForward = true) (s : DrainState) :
    s.rank ≤ (c.leads s).rank := by
  cases c with
  | start reason => cases s <;> simp [leads, DrainState.rank]
  | acknowledge now => cases s <;> simp [leads, DrainState.rank]
  | finish now => cases s <;> simp [leads, DrainState.rank]
  | clear => cases h
  | markSupported => cases h
  | apply now t => cases h

end Change

/-- A mark that tells nothing of the state may come and go. -/
theorem state_markSupported (m : Metadata) : state (markSupported m) = state m := by
  have hother : ∀ k ∈ stateMarks, (markSupported m).isAnnotated k = m.isAnnotated k := by
    intro k hk
    have hne : k ≠ supportedMark := fun heq => supportedMark_notMem_stateMarks (heq ▸ hk)
    rw [Metadata.isAnnotated_eq, Metadata.isAnnotated_eq, markSupported,
      Metadata.annotation?_annotate, if_neg hne]
  unfold state
  rw [hother startedMark (by simp [stateMarks]), hother acknowledgedMark (by simp [stateMarks]),
    hother finishedMark (by simp [stateMarks])]
  rfl

theorem state_acknowledge (now : String) {m : Metadata} {s : DrainState} (h : state m = .ok s) :
    state (acknowledge now m) = .ok (if s = .finished then .finished else .acknowledged) := by
  obtain ⟨hsa, hsf, haf⟩ := marks_distinct
  have hfinished : (acknowledge now m).isAnnotated finishedMark = m.isAnnotated finishedMark := by
    simp [acknowledge_eq, Metadata.isAnnotated_modify_insertIfNew, hsf.symm, haf.symm]
  have hacknowledged : (acknowledge now m).isAnnotated acknowledgedMark = true := by
    simp [acknowledge_eq, Metadata.isAnnotated_modify_insertIfNew]
  unfold state at h ⊢
  rw [hfinished, hacknowledged]
  cases hf : m.isAnnotated finishedMark <;> cases ha : m.isAnnotated acknowledgedMark <;>
    rw [ha, hf] at h
  · -- neither is there, so the first mark decides
    cases hs : m.isAnnotated startedMark <;> rw [hs] at h <;> cases h <;> rfl
  · cases h
    rfl
  · cases h
  · cases h
    rfl

/-- One operation makes a valid state of a valid state. -/
theorem state_make (c : Change) {m : Metadata} {s : DrainState} (h : state m = .ok s) :
    state (c.make m) = .ok (c.leads s) := by
  cases c with
  | start reason => exact state_start reason h
  | acknowledge now => exact state_acknowledge now h
  | finish now => exact state_apply now .finished m
  | clear => exact state_clear m
  | markSupported => exact (state_markSupported m).trans h
  | apply now t => exact state_apply now t m

/-- One operation after the other. -/
def makeAll (changes : List Change) (m : Metadata) : Metadata :=
  changes.foldl (fun m c => c.make m) m

theorem state_makeAll (changes : List Change) {m : Metadata} {s : DrainState}
    (h : state m = .ok s) :
    state (makeAll changes m) = .ok (changes.foldl (fun s c => c.leads s) s) := by
  induction changes generalizing m s with
  | nil => exact h
  | cons c rest ih => exact ih (state_make c h)

-- ======================================================== all objects

/-- A state that is written is the one that is read, the rest of the object is as before, a value
that belongs to the state is never overwritten, and writing again changes nothing. From a valid
state on, no sequence of operations leads to an invalid one, and at no point of it does an
operation that carries a drain on move it backwards. -/
theorem states_told_by_annotations {β : Type} (o : Object β) :
    (∀ now s,
        state (o.modifyMetadata (apply now s)).metadata = .ok s
        ∧ (∃ annotations, o.modifyMetadata (apply now s)
            = { o with metadata := { o.metadata with annotations := annotations } })
        ∧ (∀ k, k ∉ stateMarks → (o.modifyMetadata (apply now s)).metadata.annotation? k
            = o.metadata.annotation? k)
        ∧ (∀ k ∈ marks s, ∀ v, o.metadata.annotation? k = some v →
            (o.modifyMetadata (apply now s)).metadata.annotation? k = some v)
        ∧ ∀ now', (o.modifyMetadata (apply now s)).modifyMetadata (apply now' s)
            = o.modifyMetadata (apply now s))
      ∧ ∀ s, state o.metadata = .ok s → ∀ changes,
        ∃ s', state (o.modifyMetadata (makeAll changes)).metadata = .ok s'
          ∧ ∀ c : Change, c.isForward = true →
            ∃ s'', state ((o.modifyMetadata (makeAll changes)).modifyMetadata c.make).metadata
                = .ok s''
              ∧ s'.rank ≤ s''.rank := by
  refine ⟨fun now s => ⟨state_apply now s o.metadata, ?_, fun k hk => ?_, fun k hk v hv => ?_,
    fun now' => ?_⟩, fun s hs changes => ?_⟩
  · refine ⟨(apply now s o.metadata).annotations, ?_⟩
    exact congrArg (fun m => { o with metadata := m }) (apply_eq now s o.metadata)
  · have hnot : k ∉ marks s := fun h => hk (List.mem_of_mem_take h)
    exact (annotation?_apply now o.metadata k s).trans (by rw [if_neg hnot, if_neg hk])
  · exact (annotation?_apply now o.metadata k s).trans (by rw [if_pos hk, hv]; rfl)
  · exact congrArg (fun m => { o with metadata := m }) (apply_apply now now' s o.metadata)
  · have hrun := state_makeAll changes hs
    exact ⟨_, hrun, fun c hc => ⟨_, state_make c hrun, Change.rank_le_leads hc _⟩⟩

/-- A member that waits for leave to go, and why it is asked to. -/
def waitingMember : Object Unit :=
  ⟨{ Metadata.empty with
      annotations := some (.ofList [(startedMark, "upgrade"), (acknowledgedMark, "at noon")]) }, ()⟩

/-- The member is taken back, asked again and given leave in the end. -/
theorem states_told_of_waitingMember :
    state waitingMember.metadata = .ok .acknowledged
      ∧ ∃ s', state (waitingMember.modifyMetadata (makeAll [.clear, .markSupported,
            .start "again", .finish "at night"])).metadata = .ok s'
          ∧ ∀ c : Change, c.isForward = true →
            ∃ s'', state ((waitingMember.modifyMetadata (makeAll [.clear, .markSupported,
                .start "again", .finish "at night"])).modifyMetadata c.make).metadata = .ok s''
              ∧ s'.rank ≤ s''.rank := by
  have hstate : state waitingMember.metadata = .ok .acknowledged := rfl
  exact ⟨hstate, (states_told_by_annotations waitingMember).2 .acknowledged hstate
    [.clear, .markSupported, .start "again", .finish "at night"]⟩

end ControlLoop.Drain
