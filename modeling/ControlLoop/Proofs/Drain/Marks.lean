/-
What the annotations of a member say after they were changed.

Which state the annotations describe is settled by three marks, present
or absent. Each operation of the protocol adds and removes some of
them, so what it makes of a state is read off the marks: a state that
is written is the one that is found afterwards, whatever was there
before (`state_apply`), clearing leaves nothing (`state_clear`), and a
request for a drain moves a member that is not draining and no other
(`state_start`). None of it touches the names or the version.
-/
import ControlLoop.Drain
import ControlLoop.Proofs.Object.Annotations

namespace ControlLoop.Drain

theorem marks_distinct : startedMark ≠ acknowledgedMark ∧ startedMark ≠ finishedMark
    ∧ acknowledgedMark ≠ finishedMark := by decide

-- ================================================ one mark at a time

/-- An acknowledgement is two marks, one after the other. -/
theorem acknowledge_eq (now : String) (m : Metadata) :
    acknowledge now m = (m.modifyAnnotations (·.insertIfNew startedMark "")).modifyAnnotations
      (·.insertIfNew acknowledgedMark now) := rfl

theorem apply_draining_eq (now : String) (m : Metadata) :
    apply now .draining m = start "" ((m.modifyAnnotations (·.erase acknowledgedMark)).modifyAnnotations
      (·.erase finishedMark)) := rfl

-- ============================================================ the states

/-- Whatever mark counts, clearing took it away. -/
theorem state_clear (m : Metadata) : state (clear m) = .ok .notDraining := by
  simp [state, clear, Metadata.isAnnotated_unannotate]

theorem state_apply (now : String) (s : DrainState) (m : Metadata) :
    state (apply now s m) = .ok s := by
  obtain ⟨hsa, hsf, haf⟩ := marks_distinct
  cases s with
  | notDraining => exact state_clear m
  | draining =>
      rw [apply_draining_eq]
      simp [state, start, Metadata.isAnnotated_modify_insertIfNew,
        Metadata.isAnnotated_modify_erase, hsa.symm, hsf.symm, haf]
  | acknowledged =>
      simp [state, apply, acknowledge_eq, Metadata.isAnnotated_modify_insertIfNew,
        Metadata.isAnnotated_modify_erase, hsf.symm, haf.symm]
  | finished =>
      simp [state, apply, finish, acknowledge_eq, Metadata.isAnnotated_modify_insertIfNew]

theorem state_start (reason : String) {m : Metadata} {s : DrainState} (h : state m = .ok s) :
    state (start reason m) = .ok (if s = .notDraining then .draining else s) := by
  obtain ⟨hsa, hsf, -⟩ := marks_distinct
  have hstarted : (start reason m).isAnnotated startedMark = true := by
    simp [start, Metadata.isAnnotated_modify_insertIfNew]
  have hother : ∀ k, k ≠ startedMark → (start reason m).isAnnotated k = m.isAnnotated k := by
    intro k hk
    simp [start, Metadata.isAnnotated_modify_insertIfNew, hk]
  unfold state at h ⊢
  rw [hother _ hsa.symm, hother _ hsf.symm, hstarted]
  cases ha : m.isAnnotated acknowledgedMark <;> cases hf : m.isAnnotated finishedMark <;>
    rw [ha, hf] at h
  · -- neither is there, so the first mark decides
    cases hs : m.isAnnotated startedMark <;> rw [hs] at h <;> cases h <;> rfl
  · cases h
  · cases h
    rfl
  · cases h
    rfl

-- ======================================================= what is kept

theorem key_apply (now : String) (s : DrainState) (m : Metadata) : (apply now s m).key = m.key := by
  cases s <;> rfl

theorem resourceVersion_apply (now : String) (s : DrainState) (m : Metadata) :
    (apply now s m).resourceVersion = m.resourceVersion := by
  cases s <;> rfl

/-- The state is read off the annotations, and only what is reported of wrong ones names the
member. -/
theorem state_congr {m m' : Metadata} (h : m'.annotations = m.annotations)
    (hk : m'.key = m.key) : state m' = state m := by
  unfold state invalidState Metadata.isAnnotated Metadata.annotationMap
  rw [h, hk]

end ControlLoop.Drain
