/-
What is found among annotations that were changed.

Reading an annotation sees through the map that may be absent: setting
one is found under its own name and nowhere else, and removing one takes
that one away, whether there is a map or not.
-/
import ControlLoop.Object
import ControlLoop.Proofs.SortedMap
import ControlLoop.Rollout

namespace ControlLoop

namespace Metadata

theorem isAnnotated_eq (m : Metadata) (k : String) : m.isAnnotated k = (m.annotation? k).isSome :=
  SortedMap.contains_eq _ _

theorem annotation?_of_not_isAnnotated {m : Metadata} {k : String} (h : m.isAnnotated k = false) :
    m.annotation? k = none := by
  rw [isAnnotated_eq, Option.isSome_eq_false_iff, Option.isNone_iff_eq_none] at h
  exact h

/-- An annotation that is set is found, and the others are as before. -/
theorem annotation?_annotate (m : Metadata) (mark v k : String) :
    (m.annotate mark v).annotation? k = if k = mark then some v else m.annotation? k := by
  show (m.annotationMap.insert mark v).get? k = _
  by_cases hk : k = mark
  · rw [if_pos hk, hk, SortedMap.get?_insert_self]
  · rw [if_neg hk, SortedMap.get?_insert_of_ne _ _ hk]
    rfl

/-- An annotation that is removed is gone, and the others are as before. -/
theorem annotation?_unannotate (m : Metadata) (mark k : String) :
    (m.unannotate mark).annotation? k = if k = mark then none else m.annotation? k := by
  obtain ⟨_, _, _, _, _, _, annotations, _, _⟩ := m
  by_cases hk : k = mark
  · subst hk
    rw [if_pos rfl]
    rcases annotations with _ | marks
    · rfl
    · exact SortedMap.get?_erase_self marks k
  · rw [if_neg hk]
    rcases annotations with _ | marks
    · rfl
    · exact SortedMap.get?_erase_of_ne marks hk

/-- An annotation that is set where it is missing keeps the value that it has. -/
theorem annotation?_modify_insertIfNew (m : Metadata) (mark v k : String) :
    (m.modifyAnnotations (·.insertIfNew mark v)).annotation? k
      = if k = mark then some ((m.annotation? k).getD v) else m.annotation? k := by
  show (if m.isAnnotated mark = true then m.annotationMap
    else m.annotationMap.insert mark v).get? k = _
  by_cases hold : m.isAnnotated mark = true
  · obtain ⟨a, ha⟩ := Option.isSome_iff_exists.1 (m.isAnnotated_eq mark ▸ hold)
    rw [if_pos hold]
    by_cases hk : k = mark
    · rw [if_pos hk, hk, ha]
      exact ha
    · rw [if_neg hk]
      rfl
  · have hnone := annotation?_of_not_isAnnotated (Bool.eq_false_iff.2 hold)
    rw [if_neg hold]
    by_cases hk : k = mark
    · rw [if_pos hk, hk, hnone, SortedMap.get?_insert_self]
      rfl
    · rw [if_neg hk, SortedMap.get?_insert_of_ne _ _ hk]
      rfl

theorem annotation?_modify_erase (m : Metadata) (mark k : String) :
    (m.modifyAnnotations (·.erase mark)).annotation? k
      = if k = mark then none else m.annotation? k := by
  show (m.annotationMap.erase mark).get? k = _
  by_cases hk : k = mark
  · rw [if_pos hk, hk, SortedMap.get?_erase_self]
  · rw [if_neg hk, SortedMap.get?_erase_of_ne _ hk]
    rfl

/-- Metadata are the same if they differ in annotations at most and the same are found. -/
theorem ext_annotation? {m m' : Metadata} (hrest : m' = { m with annotations := m'.annotations })
    (hsome : m'.annotations.isSome = m.annotations.isSome)
    (h : ∀ k, m'.annotation? k = m.annotation? k) : m' = m := by
  have hsame : m'.annotations = m.annotations := by
    unfold annotation? annotationMap at h
    cases ha : m.annotations with
    | none =>
        rw [ha] at hsome
        exact Option.isNone_iff_eq_none.1 (Option.isSome_eq_false_iff.1 hsome)
    | some marks =>
        rw [ha] at hsome h
        obtain ⟨marks', hmarks'⟩ := Option.isSome_iff_exists.1 hsome
        rw [hmarks'] at h ⊢
        exact congrArg some (SortedMap.ext_get? h)
  rw [hrest, hsame]

theorem isAnnotated_modify_insertIfNew (m : Metadata) (mark v k : String) :
    (m.modifyAnnotations (·.insertIfNew mark v)).isAnnotated k
      = (decide (k = mark) || m.isAnnotated k) := by
  rw [isAnnotated_eq, isAnnotated_eq, annotation?_modify_insertIfNew]
  by_cases hk : k = mark <;> simp [hk]

theorem isAnnotated_modify_erase (m : Metadata) (mark k : String) :
    (m.modifyAnnotations (·.erase mark)).isAnnotated k
      = (!decide (k = mark) && m.isAnnotated k) := by
  rw [isAnnotated_eq, isAnnotated_eq, annotation?_modify_erase]
  by_cases hk : k = mark <;> simp [hk]

theorem isAnnotated_unannotate (m : Metadata) (mark k : String) :
    (m.unannotate mark).isAnnotated k = (!decide (k = mark) && m.isAnnotated k) := by
  rw [isAnnotated_eq, isAnnotated_eq, annotation?_unannotate]
  by_cases hk : k = mark <;> simp [hk]

theorem unannotate_of_annotation?_eq_none {m : Metadata} {mark : String}
    (h : m.annotation? mark = none) : m.unannotate mark = m := by
  obtain ⟨_, _, _, _, _, _, annotations, _, _⟩ := m
  rcases annotations with _ | marks
  · rfl
  · have hmarks : marks.get? mark = none := h
    simp only [unannotate, Option.map_some, SortedMap.erase_of_get?_eq_none hmarks]

end Metadata

namespace Rollout

theorem releasedMark_ne_scheduledMark : releasedMark ≠ scheduledMark := by decide

theorem isScheduled_release (m : Metadata) : isScheduled (release m) = isScheduled m := by
  rw [isScheduled, isScheduled, release, Metadata.isAnnotated_eq, Metadata.isAnnotated_eq,
    Metadata.annotation?_annotate, if_neg releasedMark_ne_scheduledMark.symm]

theorem unschedule_of_not_isScheduled {m : Metadata} (h : isScheduled m = false) :
    unschedule m = m :=
  Metadata.unannotate_of_annotation?_eq_none (Metadata.annotation?_of_not_isAnnotated h)

theorem unrelease_of_not_isReleased {m : Metadata} (h : isReleased m = false) :
    unrelease m = m :=
  Metadata.unannotate_of_annotation?_eq_none (Metadata.annotation?_of_not_isAnnotated h)

theorem isReleased_unrelease (m : Metadata) : isReleased (unrelease m) = false := by
  rw [isReleased, unrelease, Metadata.isAnnotated_eq, Metadata.annotation?_unannotate, if_pos rfl]
  rfl

theorem isReleased_schedule (d : String) (m : Metadata) :
    isReleased (schedule d m) = isReleased m := by
  rw [isReleased, isReleased, schedule, Metadata.isAnnotated_eq, Metadata.isAnnotated_eq,
    Metadata.annotation?_annotate, if_neg releasedMark_ne_scheduledMark]

end Rollout

end ControlLoop
