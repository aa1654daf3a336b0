/-
What a store in memory answers to a write.

A write is taken, or it is refused with an error and leaves everything
as it was (`after_of_fault?`). The errors are of three kinds
(`fault?_cases`): the store could not be reached, there was a conflict,
or nothing was found.

What a write leaves under a key depends on nothing but the object that
is there and the failures that the key is to meet. If its writes are
made to fail, the key keeps what it holds (`object?_after_of_refused`);
if not, two stores that hold the same object there hold the same
afterwards, but for versions and ids that they gave out
(`alike_after`).
-/
import ControlLoop.Proofs.Store.Traced

namespace ControlLoop

variable {β : Type}

/-- The error of a call, if it failed. -/
def faultOf {α : Type} : Except Error α → Option Error
  | .ok _ => none
  | .error e => some e

/-- The same object or none, but for the version that a write gave it and for the unique id that was
made for it as a new object. -/
inductive Alike : Option (Object β) → Option (Object β) → Prop
  | same (found : Option (Object β)) : Alike found found
  | replaced (o : Object β) (v v' : String) : Alike (some (o.atVersion v)) (some (o.atVersion v'))
  | created (o : Object β) (v v' u u' : String) :
      Alike (some (o.asCreated v u)) (some (o.asCreated v' u'))

namespace Memory

/-- The error with which a write is refused, if it is. -/
def fault? (m : Memory β) : Write β → Option Error
  | .create o => faultOf (m.create o).1
  | .replace o => faultOf (m.replace o).1
  | .delete k _ => faultOf (m.delete k).1

theorem refusal?_cases {m : Memory β} {k : Key} {e : Error} (h : m.refusal? k = some e) :
    e = .unavailable k.text ∨ e = .conflict k.text := by
  unfold refusal? at h
  split at h
  · exact Or.inl (Option.some.inj h).symm
  · split at h
    · exact Or.inr (Option.some.inj h).symm
    · cases h

-- ============================================================= refused

section

variable {m : Memory β} {w : Write β}

/-- A refused write changes nothing. -/
theorem after_of_fault? {e : Error} (h : m.fault? w = some e) : m.after w = m := by
  cases w with
  | create o =>
      rw [after]
      rcases m.create_cases o with ⟨e', -, hc⟩ | ⟨-, -, hc⟩ | ⟨-, -, hc⟩
      · rw [hc]
      · rw [hc]
      · rw [fault?, hc] at h
        cases h
  | replace o =>
      rw [after]
      rcases m.replace_cases o with ⟨e', -, hc⟩ | ⟨-, -, hc⟩ | ⟨-, -, hc⟩ | ⟨-, -, hc⟩
      · rw [hc]
      · rw [hc]
      · rw [hc]
      · rw [fault?, hc] at h
        cases h
  | delete k p =>
      rw [after]
      rcases m.delete_cases k with ⟨e', -, hc⟩ | ⟨-, -, hc⟩ | ⟨-, -, hc⟩
      · rw [hc]
      · rw [hc]
      · rw [fault?, hc] at h
        cases h

/-- If the writes to a key are made to fail, every write leaves what is under it. -/
theorem object?_after_of_refused {k : Key} {e : Error} (h : m.refusal? k = some e) (w : Write β) :
    (m.after w).object? k = m.object? k := by
  by_cases hk : k = w.key
  · subst hk
    rw [after_of_fault? (e := e)]
    cases w with
    | create o => rw [fault?, create, show m.refusal? o.key = some e from h]; rfl
    | replace o => rw [fault?, replace, show m.refusal? o.key = some e from h]; rfl
    | delete k p => rw [fault?, delete, show m.refusal? k = some e from h]; rfl
  · exact (agreesExcept_after m w).object? hk

end

-- ============================================================ the errors

section

variable {m : Memory β} {e : Error}

/-- A creation is refused as the store is asked to, or as a conflict with the object that has the
name. -/
theorem fault?_create {o : Object β} (h : m.fault? (.create o) = some e) :
    m.refusal? o.key = some e
      ∨ ((∃ holder, m.object? o.key = some holder) ∧ ∃ what, e = .conflict what) := by
  rcases m.create_cases o with ⟨e', hr, hc⟩ | ⟨-, hh, hc⟩ | ⟨-, -, hc⟩ <;> rw [fault?, hc] at h
  · obtain rfl := Option.some.inj h
    exact Or.inl hr
  · exact Or.inr ⟨hh, _, (Option.some.inj h).symm⟩
  · cases h

/-- A replacement is refused as the store is asked to, because there is nothing, or because there is
another version. -/
theorem fault?_replace {o : Object β} (h : m.fault? (.replace o) = some e) :
    m.refusal? o.key = some e ∨ (m.object? o.key = none ∧ ∃ what, e = .notFound what)
      ∨ ∃ what, e = .conflict what := by
  rcases m.replace_cases o with ⟨e', hr, hc⟩ | ⟨-, hnone, hc⟩ | ⟨-, -, hc⟩ | ⟨-, -, hc⟩ <;>
    rw [fault?, hc] at h
  · obtain rfl := Option.some.inj h
    exact Or.inl hr
  · exact Or.inr (Or.inl ⟨hnone, _, (Option.some.inj h).symm⟩)
  · exact Or.inr (Or.inr ⟨_, (Option.some.inj h).symm⟩)
  · cases h

/-- A deletion is refused as the store is asked to, or because there is nothing. -/
theorem fault?_delete {k : Key} {p : Propagation} (h : m.fault? (.delete k p) = some e) :
    m.refusal? k = some e ∨ (m.object? k = none ∧ ∃ what, e = .notFound what) := by
  rcases m.delete_cases k with ⟨e', hr, hc⟩ | ⟨-, hnone, hc⟩ | ⟨-, -, hc⟩ <;> rw [fault?, hc] at h
  · obtain rfl := Option.some.inj h
    exact Or.inl hr
  · exact Or.inr ⟨hnone, _, (Option.some.inj h).symm⟩
  · cases h

/-- A write is refused because the store could not be reached, or because someone else was
faster. -/
theorem fault?_cases {w : Write β} (h : m.fault? w = some e) :
    (∃ what, e = .unavailable what) ∨ (∃ what, e = .conflict what)
      ∨ ∃ what, e = .notFound what := by
  have hrefused : ∀ {k}, m.refusal? k = some e →
      (∃ what, e = .unavailable what) ∨ (∃ what, e = .conflict what)
        ∨ ∃ what, e = .notFound what := fun hr =>
    (refusal?_cases hr).imp (fun he => ⟨_, he⟩) fun he => Or.inl ⟨_, he⟩
  cases w with
  | create o =>
      rcases fault?_create h with hr | ⟨-, hwhat⟩
      · exact hrefused hr
      · exact Or.inr (Or.inl hwhat)
  | replace o =>
      rcases fault?_replace h with hr | ⟨-, hwhat⟩ | hwhat
      · exact hrefused hr
      · exact Or.inr (Or.inr hwhat)
      · exact Or.inr (Or.inl hwhat)
  | delete k p =>
      rcases fault?_delete h with hr | ⟨-, hwhat⟩
      · exact hrefused hr
      · exact Or.inr (Or.inr hwhat)

end

-- ============================================================= taken

section

variable {m : Memory β}

/-- A creation that is taken leaves the new object. -/
theorem object?_of_created {o : Object β} (h : m.fault? (.create o) = none) :
    ∃ v u, (m.after (.create o)).object? o.key = some (o.asCreated v u) := by
  rcases m.create_cases o with ⟨e, -, hc⟩ | ⟨-, -, hc⟩ | ⟨-, -, hc⟩
  · rw [fault?, hc] at h
    cases h
  · rw [fault?, hc] at h
    cases h
  · rw [after, hc]
    exact ⟨_, _, object?_put_self m (m.identify (m.stamp o))⟩

/-- A replacement that is taken leaves the object at another version. -/
theorem object?_of_replaced {o : Object β} (h : m.fault? (.replace o) = none) :
    ∃ v, (m.after (.replace o)).object? o.key = some (o.atVersion v) := by
  rcases m.replace_cases o with ⟨e, -, hc⟩ | ⟨-, -, hc⟩ | ⟨-, -, hc⟩ | ⟨-, -, hc⟩
  · rw [fault?, hc] at h
    cases h
  · rw [fault?, hc] at h
    cases h
  · rw [fault?, hc] at h
    cases h
  · rw [after, hc]
    exact ⟨_, object?_put_self m (m.stamp o)⟩

/-- A deletion that is taken leaves nothing. -/
theorem object?_of_deleted {k : Key} {p : Propagation} (h : m.fault? (.delete k p) = none) :
    (m.after (.delete k p)).object? k = none := by
  rcases m.delete_cases k with ⟨e, -, hc⟩ | ⟨-, hnone, hc⟩ | ⟨-, -, hc⟩
  · rw [fault?, hc] at h
    cases h
  · rw [fault?, hc] at h
    cases h
  · rw [after, hc]
    exact SortedMap.get?_erase_self _ _

/-- A write that is taken is remembered. -/
theorem log_after_of_taken {w : Write β} (h : m.fault? w = none) :
    (m.after w).log = m.log ++ [(w.kind, w.key)] := by
  cases w with
  | create o =>
      rcases m.create_cases o with ⟨e, -, hc⟩ | ⟨-, -, hc⟩ | ⟨-, -, hc⟩
      · rw [fault?, hc] at h
        cases h
      · rw [fault?, hc] at h
        cases h
      · rw [after, hc]
        rfl
  | replace o =>
      rcases m.replace_cases o with ⟨e, -, hc⟩ | ⟨-, -, hc⟩ | ⟨-, -, hc⟩ | ⟨-, -, hc⟩
      · rw [fault?, hc] at h
        cases h
      · rw [fault?, hc] at h
        cases h
      · rw [fault?, hc] at h
        cases h
      · rw [after, hc]
        rfl
  | delete k p =>
      rcases m.delete_cases k with ⟨e, -, hc⟩ | ⟨-, -, hc⟩ | ⟨-, -, hc⟩
      · rw [fault?, hc] at h
        cases h
      · rw [fault?, hc] at h
        cases h
      · rw [after, hc]
        rfl

/-- A replacement is taken only where its version is stored. -/
theorem exists_holder_of_replaced {o : Object β} (h : m.fault? (.replace o) = none) :
    ∃ holder, m.object? o.key = some holder
      ∧ o.metadata.resourceVersion = holder.metadata.resourceVersion := by
  rcases m.replace_cases o with ⟨e, -, hc⟩ | ⟨-, -, hc⟩ | ⟨-, -, hc⟩ | ⟨-, hholder, hc⟩
  · rw [fault?, hc] at h
    cases h
  · rw [fault?, hc] at h
    cases h
  · rw [fault?, hc] at h
    cases h
  · exact hholder

/-- Where no write is made to fail, a write is answered alike by two stores that hold the same
object there. -/
theorem fault?_congr {m' : Memory β} {w : Write β} (hsame : m'.object? w.key = m.object? w.key)
    (hr : m.refusal? w.key = none) (hr' : m'.refusal? w.key = none) :
    m'.fault? w = m.fault? w := by
  cases w with
  | create o =>
      have hcontains : m'.objects.contains o.key = m.objects.contains o.key := by
        rw [SortedMap.contains_eq, SortedMap.contains_eq]
        exact congrArg Option.isSome hsame
      simp only [fault?, create, show m.refusal? o.key = none from hr,
        show m'.refusal? o.key = none from hr', hcontains]
      split <;> rfl
  | replace o =>
      simp only [fault?, replace, show m.refusal? o.key = none from hr,
        show m'.refusal? o.key = none from hr',
        show m'.objects.get? o.key = m.objects.get? o.key from hsame]
      cases m.objects.get? o.key with
      | none => rfl
      | some current =>
          dsimp only
          split <;> rfl
  | delete k p =>
      have hcontains : m'.objects.contains k = m.objects.contains k := by
        rw [SortedMap.contains_eq, SortedMap.contains_eq]
        exact congrArg Option.isSome hsame
      simp only [fault?, delete, show m.refusal? k = none from hr,
        show m'.refusal? k = none from hr', hcontains]
      split <;> rfl

/-- Two stores that hold the same object under a key, and are not made to fail there, hold alike
after the same write. -/
theorem alike_after {m' : Memory β} {k : Key} (hsame : m'.object? k = m.object? k)
    (hr : m.refusal? k = none) (hr' : m'.refusal? k = none) (w : Write β) :
    Alike ((m.after w).object? k) ((m'.after w).object? k) := by
  by_cases hk : k = w.key
  · subst hk
    have hfault := fault?_congr hsame hr hr'
    cases he : m.fault? w with
    | some e =>
        rw [he] at hfault
        rw [after_of_fault? he, after_of_fault? hfault, hsame]
        exact .same _
    | none =>
        rw [he] at hfault
        cases w with
        | create o =>
            obtain ⟨v, u, hnew⟩ := object?_of_created he
            obtain ⟨v', u', hnew'⟩ := object?_of_created hfault
            rw [show (Write.create o).key = o.key from rfl, hnew, hnew']
            exact .created o v v' u u'
        | replace o =>
            obtain ⟨v, hnew⟩ := object?_of_replaced he
            obtain ⟨v', hnew'⟩ := object?_of_replaced hfault
            rw [show (Write.replace o).key = o.key from rfl, hnew, hnew']
            exact .replaced o v v'
        | delete k p =>
            rw [show (Write.delete k p : Write β).key = k from rfl, object?_of_deleted he,
              object?_of_deleted hfault]
            exact .same none
  · rw [(agreesExcept_after m w).object? hk, (agreesExcept_after m' w).object? hk, hsame]
    exact .same _

end

end Memory

end ControlLoop
