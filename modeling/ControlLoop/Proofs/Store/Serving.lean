/-
Whatever is asked of a store in memory, one call after the other.

# Calls

Callers put objects into the store, create, replace and delete them, and
ask for writes to fail or for all failures to end (`Call`). A call is
answered with the object that it stored, if it stored one, or with an
error (`serve`).

# What one call does

A refused call leaves the store as it was (`serve_of_error`). A call that
is taken changes what is stored under its own key and nothing else, and a
write among them is noted in the log (`serve_of_ok`). An object that is
handed out carries the version that was next, and that version is used
up by it (`version_of_handed`).

# What many calls come to

So in a store that calls lead to, versions count up, and who finds a
version again finds the object that it was given out for (`Memory.Since`).
This is why of all replacements that are based on one version at most one
is taken (`not_replaced_twice`). Which names fail follows from the calls
alone (`MadeToFail`).
-/
import ControlLoop.Proofs.Store.Since
import Mathlib.Data.List.Induction

namespace ControlLoop.Memory

variable {β : Type}

-- =============================================================== calls

/-- What can be asked of a store in memory. -/
inductive Call (β : Type) where
  /-- To put an object into it without a write being made. -/
  | seed (o : Object β)
  | create (o : Object β)
  | replace (o : Object β)
  | delete (k : Key)
  | failWrites (name : String)
  | conflictWrites (name : String)
  | failLists
  | heal

/-- The key that a call is about. -/
def Call.key? : Call β → Option Key
  | .seed o => some o.key
  | .create o => some o.key
  | .replace o => some o.key
  | .delete k => some k
  | .failWrites _ => none
  | .conflictWrites _ => none
  | .failLists => none
  | .heal => none

/-- What the log says of a call that was taken. -/
def Call.logged : Call β → List (WriteKind × Key)
  | .create o => [(.create, o.key)]
  | .replace o => [(.replace, o.key)]
  | .delete k => [(.delete, k)]
  | _ => []

/-- Serve a call: the object that it stored, if it stored one, or the error, and the store
afterwards. -/
def serve (m : Memory β) : Call β → Except Error (Option (Object β)) × Memory β
  | .seed o => (.ok (some (m.seed o).1), (m.seed o).2)
  | .create o => ((m.create o).1.map some, (m.create o).2)
  | .replace o => ((m.replace o).1.map some, (m.replace o).2)
  | .delete k => ((m.delete k).1.map fun _ => none, (m.delete k).2)
  | .failWrites name => (.ok none, m.failWrites name)
  | .conflictWrites name => (.ok none, m.conflictWrites name)
  | .failLists => (.ok none, m.failLists)
  | .heal => (.ok none, m.heal)

/-- The store after calls, from the empty one on. -/
def afterCalls (calls : List (Call β)) : Memory β := calls.foldl (fun m c => (m.serve c).2) empty

theorem afterCalls_concat (calls : List (Call β)) (c : Call β) :
    afterCalls (calls ++ [c]) = ((afterCalls calls).serve c).2 := by
  unfold afterCalls
  rw [List.foldl_append]
  rfl

/-- Writes to a name were asked to fail, and not to be well again since. -/
def MadeToFail (calls : List (Call β)) (name : String) : Prop :=
  ∃ front c back, calls = front ++ c :: back
    ∧ (c = .failWrites name ∨ c = .conflictWrites name) ∧ .heal ∉ back

-- ============================================================ one call

section

variable {m : Memory β} {c : Call β}

/-- The ends of a call: it is refused and changes nothing, it hands out an object that is stored from
then on, or it hands out nothing. -/
theorem serve_cases (m : Memory β) (c : Call β) :
    (∃ e, m.serve c = (.error e, m))
      ∨ (∃ o, m.serve c = (.ok (some o), { m.put o with log := m.log ++ c.logged })
        ∧ c.key? = some o.key ∧ o.metadata.resourceVersion = some (versionText m.nextVersion))
      ∨ (∃ k o, c = .delete k ∧ m.object? k = some o
        ∧ m.serve c
          = (.ok none, { m with objects := m.objects.erase k, log := m.log ++ c.logged }))
      ∨ (c.key? = none ∧ (m.serve c).1 = .ok none ∧ c.logged = []
        ∧ (m.serve c).2.objects = m.objects ∧ (m.serve c).2.nextVersion = m.nextVersion
        ∧ (m.serve c).2.log = m.log) := by
  cases c with
  | seed o =>
      refine Or.inr (Or.inl ⟨m.stamp o, ?_, rfl, rfl⟩)
      simp only [serve, seed, Call.logged, List.append_nil]
      rfl
  | create o =>
      rcases m.create_cases o with ⟨e, -, h⟩ | ⟨-, -, h⟩ | ⟨-, -, h⟩ <;>
        simp only [serve, h]
      · exact Or.inl ⟨e, rfl⟩
      · exact Or.inl ⟨_, rfl⟩
      · exact Or.inr (Or.inl ⟨_, rfl, rfl, rfl⟩)
  | replace o =>
      rcases m.replace_cases o with ⟨e, -, h⟩ | ⟨-, -, h⟩ | ⟨-, -, h⟩ | ⟨-, -, h⟩ <;>
        simp only [serve, h]
      · exact Or.inl ⟨e, rfl⟩
      · exact Or.inl ⟨_, rfl⟩
      · exact Or.inl ⟨_, rfl⟩
      · exact Or.inr (Or.inl ⟨_, rfl, rfl, rfl⟩)
  | delete k =>
      rcases m.delete_cases k with ⟨e, -, h⟩ | ⟨-, -, h⟩ | ⟨-, ⟨o, ho⟩, h⟩ <;>
        simp only [serve, h]
      · exact Or.inl ⟨e, rfl⟩
      · exact Or.inl ⟨_, rfl⟩
      · exact Or.inr (Or.inr (Or.inl ⟨k, o, rfl, ho, rfl⟩))
  | failWrites name => exact Or.inr (Or.inr (Or.inr ⟨rfl, rfl, rfl, rfl, rfl, rfl⟩))
  | conflictWrites name => exact Or.inr (Or.inr (Or.inr ⟨rfl, rfl, rfl, rfl, rfl, rfl⟩))
  | failLists => exact Or.inr (Or.inr (Or.inr ⟨rfl, rfl, rfl, rfl, rfl, rfl⟩))
  | heal => exact Or.inr (Or.inr (Or.inr ⟨rfl, rfl, rfl, rfl, rfl, rfl⟩))

/-- A refused call leaves the store as it was. -/
theorem serve_of_error {e : Error} (h : (m.serve c).1 = .error e) : (m.serve c).2 = m := by
  rcases m.serve_cases c with ⟨e', hc⟩ | ⟨o, hc, -, -⟩ | ⟨k, o, -, -, hc⟩ | ⟨-, hc, -⟩
  · rw [hc]
  · rw [hc] at h
    cases h
  · rw [hc] at h
    cases h
  · rw [hc] at h
    cases h

/-- A creation is taken where the name is free. -/
theorem created_iff {o : Object β} :
    (∃ stored, (m.serve (.create o)).1 = .ok (some stored))
      ↔ m.refusal? o.key = none ∧ m.object? o.key = none := by
  rcases m.create_cases o with ⟨e, he, h⟩ | ⟨-, ⟨holder, hh⟩, h⟩ | ⟨hfree, hnone, h⟩ <;>
    simp only [serve, h]
  · exact iff_of_false (fun ⟨_, h⟩ => by cases h) fun hr => by
      rw [he] at hr
      cases hr.1
  · exact iff_of_false (fun ⟨_, h⟩ => by cases h) fun hr => by
      rw [hh] at hr
      cases hr.2
  · exact iff_of_true ⟨_, rfl⟩ ⟨hfree, hnone⟩

/-- A replacement is taken where its version is stored. -/
theorem replaced_iff {o : Object β} :
    (∃ stored, (m.serve (.replace o)).1 = .ok (some stored))
      ↔ m.refusal? o.key = none ∧ ∃ holder, m.object? o.key = some holder
        ∧ o.metadata.resourceVersion = holder.metadata.resourceVersion := by
  rcases m.replace_cases o with ⟨e, he, h⟩ | ⟨-, hnone, h⟩ | ⟨-, ⟨holder, hh, hne⟩, h⟩
    | ⟨hfree, hholder, h⟩ <;> simp only [serve, h]
  · exact iff_of_false (fun ⟨_, h⟩ => by cases h) fun hr => by
      rw [he] at hr
      cases hr.1
  · refine iff_of_false (fun ⟨_, h⟩ => by cases h) ?_
    rintro ⟨-, holder, hh, -⟩
    rw [hnone] at hh
    cases hh
  · refine iff_of_false (fun ⟨_, h⟩ => by cases h) ?_
    rintro ⟨-, holder', hh', heq⟩
    rw [hh] at hh'
    obtain rfl := Option.some.inj hh'
    exact hne heq
  · exact iff_of_true ⟨_, rfl⟩ ⟨hfree, hholder⟩

/-- A deletion is taken where there is something. -/
theorem deleted_iff {k : Key} :
    (m.serve (.delete k)).1 = .ok none
      ↔ m.refusal? k = none ∧ ∃ o, m.object? k = some o := by
  rcases m.delete_cases k with ⟨e, he, h⟩ | ⟨-, hnone, h⟩ | ⟨hfree, hthere, h⟩ <;>
    simp only [serve, h]
  · exact iff_of_false (fun h => by cases h) fun hr => by
      rw [he] at hr
      cases hr.1
  · refine iff_of_false (fun h => by cases h) ?_
    rintro ⟨-, o, ho⟩
    rw [hnone] at ho
    cases ho
  · exact iff_of_true rfl ⟨hfree, hthere⟩

/-- A version that is still to come is on no object. -/
theorem Sound.ne_next (hm : m.Sound) {k : Key} {o : Object β} (ho : m.object? k = some o) :
    o.metadata.resourceVersion ≠ some (versionText m.nextVersion) := by
  intro hv
  obtain ⟨n, hlt, hv'⟩ := hm.numbered ho
  rw [hv', Option.some.injEq] at hv
  have := versionText_inj hv
  omega

/-- A call that is taken is noted in the log if it is a write, and changes what is stored under its
own key and nothing else. -/
theorem serve_of_ok (hm : m.Sound) {answer : Option (Object β)}
    (h : (m.serve c).1 = .ok answer) :
    (m.serve c).2.log = m.log ++ c.logged
      ∧ ∀ k, (m.serve c).2.object? k = m.object? k ↔ c.key? ≠ some k := by
  rcases m.serve_cases c with ⟨e', hc⟩ | ⟨o, hc, hk, hv⟩ | ⟨k, o, rfl, ho, hc⟩
    | ⟨hk, -, hlog, hobjects, -, hsame⟩
  · rw [hc] at h
    cases h
  · rw [hc, hk]
    refine ⟨rfl, fun k => ?_⟩
    by_cases heq : k = o.key
    · -- what is stored there now has a version that was on no object
      subst heq
      refine iff_of_false (fun hsame => ?_) (not_not_intro rfl)
      exact hm.ne_next (hsame.symm.trans (object?_put_self m o)) hv
    · refine iff_of_true (object?_put_of_ne m o heq) fun hsome => heq ?_
      exact (Option.some.inj hsome).symm
  · rw [hc]
    refine ⟨rfl, fun k' => ?_⟩
    by_cases heq : k' = k
    · subst heq
      refine iff_of_false (fun hsame => ?_) (not_not_intro rfl)
      have hgone : (m.objects.erase k').get? k' = some o := hsame.trans ho
      rw [SortedMap.get?_erase_self] at hgone
      cases hgone
    · refine iff_of_true (SortedMap.get?_erase_of_ne _ heq) fun hsome => heq ?_
      exact (Option.some.inj hsome).symm
  · refine ⟨by rw [hsame, hlog, List.append_nil], fun k => iff_of_true ?_ ?_⟩
    · exact congrArg (·.get? k) hobjects
    · rw [hk]
      exact Option.some_ne_none k |>.symm

/-- An object that is handed out carries the version that was next and uses it up. -/
theorem version_of_handed {o : Object β} (h : (m.serve c).1 = .ok (some o)) :
    o.metadata.resourceVersion = some (versionText m.nextVersion)
      ∧ (m.serve c).2.nextVersion = m.nextVersion + 1 ∧ (m.serve c).2.object? o.key = some o := by
  rcases m.serve_cases c with ⟨e', hc⟩ | ⟨o', hc, -, hv⟩ | ⟨k, o', -, -, hc⟩ | ⟨-, hc, -⟩
  · rw [hc] at h
    cases h
  · rw [hc] at h ⊢
    obtain rfl := Option.some.inj (Except.ok.inj h)
    exact ⟨hv, rfl, object?_put_self m o'⟩
  · rw [hc] at h
    cases h
  · rw [hc] at h
    cases h

/-- A call uses up one version at most. -/
theorem nextVersion_serve_le (m : Memory β) (c : Call β) :
    (m.serve c).2.nextVersion ≤ m.nextVersion + 1 := by
  rcases m.serve_cases c with ⟨e', hc⟩ | ⟨o', hc, -, -⟩ | ⟨k, o', -, -, hc⟩ | ⟨-, -, -, -, hn, -⟩
  · rw [hc]
    exact Nat.le_succ _
  · rw [hc]
    exact Nat.le_refl _
  · rw [hc]
    exact Nat.le_succ _
  · rw [hn]
    exact Nat.le_succ _

theorem since_serve (m : Memory β) (c : Call β) : Since m (m.serve c).2 := by
  cases c with
  | seed o => exact since_put rfl
  | create o => exact since_create m o
  | replace o => exact since_replace m o
  | delete k => exact since_delete m k
  | failWrites name => exact (Since.refl m).of_eq rfl rfl
  | conflictWrites name => exact (Since.refl m).of_eq rfl rfl
  | failLists => exact (Since.refl m).of_eq rfl rfl
  | heal => exact (Since.refl m).of_eq rfl rfl

theorem Reachable.serve (hm : m.Reachable) (c : Call β) : (m.serve c).2.Reachable := by
  cases c with
  | seed o => exact hm.seed o
  | create o => exact hm.create o
  | replace o => exact hm.replace o
  | delete k => exact hm.delete k
  | failWrites name => exact hm.failWrites name
  | conflictWrites name => exact hm.conflictWrites name
  | failLists => exact hm.failLists
  | heal => exact hm.heal

end

-- ========================================================== many calls

theorem reachable_afterCalls (calls : List (Call β)) : (afterCalls calls).Reachable := by
  induction calls using List.reverseRecOn with
  | nil => exact .empty
  | append_singleton calls c ih =>
      rw [afterCalls_concat]
      exact ih.serve c

/-- More calls lead to a later state. -/
theorem since_afterCalls (calls more : List (Call β)) :
    Since (afterCalls calls) (afterCalls (calls ++ more)) := by
  induction more using List.reverseRecOn with
  | nil =>
      rw [List.append_nil]
      exact .refl _
  | append_singleton more c ih =>
      rw [← List.append_assoc, afterCalls_concat]
      exact ih.trans (since_serve _ c)

theorem nextVersion_afterCalls_le (calls : List (Call β)) :
    (afterCalls calls).nextVersion ≤ calls.length + 1 := by
  induction calls using List.reverseRecOn with
  | nil => exact Nat.le_refl _
  | append_singleton calls c ih =>
      rw [afterCalls_concat, List.length_append, List.length_singleton]
      have := nextVersion_serve_le (afterCalls calls) c
      omega

/-- Where a call comes later than another one, the store has served that one in between. -/
theorem since_served (before mid : List (Call β)) (c : Call β) :
    Since ((afterCalls before).serve c).2 (afterCalls (before ++ c :: mid)) := by
  have hsince := since_afterCalls (before ++ [c]) mid
  rw [afterCalls_concat, List.append_assoc] at hsince
  exact hsince

/-- No version is given out twice. -/
theorem version_ne_of_handed {before mid : List (Call β)} {c c' : Call β} {o o' : Object β}
    (h : ((afterCalls before).serve c).1 = .ok (some o))
    (h' : ((afterCalls (before ++ c :: mid)).serve c').1 = .ok (some o')) :
    o.metadata.resourceVersion ≠ o'.metadata.resourceVersion := by
  obtain ⟨hv, hnext, -⟩ := version_of_handed h
  obtain ⟨hv', -, -⟩ := version_of_handed h'
  have hle := (since_served before mid c).nextVersion_le
  intro heq
  rw [hv, hv', Option.some.injEq] at heq
  have := versionText_inj heq
  omega

/-- Of two replacements that are based on one version at most one is taken: the first one takes that
version away for good. -/
theorem not_replaced_twice {before mid : List (Call β)} {o o' : Object β}
    (hsame : o.metadata.resourceVersion = o'.metadata.resourceVersion)
    (h : ∃ stored, ((afterCalls before).serve (.replace o)).1 = .ok (some stored)) :
    ¬ ∃ stored, ((afterCalls (before ++ .replace o :: mid)).serve (.replace o')).1
      = .ok (some stored) := by
  have hm := (reachable_afterCalls before).sound
  intro h'
  obtain ⟨-, holder, hh, hv⟩ := replaced_iff.1 h
  obtain ⟨-, holder', hh', hv'⟩ := replaced_iff.1 h'
  obtain ⟨stored, hstored⟩ := h
  have hserved := since_serve (afterCalls before) (.replace o)
  have hlater := since_served before mid (.replace o)
  have hfound : holder'.metadata.resourceVersion = holder.metadata.resourceVersion := by
    rw [← hv', ← hsame, hv]
  -- both find the same object, which was then there all the time, also just after the first one
  obtain ⟨hkey, -⟩ := (hserved.trans hlater).eq_of_version hm hh hh' hfound
  rw [hkey] at hh'
  have hstill := hserved.between hlater hm hh hh' hfound
  have hchanged := ((serve_of_ok hm hstored).2 o.key).1 (hstill.trans hh.symm)
  exact hchanged rfl

-- ======================================================= which names fail

/-- What a call does to the failures of a name. -/
theorem refusal?_serve (m : Memory β) (c : Call β) (k : Key) :
    (m.serve c).2.refusal? k = none
      ↔ c = .heal ∨ (m.refusal? k = none ∧ c ≠ .failWrites k.name ∧ c ≠ .conflictWrites k.name) := by
  cases c with
  | seed o =>
      have hsame : (m.serve (.seed o)).2.refusal? k = m.refusal? k := rfl
      simp [hsame]
  | create o =>
      have hsame : (m.serve (.create o)).2.refusal? k = m.refusal? k :=
        congrFun (agreesExcept_create m o).refusal? k
      simp [hsame]
  | replace o =>
      have hsame : (m.serve (.replace o)).2.refusal? k = m.refusal? k :=
        congrFun (agreesExcept_replace m o).refusal? k
      simp [hsame]
  | delete k' =>
      have hsame : (m.serve (.delete k')).2.refusal? k = m.refusal? k :=
        congrFun (agreesExcept_delete m k').refusal? k
      simp [hsame]
  | failWrites name =>
      simp only [serve, refusal?_eq_none_iff, failWrites, SortedMap.mem_insert_iff]
      by_cases h : k.name = name
      · simp [h]
      · simp [h, Ne.symm h]
  | conflictWrites name =>
      simp only [serve, refusal?_eq_none_iff, conflictWrites, SortedMap.mem_insert_iff]
      by_cases h : k.name = name
      · simp [h]
      · simp [h, Ne.symm h]
  | failLists =>
      have hsame : (m.serve .failLists).2.refusal? k = m.refusal? k := rfl
      simp [hsame]
  | heal =>
      refine iff_of_true (refusal?_eq_none_iff.2 ?_) (Or.inl rfl)
      exact ⟨SortedMap.notMem_empty _, SortedMap.notMem_empty _⟩

theorem madeToFail_concat (calls : List (Call β)) (c : Call β) (name : String) :
    MadeToFail (calls ++ [c]) name
      ↔ c = .failWrites name ∨ c = .conflictWrites name ∨ (c ≠ .heal ∧ MadeToFail calls name) := by
  constructor
  · rintro ⟨front, c', back, heq, hfail, hback⟩
    rcases List.eq_nil_or_concat back with rfl | ⟨back', last, rfl⟩
    · obtain ⟨-, hlast⟩ := List.append_inj' heq rfl
      obtain rfl := (List.cons.inj hlast).1
      exact hfail.imp_right Or.inl
    · have heq' : calls ++ [c] = (front ++ c' :: back') ++ [last] := by
        rw [heq, List.concat_eq_append, List.append_assoc, List.cons_append]
      obtain ⟨hcalls, hlast⟩ := List.append_inj' heq' rfl
      obtain rfl := (List.cons.inj hlast).1
      rw [List.concat_eq_append, List.mem_append, not_or] at hback
      refine Or.inr (Or.inr ⟨fun h => hback.2 ?_, front, c', back', hcalls, hfail, hback.1⟩)
      rw [h]
      exact List.mem_singleton_self _
  · rintro (rfl | rfl | ⟨hc, front, c', back, rfl, hfail, hback⟩)
    · exact ⟨calls, _, [], rfl, Or.inl rfl, List.not_mem_nil⟩
    · exact ⟨calls, _, [], rfl, Or.inr rfl, List.not_mem_nil⟩
    · refine ⟨front, c', back ++ [c], by simp, hfail, fun hmem => ?_⟩
      rcases List.mem_append.1 hmem with hmem | hmem
      · exact hback hmem
      · exact hc (List.mem_singleton.1 hmem).symm

/-- The names whose writes fail are those that were asked to. -/
theorem refusal?_afterCalls (calls : List (Call β)) (k : Key) :
    (afterCalls calls).refusal? k = none ↔ ¬ MadeToFail calls k.name := by
  induction calls using List.reverseRecOn with
  | nil =>
      refine iff_of_true rfl ?_
      rintro ⟨front, c, back, heq, -⟩
      simp at heq
  | append_singleton calls c ih =>
      rw [afterCalls_concat, refusal?_serve, ih, madeToFail_concat]
      by_cases hheal : c = .heal
      · subst hheal
        simp
      · simp only [hheal, false_or, ne_eq, not_false_eq_true, true_and, not_or]
        exact ⟨fun h => ⟨h.2.1, h.2.2, h.1⟩, fun h => ⟨h.2.2, h.1, h.2.1⟩⟩

/-- Whatever was asked of a store. Each object lies under its own key and carries a version of its
own, below the next one, and the next one is at most one more than the number of calls. No version
was given out twice, and of two replacements based on one version at most one was taken. A creation
is taken just if its name is not made to fail and is free, a replacement just if its name is not
made to fail and its version is the one stored there, a deletion just if its name is not made to
fail and there is something. A call that is taken changes what is stored under its own key and
nothing else, and is logged once if it is a write; one that is refused changes nothing. -/
theorem served_of_calls (calls : List (Call β)) :
    let m := afterCalls calls
    (∀ k o, m.object? k = some o → o.key = k
        ∧ ∃ n < m.nextVersion, o.metadata.resourceVersion = some (versionText n))
      ∧ (∀ k k' o o', m.object? k = some o → m.object? k' = some o' →
        o.metadata.resourceVersion = o'.metadata.resourceVersion → k = k')
      ∧ m.nextVersion ≤ calls.length + 1
      ∧ (∀ before c mid c' after, calls = before ++ c :: mid ++ c' :: after →
        (∀ o o', ((afterCalls before).serve c).1 = .ok (some o) →
          ((afterCalls (before ++ c :: mid)).serve c').1 = .ok (some o') →
          o.metadata.resourceVersion ≠ o'.metadata.resourceVersion)
        ∧ ∀ o o', c = .replace o → c' = .replace o' →
          o.metadata.resourceVersion = o'.metadata.resourceVersion →
          (∃ stored, ((afterCalls before).serve c).1 = .ok (some stored)) →
          ¬ ∃ stored, ((afterCalls (before ++ c :: mid)).serve c').1 = .ok (some stored))
      ∧ (∀ o, (∃ stored, (m.serve (.create o)).1 = .ok (some stored))
        ↔ ¬ MadeToFail calls o.key.name ∧ m.object? o.key = none)
      ∧ (∀ o, (∃ stored, (m.serve (.replace o)).1 = .ok (some stored))
        ↔ ¬ MadeToFail calls o.key.name ∧ ∃ holder, m.object? o.key = some holder
          ∧ o.metadata.resourceVersion = holder.metadata.resourceVersion)
      ∧ (∀ k, (m.serve (.delete k)).1 = .ok none
        ↔ ¬ MadeToFail calls k.name ∧ ∃ o, m.object? k = some o)
      ∧ (∀ c answer, (m.serve c).1 = .ok answer →
        (m.serve c).2.log = m.log ++ c.logged
        ∧ ∀ k, (m.serve c).2.object? k = m.object? k ↔ c.key? ≠ some k)
      ∧ ∀ c e, (m.serve c).1 = .error e → (m.serve c).2 = m := by
  intro m
  have hm : m.Sound := (reachable_afterCalls calls).sound
  refine ⟨fun k o ho => ⟨hm.keyed ho, hm.numbered ho⟩, fun k k' o o' => hm.distinct,
    nextVersion_afterCalls_le calls, fun before c mid c' after _ => ⟨fun o o' => ?_, ?_⟩,
    fun o => ?_, fun o => ?_, fun k => ?_, fun c answer => serve_of_ok hm,
    fun c e => serve_of_error⟩
  · exact version_ne_of_handed
  · rintro o o' rfl rfl hsame
    exact not_replaced_twice hsame
  · rw [created_iff, refusal?_afterCalls]
  · rw [replaced_iff, refusal?_afterCalls]
  · rw [deleted_iff, refusal?_afterCalls]

/-- Two writers replace an object on the ground of the version that it was put there with. The first
one is taken, and so the second one is refused. -/
theorem served_of_calls_race :
    let o : Object Unit :=
      ⟨{ Metadata.empty with name := some "a", resourceVersion := some "1" }, ()⟩
    (∃ stored, ((afterCalls [.seed o]).serve (.replace o)).1 = .ok (some stored))
      ∧ ¬ ∃ stored, ((afterCalls [.seed o, .replace o]).serve (.replace o)).1
        = .ok (some stored) := by
  intro o
  have hfirst : ∃ stored, ((afterCalls [.seed o]).serve (.replace o)).1 = .ok (some stored) :=
    replaced_iff.2 ⟨by decide, o.atVersion "1", by decide, rfl⟩
  obtain ⟨-, -, -, hpairs, -⟩ := served_of_calls [.seed o, .replace o, .replace o]
  exact ⟨hfirst, (hpairs [.seed o] _ [] _ [] rfl).2 o o rfl rfl rfl hfirst⟩

end ControlLoop.Memory
