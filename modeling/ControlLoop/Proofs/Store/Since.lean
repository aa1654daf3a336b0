/-
What a version tells about the past of a store.

Whatever is written to a store in memory, an object that is stored then
was stored before under the same key, or carries a version that was
given out since (`Memory.Since`). In a store that calls lead to, a
version stands for one object under one key. So who finds the version
that was there at some earlier moment finds the very object of that
moment (`Since.eq_of_version`), and nothing else was under that key at
any time in between (`Since.between`): it cannot have been changed and
changed back, nor deleted and created again.
-/
import ControlLoop.Proofs.Store.Traced

namespace ControlLoop.Memory

variable {β : Type} {m₀ m₁ m : Memory β}

/-- A state of a store that comes later than another one. -/
structure Since (m₀ m : Memory β) : Prop where
  nextVersion_le : m₀.nextVersion ≤ m.nextVersion
  old_or_new : ∀ {k o}, m.object? k = some o → m₀.object? k = some o
    ∨ ∃ n, m₀.nextVersion ≤ n ∧ o.metadata.resourceVersion = some (versionText n)

-- ============================================================ the order

theorem Since.refl (m : Memory β) : Since m m := ⟨Nat.le_refl _, Or.inl⟩

theorem Since.trans (h : Since m₀ m₁) (h' : Since m₁ m) : Since m₀ m := by
  refine ⟨Nat.le_trans h.nextVersion_le h'.nextVersion_le, fun ho => ?_⟩
  rcases h'.old_or_new ho with hold | ⟨n, hn, hv⟩
  · exact h.old_or_new hold
  · exact Or.inr ⟨n, Nat.le_trans h.nextVersion_le hn, hv⟩

theorem Since.of_eq (h : Since m₀ m₁) (ho : m.objects = m₁.objects)
    (hn : m.nextVersion = m₁.nextVersion) : Since m₀ m := by
  refine ⟨hn ▸ h.nextVersion_le, fun {k o} hk => h.old_or_new ?_⟩
  rwa [object?, ← ho]

-- =========================================================== the writes

theorem since_put {o : Object β}
    (ho : o.metadata.resourceVersion = some (versionText m.nextVersion)) :
    Since m (m.put o) := by
  refine ⟨Nat.le_succ _, fun {k o'} hk => ?_⟩
  by_cases heq : k = o.key
  · -- this is the object that was put there, with the version given out for it
    rw [heq, object?_put_self] at hk
    obtain rfl := Option.some.inj hk
    exact Or.inr ⟨m.nextVersion, Nat.le_refl _, ho⟩
  · rw [object?_put_of_ne m o heq] at hk
    exact Or.inl hk

theorem since_create (m : Memory β) (o : Object β) : Since m (m.create o).2 := by
  rcases m.create_cases o with ⟨e, -, h⟩ | ⟨-, -, h⟩ | ⟨-, -, h⟩ <;> rw [h]
  · exact .refl m
  · exact .refl m
  · have hput : Since m (m.put (m.identify (m.stamp o))) := since_put rfl
    exact hput.of_eq rfl rfl

theorem since_replace (m : Memory β) (o : Object β) : Since m (m.replace o).2 := by
  rcases m.replace_cases o with ⟨e, -, h⟩ | ⟨-, -, h⟩ | ⟨-, -, h⟩ | ⟨-, -, h⟩ <;> rw [h]
  · exact .refl m
  · exact .refl m
  · exact .refl m
  · have hput : Since m (m.put (m.stamp o)) := since_put rfl
    exact hput.of_eq rfl rfl

theorem since_delete (m : Memory β) (k : Key) : Since m (m.delete k).2 := by
  refine ⟨?_, fun {k' o} hk => Or.inl ?_⟩
  · rcases m.delete_cases k with ⟨e, -, h⟩ | ⟨-, -, h⟩ | ⟨-, -, h⟩ <;> rw [h]
    all_goals exact Nat.le_refl _
  · by_cases heq : k' = k
    · rw [heq, object?_delete] at hk
      split at hk
      · exact heq ▸ hk
      · cases hk
    · rwa [(agreesExcept_delete m k).object? heq] at hk

theorem since_after (m : Memory β) (w : Write β) : Since m (m.after w) := by
  cases w with
  | create o => exact since_create m o
  | replace o => exact since_replace m o
  | delete k p => exact since_delete m k

theorem since_foldl_after (m : Memory β) (ws : List (Write β)) :
    Since m (ws.foldl Memory.after m) := by
  induction ws generalizing m with
  | nil => exact .refl m
  | cons w ws ih => exact (since_after m w).trans (ih (m.after w))

-- ========================================================= the versions

/-- A version that was given out before is not one of the new ones. -/
theorem Sound.not_new (hm : m₀.Sound) {k : Key} {o o' : Object β} (ho : m₀.object? k = some o)
    (hv : o'.metadata.resourceVersion = o.metadata.resourceVersion) {next : Nat}
    (hnext : m₀.nextVersion ≤ next) :
    ¬ ∃ n, next ≤ n ∧ o'.metadata.resourceVersion = some (versionText n) := by
  rintro ⟨n, hn, hv'⟩
  obtain ⟨n', hlt, hv''⟩ := hm.numbered ho
  rw [hv', hv'', Option.some.injEq] at hv
  have := versionText_inj hv
  omega

/-- Who finds a version again finds the object that had it. -/
theorem Since.eq_of_version (h : Since m₀ m) (hm : m₀.Sound) {k k' : Key} {o o' : Object β}
    (ho : m₀.object? k = some o) (ho' : m.object? k' = some o')
    (hv : o'.metadata.resourceVersion = o.metadata.resourceVersion) : k' = k ∧ o' = o := by
  rcases h.old_or_new ho' with hold | hnew
  · obtain rfl := hm.distinct hold ho hv
    rw [ho] at hold
    exact ⟨rfl, (Option.some.inj hold).symm⟩
  · exact absurd hnew (hm.not_new ho hv (Nat.le_refl _))

/-- And that object was there all the time. -/
theorem Since.between (h : Since m₀ m₁) (h' : Since m₁ m) (hm : m₀.Sound) {k : Key}
    {o o' : Object β} (ho : m₀.object? k = some o) (ho' : m.object? k = some o')
    (hv : o'.metadata.resourceVersion = o.metadata.resourceVersion) : m₁.object? k = some o := by
  obtain ⟨-, rfl⟩ := (h.trans h').eq_of_version hm ho ho' hv
  rcases h'.old_or_new ho' with hold | hnew
  · exact hold
  · exact absurd hnew (hm.not_new ho rfl h.nextVersion_le)

end ControlLoop.Memory
