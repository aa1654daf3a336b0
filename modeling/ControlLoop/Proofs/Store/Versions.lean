/-
What a store in memory can come to, and what one write does to it.

# Which stores there are

A store is reached from the empty one by seeds, writes and changes to
the failures on request (`Memory.Reachable`). In every such store each
object lies under its own key and carries a version that was given out
once (`Memory.Sound`).

# One write

A write answers in one of a few ways, each with the whole state that it
leaves (`create_cases`, `replace_cases`, `delete_cases`); a refused one
leaves everything as it was. So a write touches what is stored under
its own key and nothing else (`Memory.AgreesExcept`).

For a replacement the invariant says more: what claims another key than
that of the object it is made from lands nowhere else as long as it
carries that object's version (`agreesExcept_replace_of_version`). No
update can stray onto another object, even if it renames what it
updates.
-/
import ControlLoop.Proofs.SortedMap
import ControlLoop.Store.Memory

namespace ControlLoop

variable {β : Type}

/-- An object at another version. -/
def Object.atVersion (o : Object β) (v : String) : Object β :=
  o.modifyMetadata fun md => { md with resourceVersion := some v }

/-- A new object as it is stored: with a version, and with a unique id if it has none. -/
def Object.asCreated (o : Object β) (v u : String) : Object β :=
  o.modifyMetadata fun md => { md with resourceVersion := some v, uid := md.uid <|> some u }

namespace Memory

/-- The writes to a key fail if a failure of its name is asked for. -/
theorem refusal?_eq_none_iff {m : Memory β} {k : Key} :
    m.refusal? k = none ↔ k.name ∉ m.unavailable ∧ k.name ∉ m.conflicting := by
  show m.refusal? k = none
    ↔ ¬ m.unavailable.contains k.name = true ∧ ¬ m.conflicting.contains k.name = true
  unfold refusal?
  split
  · next hu => exact ⟨nofun, fun h => absurd hu h.1⟩
  · next hu =>
    split
    · next hc => exact ⟨nofun, fun h => absurd hc h.2⟩
    · next hc => exact ⟨fun _ => ⟨hu, hc⟩, fun _ => rfl⟩

-- ====================================================== the cases

/-- The three ends of a creation: it is made to fail, the name is taken, or the object is there. -/
theorem create_cases (m : Memory β) (o : Object β) :
    (∃ e, m.refusal? o.key = some e ∧ m.create o = (.error e, m))
      ∨ (m.refusal? o.key = none ∧ (∃ holder, m.object? o.key = some holder)
        ∧ m.create o = (.error (.conflict s!"{o.key.text} already exists"), m))
      ∨ (m.refusal? o.key = none ∧ m.object? o.key = none
        ∧ m.create o = (.ok (m.identify (m.stamp o)),
          (m.put (m.identify (m.stamp o))).record .create o.key)) := by
  unfold create
  cases hr : m.refusal? o.key with
  | some e => exact Or.inl ⟨e, rfl, rfl⟩
  | none =>
      cases ho : m.object? o.key with
      | some holder =>
          have hc : m.objects.contains o.key = true :=
            (SortedMap.contains_eq _ _).trans (Option.isSome_iff_exists.2 ⟨holder, ho⟩)
          exact Or.inr (Or.inl ⟨rfl, ⟨holder, rfl⟩, by rw [if_pos hc]⟩)
      | none =>
          have hc : ¬ m.objects.contains o.key = true := by
            rw [SortedMap.contains_eq, show m.objects.get? o.key = none from ho]
            exact Bool.false_ne_true
          exact Or.inr (Or.inr ⟨rfl, rfl, by rw [if_neg hc]⟩)

/-- The four ends of a replacement: it is made to fail, there is nothing to replace, the version is
another one, or the new object is there. -/
theorem replace_cases (m : Memory β) (o : Object β) :
    (∃ e, m.refusal? o.key = some e ∧ m.replace o = (.error e, m))
      ∨ (m.refusal? o.key = none ∧ m.object? o.key = none
        ∧ m.replace o = (.error (.notFound o.key.text), m))
      ∨ (m.refusal? o.key = none
        ∧ (∃ holder, m.object? o.key = some holder
          ∧ o.metadata.resourceVersion ≠ holder.metadata.resourceVersion)
        ∧ m.replace o = (.error (.conflict o.key.text), m))
      ∨ (m.refusal? o.key = none
        ∧ (∃ holder, m.object? o.key = some holder
          ∧ o.metadata.resourceVersion = holder.metadata.resourceVersion)
        ∧ m.replace o = (.ok (m.stamp o), (m.put (m.stamp o)).record .replace o.key)) := by
  unfold replace
  cases hr : m.refusal? o.key with
  | some e => exact Or.inl ⟨e, rfl, rfl⟩
  | none =>
      cases ho : m.object? o.key with
      | none =>
          have ho' : m.objects.get? o.key = none := ho
          exact Or.inr (Or.inl ⟨rfl, rfl, by simp only [ho']⟩)
      | some holder =>
          have ho' : m.objects.get? o.key = some holder := ho
          by_cases hv : o.metadata.resourceVersion = holder.metadata.resourceVersion
          · refine Or.inr (Or.inr (Or.inr ⟨rfl, ⟨holder, rfl, hv⟩, ?_⟩))
            simp only [ho']
            rw [if_neg (not_not_intro hv)]
          · refine Or.inr (Or.inr (Or.inl ⟨rfl, ⟨holder, rfl, hv⟩, ?_⟩))
            simp only [ho']
            rw [if_pos hv]

/-- The three ends of a deletion: it is made to fail, there is nothing to delete, or it is gone. -/
theorem delete_cases (m : Memory β) (k : Key) :
    (∃ e, m.refusal? k = some e ∧ m.delete k = (.error e, m))
      ∨ (m.refusal? k = none ∧ m.object? k = none
        ∧ m.delete k = (.error (.notFound k.text), m))
      ∨ (m.refusal? k = none ∧ (∃ o, m.object? k = some o)
        ∧ m.delete k
          = (.ok (), { m with objects := m.objects.erase k }.record .delete k)) := by
  unfold delete
  cases hr : m.refusal? k with
  | some e => exact Or.inl ⟨e, rfl, rfl⟩
  | none =>
      cases ho : m.object? k with
      | none =>
          have hc : ¬ m.objects.contains k = true := by
            rw [SortedMap.contains_eq, show m.objects.get? k = none from ho]
            exact Bool.false_ne_true
          exact Or.inr (Or.inl ⟨rfl, rfl, by rw [if_neg hc]⟩)
      | some o =>
          have hc : m.objects.contains k = true :=
            (SortedMap.contains_eq _ _).trans (Option.isSome_iff_exists.2 ⟨o, ho⟩)
          exact Or.inr (Or.inr ⟨rfl, ⟨o, rfl⟩, by rw [if_pos hc]⟩)

-- ==================================================== what is stored

theorem object?_put_self (m : Memory β) (o : Object β) : (m.put o).object? o.key = some o :=
  SortedMap.get?_insert_self _ _ _

theorem object?_put_of_ne (m : Memory β) (o : Object β) {k : Key} (h : k ≠ o.key) :
    (m.put o).object? k = m.object? k :=
  SortedMap.get?_insert_of_ne _ _ h

theorem versionText_inj {m n : Nat} (h : versionText m = versionText n) : m = n := by
  have hpad : ∀ k, versionText k = Timestamp.padded 0 k := fun k => by
    show Nat.repr k = _
    simp [Timestamp.padded, Nat.repr]
  rw [hpad, hpad] at h
  exact Timestamp.padded_inj h

-- ================================================== reachable stores

/-- The stores that calls lead to, from the empty one. -/
inductive Reachable : Memory β → Prop
  | empty : Reachable empty
  | seed {m : Memory β} (o : Object β) (h : Reachable m) : Reachable (m.seed o).2
  | create {m : Memory β} (o : Object β) (h : Reachable m) : Reachable (m.create o).2
  | replace {m : Memory β} (o : Object β) (h : Reachable m) : Reachable (m.replace o).2
  | delete {m : Memory β} (k : Key) (h : Reachable m) : Reachable (m.delete k).2
  | failWrites {m : Memory β} (name : String) (h : Reachable m) : Reachable (m.failWrites name)
  | conflictWrites {m : Memory β} (name : String) (h : Reachable m) :
      Reachable (m.conflictWrites name)
  | failLists {m : Memory β} (h : Reachable m) : Reachable m.failLists
  | heal {m : Memory β} (h : Reachable m) : Reachable m.heal

/-- Every object lies under its own key, with a version that was given out for it alone. -/
structure Sound (m : Memory β) : Prop where
  keyed : ∀ {k o}, m.object? k = some o → o.key = k
  numbered : ∀ {k o}, m.object? k = some o →
    ∃ n < m.nextVersion, o.metadata.resourceVersion = some (versionText n)
  distinct : ∀ {k k' o o'}, m.object? k = some o → m.object? k' = some o' →
    o.metadata.resourceVersion = o'.metadata.resourceVersion → k = k'

/-- Only the objects and the next version matter. -/
theorem Sound.of_eq {m m' : Memory β} (hm : m.Sound) (ho : m'.objects = m.objects)
    (hn : m'.nextVersion = m.nextVersion) : m'.Sound := by
  have hobj : ∀ k, m'.object? k = m.object? k := fun k => congrArg (·.get? k) ho
  refine ⟨fun h => hm.keyed (hobj _ ▸ h), fun h => ?_, fun h h' hv => ?_⟩
  · rw [hn]
    exact hm.numbered (hobj _ ▸ h)
  · exact hm.distinct (hobj _ ▸ h) (hobj _ ▸ h') hv

/-- An object that is stored with the next version keeps the store sound. -/
theorem Sound.put {m : Memory β} (hm : m.Sound) {o : Object β}
    (ho : o.metadata.resourceVersion = some (versionText m.nextVersion)) : (m.put o).Sound := by
  have hfresh : ∀ {k o'}, m.object? k = some o' →
      o'.metadata.resourceVersion ≠ o.metadata.resourceVersion := by
    intro k o' h heq
    obtain ⟨n, hlt, hv⟩ := hm.numbered h
    rw [hv, ho, Option.some.injEq] at heq
    exact absurd (versionText_inj heq) (Nat.ne_of_lt hlt)
  have hget : ∀ {k o'}, (m.put o).object? k = some o' →
      (k = o.key ∧ o' = o) ∨ (k ≠ o.key ∧ m.object? k = some o') := by
    intro k o' h
    by_cases hk : k = o.key
    · subst hk
      rw [object?_put_self, Option.some.injEq] at h
      exact Or.inl ⟨rfl, h.symm⟩
    · exact Or.inr ⟨hk, object?_put_of_ne m o hk ▸ h⟩
  refine ⟨fun h => ?_, fun h => ?_, fun h h' hv => ?_⟩
  · rcases hget h with ⟨rfl, rfl⟩ | ⟨-, h⟩
    · rfl
    · exact hm.keyed h
  · show ∃ n < m.nextVersion + 1, _
    rcases hget h with ⟨-, rfl⟩ | ⟨-, h⟩
    · exact ⟨m.nextVersion, Nat.lt_succ_self _, ho⟩
    · obtain ⟨n, hlt, hv⟩ := hm.numbered h
      exact ⟨n, Nat.lt_succ_of_lt hlt, hv⟩
  · rcases hget h with ⟨rfl, rfl⟩ | ⟨-, hold⟩ <;> rcases hget h' with ⟨rfl, rfl⟩ | ⟨-, hold'⟩
    · rfl
    · exact absurd hv.symm (hfresh hold')
    · exact absurd hv (hfresh hold)
    · exact hm.distinct hold hold' hv

/-- Taking an object away keeps the store sound. -/
theorem Sound.erase {m : Memory β} (hm : m.Sound) (k : Key) :
    Sound { m with objects := m.objects.erase k } := by
  have hget : ∀ {k' o}, (m.objects.erase k).get? k' = some o → m.object? k' = some o := by
    intro k' o h
    by_cases hk : k' = k
    · subst hk
      rw [SortedMap.get?_erase_self] at h
      cases h
    · rw [SortedMap.get?_erase_of_ne m.objects hk] at h
      exact h
  exact ⟨fun h => hm.keyed (hget h), fun h => hm.numbered (hget h),
    fun h h' hv => hm.distinct (hget h) (hget h') hv⟩

theorem Sound.create {m : Memory β} (hm : m.Sound) (o : Object β) : (m.create o).2.Sound := by
  rcases m.create_cases o with ⟨e, -, h⟩ | ⟨-, -, h⟩ | ⟨-, -, h⟩ <;> rw [h]
  · exact hm
  · exact hm
  · have hput : (m.put (m.identify (m.stamp o))).Sound := hm.put rfl
    exact hput.of_eq rfl rfl

theorem Sound.replace {m : Memory β} (hm : m.Sound) (o : Object β) : (m.replace o).2.Sound := by
  rcases m.replace_cases o with ⟨e, -, h⟩ | ⟨-, -, h⟩ | ⟨-, -, h⟩ | ⟨-, -, h⟩ <;> rw [h]
  · exact hm
  · exact hm
  · exact hm
  · have hput : (m.put (m.stamp o)).Sound := hm.put rfl
    exact hput.of_eq rfl rfl

theorem Sound.delete {m : Memory β} (hm : m.Sound) (k : Key) : (m.delete k).2.Sound := by
  rcases m.delete_cases k with ⟨e, -, h⟩ | ⟨-, -, h⟩ | ⟨-, -, h⟩ <;> rw [h]
  · exact hm
  · exact hm
  · exact (hm.erase k).of_eq rfl rfl

/-- Every store that calls lead to is sound. -/
theorem Reachable.sound {m : Memory β} (h : m.Reachable) : m.Sound := by
  induction h with
  | empty => exact ⟨nofun, nofun, nofun⟩
  | seed o _ ih => exact ih.put rfl
  | create o _ ih => exact ih.create o
  | replace o _ ih => exact ih.replace o
  | delete k _ ih => exact ih.delete k
  | failWrites name _ ih => exact ih.of_eq rfl rfl
  | conflictWrites name _ ih => exact ih.of_eq rfl rfl
  | failLists _ ih => exact ih.of_eq rfl rfl
  | heal _ ih => exact ih.of_eq rfl rfl

/-- The failures on request that a store is under. -/
structure Failures where
  unavailable : SortedSet String
  conflicting : SortedSet String
  listsFail : Bool

/-- A store under these failures and no others. -/
def under (m : Memory β) (f : Failures) : Memory β :=
  { m with
    unavailable := f.unavailable, conflicting := f.conflicting, listsFail := f.listsFail }

theorem Reachable.unavailable {m : Memory β} (h : m.Reachable) (names : List (String × Unit)) :
    Reachable { m with unavailable := m.unavailable.insertMany names } := by
  induction names generalizing m with
  | nil => exact h
  | cons e rest ih => exact ih (h.failWrites e.1)

theorem Reachable.conflicting {m : Memory β} (h : m.Reachable) (names : List (String × Unit)) :
    Reachable { m with conflicting := m.conflicting.insertMany names } := by
  induction names generalizing m with
  | nil => exact h
  | cons e rest ih => exact ih (h.conflictWrites e.1)

/-- Every failure can be asked for at any time. -/
theorem Reachable.under {m : Memory β} (h : m.Reachable) (f : Failures) :
    (m.under f).Reachable := by
  have hbuilt : ∀ names : SortedSet String,
      (∅ : SortedSet String).insertMany names.entries = names := fun names => by
    rw [← SortedMap.ofList_eq_insertMany, SortedMap.ofList_entries]
  have hnames : (m.under { f with listsFail := false }).Reachable := by
    have hnames := (h.heal.unavailable f.unavailable.entries).conflicting f.conflicting.entries
    rw [show m.heal.unavailable = ∅ from rfl, show m.heal.conflicting = ∅ from rfl, hbuilt,
      hbuilt] at hnames
    exact hnames
  obtain ⟨unavailable, conflicting, listsFail⟩ := f
  cases listsFail with
  | false => exact hnames
  | true => exact hnames.failLists

-- =================================================== the reach of a write

/-- Two states of a store with the same under a key: the same object, and the same writes so
far. -/
structure AgreesAt (k : Key) (m m' : Memory β) : Prop where
  object? : m'.object? k = m.object? k
  count : ∀ kind, m'.count kind k = m.count kind k

theorem AgreesAt.refl (k : Key) (m : Memory β) : AgreesAt k m m := ⟨rfl, fun _ => rfl⟩

theorem AgreesAt.trans {k : Key} {m m' m'' : Memory β} (h : AgreesAt k m m')
    (h' : AgreesAt k m' m'') : AgreesAt k m m'' :=
  ⟨h'.object?.trans h.object?, fun kind => (h'.count kind).trans (h.count kind)⟩

/-- Two states of a store that differ at most under one key. -/
structure AgreesExcept (k : Key) (m m' : Memory β) : Prop where
  agreesAt : ∀ {k'}, k' ≠ k → AgreesAt k' m m'
  refusal? : m'.refusal? = m.refusal?
  listsFail : m'.listsFail = m.listsFail

theorem AgreesExcept.object? {k k' : Key} {m m' : Memory β} (h : AgreesExcept k m m')
    (hne : k' ≠ k) : m'.object? k' = m.object? k' := (h.agreesAt hne).object?

theorem AgreesExcept.refl (k : Key) (m : Memory β) : AgreesExcept k m m :=
  ⟨fun _ => .refl _ _, rfl, rfl⟩

theorem count_record (m : Memory β) (kind kind' : WriteKind) (k k' : Key) :
    (m.record kind' k').count kind k
      = m.count kind k + if kind' = kind ∧ k' = k then 1 else 0 := by
  unfold count record
  rw [List.count_append, List.count_singleton]
  simp only [beq_iff_eq, Prod.mk.injEq]

theorem count_record_of_ne (m : Memory β) (kind kind' : WriteKind) {k k' : Key} (h : k ≠ k') :
    (m.record kind' k').count kind k = m.count kind k := by
  rw [count_record, if_neg fun heq => h heq.2.symm, Nat.add_zero]

theorem agreesExcept_put (m : Memory β) (o : Object β) (kind : WriteKind) :
    AgreesExcept o.key m ((m.put o).record kind o.key) :=
  ⟨fun h => ⟨object?_put_of_ne m o h, fun _ => count_record_of_ne (m.put o) _ _ h⟩, rfl, rfl⟩

theorem agreesExcept_create (m : Memory β) (o : Object β) :
    AgreesExcept o.key m (m.create o).2 := by
  rcases m.create_cases o with ⟨e, -, h⟩ | ⟨-, -, h⟩ | ⟨-, -, h⟩ <;> rw [h]
  · exact .refl _ _
  · exact .refl _ _
  · exact agreesExcept_put m (m.identify (m.stamp o)) .create

theorem agreesExcept_delete (m : Memory β) (k : Key) : AgreesExcept k m (m.delete k).2 := by
  rcases m.delete_cases k with ⟨e, -, h⟩ | ⟨-, -, h⟩ | ⟨-, -, h⟩ <;> rw [h]
  · exact .refl _ _
  · exact .refl _ _
  · exact ⟨fun h => ⟨SortedMap.get?_erase_of_ne _ h, fun _ => count_record_of_ne _ _ _ h⟩, rfl, rfl⟩

theorem agreesExcept_replace (m : Memory β) (o : Object β) :
    AgreesExcept o.key m (m.replace o).2 := by
  rcases m.replace_cases o with ⟨e, -, h⟩ | ⟨-, -, h⟩ | ⟨-, -, h⟩ | ⟨-, -, h⟩ <;> rw [h]
  · exact .refl _ _
  · exact .refl _ _
  · exact .refl _ _
  · exact agreesExcept_put m (m.stamp o) .replace

/-- Where a replacement lands whose object claims another key only with the version that is stored
under this one. -/
theorem key_of_replace {m : Memory β} (hm : m.Sound) {k : Key} {current holder o : Object β}
    (hk : m.object? k = some current)
    (hv : o.key ≠ k → o.metadata.resourceVersion = current.metadata.resourceVersion)
    (hh : m.object? o.key = some holder)
    (hv' : o.metadata.resourceVersion = holder.metadata.resourceVersion) : o.key = k :=
  Decidable.byContradiction fun hne => hne (hm.distinct hh hk (hv'.symm.trans (hv hne)))

/-- A replacement that carries the version stored under a key touches that key alone, whatever
name the new object has; and so does one that claims that key. -/
theorem agreesExcept_replace_of_version {m : Memory β} (hm : m.Sound) {k : Key}
    {current o : Object β} (hk : m.object? k = some current)
    (hv : o.key ≠ k → o.metadata.resourceVersion = current.metadata.resourceVersion) :
    AgreesExcept k m (m.replace o).2 := by
  rcases m.replace_cases o with ⟨e, -, h⟩ | ⟨-, -, h⟩ | ⟨-, -, h⟩ | ⟨-, ⟨holder, hh, hv'⟩, h⟩
  · rw [h]
    exact .refl _ _
  · rw [h]
    exact .refl _ _
  · rw [h]
    exact .refl _ _
  · obtain rfl := key_of_replace hm hk hv hh hv'
    exact agreesExcept_replace m o

-- ===================================================== under that key

theorem create_of_taken {m : Memory β} {o holder : Object β} (h : m.object? o.key = some holder) :
    (m.create o).2 = m := by
  rcases m.create_cases o with ⟨e, -, hc⟩ | ⟨-, -, hc⟩ | ⟨-, hfree, -⟩
  · rw [hc]
  · rw [hc]
  · rw [h] at hfree
    cases hfree

/-- A creation where the name is free leaves nothing there, or the new object as it is stored. -/
theorem object?_create {m : Memory β} {o : Object β} (h : m.object? o.key = none) :
    (m.create o).2.object? o.key = none
      ∨ ∃ v u, (m.create o).2.object? o.key = some (o.asCreated v u) := by
  rcases m.create_cases o with ⟨e, -, hc⟩ | ⟨-, ⟨holder, hh⟩, -⟩ | ⟨-, -, hc⟩
  · rw [hc]
    exact Or.inl h
  · rw [h] at hh
    cases hh
  · rw [hc]
    exact Or.inr ⟨_, _, object?_put_self m (m.identify (m.stamp o))⟩

/-- Such a replacement leaves there what was there, or the new object at another version. -/
theorem object?_replace_of_version {m : Memory β} (hm : m.Sound) {k : Key} {current o : Object β}
    (hk : m.object? k = some current)
    (hv : o.key ≠ k → o.metadata.resourceVersion = current.metadata.resourceVersion) :
    (m.replace o).2.object? k = some current
      ∨ ∃ v, (m.replace o).2.object? k = some (o.atVersion v) := by
  rcases m.replace_cases o with ⟨e, -, h⟩ | ⟨-, -, h⟩ | ⟨-, -, h⟩ | ⟨-, ⟨holder, hh, hv'⟩, h⟩
  · exact Or.inl (h ▸ hk)
  · exact Or.inl (h ▸ hk)
  · exact Or.inl (h ▸ hk)
  · obtain rfl := key_of_replace hm hk hv hh hv'
    rw [h]
    exact Or.inr ⟨versionText m.nextVersion, object?_put_self m (m.stamp o)⟩

/-- A deletion that the store refuses leaves the key alone, and any other frees it. -/
theorem object?_delete (m : Memory β) (k : Key) :
    (m.delete k).2.object? k = if (m.refusal? k).isSome then m.object? k else none := by
  rcases m.delete_cases k with ⟨e, hr, h⟩ | ⟨hr, hnone, h⟩ | ⟨hr, -, h⟩
  · rw [h, hr]
    rfl
  · rw [h, hr]
    exact hnone
  · rw [h, hr]
    exact SortedMap.get?_erase_self _ _

end Memory

end ControlLoop
