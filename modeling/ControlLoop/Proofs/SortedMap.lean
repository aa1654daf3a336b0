/-
What a map holds after many insertions at once.

Groups of members, wanted keys and listed children are all built by
`ofList`, `insertMany` and `union`, which insert pair by pair so that of
repeated keys the last one wins. Here that fold is read off once: what
is found under a key came from a pair or was there before, every pair's
key is there afterwards, and a pair whose key is not repeated is found
as it is. A map that is listed and built again is the same map
(`ofList_entries`), so a listing that is filtered is a filtered map.

Of a bare list of entries it is said which keys are not found in it: any
that no entry has and, where keys increase, any before the first.
-/
import ControlLoop.SortedMap

universe u v

namespace ControlLoop.Entries

variable {κ : Type u} {α : Type v} [Ord κ] [Std.LawfulEqOrd κ]

-- =================================================== lists of entries

theorem lookup_cons_self (k : κ) (a : α) (es : Entries κ α) : lookup k ((k, a) :: es) = some a :=
  if_pos Std.ReflCmp.compare_self

theorem lookup_eq_none_of_notMem {es : Entries κ α} {k : κ} (h : k ∉ es.map (·.1)) :
    lookup k es = none := by
  induction es with
  | nil => rfl
  | cons e rest ih =>
      rw [List.map_cons, List.mem_cons, not_or] at h
      rw [lookup_cons, if_neg fun he => h.1 (Std.LawfulEqCmp.eq_of_compare he)]
      exact ih h.2

/-- A key before all others is not found. -/
theorem lookup_eq_none_of_lt {es : Entries κ α} {k : κ} (h : ∀ e ∈ es, compare k e.1 = .lt) :
    lookup k es = none := by
  refine lookup_eq_none_of_notMem fun hk => ?_
  obtain ⟨e, he, rfl⟩ := List.mem_map.1 hk
  have hlt := h e he
  simp at hlt

/-- Where keys increase, a key before the first is not found. -/
theorem Increasing.lookup_eq_none_of_lt [Std.TransOrd κ] {es : Entries κ α} {k l : κ} {a : α}
    (h : Increasing ((l, a) :: es)) (hlt : compare k l = .lt) :
    lookup k ((l, a) :: es) = none := by
  refine Entries.lookup_eq_none_of_lt fun e he => ?_
  rcases List.mem_cons.1 he with rfl | he
  · exact hlt
  · exact Std.TransCmp.lt_trans hlt ((List.pairwise_cons.1 h).1 e he)

end ControlLoop.Entries

namespace ControlLoop.SortedMap

variable {κ : Type u} {α : Type v} [Ord κ]

-- =================================================== keys and entries

/-- The keys of a map are the keys that it contains. -/
theorem mem_keys_iff [Std.TransOrd κ] [Std.LawfulEqOrd κ] {m : SortedMap κ α} {k : κ} :
    k ∈ m.keys ↔ m.contains k = true := by
  constructor
  · intro h
    obtain ⟨⟨k', a⟩, hmem, rfl⟩ := List.mem_map.1 h
    have hget : m.get? k' = some a := get?_of_mem_toList hmem
    rw [contains_eq, hget]
    rfl
  · intro h
    obtain ⟨a, hget⟩ := Option.isSome_iff_exists.1 (contains_eq m k ▸ h)
    exact List.mem_map.2 ⟨(k, a), mem_toList_of_get? hget, rfl⟩

theorem notMem_empty (k : κ) : k ∉ (∅ : SortedMap κ α) := Bool.false_ne_true

theorem mem_iff_exists_get? {m : SortedMap κ α} {k : κ} : k ∈ m ↔ ∃ a, m.get? k = some a :=
  Option.isSome_iff_exists

theorem keys_increasing (m : SortedMap κ α) :
    m.keys.Pairwise fun k k' => compare k k' = .lt := List.pairwise_map.2 m.increasing

theorem keys_nodup [Std.TransOrd κ] (m : SortedMap κ α) : m.keys.Nodup := by
  refine List.pairwise_map.2 (m.increasing.imp ?_)
  intro e e' hlt heq
  rw [heq] at hlt
  simp at hlt

theorem get?_filter [Std.TransOrd κ] [Std.LawfulEqOrd κ] (m : SortedMap κ α)
    (p : κ → α → Bool) (k : κ) : (m.filter p).get? k = (m.get? k).filter (p k) := by
  refine Option.ext fun a => ?_
  rw [← mem_toList_iff, Option.filter_eq_some_iff, ← mem_toList_iff]
  exact List.mem_filter

-- ==================================================== many insertions

variable [Std.TransOrd κ]

theorem insertMany_cons (m : SortedMap κ α) (e : κ × α) (pairs : List (κ × α)) :
    m.insertMany (e :: pairs) = (m.insert e.1 e.2).insertMany pairs := rfl

/-- A map built from a list is the empty map with the list inserted. -/
theorem ofList_eq_insertMany (pairs : List (κ × α)) :
    ofList pairs = (∅ : SortedMap κ α).insertMany pairs := by
  have hfold : ∀ m : SortedMap κ α, (m.insertMany pairs).entries
      = pairs.foldl (fun es e => Entries.insert e.1 e.2 es) m.entries := by
    induction pairs with
    | nil => exact fun _ => rfl
    | cons e rest ih => exact fun m => ih (m.insert e.1 e.2)
  exact eq_of_entries (hfold ∅).symm

variable [Std.LawfulEqOrd κ]

/-- What is found after insertions was inserted, or was there before. -/
theorem mem_or_get?_of_get?_insertMany {pairs : List (κ × α)} {m : SortedMap κ α}
    {k : κ} {a : α} (h : (m.insertMany pairs).get? k = some a) :
    (k, a) ∈ pairs ∨ m.get? k = some a := by
  induction pairs generalizing m with
  | nil => exact Or.inr h
  | cons e rest ih =>
      rcases ih h with hmem | hget
      · exact Or.inl (List.mem_cons_of_mem _ hmem)
      · by_cases hk : k = e.1
        · subst hk
          rw [get?_insert_self, Option.some.injEq] at hget
          subst hget
          exact Or.inl List.mem_cons_self
        · rw [get?_insert_of_ne m e.2 hk] at hget
          exact Or.inr hget

theorem mem_of_get?_ofList {pairs : List (κ × α)} {k : κ} {a : α}
    (h : (ofList pairs).get? k = some a) : (k, a) ∈ pairs := by
  rw [ofList_eq_insertMany] at h
  rcases mem_or_get?_of_get?_insertMany h with hmem | hget
  · exact hmem
  · cases hget

theorem get?_insertMany_of_notMem {pairs : List (κ × α)} {m : SortedMap κ α} {k : κ}
    (h : k ∉ pairs.map (·.1)) : (m.insertMany pairs).get? k = m.get? k := by
  induction pairs generalizing m with
  | nil => rfl
  | cons e rest ih =>
      rw [List.map_cons, List.mem_cons, not_or] at h
      rw [insertMany_cons, ih h.2, get?_insert_of_ne m e.2 h.1]

/-- A pair whose key is not repeated is found. -/
theorem get?_insertMany_of_mem {pairs : List (κ × α)} {m : SortedMap κ α} {k : κ} {a : α}
    (hnd : (pairs.map (·.1)).Nodup) (h : (k, a) ∈ pairs) :
    (m.insertMany pairs).get? k = some a := by
  induction pairs generalizing m with
  | nil => cases h
  | cons e rest ih =>
      obtain ⟨hnot, hnd⟩ := List.nodup_cons.1 hnd
      rcases List.mem_cons.1 h with rfl | h
      · rw [insertMany_cons, get?_insertMany_of_notMem hnot, get?_insert_self]
      · exact ih hnd h

/-- Where no key is repeated, a map built from a list holds the pairs of the list. -/
theorem get?_ofList_iff_mem {pairs : List (κ × α)} (hnd : (pairs.map (·.1)).Nodup) {k : κ} {a : α} :
    (ofList pairs).get? k = some a ↔ (k, a) ∈ pairs := by
  refine ⟨mem_of_get?_ofList, fun h => ?_⟩
  rw [ofList_eq_insertMany]
  exact get?_insertMany_of_mem hnd h

/-- Where no key is repeated, the order of the pairs does not matter. -/
theorem ofList_perm {pairs pairs' : List (κ × α)} (hnd : (pairs.map (·.1)).Nodup)
    (h : pairs.Perm pairs') : ofList pairs = ofList pairs' := by
  have hnd' : (pairs'.map (·.1)).Nodup := (h.map _).nodup_iff.1 hnd
  refine ext_get? fun k => Option.ext fun a => ?_
  rw [get?_ofList_iff_mem hnd, get?_ofList_iff_mem hnd', h.mem_iff]

/-- After insertions the map contains what it did and every key that was inserted. -/
theorem contains_insertMany {pairs : List (κ × α)} {m : SortedMap κ α} {k : κ} :
    (m.insertMany pairs).contains k = true
      ↔ k ∈ pairs.map (·.1) ∨ m.contains k = true := by
  induction pairs generalizing m with
  | nil => exact ⟨Or.inr, fun h => h.resolve_left List.not_mem_nil⟩
  | cons e rest ih =>
      rw [insertMany_cons, ih, List.map_cons, List.mem_cons]
      by_cases hk : k = e.1
      · subst hk
        simp [contains_eq]
      · simp [contains_eq, get?_insert_of_ne m e.2 hk, hk]

/-- What is found after insertions, of repeated keys the last, is found among what was inserted, and
else was there before. -/
theorem get?_insertMany (m : SortedMap κ α) (pairs : List (κ × α)) (k : κ) :
    (m.insertMany pairs).get? k = ((ofList pairs).get? k).or (m.get? k) := by
  rw [ofList_eq_insertMany]
  induction pairs generalizing m with
  | nil => rfl
  | cons e rest ih =>
      rw [insertMany_cons, insertMany_cons, ih (m.insert e.1 e.2),
        ih ((∅ : SortedMap κ α).insert e.1 e.2), Option.or_assoc]
      congr 1
      by_cases hk : k = e.1
      · rw [hk, get?_insert_self, get?_insert_self]
        rfl
      · rw [get?_insert_of_ne _ _ hk, get?_insert_of_ne _ _ hk]
        rfl

theorem get?_ofList_append (pairs pairs' : List (κ × α)) (k : κ) :
    (ofList (pairs ++ pairs')).get? k
      = ((ofList pairs').get? k).or ((ofList pairs).get? k) := by
  have happend : (∅ : SortedMap κ α).insertMany (pairs ++ pairs')
      = ((∅ : SortedMap κ α).insertMany pairs).insertMany pairs' := List.foldl_append ..
  rw [ofList_eq_insertMany, happend, get?_insertMany, ← ofList_eq_insertMany]

theorem insert_insert_self (m : SortedMap κ α) (k : κ) (a b : α) :
    (m.insert k a).insert k b = m.insert k b := by
  refine ext_get? fun k' => ?_
  by_cases hk : k' = k
  · rw [hk, get?_insert_self, get?_insert_self]
  · rw [get?_insert_of_ne _ _ hk, get?_insert_of_ne _ _ hk, get?_insert_of_ne _ _ hk]

theorem insert_comm (m : SortedMap κ α) {k k' : κ} (a a' : α) (h : k ≠ k') :
    (m.insert k a).insert k' a' = (m.insert k' a').insert k a := by
  refine ext_get? fun k₀ => ?_
  by_cases hk : k₀ = k
  · subst hk
    rw [get?_insert_of_ne _ _ h, get?_insert_self, get?_insert_self]
  · by_cases hk' : k₀ = k'
    · rw [hk', get?_insert_self, get?_insert_of_ne _ _ (Ne.symm h), get?_insert_self]
    · rw [get?_insert_of_ne _ _ hk', get?_insert_of_ne _ _ hk, get?_insert_of_ne _ _ hk,
        get?_insert_of_ne _ _ hk']

theorem mem_insert_iff {m : SortedMap κ α} {k k' : κ} {a : α} :
    k' ∈ m.insert k a ↔ k' = k ∨ k' ∈ m := by
  show (m.insert k a).contains k' = true ↔ k' = k ∨ m.contains k' = true
  rw [contains_eq, contains_eq]
  by_cases hk : k' = k
  · simp [hk]
  · simp [get?_insert_of_ne m a hk, hk]

theorem erase_of_get?_eq_none {m : SortedMap κ α} {k : κ} (h : m.get? k = none) :
    m.erase k = m := by
  refine ext_get? fun k' => ?_
  by_cases hk : k' = k
  · rw [hk, get?_erase_self, h]
  · rw [get?_erase_of_ne _ hk]

theorem contains_union {m m' : SortedMap κ α} {k : κ} :
    (m.union m').contains k = true ↔ m.contains k = true ∨ m'.contains k = true := by
  rw [union, contains_insertMany, ← mem_keys_iff (m := m'), or_comm]
  rfl

theorem contains_ofKeys {ks : List κ} {k : κ} :
    (ofKeys ks).contains k = true ↔ k ∈ ks := by
  have hkeys : (ks.map fun k => (k, ())).map (·.1) = ks := by
    rw [List.map_map]
    exact List.map_id ks
  rw [ofKeys, ofList_eq_insertMany, contains_insertMany, hkeys]
  simp [contains_eq]

/-- Sets of keys are equal if they were built from the same keys. -/
theorem ofKeys_congr {ks ks' : List κ} (h : ∀ k, k ∈ ks ↔ k ∈ ks') : ofKeys ks = ofKeys ks' := by
  refine ext_get? fun k => ?_
  have hsame : (ofKeys ks).contains k = (ofKeys ks').contains k := by
    rw [Bool.eq_iff_iff, contains_ofKeys, contains_ofKeys, h]
  rw [contains_eq, contains_eq] at hsame
  cases hk : (ofKeys ks).get? k <;> cases hk' : (ofKeys ks').get? k <;> simp_all

/-- A map that is built from what becomes of the entries of another one, each under its own key. -/
theorem get?_ofList_filterMap {γ : Type v} (m : SortedMap κ α) (f : κ → α → Option γ) (k : κ) :
    (ofList (m.toList.filterMap fun e => (f e.1 e.2).map fun b => (e.1, b))).get? k
      = (m.get? k).bind (f k) := by
  have hsome : ∀ {e : κ × α} {x : κ × γ}, (f e.1 e.2).map (fun b => (e.1, b)) = some x
      ↔ f e.1 e.2 = some x.2 ∧ e.1 = x.1 := by
    intro e x
    rw [Option.map_eq_some_iff]
    constructor
    · rintro ⟨b, hb, rfl⟩
      exact ⟨hb, rfl⟩
    · rintro ⟨hb, hk⟩
      exact ⟨x.2, hb, by rw [hk]⟩
  refine Option.ext fun b => ?_
  rw [Option.bind_eq_some_iff]
  constructor
  · intro h
    obtain ⟨e, hmem, he⟩ := List.mem_filterMap.1 (mem_of_get?_ofList h)
    obtain ⟨hb, rfl⟩ := hsome.1 he
    exact ⟨e.2, get?_of_mem_toList hmem, hb⟩
  · rintro ⟨a, ha, hb⟩
    rw [ofList_eq_insertMany]
    apply get?_insertMany_of_mem
    · -- the keys of the entries increase, so none of them is repeated
      refine List.pairwise_map.2 (m.increasing.filterMap _ ?_)
      intro e e' hlt x hx x' hx' heq
      rw [(hsome.1 hx).2, (hsome.1 hx').2, heq] at hlt
      simp at hlt
    · exact List.mem_filterMap.2 ⟨(k, a), mem_toList_of_get? ha, hsome.2 ⟨hb, rfl⟩⟩

/-- Listing a map and building one from the list gives the map back. -/
theorem ofList_entries (m : SortedMap κ α) : ofList m.entries = m := by
  refine ext_get? fun k => Option.ext fun a => ?_
  rw [ofList_eq_insertMany]
  constructor
  · intro h
    rcases mem_or_get?_of_get?_insertMany h with hmem | hget
    · exact get?_of_mem_toList hmem
    · cases hget
  · intro h
    exact get?_insertMany_of_mem m.keys_nodup (mem_toList_of_get? h)

end ControlLoop.SortedMap
