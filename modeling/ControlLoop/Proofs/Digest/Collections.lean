/-
Digests see exactly the collection.

# What is digested of a collection

A list is digested as it stands. Of a set nothing is left but its
members, since equal sets are listed alike (`setElements_eq_iff`), and a
map is read back from its keys and values in turn (`mapElements_inj`).
Between such a list and its bytes nothing is lost as far as no element
has a zero in it (`terminated_inj`), and a zero shows as an end of an
element where there is one (`terminated_eq_iff`).
-/
import ControlLoop.Proofs.Digest.Terminated
import ControlLoop.Proofs.SortedMap

namespace ControlLoop.Digest

-- ================================================================= sets

theorem mem_setElements {values : List String} {s : String} :
    s ∈ setElements values ↔ s ∈ values := by
  unfold setElements
  rw [SortedMap.mem_keys_iff, SortedMap.contains_ofKeys]

/-- Sets are listed alike exactly if they have the same members. -/
theorem setElements_eq_iff {values values' : List String} :
    setElements values = setElements values' ↔ ∀ s, s ∈ values ↔ s ∈ values' := by
  constructor
  · intro h s
    rw [← mem_setElements, h, mem_setElements]
  · intro h
    unfold setElements
    rw [SortedMap.ofKeys_congr h]

-- ================================================================= maps

theorem mem_mapElements {m : TextMap} {s : String} :
    s ∈ mapElements m ↔ ∃ k v, m.get? k = some v ∧ (s = k ∨ s = v) := by
  unfold mapElements
  rw [List.mem_flatMap]
  constructor
  · rintro ⟨⟨k, v⟩, hmem, hs⟩
    exact ⟨k, v, SortedMap.get?_of_mem_toList hmem, by simpa using hs⟩
  · rintro ⟨k, v, hget, hs⟩
    exact ⟨(k, v), SortedMap.mem_toList_of_get? hget, by simpa using hs⟩

theorem eq_of_flatMap_pair {es es' : List (String × String)}
    (h : (es.flatMap fun e => [e.1, e.2]) = es'.flatMap fun e => [e.1, e.2]) : es = es' := by
  induction es generalizing es' with
  | nil =>
      cases es' with
      | nil => rfl
      | cons e' rest' => cases h
  | cons e rest ih =>
      cases es' with
      | nil => cases h
      | cons e' rest' =>
          rw [List.flatMap_cons, List.flatMap_cons] at h
          obtain ⟨hhead, htail⟩ := List.append_inj h rfl
          obtain ⟨hk, hv⟩ := List.cons.inj hhead
          rw [ih htail, Prod.ext hk (List.cons.inj hv).1]

/-- A map is read back from its keys and values. -/
theorem mapElements_inj {m m' : TextMap} : mapElements m = mapElements m' ↔ m = m' :=
  ⟨fun h => SortedMap.eq_of_entries (eq_of_flatMap_pair h), fun h => h ▸ rfl⟩

-- ================================================== what digests tell

/-- Digests are made of byte strings that tell lists, sets and maps of texts without zeros apart and
show nothing else of them; and lists of any texts exactly as far as the pieces between zeros go. -/
theorem digests_tell_collections :
    (∀ values, ofSequence values = hexText (sha256 (terminated values)))
      ∧ (∀ values, ofSet values = hexText (sha256 (terminated (setElements values))))
      ∧ (∀ m, ofMap m = hexText (sha256 (terminated (mapElements m))))
      ∧ (∀ values values', (∀ s ∈ values, zero ∉ s.toList) → (∀ s ∈ values', zero ∉ s.toList) →
        (terminated values = terminated values' ↔ values = values'))
      ∧ (∀ values values', (∀ s ∈ values, zero ∉ s.toList) → (∀ s ∈ values', zero ∉ s.toList) →
        (terminated (setElements values) = terminated (setElements values')
          ↔ ∀ s, s ∈ values ↔ s ∈ values'))
      ∧ (∀ m m' : TextMap, (∀ k v, m.get? k = some v → zero ∉ k.toList ∧ zero ∉ v.toList) →
        (∀ k v, m'.get? k = some v → zero ∉ k.toList ∧ zero ∉ v.toList) →
        (terminated (mapElements m) = terminated (mapElements m') ↔ m = m'))
      ∧ ∀ values values', terminated values = terminated values'
        ↔ (values.flatMap fun s => s.toList.splitOn zero)
          = values'.flatMap fun s => s.toList.splitOn zero := by
  refine ⟨fun _ => rfl, fun _ => rfl, fun _ => rfl, fun _ _ h h' => terminated_inj h h',
    fun _ _ h h' => ?_, fun _ _ h h' => ?_, fun _ _ => terminated_eq_iff⟩
  · rw [terminated_inj (fun s hs => h s (mem_setElements.1 hs))
      fun s hs => h' s (mem_setElements.1 hs), setElements_eq_iff]
  · have hbare : ∀ {m : TextMap}, (∀ k v, m.get? k = some v → zero ∉ k.toList ∧ zero ∉ v.toList) →
        ∀ s ∈ mapElements m, zero ∉ s.toList := by
      intro m hm s hs
      obtain ⟨k, v, hget, rfl | rfl⟩ := mem_mapElements.1 hs
      · exact (hm _ _ hget).1
      · exact (hm _ _ hget).2
    rw [terminated_inj (hbare h) (hbare h'), mapElements_inj]

/-- Neither order nor repeats of a set show, what moves between the elements of a list or between a
key and its value does, and a zero in an element is taken for its end. -/
theorem digests_tell_collections_apart :
    terminated (setElements ["b", "a", "b"]) = terminated (setElements ["a", "b"])
      ∧ terminated ["ab", "c"] ≠ terminated ["a", "bc"]
      ∧ terminated (mapElements (SortedMap.ofList [("a", "bc")]))
        ≠ terminated (mapElements (SortedMap.ofList [("ab", "c")]))
      ∧ terminated ["a\x00b"] = terminated ["a", "b"] := by
  obtain ⟨-, -, -, hsequence, hset, hmap, hpieces⟩ := digests_tell_collections
  refine ⟨(hset _ _ (by decide) (by decide)).2 fun s => ?_, fun h => ?_, fun h => ?_,
    (hpieces _ _).2 (by decide)⟩
  · simp only [List.mem_cons, List.not_mem_nil]
    grind
  · have heq := (hsequence _ _ (by decide) (by decide)).1 h
    exact absurd heq (by decide)
  · have hbare : ∀ a b : String, zero ∉ a.toList → zero ∉ b.toList → ∀ k v,
        (SortedMap.ofList [(a, b)]).get? k = some v → zero ∉ k.toList ∧ zero ∉ v.toList := by
      intro a b ha hb k v hget
      obtain ⟨rfl, rfl⟩ := Prod.mk.inj (List.mem_singleton.1 (SortedMap.mem_of_get?_ofList hget))
      exact ⟨ha, hb⟩
    have heq := (hmap _ _ (hbare _ _ (by decide) (by decide))
      (hbare _ _ (by decide) (by decide))).1 h
    exact absurd heq (by decide)

end ControlLoop.Digest
