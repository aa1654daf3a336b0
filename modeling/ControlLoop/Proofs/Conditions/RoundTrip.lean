/-
Conditions come back from their JSON form as they were.

# What an object shows

An object shows a condition if the five texts stand under their names, and
the generation stands under its own, or nothing or null where there is
none (`Shows`). What else the object holds does not matter. An object is
read as the condition that it shows, and as no other; where it shows none,
it is refused (`ofJson_object_eq_ok_iff`). That all fields are checked
before any is missed makes no difference to this, since in an object a
name stands for one value only.

# Back and forth

A condition is written as an object that shows it (`shows_written`). What
was read has a generation that can be written, whether it was read from
an object or from a list, so it can be written and comes back too.
-/
import ControlLoop.Conditions.Encoding
import ControlLoop.Proofs.Json.Written

namespace ControlLoop

namespace Json

-- ============================================================ values

/-- The integers of 64 bits with sign. -/
def IsInt64 (n : Int) : Prop := -0x8000000000000000 ≤ n ∧ n < 0x8000000000000000

variable {v : Json}

theorem asString_eq_ok_iff {s : String} : asString v = .ok s ↔ v = .string s := by
  cases v <;> simp [asString]

theorem asInt64_eq_ok_iff {n : Int} : asInt64 v = .ok n ↔ v = .int n ∧ IsInt64 n := by
  unfold asInt64 asIntIn IsInt64
  cases v with
  | int m =>
      dsimp only
      split
      · next hm =>
        rw [Except.ok.injEq, Json.int.injEq]
        exact ⟨fun h => ⟨h, h ▸ hm⟩, fun h => h.1⟩
      · next hm =>
        rw [Json.int.injEq]
        exact ⟨fun h => (nomatch h), fun h => absurd (h.1 ▸ h.2) hm⟩
  | _ => simp

/-- What may be null is an integer, or there is none. -/
theorem asOption_asInt64_eq_ok_iff {o : Option Int} :
    asOption asInt64 v = .ok o
      ↔ (v = .null ∧ o = none) ∨ ∃ n, v = .int n ∧ IsInt64 n ∧ o = some n := by
  by_cases hv : v = .null
  · subst hv
    simp [asOption, eq_comm]
  · have hread : asOption asInt64 v = (asInt64 v).map some := by
      unfold asOption
      split
      · exact absurd rfl hv
      · rfl
    rw [hread]
    cases hint : asInt64 v with
    | error f =>
        have hnone : ∀ n, ¬ (v = .int n ∧ IsInt64 n) := by
          intro n hn
          rw [asInt64_eq_ok_iff.2 hn] at hint
          cases hint
        simp only [Except.map, reduceCtorEq, hv, false_and, false_or, false_iff]
        intro ⟨n, hn, hrange, _⟩
        exact hnone n ⟨hn, hrange⟩
    | ok n =>
        obtain ⟨rfl, hrange⟩ := asInt64_eq_ok_iff.1 hint
        simp only [Except.map, Except.ok.injEq, hv, false_and, false_or, Json.int.injEq]
        constructor
        · intro h
          exact ⟨n, rfl, hrange, h.symm⟩
        · intro ⟨m, hm, _, h⟩
          rw [h, hm]

/-- A field that must be there is there, and can be read. -/
theorem requiredField_asString_eq_ok_iff {name s : String} {fields : Fields} :
    requiredField asString name fields = .ok s
      ↔ Entries.lookup name fields = some (.string s) := by
  unfold requiredField
  cases Entries.lookup name fields with
  | none => simp
  | some v => simp [asString_eq_ok_iff]

end Json

namespace Condition

open Json (Fields Mismatch IsInt64 field)
open Serial (bind_eq_ok)

variable {c : Condition} {fields : Fields}

-- ============================================================= objects

/-- An object has a condition in its fields. -/
structure Shows (fields : Fields) (c : Condition) : Prop where
  topic : Entries.lookup "type" fields = some (.string c.topic)
  status : Entries.lookup "status" fields = some (.string c.status)
  lastTransitionTime :
    Entries.lookup "lastTransitionTime" fields = some (.string c.lastTransitionTime)
  reason : Entries.lookup "reason" fields = some (.string c.reason)
  message : Entries.lookup "message" fields = some (.string c.message)
  observedGeneration :
    (field "observedGeneration" fields = .null ∧ c.observedGeneration = none)
      ∨ ∃ n, field "observedGeneration" fields = .int n ∧ IsInt64 n
        ∧ c.observedGeneration = some n

theorem checkFields_eq_ok_iff :
    checkFields fields = .ok () ↔ ∀ e ∈ fields, checkField e.1 e.2 = .ok () := by
  induction fields with
  | nil => simp [checkFields]
  | cons e fields ih =>
      rw [checkFields, bind_eq_ok, List.forall_mem_cons, ← ih]
      exact ⟨fun ⟨(), h⟩ => h, fun h => ⟨(), h⟩⟩

/-- Once the fields are checked, what is read is what they show. -/
theorem ofFields_eq_ok_iff :
    ofFields fields = .ok c ↔ checkFields fields = .ok () ∧ Shows fields c := by
  unfold ofFields
  simp only [bind_eq_ok, Json.requiredField_asString_eq_ok_iff, Json.optionalField,
    Json.asOption_asInt64_eq_ok_iff, Except.ok.injEq]
  constructor
  · rintro ⟨⟨⟩, hcheck, topic, htopic, status, hstatus, time, htime, reason, hreason, message,
      hmessage, generation, hgeneration, rfl⟩
    exact ⟨hcheck, htopic, hstatus, htime, hreason, hmessage, hgeneration⟩
  · intro ⟨hcheck, h⟩
    exact ⟨(), hcheck, _, h.topic, _, h.status, _, h.lastTransitionTime, _, h.reason, _, h.message,
      _, h.observedGeneration, rfl⟩

/-- A field has one value, and if a condition is shown, it is of the right type. -/
theorem Shows.checkFields (h : Shows fields c) (hinc : Entries.Increasing fields) :
    checkFields fields = .ok () := by
  rw [checkFields_eq_ok_iff]
  intro ⟨k, v⟩ hmem
  have hlookup : Entries.lookup k fields = some v :=
    SortedMap.get?_of_mem_toList (m := ⟨fields, hinc⟩) hmem
  unfold checkField
  split
  · next htext =>
    have hstring : ∃ s, v = .string s := by
      simp only [textFields, List.mem_cons, List.not_mem_nil, or_false] at htext
      rcases htext with rfl | rfl | rfl | rfl | rfl
      · exact ⟨_, Option.some.inj (hlookup.symm.trans h.topic)⟩
      · exact ⟨_, Option.some.inj (hlookup.symm.trans h.status)⟩
      · exact ⟨_, Option.some.inj (hlookup.symm.trans h.lastTransitionTime)⟩
      · exact ⟨_, Option.some.inj (hlookup.symm.trans h.reason)⟩
      · exact ⟨_, Option.some.inj (hlookup.symm.trans h.message)⟩
    obtain ⟨s, rfl⟩ := hstring
    rfl
  · split
    · next hgeneration =>
      have hfield : field "observedGeneration" fields = v := by
        rw [field, ← hgeneration, hlookup]
        rfl
      have hgen := h.observedGeneration
      rw [hfield] at hgen
      rw [Json.asOption_asInt64_eq_ok_iff.2 hgen]
      rfl
    · rfl

/-- An object is read as the condition that it shows. -/
theorem ofJson_object_eq_ok_iff (hinc : Entries.Increasing fields) :
    ofJson (.object fields) = .ok c ↔ Shows fields c := by
  show ofFields fields = .ok c ↔ _
  rw [ofFields_eq_ok_iff]
  exact ⟨fun h => h.2, fun h => ⟨h.checkFields hinc, h⟩⟩

/-- Some condition is shown if each field has a value of its type. -/
theorem exists_shows_iff :
    (∃ c, Shows fields c)
      ↔ (∀ name ∈ textFields, ∃ s, Entries.lookup name fields = some (.string s))
        ∧ ∀ v, Entries.lookup "observedGeneration" fields = some v →
          v = .null ∨ ∃ n, v = .int n ∧ IsInt64 n := by
  unfold textFields
  simp only [List.forall_mem_cons, List.not_mem_nil, false_implies, implies_true, and_true]
  constructor
  · intro ⟨c, h⟩
    refine ⟨⟨⟨_, h.topic⟩, ⟨_, h.status⟩, ⟨_, h.lastTransitionTime⟩, ⟨_, h.reason⟩,
      ⟨_, h.message⟩⟩, ?_⟩
    intro v hv
    have hgeneration := h.observedGeneration
    unfold field at hgeneration
    rw [hv] at hgeneration
    rcases hgeneration with ⟨hnull, -⟩ | ⟨n, hint, hrange, -⟩
    · exact Or.inl hnull
    · exact Or.inr ⟨n, hint, hrange⟩
  · intro ⟨⟨⟨topic, htopic⟩, ⟨status, hstatus⟩, ⟨time, htime⟩, ⟨reason, hreason⟩,
      ⟨message, hmessage⟩⟩, hgeneration⟩
    have hread : ∃ o, (field "observedGeneration" fields = .null ∧ o = none)
        ∨ ∃ n, field "observedGeneration" fields = .int n ∧ IsInt64 n ∧ o = some n := by
      unfold field
      cases hv : Entries.lookup "observedGeneration" fields with
      | none => exact ⟨none, Or.inl ⟨rfl, rfl⟩⟩
      | some v =>
          rcases hgeneration v hv with hnull | ⟨n, hint, hrange⟩
          · exact ⟨none, Or.inl ⟨hnull, rfl⟩⟩
          · exact ⟨some n, Or.inr ⟨n, hint, hrange, rfl⟩⟩
    obtain ⟨o, ho⟩ := hread
    exact ⟨⟨topic, status, time, reason, message, o⟩, htopic, hstatus, htime, hreason, hmessage, ho⟩

-- ============================================================= writing

/-- The generation can be written: it has 64 bits, if there is one. -/
def HasInt64 (c : Condition) : Prop := ∀ n, c.observedGeneration = some n → IsInt64 n

/-- The fields that are written, in the order of the structure. -/
def written (c : Condition) : Fields :=
  [("type", .string c.topic), ("status", .string c.status),
    ("lastTransitionTime", .string c.lastTransitionTime), ("reason", .string c.reason),
    ("message", .string c.message)]
  ++ match c.observedGeneration with
    | none => []
    | some n => [("observedGeneration", .int n)]

theorem toJson_toSerial (h : c.HasInt64) : c.toSerial.toJson = .ok (Json.ofFields c.written) := by
  have htext : ∀ k s, Serial.WrittenField (.text k, .string s) (k, .string s) :=
    fun _ _ => ⟨rfl, rfl⟩
  unfold toSerial
  rw [Serial.toJson_record_eq_ok]
  refine ⟨c.written, ?_, rfl⟩
  refine List.rel_append (.cons (htext _ _) (.cons (htext _ _) (.cons (htext _ _)
    (.cons (htext _ _) (.cons (htext _ _) .nil))))) ?_
  cases hgen : c.observedGeneration with
  | none => exact .nil
  | some n =>
      have hword : Serial.fitsWord n = true := by
        obtain ⟨hlow, hhigh⟩ := h n hgen
        unfold Serial.fitsWord
        simp only [Bool.and_eq_true, decide_eq_true_eq]
        omega
      exact .cons ⟨rfl, if_pos hword⟩ .nil

theorem exists_text_toSerial (c : Condition) : ∃ t, c.toSerial.text = .ok t := by
  unfold toSerial
  cases c.observedGeneration with
  | none => exact ⟨_, rfl⟩
  | some n => exact ⟨_, rfl⟩

theorem nodup_written (c : Condition) : (c.written.map (·.1)).Nodup := by
  unfold written
  cases c.observedGeneration with
  | none =>
      show ["type", "status", "lastTransitionTime", "reason", "message"].Nodup
      decide
  | some n =>
      show ["type", "status", "lastTransitionTime", "reason", "message", "observedGeneration"].Nodup
      decide

theorem lookup_written {k : String} {v : Json} :
    Entries.lookup k (Entries.ofList c.written) = some v ↔ (k, v) ∈ c.written :=
  SortedMap.get?_ofList_iff_mem c.nodup_written

/-- An unknown generation is left out. -/
theorem lookup_written_of_none (h : c.observedGeneration = none) :
    Entries.lookup "observedGeneration" (Entries.ofList c.written) = none := by
  rw [Option.eq_none_iff_forall_ne_some]
  intro v hv
  have hmem := lookup_written.1 hv
  simp [written, h] at hmem

/-- What is written shows the condition. -/
theorem shows_written (h : c.HasInt64) : Shows (Entries.ofList c.written) c := by
  refine ⟨lookup_written.2 ?_, lookup_written.2 ?_, lookup_written.2 ?_, lookup_written.2 ?_,
    lookup_written.2 ?_, ?_⟩
  · simp [written]
  · simp [written]
  · simp [written]
  · simp [written]
  · simp [written]
  · unfold field
    cases hgen : c.observedGeneration with
    | none =>
        rw [lookup_written_of_none hgen]
        exact Or.inl ⟨rfl, rfl⟩
    | some n =>
        rw [lookup_written.2 (show ("observedGeneration", Json.int n) ∈ c.written by
          simp [written, hgen])]
        exact Or.inr ⟨n, rfl, h n hgen, rfl⟩

/-- A condition comes back from what it is written as. -/
theorem ofJson_written (h : c.HasInt64) : ofJson (Json.ofFields c.written) = .ok c :=
  (ofJson_object_eq_ok_iff (Entries.increasing_ofList _)).2 (shows_written h)

-- ============================================================= reading

/-- A generation that is read has 64 bits. -/
theorem isInt64_of_asOption {v : Json} {n : Int}
    (h : Json.asOption Json.asInt64 v = .ok (some n)) : IsInt64 n := by
  rcases Json.asOption_asInt64_eq_ok_iff.1 h with ⟨-, hnone⟩ | ⟨m, -, hrange, hm⟩
  · cases hnone
  · exact Option.some.inj hm ▸ hrange

theorem itemAt_eq_ok {α : Type} {read : Json → Except Mismatch α} {items : List Json} {i : Nat}
    {a : α} (h : itemAt read items i = .ok a) : ∃ v, items[i]? = some v ∧ read v = .ok a := by
  unfold itemAt at h
  split at h
  · cases h
  · next v hv => exact ⟨v, hv, h⟩

/-- What was read can be written, also if it was read from a list. -/
theorem hasInt64_of_ofJson {v : Json} (h : ofJson v = .ok c) : c.HasInt64 := by
  intro n hn
  cases v with
  | object fields =>
      have hgeneration := (ofFields_eq_ok_iff.1 h).2.observedGeneration
      rw [hn, ← Json.asOption_asInt64_eq_ok_iff] at hgeneration
      exact isInt64_of_asOption hgeneration
  | array items =>
      have hitems : ofItems items = .ok c := h
      unfold ofItems at hitems
      simp only [bind_eq_ok] at hitems
      obtain ⟨_, -, _, -, _, -, _, -, _, -, generation, hgeneration, hc⟩ := hitems
      have hobserved : generation = some n := by
        split at hc
        · rw [← hn, ← Except.ok.inj hc]
        · cases hc
      obtain ⟨v, -, hv⟩ := itemAt_eq_ok hgeneration
      exact isInt64_of_asOption (hobserved ▸ hv)
  | _ => cases h

/-- A condition with a generation of 64 bits, or none, is written as an object from which it is read
again, and as text; an unknown generation is left out. Every condition that is read from anything is
such a one, so it comes back too, with the same text. An object is read as a condition if and only if
the five texts are there and the generation is an integer of 64 bits, null or missing, whatever else
the object holds. -/
theorem comes_back_from_json :
    (∀ c : Condition, c.HasInt64 → ∃ fields t, c.toSerial.toJson = .ok (.object fields)
        ∧ c.toSerial.text = .ok t
        ∧ (c.observedGeneration = none → Entries.lookup "observedGeneration" fields = none)
        ∧ ofJson (.object fields) = .ok c)
      ∧ (∀ v c, ofJson v = .ok c → ∃ j t, c.toSerial.toJson = .ok j ∧ c.toSerial.text = .ok t
        ∧ ofJson j = .ok c ∧ ∀ c', ofJson j = .ok c' → c' = c ∧ c'.toSerial.text = .ok t)
      ∧ ∀ fields, Entries.Increasing fields →
        ((∃ c, ofJson (.object fields) = .ok c)
          ↔ (∀ name ∈ ["type", "status", "lastTransitionTime", "reason", "message"],
              ∃ s, Entries.lookup name fields = some (.string s))
            ∧ ∀ v, Entries.lookup "observedGeneration" fields = some v →
              v = .null ∨ ∃ n, v = .int n ∧ IsInt64 n) := by
  refine ⟨?_, ?_, ?_⟩
  · intro c hc
    obtain ⟨t, ht⟩ := exists_text_toSerial c
    exact ⟨_, t, toJson_toSerial hc, ht, lookup_written_of_none, ofJson_written hc⟩
  · intro v c hread
    have hc := hasInt64_of_ofJson hread
    obtain ⟨t, ht⟩ := exists_text_toSerial c
    refine ⟨_, t, toJson_toSerial hc, ht, ofJson_written hc, ?_⟩
    intro c' hc'
    obtain rfl : c' = c := Except.ok.inj (hc'.symm.trans (ofJson_written hc))
    exact ⟨rfl, ht⟩
  · intro fields hinc
    simp only [ofJson_object_eq_ok_iff hinc]
    exact exists_shows_iff

/-- A condition of the last generation that there can be, an object with null for the generation and
a field of someone else, and one with a generation that is too large. -/
theorem comes_back_from_json_at_the_edge :
    (∃ fields, (Condition.mk "Ready" "True" "" "" "" (some 0x7fffffffffffffff)).toSerial.toJson
          = .ok (.object fields)
        ∧ ofJson (.object fields)
          = .ok (Condition.mk "Ready" "True" "" "" "" (some 0x7fffffffffffffff)))
      ∧ (∃ j, (Condition.mk "Ready" "True" "" "" "" none).toSerial.toJson = .ok j
        ∧ ofJson j = .ok (Condition.mk "Ready" "True" "" "" "" none))
      ∧ ¬ ∃ c, ofJson (.object [("lastTransitionTime", .string ""), ("message", .string ""),
        ("observedGeneration", .int 0x8000000000000000), ("reason", .string ""),
        ("status", .string "True"), ("type", .string "Ready")]) = .ok c := by
  obtain ⟨hwritten, hread, hobject⟩ := comes_back_from_json
  refine ⟨?_, ?_, ?_⟩
  · obtain ⟨fields, -, hj, -, -, hback⟩ := hwritten
      ⟨"Ready", "True", "", "", "", some 0x7fffffffffffffff⟩ (by
        intro n hn
        obtain rfl := Option.some.inj hn
        exact ⟨by decide, by decide⟩)
    exact ⟨fields, hj, hback⟩
  · obtain ⟨j, -, hj, -, hback, -⟩ := hread
      (.object [("extra", .null), ("lastTransitionTime", .string ""), ("message", .string ""),
        ("observedGeneration", .null), ("reason", .string ""), ("status", .string "True"),
        ("type", .string "Ready")]) ⟨"Ready", "True", "", "", "", none⟩ rfl
    exact ⟨j, hj, hback⟩
  · rw [hobject _ (by unfold Entries.Increasing; decide)]
    rintro ⟨-, hgeneration⟩
    rcases hgeneration (.int 0x8000000000000000) rfl with h | ⟨n, h, hrange⟩
    · cases h
    · obtain rfl := Json.int.inj h
      exact absurd hrange.2 (by decide)

end Condition

end ControlLoop
