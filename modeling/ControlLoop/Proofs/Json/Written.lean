/-
What becomes of a value that is written.

# Part by part

A list is written if all its items are, and an object if all its fields
are and no key of it is something else than a text; then it becomes what
its parts become, in their order (`toJson_list_eq_ok`,
`toJson_record_eq_ok`). What is not written has a part that is not
(`exists_of_itemsToJson_eq_error`, `exists_of_fieldsToJson_eq_error`).
What holds of a value as soon as it holds of its parts holds of every
value (`inductionOnParts`).

# What can come out

What comes out is a JSON value as there may be one: at every depth the
fields of an object stand in the order of their names, each once, and
integers have 64 bits (`wellFormed_toJson`).
-/
import ControlLoop.Serial
import ControlLoop.Proofs.SortedMap
import Mathlib.Data.List.Forall2

namespace ControlLoop

namespace Serial

open Json (Failure)

variable {f : Failure} {items : List Serial} {fields : List (FieldKey × Serial)}

-- ============================================================= induction

/-- What holds of every list and object as soon as it holds of the parts, and of everything else,
holds of every value. -/
@[elab_as_elim]
theorem inductionOnParts {motive : Serial → Prop} (null : motive .null)
    (bool : ∀ b, motive (.bool b)) (int : ∀ n, motive (.int n)) (float : ∀ x, motive (.float x))
    (single : ∀ x, motive (.single x)) (nonfinite : motive .nonfinite)
    (string : ∀ s, motive (.string s))
    (list : ∀ items, (∀ v ∈ items, motive v) → motive (.list items))
    (record : ∀ fields, (∀ k v, (k, v) ∈ fields → motive v) → motive (.record fields))
    (refusing : ∀ reason, motive (.refusing reason)) : ∀ v, motive v
  | .null => null
  | .bool b => bool b
  | .int n => int n
  | .float x => float x
  | .single x => single x
  | .nonfinite => nonfinite
  | .string s => string s
  | .list items => list items fun v hv =>
      have _hlt := List.sizeOf_lt_of_mem hv
      inductionOnParts null bool int float single nonfinite string list record refusing v
  | .record fields => record fields fun k v hv =>
      have _hlt := List.sizeOf_lt_of_mem hv
      have _hfield := Prod.mk.sizeOf_spec k v
      inductionOnParts null bool int float single nonfinite string list record refusing v
  | .refusing reason => refusing reason
termination_by v => sizeOf v
decreasing_by
  all_goals
    simp_wf
    omega

-- =========================================================== part by part

theorem bind_eq_ok {ε α β : Type} {x : Except ε α} {g : α → Except ε β} {b : β} :
    (x >>= g) = .ok b ↔ ∃ a, x = .ok a ∧ g a = .ok b := by
  cases x <;> simp [bind, Except.bind]

theorem bind_eq_error {α β : Type} {x : Except Failure α} {g : α → Except Failure β} :
    (x >>= g) = .error f ↔ x = .error f ∨ ∃ a, x = .ok a ∧ g a = .error f := by
  cases x <;> simp [bind, Except.bind]

/-- A field and what is written of it. -/
def WrittenField (e : FieldKey × Serial) (e' : String × Json) : Prop :=
  e.1 = .text e'.1 ∧ e.2.toJson = .ok e'.2

theorem itemsToJson_eq_ok {js : List Json} :
    itemsToJson items = .ok js ↔ List.Forall₂ (fun v j => v.toJson = .ok j) items js := by
  induction items generalizing js with
  | nil => cases js <;> simp [itemsToJson]
  | cons v items ih =>
      rw [itemsToJson, List.forall₂_cons_left_iff]
      simp only [bind_eq_ok, ih, Except.ok.injEq, exists_and_left, eq_comm (a := js)]

theorem fieldsToJson_eq_ok {es : Json.Fields} :
    fieldsToJson fields = .ok es ↔ List.Forall₂ WrittenField fields es := by
  induction fields generalizing es with
  | nil => cases es <;> simp [fieldsToJson]
  | cons e fields ih =>
      obtain ⟨k, v⟩ := e
      rw [fieldsToJson, List.forall₂_cons_left_iff]
      simp only [bind_eq_ok, ih, Except.ok.injEq, WrittenField, Prod.exists]
      cases k with
      | compound => simp [keyText]
      | text k => simp [keyText, eq_comm]

theorem toJson_list_eq_ok {j : Json} : (list items).toJson = .ok j
    ↔ ∃ js, List.Forall₂ (fun v j => v.toJson = .ok j) items js ∧ j = .array js := by
  rw [toJson, bind_eq_ok]
  simp only [itemsToJson_eq_ok, Except.ok.injEq, eq_comm (a := j)]

theorem toJson_record_eq_ok {j : Json} : (record fields).toJson = .ok j
    ↔ ∃ es, List.Forall₂ WrittenField fields es ∧ j = Json.ofFields es := by
  rw [toJson, bind_eq_ok]
  simp only [fieldsToJson_eq_ok, Except.ok.injEq, eq_comm (a := j)]

theorem exists_of_itemsToJson_eq_error (h : itemsToJson items = .error f) :
    ∃ v ∈ items, v.toJson = .error f := by
  induction items with
  | nil => cases h
  | cons v items ih =>
      rw [itemsToJson, bind_eq_error] at h
      rcases h with hv | ⟨j, -, h⟩
      · exact ⟨v, List.mem_cons_self, hv⟩
      · rcases bind_eq_error.1 h with hitems | ⟨js, -, h⟩
        · obtain ⟨w, hw, hf⟩ := ih hitems
          exact ⟨w, List.mem_cons_of_mem _ hw, hf⟩
        · cases h

theorem exists_of_fieldsToJson_eq_error (h : fieldsToJson fields = .error f) :
    (f = .keyNotString ∧ .compound ∈ fields.map (·.1)) ∨ ∃ e ∈ fields, e.2.toJson = .error f := by
  induction fields with
  | nil => cases h
  | cons e fields ih =>
      obtain ⟨k, v⟩ := e
      rw [fieldsToJson, bind_eq_error] at h
      rcases h with hk | ⟨name, -, h⟩
      · cases k with
        | text k => cases hk
        | compound => exact Or.inl ⟨(Except.error.inj hk).symm, List.mem_cons_self⟩
      · rcases bind_eq_error.1 h with hv | ⟨j, -, h⟩
        · exact Or.inr ⟨(k, v), List.mem_cons_self, hv⟩
        · rcases bind_eq_error.1 h with hfields | ⟨es, -, h⟩
          · rcases ih hfields with ⟨rfl, hkey⟩ | ⟨e, he, hf⟩
            · exact Or.inl ⟨rfl, List.mem_cons_of_mem _ hkey⟩
            · exact Or.inr ⟨e, List.mem_cons_of_mem _ he, hf⟩
          · cases h

end Serial

-- ====================================================== what can come out

/-- A JSON value as there may be one: the fields of each object stand in the order of their names,
each once, and integers have 64 bits. -/
inductive Json.WellFormed : Json → Prop
  | null : WellFormed .null
  | bool (b : Bool) : WellFormed (.bool b)
  | int {n : Int} (h : Serial.fitsWord n = true) : WellFormed (.int n)
  | float (x : Number.Binary) : WellFormed (.float x)
  | string (s : String) : WellFormed (.string s)
  | array {items : List Json} (h : ∀ j ∈ items, WellFormed j) : WellFormed (.array items)
  | object {fields : Json.Fields} (hinc : Entries.Increasing fields)
      (h : ∀ k j, (k, j) ∈ fields → WellFormed j) : WellFormed (.object fields)

namespace Serial

/-- What was written was written of something. -/
theorem exists_of_mem_written {α β : Type} {R : α → β → Prop} {as : List α} {bs : List β}
    (h : List.Forall₂ R as bs) {b : β} (hb : b ∈ bs) : ∃ a ∈ as, R a b := by
  induction h with
  | nil => cases hb
  | @cons a b' as bs hab _ ih =>
      rcases List.mem_cons.1 hb with rfl | hb
      · exact ⟨a, List.mem_cons_self, hab⟩
      · obtain ⟨a', ha', hR⟩ := ih hb
        exact ⟨a', List.mem_cons_of_mem _ ha', hR⟩

theorem wellFormed_toJson {v : Serial} {j : Json} (h : v.toJson = .ok j) : j.WellFormed := by
  induction v using inductionOnParts generalizing j with
  | null | nonfinite =>
      obtain rfl := Except.ok.inj h
      exact .null
  | bool b =>
      obtain rfl := Except.ok.inj h
      exact .bool b
  | int n =>
      rw [toJson] at h
      split at h
      · next hn =>
        obtain rfl := Except.ok.inj h
        exact .int hn
      · cases h
  | float x =>
      obtain rfl := Except.ok.inj h
      exact .float x
  | single x =>
      obtain rfl := Except.ok.inj h
      cases x.convert Number.binary64 with
      | none => exact .null
      | some y => exact .float y
  | string s =>
      obtain rfl := Except.ok.inj h
      exact .string s
  | list items ih =>
      obtain ⟨js, hjs, rfl⟩ := toJson_list_eq_ok.1 h
      refine .array fun j hj => ?_
      obtain ⟨v, hv, hvj⟩ := exists_of_mem_written hjs hj
      exact ih v hv hvj
  | record fields ih =>
      obtain ⟨es, hes, rfl⟩ := toJson_record_eq_ok.1 h
      refine .object (Entries.increasing_ofList es) fun k j hj => ?_
      have hmem : (k, j) ∈ es := SortedMap.mem_of_get?_ofList
        (SortedMap.get?_of_mem_toList (m := SortedMap.ofList es) hj)
      obtain ⟨⟨key, v⟩, hv, -, hvj⟩ := exists_of_mem_written hes hmem
      exact ih key v hv hvj
  | refusing reason => cases h

end Serial

end ControlLoop
