/-
The digest of a written value does not see the order of its fields.

# Where the order goes

The text of a value keeps the order of its fields, so the digest of the
text would show it. A contribution takes a detour: it first becomes a
JSON value, whose objects have their fields in the order of the names,
and the text of that is digested. A value whose fields stand in another
order, in one object somewhere inside it (`Reorder`) or in many
(`Reordered`), becomes the same JSON value (`toJson_of_reorder`), as
long as no object tells a name twice: of a repeated name the last one
counts, and which that is would depend on the order.

# Values that cannot be written

What keeps a value from being written is a flaw of one of its parts, and
a value has the same flaws in any order of its fields
(`HasFlaw.of_reorder`). So both can be written or neither, and what is
told of either is a flaw of both; which one it is depends on the order,
since the first is told.
-/
import ControlLoop.Digest.DesiredState
import ControlLoop.Error
import ControlLoop.Proofs.Json.Written
import Mathlib.Data.List.Perm.Basic
import Mathlib.Logic.Relation

namespace ControlLoop

namespace Serial

open Json (Failure)

-- ======================================================== the vocabulary

/-- One value is another one or occurs inside it. -/
inductive OccursIn (w : Serial) : Serial → Prop
  | self : OccursIn w w
  | item {v : Serial} {items : List Serial} (hv : v ∈ items) (h : OccursIn w v) :
      OccursIn w (.list items)
  | field {e : FieldKey × Serial} {fields : List (FieldKey × Serial)} (he : e ∈ fields)
      (h : OccursIn w e.2) : OccursIn w (.record fields)

/-- The names among the keys of an object. -/
def names (keys : List FieldKey) : List String :=
  keys.filterMap fun
    | .text k => some k
    | .compound => none

/-- No object, at any depth, has two fields of one name. -/
def HasDistinctNames (v : Serial) : Prop :=
  ∀ fields, OccursIn (.record fields) v → (names (fields.map (·.1))).Nodup

/-- The fields of one object, at any depth, are in another order. -/
inductive Reorder : Serial → Serial → Prop
  | here {fields fields' : List (FieldKey × Serial)} (h : fields.Perm fields') :
      Reorder (.record fields) (.record fields')
  | item {v v' : Serial} (before after : List Serial) (h : Reorder v v') :
      Reorder (.list (before ++ v :: after)) (.list (before ++ v' :: after))
  | field {v v' : Serial} (before after : List (FieldKey × Serial)) (k : FieldKey)
      (h : Reorder v v') :
      Reorder (.record (before ++ (k, v) :: after)) (.record (before ++ (k, v') :: after))

/-- The fields of any number of objects are in another order. -/
def Reordered : Serial → Serial → Prop := Relation.ReflTransGen Reorder

/-- What keeps a value from being written, its parts apart. -/
inductive Refuses : Serial → Failure → Prop
  | int {n : Int} (h : fitsWord n = false) : Refuses (.int n) .numberOutOfRange
  | key {fields : List (FieldKey × Serial)} (h : .compound ∈ fields.map (·.1)) :
      Refuses (.record fields) .keyNotString
  | refusing (reason : String) : Refuses (.refusing reason) (.ofReason reason)

/-- Something in a value keeps it from being written. -/
def HasFlaw (v : Serial) (f : Failure) : Prop := ∃ w, OccursIn w v ∧ Refuses w f

variable {v v' w : Serial} {f : Failure} {items : List Serial}
  {fields fields' : List (FieldKey × Serial)}

-- ====================================================== another order

theorem Reorder.symm (h : Reorder v v') : Reorder v' v := by
  induction h with
  | here h => exact .here h.symm
  | item before after _ ih => exact .item before after ih
  | field before after k _ ih => exact .field before after k ih

/-- What occurs in a value occurs in any other order of it, perhaps itself in another order. -/
theorem Reorder.occursIn (h : Reorder v v') (hw : OccursIn w v) :
    ∃ w', OccursIn w' v' ∧ (w = w' ∨ Reorder w w') := by
  induction h with
  | here hperm =>
      cases hw with
      | self => exact ⟨_, .self, Or.inr (.here hperm)⟩
      | field he hw => exact ⟨w, .field (hperm.mem_iff.1 he) hw, Or.inl rfl⟩
  | @item v v' before after h ih =>
      cases hw with
      | self => exact ⟨_, .self, Or.inr (.item before after h)⟩
      | @item u _ hu hw =>
          rcases List.mem_append.1 hu with hu | hu
          · exact ⟨w, .item (List.mem_append_left _ hu) hw, Or.inl rfl⟩
          · rcases List.mem_cons.1 hu with rfl | hu
            · obtain ⟨w', hw', hsame⟩ := ih hw
              exact ⟨w', .item (List.mem_append_right _ List.mem_cons_self) hw', hsame⟩
            · exact ⟨w, .item (List.mem_append_right _ (List.mem_cons_of_mem _ hu)) hw,
                Or.inl rfl⟩
  | @field v v' before after k h ih =>
      cases hw with
      | self => exact ⟨_, .self, Or.inr (.field before after k h)⟩
      | @field e _ he hw =>
          rcases List.mem_append.1 he with he | he
          · exact ⟨w, .field (List.mem_append_left _ he) hw, Or.inl rfl⟩
          · rcases List.mem_cons.1 he with rfl | he
            · obtain ⟨w', hw', hsame⟩ := ih hw
              exact ⟨w', .field (e := (k, v')) (List.mem_append_right _ List.mem_cons_self) hw',
                hsame⟩
            · exact ⟨w, .field (List.mem_append_right _ (List.mem_cons_of_mem _ he)) hw,
                Or.inl rfl⟩

/-- Another order of an object is an object with the same keys. -/
theorem Reorder.of_record (h : Reorder (.record fields) w) :
    ∃ fields', w = .record fields' ∧ (fields.map (·.1)).Perm (fields'.map (·.1)) := by
  cases h with
  | here hperm => exact ⟨_, rfl, hperm.map _⟩
  | @field v v' before after k _ =>
      refine ⟨_, rfl, ?_⟩
      rw [List.map_append, List.map_append]
      exact List.Perm.refl _

theorem HasDistinctNames.of_reorder (hv : v.HasDistinctNames) (h : Reorder v v') :
    v'.HasDistinctNames := by
  intro fields' hfields'
  obtain ⟨w, hw, rfl | hreorder⟩ := h.symm.occursIn hfields'
  · exact hv fields' hw
  · obtain ⟨fields, rfl, hperm⟩ := hreorder.of_record
    exact (hperm.filterMap _).nodup_iff.2 (hv fields hw)

/-- A value has its flaws in any order of its fields. -/
theorem HasFlaw.of_reorder (hv : v.HasFlaw f) (h : Reorder v v') : v'.HasFlaw f := by
  obtain ⟨w, hw, hrefuses⟩ := hv
  obtain ⟨w', hw', rfl | hreorder⟩ := h.occursIn hw
  · exact ⟨w, hw', hrefuses⟩
  · -- of the parts that refuse only an object has fields to be put in another order
    cases hrefuses with
    | int hn => cases hreorder
    | key hkey =>
        obtain ⟨fields', rfl, hperm⟩ := hreorder.of_record
        exact ⟨_, hw', .key (hperm.mem_iff.1 hkey)⟩
    | refusing reason => cases hreorder

-- ======================================================= what is written

/-- What is written of the fields of an object are its names, each with a value. -/
theorem map_fst_of_written {es : Json.Fields} (h : List.Forall₂ WrittenField fields es) :
    es.map (·.1) = names (fields.map (·.1)) := by
  induction h with
  | nil => rfl
  | @cons e e' fields es he _ ih =>
      obtain ⟨hkey, -⟩ := he
      rw [List.map_cons, List.map_cons, hkey, ih]
      rfl

/-- One of many things takes the place of another that comes to no less. -/
theorem forall₂_replace {α β : Type} {R : α → β → Prop} {a a' : α} (ha : ∀ b, R a b → R a' b)
    (before : List α) {after : List α} {bs : List β} (h : List.Forall₂ R (before ++ a :: after) bs) :
    List.Forall₂ R (before ++ a' :: after) bs := by
  induction before generalizing bs with
  | nil =>
      obtain ⟨b, bs, hb, hbs, rfl⟩ := List.forall₂_cons_left_iff.1 h
      exact .cons (ha b hb) hbs
  | cons x before ih =>
      obtain ⟨b, bs, hb, hbs, rfl⟩ := List.forall₂_cons_left_iff.1 h
      exact .cons hb (ih hbs)

theorem OccursIn.trans (hw : OccursIn w v) (hv : OccursIn v v') : OccursIn w v' := by
  induction hv with
  | self => exact hw
  | item hmem _ ih => exact .item hmem ih
  | field hmem _ ih => exact .field hmem ih

theorem HasDistinctNames.of_occursIn (hv : v.HasDistinctNames) (hw : OccursIn w v) :
    w.HasDistinctNames := fun fields hfields => hv fields (hfields.trans hw)

theorem HasDistinctNames.list (h : ∀ v ∈ items, v.HasDistinctNames) :
    (list items).HasDistinctNames := by
  intro fields hfields
  cases hfields with
  | item hv hfields => exact h _ hv fields hfields

theorem HasDistinctNames.record (hnames : (names (fields.map (·.1))).Nodup)
    (h : ∀ e ∈ fields, e.2.HasDistinctNames) : (record fields).HasDistinctNames := by
  intro fields' hfields'
  cases hfields' with
  | self => exact hnames
  | field he hfields' => exact h _ he fields' hfields'

/-- In another order the same is written. -/
theorem toJson_of_reorder (h : Reorder v v') (hv : v.HasDistinctNames) {j : Json}
    (hj : v.toJson = .ok j) : v'.toJson = .ok j := by
  induction h generalizing j with
  | @here fields fields' hperm =>
      obtain ⟨es, hes, rfl⟩ := toJson_record_eq_ok.1 hj
      obtain ⟨es', hes', hperm'⟩ := List.perm_comp_forall₂ hperm.symm hes
      have hnames : (es.map (·.1)).Nodup := by
        rw [map_fst_of_written hes]
        exact hv fields .self
      refine toJson_record_eq_ok.2 ⟨es', hes', ?_⟩
      exact congrArg (Json.object ·.entries) (SortedMap.ofList_perm hnames hperm'.symm)
  | @item v v' before after h ih =>
      obtain ⟨js, hjs, rfl⟩ := toJson_list_eq_ok.1 hj
      have hv' : v.HasDistinctNames :=
        hv.of_occursIn (.item (List.mem_append_right _ List.mem_cons_self) .self)
      exact toJson_list_eq_ok.2 ⟨js, forall₂_replace (fun _ => ih hv') before hjs, rfl⟩
  | @field v v' before after k h ih =>
      obtain ⟨es, hes, rfl⟩ := toJson_record_eq_ok.1 hj
      have hv' : v.HasDistinctNames :=
        hv.of_occursIn (.field (List.mem_append_right _ List.mem_cons_self) .self)
      have hfield : ∀ e', WrittenField (k, v) e' → WrittenField (k, v') e' :=
        fun _ he => ⟨he.1, ih hv' he.2⟩
      exact toJson_record_eq_ok.2 ⟨es, forall₂_replace hfield before hes, rfl⟩

-- ==================================================== what is not written

theorem HasFlaw.of_occursIn (hw : w.HasFlaw f) (h : OccursIn w v) : v.HasFlaw f := by
  obtain ⟨u, hu, hrefuses⟩ := hw
  exact ⟨u, hu.trans h, hrefuses⟩

/-- The reason for which a value is not written is a flaw of it. -/
theorem hasFlaw_of_toJson (h : v.toJson = .error f) : v.HasFlaw f := by
  induction v using inductionOnParts with
  | null | bool | float | single | nonfinite | string => cases h
  | int n =>
      rw [toJson] at h
      split at h
      · cases h
      · next hn =>
        obtain rfl := Except.error.inj h
        exact ⟨_, .self, .int (Bool.eq_false_iff.2 hn)⟩
  | list items ih =>
      rw [toJson, bind_eq_error] at h
      rcases h with h | ⟨js, -, h⟩
      · obtain ⟨v, hv, hf⟩ := exists_of_itemsToJson_eq_error h
        exact (ih v hv hf).of_occursIn (.item hv .self)
      · cases h
  | record fields ih =>
      rw [toJson, bind_eq_error] at h
      rcases h with h | ⟨es, -, h⟩
      · rcases exists_of_fieldsToJson_eq_error h with ⟨rfl, hkey⟩ | ⟨⟨k, v⟩, he, hf⟩
        · exact ⟨_, .self, .key hkey⟩
        · exact (ih k v he hf).of_occursIn (.field he .self)
      · cases h
  | refusing reason =>
      obtain rfl := Except.error.inj h
      exact ⟨_, .self, .refusing reason⟩

-- ============================================================ many orders

/-- All that another order of a value keeps. -/
structure Keeps (v v' : Serial) : Prop where
  distinct : v'.HasDistinctNames
  written : ∀ j, v.toJson = .ok j → v'.toJson = .ok j
  flaws : ∀ f, v.HasFlaw f → v'.HasFlaw f

instance : Std.Symm Reorder := ⟨fun _ _ => Reorder.symm⟩

theorem Reordered.symm (h : Reordered v v') : Reordered v' v :=
  Relation.ReflTransGen.stdSymm.symm _ _ h

theorem Reordered.keeps (h : Reordered v v') (hv : v.HasDistinctNames) : Keeps v v' := by
  induction h with
  | refl => exact ⟨hv, fun _ => id, fun _ => id⟩
  | tail _ hstep ih =>
      exact ⟨ih.distinct.of_reorder hstep,
        fun j hj => toJson_of_reorder hstep ih.distinct (ih.written j hj),
        fun f hf => (ih.flaws f hf).of_reorder hstep⟩

/-- A value and another order of it become the same JSON value, or neither can be written, and the
reasons are flaws that both have. -/
theorem Reordered.toJson_cases (h : Reordered v v') (hv : v.HasDistinctNames) :
    (∃ j, v.toJson = .ok j ∧ v'.toJson = .ok j)
      ∨ ∃ f f', v.toJson = .error f ∧ v'.toJson = .error f'
        ∧ ∀ g, g = f ∨ g = f' → v.HasFlaw g ∧ v'.HasFlaw g := by
  have hkeeps : Keeps v v' := h.keeps hv
  have hback : Keeps v' v := h.symm.keeps hkeeps.distinct
  cases hj : v.toJson with
  | ok j => exact Or.inl ⟨j, rfl, hkeeps.written j hj⟩
  | error f =>
      cases hj' : v'.toJson with
      | ok j =>
          rw [hback.written j hj'] at hj
          cases hj
      | error f' =>
          refine Or.inr ⟨f, f', rfl, rfl, ?_⟩
          rintro g (rfl | rfl)
          · have hflaw := hasFlaw_of_toJson hj
            exact ⟨hflaw, hkeeps.flaws _ hflaw⟩
          · have hflaw := hasFlaw_of_toJson hj'
            exact ⟨hback.flaws _ hflaw, hflaw⟩

end Serial

namespace DesiredState

-- ====================================================== what is contributed

theorem add_value_of_ok (d : DesiredState) (name : String) {v : Serial} {j : Json}
    (hj : v.toJson = .ok j) : d.add name (.value v)
      = .ok (if j.isVoid then d else ⟨d.items.insert name (Digest.ofSequence [j.text])⟩) := by
  simp only [add, Contribution.digest?, hj, bind, Except.bind]
  cases j.isVoid <;> rfl

theorem add_value_of_error (d : DesiredState) (name : String) {v : Serial} {f : Json.Failure}
    (hf : v.toJson = .error f) : d.add name (.value v) = .error f := by
  simp only [add, Contribution.digest?, hf, bind, Except.bind]

/-- A value contributes the same in any order of its fields, at any depth, to any desired state: both
orders give states with the same composed digest, or both fail to be written, which is one kind of
error. What is told of the failure is a flaw that the value has in both orders. -/
theorem add_value_reordered (d : DesiredState) (name : String) {v v' : Serial}
    (hv : v.HasDistinctNames) (h : v.Reordered v') :
    (∃ made made', d.add name (.value v) = .ok made ∧ d.add name (.value v') = .ok made'
        ∧ made.items = made'.items ∧ made.digest = made'.digest)
      ∨ ∃ f f', d.add name (.value v) = .error f ∧ d.add name (.value v') = .error f'
        ∧ (Error.serialization f).kind = (Error.serialization f').kind
        ∧ ∀ g, g = f ∨ g = f' → v.HasFlaw g ∧ v'.HasFlaw g := by
  rcases h.toJson_cases hv with ⟨j, hj, hj'⟩ | ⟨f, f', hf, hf', hflaws⟩
  · exact Or.inl ⟨_, _, add_value_of_ok d name hj, add_value_of_ok d name hj', rfl, rfl⟩
  · exact Or.inr ⟨f, f', add_value_of_error d name hf, add_value_of_error d name hf', rfl, hflaws⟩

/-- Two levels of fields that are told the other way round: the texts differ, the composed digest
does not. -/
theorem add_value_reordered_nested :
    let v : Serial := .record [(.text "image", .string "v1"),
      (.text "limits", .list [.record [(.text "cpu", .int 2), (.text "memory", .int 4)]])]
    let v' : Serial := .record
      [(.text "limits", .list [.record [(.text "memory", .int 4), (.text "cpu", .int 2)]]),
        (.text "image", .string "v1")]
    v.HasDistinctNames ∧ v.Reordered v' ∧ v.text.toOption ≠ v'.text.toOption
      ∧ ∃ made made', empty.add "spec" (.value v) = .ok made
        ∧ empty.add "spec" (.value v') = .ok made' ∧ made.digest = made'.digest := by
  intro v v'
  have hinner : Serial.Reorder (.record [(.text "cpu", .int 2), (.text "memory", .int 4)])
      (.record [(.text "memory", .int 4), (.text "cpu", .int 2)]) := .here (List.Perm.swap ..)
  have hstring : (Serial.string "v1").HasDistinctNames := fun _ h => by cases h
  have hint : ∀ n, (Serial.int n).HasDistinctNames := fun _ _ h => by cases h
  have hlimits : (Serial.record
      [(.text "cpu", .int 2), (.text "memory", .int 4)]).HasDistinctNames :=
    .record (by decide) (List.forall_mem_cons.2 ⟨hint 2, List.forall_mem_singleton.2 (hint 4)⟩)
  have hv : v.HasDistinctNames :=
    .record (by decide) (List.forall_mem_cons.2 ⟨hstring,
      List.forall_mem_singleton.2 (.list (List.forall_mem_singleton.2 hlimits))⟩)
  have h : v.Reordered v' :=
    .tail (.single (.field [_] [] _ (.item [] [] hinner))) (.here (List.Perm.swap ..))
  have htext : v.text.toOption ≠ v'.text.toOption := by decide
  refine ⟨hv, h, htext, ?_⟩
  rcases add_value_reordered empty "spec" hv h with
    ⟨made, made', hmade, hmade', -, hdigest⟩ | ⟨f, -, hf, -⟩
  · exact ⟨made, made', hmade, hmade', hdigest⟩
  · cases hf

end DesiredState

end ControlLoop
