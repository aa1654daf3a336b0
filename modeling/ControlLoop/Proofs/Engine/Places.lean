/-
The description of a change names exactly the places that changed.

# Places

A place is a field of an object, or a field of a field that is an object
itself (`Place`); deeper differences are told at the second level. The
places that are told of two objects are listed by `places`, and what a
description says is this list, written out (`describe_objects`). Its order
is that of the names, first level before second (`pairwise_places`), so
no place is told twice.

# Absent fields and null

The comparison takes an absent field for null. So a place is told if the
values there differ, absent ones taken for null (`differ_of_mem_places`),
and where no value at either level is null, a field that is absent on
one side does differ (`mem_places_iff`). Then nothing is told exactly of
equal objects (`places_eq_nil_iff`): objects that differ have a field that
differs (`exists_differ`), which needs that fields are in order, and if
it is an object on both sides there is one below it.
-/
import ControlLoop.Proofs.Engine.Description
import ControlLoop.Proofs.Json.Written

namespace ControlLoop

-- ======================================================= fields that differ

namespace Json

open Entries (lookup Increasing)

/-- Two fields differ, of which either may be absent. -/
inductive Differ : Option Json → Option Json → Prop
  | gone (j : Json) : Differ (some j) none
  | come (j : Json) : Differ none (some j)
  | changed {i j : Json} (h : i.same j = false) : Differ (some i) (some j)

/-- No field of an object is null. -/
def NoNulls (fields : Fields) : Prop := ∀ e ∈ fields, e.2 ≠ .null

/-- No field of an object is null, and neither is a field of one that is an object. -/
structure NullFree (fields : Fields) : Prop where
  outer : NoNulls fields
  inner : ∀ e ∈ fields, ∀ gs, e.2 = .object gs → NoNulls gs

variable {b a : Fields} {f : String} {i j : Json}

theorem differ_some_iff : Differ (some i) (some j) ↔ i.same j = false :=
  ⟨fun h => by cases h; assumption, .changed⟩

theorem not_differ_none : ¬Differ none none := fun h => by cases h

theorem null_same_iff : null.same j = true ↔ j = .null := by
  cases j <;> simp [same]

theorem same_null_iff : j.same null = true ↔ j = .null := by
  cases j <;> simp [same]

/-- A field that is not null differs from another if the values do, absent ones taken for null. -/
theorem differ_lookup_iff (hb : NoNulls b) (ha : NoNulls a) :
    Differ (lookup f b) (lookup f a) ↔ (field f b).same (field f a) = false := by
  unfold field
  cases hfb : lookup f b with
  | none =>
      cases hfa : lookup f a with
      | none =>
          refine iff_of_false not_differ_none ?_
          rw [Option.getD_none, same_null]
          decide
      | some j =>
          refine iff_of_true (.come j) (Bool.eq_false_iff.2 fun h => ?_)
          exact ha _ (Entries.mem_of_lookup hfa) (null_same_iff.1 h)
  | some i =>
      cases hfa : lookup f a with
      | none =>
          refine iff_of_true (.gone i) (Bool.eq_false_iff.2 fun h => ?_)
          exact hb _ (Entries.mem_of_lookup hfb) (same_null_iff.1 h)
      | some j => exact differ_some_iff

theorem field_eq_object_iff {gs : Fields} :
    field f b = .object gs ↔ lookup f b = some (.object gs) := by
  unfold field
  cases lookup f b <;> simp

/-- Of two first fields with different names one is absent on the other side. -/
theorem first_name_of_not_differ {k l : String} (hb : Increasing ((k, i) :: b))
    (ha : Increasing ((l, j) :: a))
    (h : ∀ f, ¬Differ (lookup f ((k, i) :: b)) (lookup f ((l, j) :: a))) : k = l := by
  cases hcmp : compare k l with
  | eq => exact Std.LawfulEqCmp.eq_of_compare hcmp
  | lt =>
      refine absurd ?_ (h k)
      rw [Entries.lookup_cons_self, ha.lookup_eq_none_of_lt hcmp]
      exact .gone i
  | gt =>
      refine absurd ?_ (h l)
      rw [Entries.lookup_cons_self, hb.lookup_eq_none_of_lt (Std.OrientedCmp.lt_of_gt hcmp)]
      exact .come j

/-- Objects none of whose fields differ are equal, as their fields are in order. -/
theorem sameFields_of_not_differ (hb : Increasing b) (ha : Increasing a)
    (h : ∀ f, ¬Differ (lookup f b) (lookup f a)) : sameFields b a = true := by
  induction b generalizing a with
  | nil =>
      cases a with
      | nil => simp [sameFields]
      | cons e as => exact absurd (Entries.lookup_cons_self e.1 e.2 as ▸ .come e.2) (h e.1)
  | cons d bs ih =>
      cases a with
      | nil => exact absurd (Entries.lookup_cons_self d.1 d.2 bs ▸ .gone d.2) (h d.1)
      | cons e as =>
          obtain ⟨k, x⟩ := d
          obtain ⟨l, y⟩ := e
          obtain rfl : k = l := first_name_of_not_differ hb ha h
          obtain ⟨hk, hbs⟩ := List.pairwise_cons.1 hb
          obtain ⟨hl, has⟩ := List.pairwise_cons.1 ha
          have hxy : x.same y = true := by
            have hfirst := h k
            rw [Entries.lookup_cons_self, Entries.lookup_cons_self, differ_some_iff,
              Bool.not_eq_false] at hfirst
            exact hfirst
          have hrest : sameFields bs as = true := by
            refine ih hbs has fun f => ?_
            by_cases hf : compare f k = .eq
            · -- the name of the first field is not told again
              obtain rfl := Std.LawfulEqCmp.eq_of_compare hf
              rw [Entries.lookup_eq_none_of_lt hk, Entries.lookup_eq_none_of_lt hl]
              exact not_differ_none
            · have hother := h f
              rwa [Entries.lookup_cons, Entries.lookup_cons, if_neg hf, if_neg hf] at hother
          simp [sameFields, hxy, hrest]

/-- Objects that differ have a field that differs. -/
theorem exists_differ (hb : Increasing b) (ha : Increasing a) (h : sameFields b a = false) :
    ∃ f, Differ (lookup f b) (lookup f a) := by
  by_contra hno
  rw [sameFields_of_not_differ hb ha (not_exists.1 hno)] at h
  cases h

end Json

namespace Change

open Json (field Differ NullFree)
open Entries (lookup)

-- =============================================================== places

/-- A place in an object: a field of it, or a field of a field. -/
inductive Place
  | field (f : String)
  | inner (f g : String)
  deriving DecidableEq

namespace Place

/-- A place, written out. -/
def text : Place → String
  | field f => f
  | inner f g => s!"{f}.{g}"

/-- The field that a place is, or is in. -/
def outer : Place → String
  | field f => f
  | inner f _ => f

/-- The value at a place; null where there is none. -/
def valueIn (fields : Json.Fields) : Place → Json
  | field f => Json.field f fields
  | inner f g =>
    match Json.field f fields with
    | .object gs => Json.field g gs
    | _ => .null

/-- One place comes before another by the names of the fields, first level before second. -/
inductive Before : Place → Place → Prop
  | outer {p q : Place} (h : compare p.outer q.outer = .lt) : Before p q
  | inner (f : String) {g g' : String} (h : compare g g' = .lt) :
      Before (.inner f g) (.inner f g')

theorem Before.irrefl (p : Place) : ¬Before p p := by
  intro h
  cases h with
  | outer h | inner f h => simp at h

end Place

/-- A place changed between two objects: a field that differs and is not an object on both sides, or
a field that differs below one that is. -/
inductive Changed (b a : Json.Fields) : Place → Prop
  | field {f : String} (h : Differ (lookup f b) (lookup f a))
      (hobj : ∀ bs as, lookup f b = some (.object bs) → lookup f a ≠ some (.object as)) :
      Changed b a (.field f)
  | inner {f g : String} {bs as : Json.Fields} (hb : lookup f b = some (.object bs))
      (ha : lookup f a = some (.object as)) (h : Differ (lookup g bs) (lookup g as)) :
      Changed b a (.inner f g)

/-- What is said of some places. -/
def told (ps : List Place) : String :=
  if ps = [] then fallback else "changes to " ++ ", ".intercalate (ps.map Place.text)

-- ===================================================== the places told of

/-- The names of the fields whose values differ, absent ones taken for null. -/
def differing (b a : Json.Fields) : List String :=
  (fieldNames b a).filter fun f => !(field f b).same (field f a)

/-- The places that are told of a field whose values differ. -/
def placesAt (f : String) : Json → Json → List Place
  | .object b, .object a => (differing b a).map (.inner f)
  | _, _ => [.field f]

/-- The places that are told of two objects. -/
def places (b a : Json.Fields) : List Place :=
  (differing b a).flatMap fun f => placesAt f (field f b) (field f a)

variable {b a : Json.Fields} {f g : String} {x y : Json} {p : Place}

theorem mem_fieldNames_iff : f ∈ fieldNames b a ↔ f ∈ b.map (·.1) ∨ f ∈ a.map (·.1) := by
  unfold fieldNames
  rw [SortedMap.mem_keys_iff, SortedMap.contains_ofKeys, List.mem_append]

theorem mem_differing_iff : f ∈ differing b a ↔ (field f b).same (field f a) = false := by
  unfold differing
  rw [List.mem_filter, mem_fieldNames_iff, Bool.not_eq_true']
  refine and_iff_right_of_imp fun h => ?_
  by_contra hno
  rw [not_or] at hno
  unfold Json.field at h
  rw [Entries.lookup_eq_none_of_notMem hno.1, Entries.lookup_eq_none_of_notMem hno.2,
    Option.getD_none, Json.same_null] at h
  cases h

theorem pairwise_differing (b a : Json.Fields) :
    (differing b a).Pairwise fun f f' => compare f f' = .lt :=
  (SortedMap.keys_increasing _).filter _

/-- Of the fields of objects, those are told of whose values differ. -/
theorem paths_objects (path : String) (depth : Nat) (b a : Json.Fields) :
    paths path (depth + 1) (.object b) (.object a)
      = (differing b a).flatMap fun f => paths (below path f) depth (field f b) (field f a) := by
  rw [paths, differing]
  induction fieldNames b a with
  | nil => rfl
  | cons f fs ih =>
      rw [List.flatMap_cons, ih, List.filter_cons]
      cases h : (field f b).same (field f a) <;> simp [h]

theorem paths_below (hf : f ≠ "") (g : String) (h : x.same y = false) :
    paths (below f g) 0 x y = [(Place.inner f g).text] := by
  have hbelow : below f g = (Place.inner f g).text := if_neg (String.isEmpty_iff.not.2 hf)
  have hne : (Place.inner f g).text.isEmpty = false := by
    simp [Place.text, ToString.toString, hf]
  rw [paths_zero, hbelow, h, hne]
  rfl

/-- What is said of a field is said of the places in it. -/
theorem paths_field (hf : f ≠ "") (h : x.same y = false) :
    paths f 1 x y = (placesAt f x y).map Place.text := by
  fun_cases placesAt f x y with
  | case1 bs as =>
      rw [paths_objects, List.map_map, List.map_eq_flatMap]
      exact List.flatMap_congr fun g hg => paths_below hf g (mem_differing_iff.1 hg)
  | case2 _ _ hobj =>
      rw [paths]
      · simp [h, hf, Place.text]
      · exact fun _ bs as _ => hobj bs as

/-- What is said of two objects is said of their places. -/
theorem paths_eq_map (hb : "" ∉ b.map (·.1)) (ha : "" ∉ a.map (·.1)) :
    paths "" maxDepth (.object b) (.object a) = (places b a).map Place.text := by
  rw [maxDepth, paths_objects, places, List.map_flatMap]
  refine List.flatMap_congr fun f hf => ?_
  have hne : f ≠ "" := by
    rintro rfl
    exact (mem_fieldNames_iff.1 (List.mem_filter.1 hf).1).elim hb ha
  exact paths_field hne (mem_differing_iff.1 hf)

theorem describe_objects (hb : "" ∉ b.map (·.1)) (ha : "" ∉ a.map (·.1)) :
    describe (.object b) (.object a) = told (places b a) := by
  unfold describe told
  rw [paths_eq_map hb ha]
  cases places b a <;> rfl

-- ============================================================ their order

theorem outer_of_mem_placesAt (h : p ∈ placesAt f x y) : p.outer = f := by
  unfold placesAt at h
  split at h
  · obtain ⟨g, -, rfl⟩ := List.mem_map.1 h
    rfl
  · rw [List.mem_singleton.1 h]
    rfl

theorem pairwise_placesAt (f : String) (x y : Json) : (placesAt f x y).Pairwise Place.Before := by
  unfold placesAt
  split
  · exact List.pairwise_map.2 ((pairwise_differing _ _).imp (.inner f))
  · exact List.pairwise_singleton _ _

/-- Places are told in the order of the names, first level before second. -/
theorem pairwise_places (b a : Json.Fields) : (places b a).Pairwise Place.Before := by
  refine List.pairwise_flatMap.2 ⟨fun f _ => pairwise_placesAt f _ _, ?_⟩
  refine (pairwise_differing b a).imp fun hlt p hp q hq => .outer ?_
  rw [outer_of_mem_placesAt hp, outer_of_mem_placesAt hq]
  exact hlt

theorem nodup_places (b a : Json.Fields) : (places b a).Nodup := by
  refine (pairwise_places b a).imp fun hlt heq => ?_
  exact Place.Before.irrefl _ (heq ▸ hlt)

-- ====================================================== which they are

/-- A field is told of if its values differ and are not both objects. -/
theorem field_mem_places_iff : .field f ∈ places b a
    ↔ (field f b).same (field f a) = false
      ∧ ∀ bs as, field f b = .object bs → field f a ≠ .object as := by
  unfold places
  rw [List.mem_flatMap]
  constructor
  · rintro ⟨f', hf', hp⟩
    obtain rfl : f = f' := outer_of_mem_placesAt hp
    refine ⟨mem_differing_iff.1 hf', fun bs as hbs has => ?_⟩
    rw [hbs, has] at hp
    simp [placesAt] at hp
  · rintro ⟨h, hobj⟩
    refine ⟨f, mem_differing_iff.2 h, ?_⟩
    rw [placesAt]
    · exact List.mem_singleton_self _
    · exact hobj

/-- A field of a field is told of if both fields around are objects and the values there differ. -/
theorem inner_mem_places_iff : .inner f g ∈ places b a
    ↔ ∃ bs as, field f b = .object bs ∧ field f a = .object as
      ∧ (field g bs).same (field g as) = false := by
  unfold places
  rw [List.mem_flatMap]
  constructor
  · rintro ⟨f', -, hp⟩
    obtain rfl : f = f' := outer_of_mem_placesAt hp
    unfold placesAt at hp
    split at hp
    · next bs as hbs has =>
      obtain ⟨g', hg', heq⟩ := List.mem_map.1 hp
      cases heq
      exact ⟨bs, as, hbs, has, mem_differing_iff.1 hg'⟩
    · cases List.mem_singleton.1 hp
  · rintro ⟨bs, as, hbs, has, h⟩
    refine ⟨f, mem_differing_iff.2 ?_, ?_⟩
    · -- equal objects would have equal fields
      rw [hbs, has]
      refine Bool.eq_false_iff.2 fun hsame => ?_
      rw [Json.same_field_of_sameFields hsame g] at h
      cases h
    · rw [hbs, has]
      exact List.mem_map_of_mem (mem_differing_iff.2 h)

/-- At every place that is told of, the values differ, absent ones taken for null. -/
theorem differ_of_mem_places (h : p ∈ places b a) : (p.valueIn b).same (p.valueIn a) = false := by
  cases p with
  | field f => exact (field_mem_places_iff.1 h).1
  | inner f g =>
      obtain ⟨bs, as, hbs, has, hdiffer⟩ := inner_mem_places_iff.1 h
      simpa only [Place.valueIn, hbs, has] using hdiffer

/-- Where nothing is null, the places that are told of are those that changed. -/
theorem mem_places_iff (hb : NullFree b) (ha : NullFree a) : p ∈ places b a ↔ Changed b a p := by
  cases p with
  | field f =>
      simp only [field_mem_places_iff, ← Json.differ_lookup_iff hb.outer ha.outer, Ne,
        Json.field_eq_object_iff]
      refine ⟨fun ⟨h, hobj⟩ => .field h hobj, fun h => ?_⟩
      cases h with
      | field h hobj => exact ⟨h, hobj⟩
  | inner f g =>
      have hdiffer : ∀ {bs as : Json.Fields}, lookup f b = some (.object bs) →
          lookup f a = some (.object as) →
          (Differ (lookup g bs) (lookup g as) ↔ (field g bs).same (field g as) = false) :=
        fun hbs has => Json.differ_lookup_iff (hb.inner _ (Entries.mem_of_lookup hbs) _ rfl)
          (ha.inner _ (Entries.mem_of_lookup has) _ rfl)
      simp only [inner_mem_places_iff, Json.field_eq_object_iff]
      constructor
      · rintro ⟨bs, as, hbs, has, h⟩
        exact .inner hbs has ((hdiffer hbs has).2 h)
      · intro h
        cases h with
        | inner hbs has h => exact ⟨_, _, hbs, has, (hdiffer hbs has).1 h⟩

/-- Between objects that differ a place changed. -/
theorem exists_changed (hb : (Json.object b).WellFormed) (ha : (Json.object a).WellFormed)
    (h : (Json.object b).same (.object a) = false) : ∃ p, Changed b a p := by
  cases hb with
  | object hbinc hbs =>
  cases ha with
  | object hainc has =>
  obtain ⟨f, hf⟩ := Json.exists_differ hbinc hainc h
  by_cases hobj : ∃ bs as, lookup f b = some (.object bs) ∧ lookup f a = some (.object as)
  · obtain ⟨bs, as, hfb, hfa⟩ := hobj
    have hbswf := hbs f _ (Entries.mem_of_lookup hfb)
    have haswf := has f _ (Entries.mem_of_lookup hfa)
    rw [hfb, hfa, Json.differ_some_iff] at hf
    cases hbswf with
    | object hbsinc _ =>
    cases haswf with
    | object hasinc _ =>
    obtain ⟨g, hg⟩ := Json.exists_differ hbsinc hasinc hf
    exact ⟨.inner f g, .inner hfb hfa hg⟩
  · exact ⟨.field f, .field hf fun bs as hfb hfa => hobj ⟨bs, as, hfb, hfa⟩⟩

/-- Where nothing is null, nothing is told exactly of equal objects. -/
theorem places_eq_nil_iff (hb : (Json.object b).WellFormed) (ha : (Json.object a).WellFormed)
    (hbnull : NullFree b) (hanull : NullFree a) :
    places b a = [] ↔ (Json.object b).same (.object a) = true := by
  constructor
  · intro h
    by_contra hsame
    obtain ⟨p, hp⟩ := exists_changed hb ha (Bool.eq_false_iff.2 hsame)
    rw [← mem_places_iff hbnull hanull, h] at hp
    cases hp
  · intro h
    refine List.eq_nil_iff_forall_not_mem.2 fun p hp => ?_
    obtain ⟨f, hf, -⟩ := List.mem_flatMap.1 hp
    have hdiffer := mem_differing_iff.1 hf
    rw [Json.same_field_of_sameFields h f] at hdiffer
    cases hdiffer

theorem told_eq_fallback_iff {ps : List Place} : told ps = fallback ↔ ps = [] := by
  refine ⟨fun h => by_contra fun hne => ?_, fun h => if_pos h⟩
  -- the two texts differ in their first character
  rw [told, if_neg hne] at h
  have hchars := congrArg String.toList h
  rw [String.toList_append] at hchars
  simp [fallback] at hchars

/-- The description of a change between two objects tells places, in the order of the names and each
once, where the values differ, absent ones taken for null. Where nothing is null, these are all the
places that changed, and the fallback is said exactly of equal objects. -/
theorem description_names_places {before after : Serial} {b a : Json.Fields}
    (hb : before.toJson = .ok (.object b)) (ha : after.toJson = .ok (.object a))
    (hbname : "" ∉ b.map (·.1)) (haname : "" ∉ a.map (·.1)) :
    ∃ ps : List Place, describeSerial before after = told ps
      ∧ ps.Pairwise Place.Before ∧ ps.Nodup
      ∧ (∀ p ∈ ps, (p.valueIn b).same (p.valueIn a) = false)
      ∧ (NullFree b → NullFree a →
        (∀ p, p ∈ ps ↔ Changed b a p)
        ∧ (describeSerial before after = fallback ↔ (Json.object b).same (.object a) = true)
        ∧ ((Json.object b).same (.object a) = false →
          describeSerial before after = "changes to " ++ ", ".intercalate (ps.map Place.text))) := by
  have htold : describeSerial before after = told (places b a) := by
    rw [describeSerial, hb, ha]
    exact describe_objects hbname haname
  refine ⟨places b a, htold, pairwise_places b a, nodup_places b a,
    fun p => differ_of_mem_places, fun hbnull hanull => ?_⟩
  have hnil := places_eq_nil_iff (Serial.wellFormed_toJson hb) (Serial.wellFormed_toJson ha)
    hbnull hanull
  refine ⟨fun p => mem_places_iff hbnull hanull, ?_, fun hdiffer => ?_⟩
  · rw [htold, told_eq_fallback_iff, hnil]
  · refine htold.trans (if_neg fun h => ?_)
    rw [hnil.1 h] at hdiffer
    cases hdiffer

/-- A pool in its first version. -/
def poolBefore : Json.Fields :=
  [("kind", .string "Pool"), ("spec", .object [("image", .string "a"), ("replicas", .int 3)])]

/-- The pool without its kind, with another image, and paused. -/
def poolAfter : Json.Fields :=
  [("spec", .object [("image", .string "b"), ("paused", .bool true), ("replicas", .int 3)])]

theorem description_names_places_of_pool :
    ∃ ps : List Place,
      describeSerial (.ofJson (.object poolBefore)) (.ofJson (.object poolAfter)) = told ps
      ∧ ∀ p, p ∈ ps ↔ Changed poolBefore poolAfter p := by
  have hbefore : NullFree poolBefore := by
    refine ⟨by simp [poolBefore, Json.NoNulls], fun e he gs hgs => ?_⟩
    simp only [poolBefore, List.mem_cons, List.not_mem_nil, or_false] at he
    rcases he with rfl | rfl <;> cases hgs
    simp [Json.NoNulls]
  have hafter : NullFree poolAfter := by
    refine ⟨by simp [poolAfter, Json.NoNulls], fun e he gs hgs => ?_⟩
    obtain rfl := List.mem_singleton.1 he
    cases hgs
    simp [Json.NoNulls]
  obtain ⟨ps, htold, -, -, -, h⟩ := description_names_places
    (show (Serial.ofJson (.object poolBefore)).toJson = .ok (.object poolBefore) from rfl)
    (show (Serial.ofJson (.object poolAfter)).toJson = .ok (.object poolAfter) from rfl)
    (by decide) (by decide)
  exact ⟨ps, htold, (h hbefore hafter).1⟩

end Change

end ControlLoop
