/-
The description of a pending change does not describe itself.

# What could go wrong

The description of a pending change is stored on the child, as the mark
that the change is scheduled, and the next pass describes the change
anew from what is stored. A description that depended on the mark would
be another one in every pass, and every pass would write it.

# Why it does not

A description names the fields that differ, and before and after carry
the same mark and the same version. So once both sides have been marked,
the fields that they have and which of them differ no longer depend on
the mark and the version that they carry (`describe_marked`).

The only way around this is a body with a field named as the metadata
is, which would stand in its place; no kind of object has such a field
(`LawfulResource`).
-/
import ControlLoop.Engine.Change
import ControlLoop.Object.ConfigMap
import ControlLoop.Proofs.Object.Annotations
import ControlLoop.Proofs.Store.Versions

namespace ControlLoop

-- ================================================== fields and equality

namespace Json

theorem same_null : same null null = true := by
  simp [same]

/-- Objects that are equal have equal fields. -/
theorem same_field_of_sameFields {b a : Fields} (h : sameFields b a = true) (f : String) :
    (field f b).same (field f a) = true := by
  induction b generalizing a with
  | nil =>
      cases a with
      | nil => exact same_null
      | cons e as => simp [sameFields] at h
  | cons d bs ih =>
      cases a with
      | nil => simp [sameFields] at h
      | cons e as =>
          obtain ⟨k, x⟩ := d
          obtain ⟨l, y⟩ := e
          simp only [sameFields, Bool.and_eq_true, beq_iff_eq] at h
          obtain ⟨⟨rfl, hxy⟩, hrest⟩ := h
          unfold field
          rw [Entries.lookup_cons, Entries.lookup_cons]
          split
          · exact hxy
          · exact ih hrest

theorem sameFields_texts (es es' : List (String × String)) :
    sameFields (es.map fun (k, v) => (k, .string v)) (es'.map fun (k, v) => (k, .string v))
      = decide (es = es') := by
  induction es generalizing es' with
  | nil => cases es' <;> simp [sameFields]
  | cons e rest ih =>
      cases es' with
      | nil => simp [sameFields]
      | cons e' rest' =>
          obtain ⟨k, v⟩ := e
          obtain ⟨k', v'⟩ := e'
          rw [List.map_cons, List.map_cons, sameFields, ih rest']
          by_cases hk : k = k' <;> by_cases hv : v = v' <;> simp [same, hk, hv]

theorem same_ofTextMap (m m' : TextMap) : (ofTextMap m).same (ofTextMap m') = decide (m = m') := by
  show sameFields _ _ = _
  rw [sameFields_texts]
  exact decide_eq_decide.2 SortedMap.entries_inj

end Json

namespace Change

open Json (field)

variable {B A B' A' : SortedMap String Json}

/-- The names of fields depend on nothing but which fields there are. -/
theorem fieldNames_congr (hb : ∀ k, B.contains k = B'.contains k)
    (ha : ∀ k, A.contains k = A'.contains k) :
    fieldNames B.entries A.entries = fieldNames B'.entries A'.entries := by
  unfold fieldNames
  refine congrArg SortedMap.keys (SortedMap.ofKeys_congr fun k => ?_)
  rw [List.mem_append, List.mem_append]
  have hkeys : ∀ {m m' : SortedMap String Json}, (∀ k, m.contains k = m'.contains k) →
      ∀ k, k ∈ m.keys ↔ k ∈ m'.keys := fun h k => by
    rw [SortedMap.mem_keys_iff, h, ← SortedMap.mem_keys_iff]
  exact or_congr (hkeys hb k) (hkeys ha k)

/-- Nothing is said of objects that are equal. -/
theorem paths_of_sameFields {b a : Json.Fields} (h : Json.sameFields b a = true) (path : String)
    (depth : Nat) : paths path (depth + 1) (.object b) (.object a) = [] := by
  rw [paths]
  refine List.flatMap_eq_nil_iff.2 fun f _ => ?_
  exact if_pos (Json.same_field_of_sameFields h f)

theorem paths_zero (path : String) (b a : Json) :
    paths path 0 b a = if b.same a || path.isEmpty then [] else [path] := by
  cases b <;> cases a <;> rfl

/-- What is said of the fields of two objects, one level deep, depends on nothing but which fields
there are and which of them differ. -/
theorem paths_one_congr (path : String) (hb : ∀ k, B.contains k = B'.contains k)
    (ha : ∀ k, A.contains k = A'.contains k)
    (hsame : ∀ k, (field k B.entries).same (field k A.entries)
      = (field k B'.entries).same (field k A'.entries)) :
    paths path 1 (.object B.entries) (.object A.entries)
      = paths path 1 (.object B'.entries) (.object A'.entries) := by
  rw [paths, paths, fieldNames_congr hb ha]
  refine congrArg (fun told => List.flatMap told _) (funext fun f => ?_)
  simp only [hsame f, paths_zero]

/-- What is said of a field. -/
def atField (path : String) (depth : Nat) (b a : Json) : List String :=
  if b.same a then [] else paths path depth b a

theorem paths_succ_congr (path : String) (depth : Nat) (hb : ∀ k, B.contains k = B'.contains k)
    (ha : ∀ k, A.contains k = A'.contains k)
    (hfield : ∀ k, atField (below path k) depth (field k B.entries) (field k A.entries)
      = atField (below path k) depth (field k B'.entries) (field k A'.entries)) :
    paths path (depth + 1) (.object B.entries) (.object A.entries)
      = paths path (depth + 1) (.object B'.entries) (.object A'.entries) := by
  rw [paths, paths, fieldNames_congr hb ha]
  exact congrArg (fun told => List.flatMap told _) (funext hfield)

/-- Of a field that holds objects, what is said is what is said of the objects. -/
theorem atField_objects (path : String) (depth : Nat) (b a : Json.Fields) :
    atField path (depth + 1) (.object b) (.object a)
      = paths path (depth + 1) (.object b) (.object a) := by
  unfold atField
  split
  · next h => exact (paths_of_sameFields h path depth).symm
  · rfl

end Change

-- ======================================================= marked objects

/-- A kind of object whose bodies have no field that is named as the metadata is. -/
class LawfulResource (β : Type) [Resource β] : Prop where
  metadata_notMem : ∀ b : β, "metadata" ∉ (Resource.bodyFields b).map (·.1)

instance : LawfulResource ConfigMap where
  metadata_notMem c := by
    obtain ⟨data, immutable⟩ := c
    cases data <;> cases immutable <;> simp [Resource.bodyFields, Json.fieldFor]

theorem get?_ofList_fieldFor {α : Type} (name : String) (write : α → Json) (o : Option α)
    (k : String) :
    (SortedMap.ofList (Json.fieldFor name write o)).get? k
      = if k = name then o.map write else none := by
  cases o with
  | none => simp [Json.fieldFor, SortedMap.ofList_eq_insertMany, SortedMap.insertMany]
  | some a =>
      have hone : SortedMap.ofList (Json.fieldFor name write (some a))
          = (∅ : SortedMap String Json).insert name (write a) := rfl
      rw [hone]
      by_cases hk : k = name
      · rw [if_pos hk, hk, SortedMap.get?_insert_self]
        rfl
      · rw [if_neg hk, SortedMap.get?_insert_of_ne _ _ hk]
        rfl

namespace Metadata

/-- The fields of the JSON form of metadata. -/
def fieldMap (m : Metadata) : SortedMap String Json :=
  .ofList (Json.fieldFor "name" .string m.name
    ++ Json.fieldFor "generateName" .string m.generateName
    ++ Json.fieldFor "namespace" .string m.space
    ++ Json.fieldFor "uid" .string m.uid
    ++ Json.fieldFor "resourceVersion" .string m.resourceVersion
    ++ Json.fieldFor "labels" Json.ofTextMap m.labels
    ++ Json.fieldFor "annotations" Json.ofTextMap m.annotations
    ++ Json.fieldFor "deletionTimestamp" (fun t => .string (Timestamp.text t)) m.deletionTimestamp
    ++ Json.fieldFor "ownerReferences" (fun os => .array (os.map OwnerReference.toJson))
      m.ownerReferences)

theorem toJson_eq (m : Metadata) : m.toJson = .object m.fieldMap.entries := rfl

theorem get?_fieldMap_annotations (m : Metadata) :
    m.fieldMap.get? "annotations" = m.annotations.map Json.ofTextMap := by
  simp [fieldMap, SortedMap.get?_ofList_append, get?_ofList_fieldFor]

theorem get?_fieldMap_resourceVersion (m : Metadata) :
    m.fieldMap.get? "resourceVersion" = m.resourceVersion.map .string := by
  simp [fieldMap, SortedMap.get?_ofList_append, get?_ofList_fieldFor]

theorem get?_fieldMap_of_ne (m : Metadata) (version : Option String) (annotations : Option TextMap)
    {k : String} (hv : k ≠ "resourceVersion") (ha : k ≠ "annotations") :
    ({ m with resourceVersion := version, annotations := annotations } : Metadata).fieldMap.get? k
      = m.fieldMap.get? k := by
  simp [fieldMap, SortedMap.get?_ofList_append, get?_ofList_fieldFor, hv, ha]

end Metadata

namespace Object

variable {β : Type}

/-- An object that is marked as scheduled, at a version. -/
def marked (o : Object β) (description version : String) : Object β :=
  (o.modifyMetadata (Rollout.schedule description)).atVersion version

theorem marked_eq (o : Object β) (d v : String) :
    o.marked d v
      = o.modifyMetadata fun m => { Rollout.schedule d m with resourceVersion := some v } := rfl

/-- A mark that is set anew takes the place of the first. -/
theorem schedule_marked (o : Object β) (d v d' : String) :
    (o.marked d v).modifyMetadata (Rollout.schedule d') = o.marked d' v := by
  have hinsert := SortedMap.insert_insert_self o.metadata.annotationMap Rollout.scheduledMark d d'
  rw [marked_eq, marked_eq]
  unfold modifyMetadata Rollout.schedule Metadata.annotate Metadata.modifyAnnotations
  simp only [Metadata.annotationMap, Option.getD_some] at hinsert ⊢
  rw [hinsert]

theorem marked_marked (o : Object β) (d v d' v' : String) :
    (o.marked d' v').marked d v = o.marked d v :=
  congrArg (·.atVersion v) (schedule_marked o d' v' d)

theorem get?_fieldMap_marked (o : Object β) (d v k : String) :
    (o.marked d v).metadata.fieldMap.get? k
      = if k = "annotations" then
          some (Json.ofTextMap (o.metadata.annotationMap.insert Rollout.scheduledMark d))
        else if k = "resourceVersion" then some (.string v)
        else o.metadata.fieldMap.get? k := by
  by_cases ha : k = "annotations"
  · rw [if_pos ha, ha, Metadata.get?_fieldMap_annotations]
    rfl
  · rw [if_neg ha]
    by_cases hv : k = "resourceVersion"
    · rw [if_pos hv, hv, Metadata.get?_fieldMap_resourceVersion]
      rfl
    · rw [if_neg hv]
      exact Metadata.get?_fieldMap_of_ne o.metadata _ _ hv ha

/-- Which fields the metadata of a marked object has does not depend on mark and version. -/
theorem contains_fieldMap_marked (o : Object β) (d v d' v' k : String) :
    (o.marked d v).metadata.fieldMap.contains k
      = (o.marked d' v').metadata.fieldMap.contains k := by
  rw [SortedMap.contains_eq, SortedMap.contains_eq, get?_fieldMap_marked, get?_fieldMap_marked]
  split
  · rfl
  · split <;> rfl

/-- Which of them differ between two objects with the same mark and version does not depend on mark
and version either. -/
theorem same_field_marked (b a : Object β) (d v d' v' k : String) :
    (Json.field k (b.marked d v).metadata.fieldMap.entries).same
        (Json.field k (a.marked d v).metadata.fieldMap.entries)
      = (Json.field k (b.marked d' v').metadata.fieldMap.entries).same
        (Json.field k (a.marked d' v').metadata.fieldMap.entries) := by
  have hfield : ∀ (o : Object β) (d v : String),
      Json.field k (o.marked d v).metadata.fieldMap.entries
        = ((o.marked d v).metadata.fieldMap.get? k).getD .null := fun _ _ _ => rfl
  simp only [hfield, get?_fieldMap_marked]
  by_cases ha : k = "annotations"
  · simp only [if_pos ha, Option.getD_some, Json.same_ofTextMap]
    -- a mark that is set anew hides the one before
    have hiff : ∀ d d', b.metadata.annotationMap.insert Rollout.scheduledMark d
          = a.metadata.annotationMap.insert Rollout.scheduledMark d →
        b.metadata.annotationMap.insert Rollout.scheduledMark d'
          = a.metadata.annotationMap.insert Rollout.scheduledMark d' := fun d d' h => by
      rw [← SortedMap.insert_insert_self _ _ d d', h, SortedMap.insert_insert_self]
    exact decide_eq_decide.2 ⟨hiff d d', hiff d' d⟩
  · simp only [if_neg ha]
    by_cases hv : k = "resourceVersion"
    · simp [if_pos hv, Json.same]
    · simp only [if_neg hv]

variable [Resource β]

/-- The fields of the JSON form of an object. -/
def fieldMap (o : Object β) : SortedMap String Json :=
  .ofList ([("apiVersion", .string (Resource.apiVersion β)), ("kind", .string (Resource.kind β))]
    ++ Json.fieldFor "metadata" Metadata.toJson (some o.metadata)
    ++ Resource.bodyFields o.body)

theorem toJson_eq (o : Object β) : o.toJson = .object o.fieldMap.entries := rfl

theorem get?_fieldMap_of_ne (o : Object β) (f : Metadata → Metadata) {k : String}
    (hk : k ≠ "metadata") : (o.modifyMetadata f).fieldMap.get? k = o.fieldMap.get? k := by
  simp only [fieldMap, SortedMap.get?_ofList_append, get?_ofList_fieldFor, if_neg hk]
  rfl

theorem get?_fieldMap_metadata [LawfulResource β] (o : Object β) :
    o.fieldMap.get? "metadata" = some o.metadata.toJson := by
  have hbody : (SortedMap.ofList (Resource.bodyFields o.body)).get? "metadata" = none := by
    refine Option.eq_none_iff_forall_ne_some.2 fun x hx => ?_
    exact LawfulResource.metadata_notMem o.body
      (List.mem_map.2 ⟨_, SortedMap.mem_of_get?_ofList hx, rfl⟩)
  rw [fieldMap, SortedMap.get?_ofList_append, SortedMap.get?_ofList_append, hbody,
    get?_ofList_fieldFor]
  rfl

theorem contains_fieldMap_modifyMetadata [LawfulResource β] (o : Object β)
    (f : Metadata → Metadata) (k : String) :
    (o.modifyMetadata f).fieldMap.contains k = o.fieldMap.contains k := by
  rw [SortedMap.contains_eq, SortedMap.contains_eq]
  by_cases hk : k = "metadata"
  · rw [hk, get?_fieldMap_metadata, get?_fieldMap_metadata]
    rfl
  · rw [get?_fieldMap_of_ne o f hk]

end Object

/-- The description of a change between objects with the same mark and the same version depends on
neither. -/
theorem Change.describe_marked {β : Type} [Resource β] [LawfulResource β] (b a : Object β)
    (d v d' v' : String) :
    describe (b.marked d v).toJson (a.marked d v).toJson
      = describe (b.marked d' v').toJson (a.marked d' v').toJson := by
  have hcontains : ∀ (o : Object β) k,
      (o.marked d v).fieldMap.contains k = (o.marked d' v').fieldMap.contains k := fun o k => by
    rw [Object.marked_eq, Object.marked_eq, Object.contains_fieldMap_modifyMetadata,
      Object.contains_fieldMap_modifyMetadata]
  have hpaths : paths "" maxDepth (b.marked d v).toJson (a.marked d v).toJson
      = paths "" maxDepth (b.marked d' v').toJson (a.marked d' v').toJson := by
    refine paths_succ_congr "" 1 (hcontains b) (hcontains a) fun k => ?_
    have hfield : ∀ (o : Object β) (d v : String), Json.field k (o.marked d v).fieldMap.entries
        = ((o.marked d v).fieldMap.get? k).getD .null := fun _ _ _ => rfl
    simp only [hfield]
    by_cases hk : k = "metadata"
    · simp only [hk, Object.get?_fieldMap_metadata, Option.getD_some, Metadata.toJson_eq]
      rw [atField_objects, atField_objects]
      exact paths_one_congr (below "" "metadata") (Object.contains_fieldMap_marked b d v d' v')
        (Object.contains_fieldMap_marked a d v d' v') (Object.same_field_marked b a d v d' v')
    · have hother : ∀ (o : Object β) (d v : String),
          (o.marked d v).fieldMap.get? k = o.fieldMap.get? k := fun o d v => by
        rw [Object.marked_eq, Object.get?_fieldMap_of_ne o _ hk]
      simp only [hother]
  unfold describe
  rw [hpaths]

end ControlLoop
