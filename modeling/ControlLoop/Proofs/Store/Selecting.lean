/-
The text of a selector asks for what its labels ask for.

# Reading the text back

The text of a selector is a list of equalities with commas between them.
Where no comma is in a key or a value, cutting at commas gives back the
equalities; and where no `=` is in a key, cutting each at the first one
gives back the label (`equalities_selectorText`). So the text says as
much as the selector, and labels satisfy its equalities exactly if they
match the selector.

# Two ways of listing

A store in memory looks up each label of the selector. A server gets the
selector only as a text, in the query of an address, and evaluates what
it reads there (`admitted`). Both list the same objects.
-/
import ControlLoop.Engine
import ControlLoop.Proofs.Api.Queries
import ControlLoop.Store.Memory
import ControlLoop.Store.Remote

namespace ControlLoop.Selector

-- ====================================================== what a text asks for

/-- The equalities between the commas of a text, each with what stands before and behind its first
`=`. The empty text has none. -/
def equalities (text : String) : List (String × String) :=
  if text.isEmpty then []
  else
    (text.toList.splitOn ',').map fun piece =>
      (String.ofList (Text.atEquals piece).1, String.ofList (Text.atEquals piece).2)

/-- Whether the labels of an object satisfy every equality of a text. -/
def admits (text : String) (m : Metadata) : Bool :=
  (equalities text).all fun (k, v) => m.labelMap.get? k = some v

/-- The objects of a namespace whose labels satisfy every equality of a text, in key order. -/
def admitted {β : Type} (objects : SortedMap Key (Object β)) (space text : String) :
    List (Object β) :=
  (objects.toList.filter fun (k, o) => k.space = space && admits text o.metadata).map (·.2)

/-- Labels without commas, and with no `=` in their keys. -/
def Separable (labels : TextMap) : Prop :=
  ∀ e ∈ labels.toList, ',' ∉ e.1.toList ∧ '=' ∉ e.1.toList ∧ ',' ∉ e.2.toList

instance (labels : TextMap) : Decidable (Separable labels) :=
  inferInstanceAs (Decidable (∀ e ∈ labels.toList,
    ',' ∉ e.1.toList ∧ '=' ∉ e.1.toList ∧ ',' ∉ e.2.toList))

-- ==================================================== reading the text back

/-- A label as an equality. -/
def piece (e : String × String) : List Char := e.1.toList ++ '=' :: e.2.toList

theorem toList_selectorText (labels : TextMap) :
    (selectorText labels).toList = [','].intercalate (labels.toList.map piece) := by
  have hpiece : ∀ e : String × String, s!"{e.1}={e.2}".toList = piece e := fun e => by
    show (e.1 ++ "=" ++ e.2).toList = _
    simp [piece]
  unfold selectorText
  rw [String.toList_intercalate, List.map_map]
  congr 1
  exact List.map_congr_left fun e _ => hpiece e

/-- Only the empty selector has an empty text. -/
theorem selectorText_eq_empty_iff {labels : TextMap} : selectorText labels = "" ↔ labels = ∅ := by
  constructor
  · intro h
    have hnil : [','].intercalate (labels.toList.map piece) = [] := by
      rw [← toList_selectorText, h]
      rfl
    refine SortedMap.eq_of_entries ?_
    show labels.toList = []
    rcases hlabels : labels.toList with _ | ⟨e, _ | ⟨e', rest⟩⟩
    · rfl
    · rw [hlabels, List.map_singleton, List.intercalate_singleton] at hnil
      simp [piece] at hnil
    · rw [hlabels, List.map_cons, List.map_cons, List.intercalate_cons_cons] at hnil
      simp [piece] at hnil
  · rintro rfl
    rfl

/-- The labels of a selector are read back from its text, in their order. -/
theorem equalities_selectorText {labels : TextMap} (h : Separable labels) :
    equalities (selectorText labels) = labels.toList := by
  unfold equalities
  by_cases hempty : labels = ∅
  · subst hempty
    rfl
  · have htext : (selectorText labels).isEmpty = false := by
      rw [Bool.eq_false_iff, ne_eq, String.isEmpty_iff, selectorText_eq_empty_iff]
      exact hempty
    have hne : labels.toList.map piece ≠ [] := fun hnil =>
      hempty (SortedMap.eq_of_entries (List.map_eq_nil_iff.1 hnil))
    have hcomma : ∀ p ∈ labels.toList.map piece, ',' ∉ p := fun p hp => by
      obtain ⟨e, he, rfl⟩ := List.mem_map.1 hp
      obtain ⟨hkey, -, hvalue⟩ := h e he
      simp [piece, hkey, hvalue]
    rw [if_neg (Bool.eq_false_iff.1 htext), toList_selectorText,
      List.splitOn_intercalate ',' hcomma hne, List.map_map]
    refine (List.map_congr_left fun e he => ?_).trans (List.map_id _)
    obtain ⟨-, hequals, -⟩ := h e he
    show (String.ofList (Text.atEquals (piece e)).1, String.ofList (Text.atEquals (piece e)).2) = e
    unfold piece
    rw [Text.atEquals_append hequals, String.ofList_toList, String.ofList_toList]

/-- A comma in a value would be read as its end. -/
example : equalities (selectorText (.ofList [("a", "x,b=y")])) = [("a", "x"), ("b", "y")] := by
  decide +kernel

/-- Labels match a selector exactly if they satisfy every equality of its text. -/
theorem matchesLabels_eq {selector : TextMap} (h : Separable selector) (m : Metadata) :
    m.matchesLabels selector = admits (selectorText selector) m := by
  rw [admits, equalities_selectorText h]
  rfl

theorem admits_iff {text : String} {m : Metadata} :
    admits text m = true ↔ ∀ e ∈ equalities text, m.labelMap.get? e.1 = some e.2 := by
  unfold admits
  simp

-- ============================================================== listings

section

variable {σ τ β : Type} {selector : TextMap}

theorem matching_eq_admitted (h : Separable selector) (objects : SortedMap Key (Object β))
    (space : String) :
    Object.matching objects space selector = admitted objects space (selectorText selector) := by
  unfold Object.matching admitted
  simp only [matchesLabels_eq h]

variable [Resource β]

/-- What a server reads of a request for a listing: the text of the selector. -/
def requested (request : Api.Request) : String :=
  (Api.parameter? request.uri "labelSelector").getD ""

/-- A server answers a request for the objects of a namespace with those that its text admits. -/
def Evaluates (send : Api.Transport σ) (request : Api.Request) (s : σ)
    (objects : SortedMap Key (Object β)) (space : String) : Prop :=
  Api.readReply (Json.readWhole (Api.listOf Object.reader)) (send request s).1
    = .ok (admitted objects space (requested request))

/-- A body that is accepted is what the reply is read as. -/
theorem readReply_of_toOption {α : Type} {read : String → Except Json.Failure α} {body : String}
    {a : α} (h : (read body).toOption = some a) :
    Api.readReply read (.ok ⟨200, body⟩) = .ok a := by
  show (read body).mapError _ = _
  generalize read body = answer at h
  cases answer with
  | error e => cases h
  | ok b =>
      rw [← Option.some.inj h]
      rfl

/-- A listing that goes out is answered by what the reply is read as. -/
theorem remote_list_eq {send : Api.Transport σ} {space : String} {request : Api.Request} {s : σ}
    {objects : List (Object β)} (manager : String)
    (hrequest : Api.listRequest (Resource.plural β) space selector = .ok request)
    (hreply : Api.readReply (Json.readWhole (Api.listOf Object.reader)) (send request s).1
      = .ok objects) :
    ((Store.remote send manager).list space selector s).1 = .ok objects := by
  show (Store.about _ (Api.exchange send (Api.listRequest (Resource.plural β) space selector)
    (Json.readWhole (Api.listOf Object.reader)) s)).1 = _
  rw [hrequest]
  show Except.mapError _ (Api.readReply _ (send request s).1) = _
  rw [hreply]
  rfl

/-- The text of a selector says what the selector does. It is read back as the labels, in the order
of their keys, and labels satisfy its equalities exactly if they match the selector. So the engine
takes for its children what the text admits, a store in memory lists what the text admits, and the
same is listed through a connection to a server that evaluates the text of the request. -/
theorem text_selects_alike (h : Separable selector) :
    equalities (selectorText selector) = selector.toList
    ∧ (selectorText selector = "" ↔ selector = ∅)
    ∧ (∀ m : Metadata, m.matchesLabels selector = true
      ↔ ∀ e ∈ equalities (selectorText selector), m.labelMap.get? e.1 = some e.2)
    ∧ (∀ (r : Reconciler σ τ β) (o : Object β), r.selector = selector →
      r.selects o = (r.parent.owns o.metadata && admits (selectorText selector) o.metadata))
    ∧ (∀ (m : Memory β) (space : String), m.listsFail = false →
      m.list space selector = .ok (admitted m.objects space (selectorText selector)))
    ∧ (∀ (send : Api.Transport σ) (manager space : String) (s : σ) (m : Memory β)
        (request : Api.Request),
      '?' ∉ (Api.collectionPath (Resource.plural β) space).toList →
      '#' ∉ (Api.collectionPath (Resource.plural β) space).toList →
      Api.listRequest (Resource.plural β) space selector = .ok request →
      Evaluates send request s m.objects space →
      m.listsFail = false →
      ((Store.remote send manager).list space selector s).1 = m.list space selector) := by
  have hlist : ∀ (m : Memory β) (space : String), m.listsFail = false →
      m.list space selector = .ok (admitted m.objects space (selectorText selector)) :=
    fun m space hlists => by
      rw [Memory.list, hlists, matching_eq_admitted h]
      rfl
  refine ⟨equalities_selectorText h, selectorText_eq_empty_iff, fun m => ?_, ?_, hlist, ?_⟩
  · rw [matchesLabels_eq h, admits_iff]
  · rintro r o rfl
    rw [Reconciler.selects, matchesLabels_eq h]
  · intro send manager space s m request hquestion hnumber hrequest hreply hlists
    have htext : requested request = selectorText selector := by
      rw [requested, Api.parameter?_of_listRequest ⟨hquestion, hnumber⟩ hrequest]
      rfl
    rw [Evaluates, htext] at hreply
    rw [remote_list_eq manager hrequest hreply, hlist m space hlists]

end

-- ======================================================= a small server

/-- Labels of which one has an `=` in its value and one has no value. -/
def thornyLabels : TextMap := .ofList [("app", "db"), ("note", "a=b"), ("tier", "")]

def labelled (name : String) (labels : TextMap) : Object ConfigMap :=
  ⟨{ Metadata.empty with name := some name, space := some "db", labels := some labels },
    ConfigMap.empty⟩

/-- A store with an object that has these labels and one that has only the first. -/
def thornyStore : Memory ConfigMap :=
  { (Memory.empty : Memory ConfigMap) with
    objects := .ofList [(⟨"db", "a"⟩, labelled "a" thornyLabels),
      (⟨"db", "b"⟩, labelled "b" (.ofList [("app", "db")]))] }

/-- A server that writes down the objects that a request's text admits. -/
def thornyServer : Api.Transport Unit := fun request s =>
  (.ok ⟨200, "\x7b\"items\":[" ++ ",".intercalate
    ((admitted thornyStore.objects "db" (requested request)).map fun o => o.toJson.text)
    ++ "]\x7d"⟩, s)

/-- The request that is sent for these labels. -/
def thornyRequest : Api.Request :=
  ⟨"GET", "/api/v1/namespaces/db/configmaps?&labelSelector=app%3Ddb%2Cnote%3Da%3Db%2Ctier%3D",
    none⟩

theorem listRequest_thorny :
    Api.listRequest (Resource.plural ConfigMap) "db" thornyLabels = .ok thornyRequest := by
  have huri : Api.checkedUri (Api.collectionPath (Resource.plural ConfigMap) "db"
      ++ Api.query "labelSelector" (selectorText thornyLabels)) = .ok thornyRequest.uri := by
    decide +kernel
  rw [Api.listRequest, huri]
  rfl

/-- The server reads the text in the request, and what it writes down is read as the objects. -/
theorem evaluates_thorny :
    Evaluates thornyServer thornyRequest () thornyStore.objects "db" := by
  have hread : (Json.readWhole (Api.listOf (Object.reader : Json.Reader (Object ConfigMap)))
      ("\x7b\"items\":[" ++ ",".intercalate
        ((admitted thornyStore.objects "db" (requested thornyRequest)).map fun o => o.toJson.text)
        ++ "]\x7d")).toOption
      = some (admitted thornyStore.objects "db" (requested thornyRequest)) := by
    decide +kernel
  exact readReply_of_toOption hread

theorem text_selects_alike_thorny :
    Separable thornyLabels
    ∧ equalities (selectorText thornyLabels) = [("app", "db"), ("note", "a=b"), ("tier", "")]
    ∧ ((Store.remote thornyServer "cell").list "db" thornyLabels ()).1
      = thornyStore.list "db" thornyLabels
    ∧ admitted thornyStore.objects "db" (selectorText thornyLabels)
      = [labelled "a" thornyLabels] := by
  have hseparable : Separable thornyLabels := by decide
  obtain ⟨hlabels, -, -, -, -, hremote⟩ :=
    @text_selects_alike Unit Unit ConfigMap thornyLabels _ hseparable
  refine ⟨hseparable, hlabels, ?_, by decide +kernel⟩
  exact hremote thornyServer "cell" "db" () thornyStore thornyRequest (by decide +kernel)
    (by decide +kernel) listRequest_thorny evaluates_thorny rfl

end ControlLoop.Selector
