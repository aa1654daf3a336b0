/-
A strategy and a group of children to try the theory of the engine on.

The children are config maps. Each of them is to have a map of data,
which disturbs nobody, and is to be sealed, so that the data may no
longer change; this disturbs those who write to it, and so waits until
it is released. The strategy counts how often it is shown an object.
-/
import ControlLoop.Object.ConfigMap
import ControlLoop.Proofs.Engine.Frame

namespace ControlLoop.Sealing

-- ======================================================== the strategy

/-- Give a config map a map of data, if it has none. -/
def tidied (o : Object ConfigMap) : Object ConfigMap :=
  { o with body := { o.body with data := some o.body.dataMap } }

def sealed (o : Object ConfigMap) : Object ConfigMap :=
  { o with body := { o.body with immutable := some true } }

/-- What no update should do: give a config map another name. -/
def moved (name : String) (o : Object ConfigMap) : Object ConfigMap :=
  o.modifyMetadata fun m => { m with name := some name }

def strategy (mode : UpdateMode) : Strategy Nat ConfigMap where
  newObject _ n := (⟨Metadata.empty, ConfigMap.empty⟩, n)
  updateInPlace _ o n := (tidied o, n)
  rollInPlace _ o n := (sealed o, n)
  rollRecreate _ o n := (sealed o, n)
  updateMode _ := mode
  status _ _ n := n + 1

theorem keepsIdentity_strategy (mode : UpdateMode) : (strategy mode).KeepsIdentity where
  updateInPlace := fun _ _ _ => ⟨rfl, rfl, rfl⟩
  roll := fun mode' _ _ _ => by
    cases mode' with
    | recreate => exact ⟨rfl, rfl, rfl⟩
    | inPlace => exact ⟨rfl, rfl, rfl⟩

theorem keepsPlace_strategy (mode : UpdateMode) : (strategy mode).KeepsPlace where
  updateInPlace := fun _ _ _ => rfl
  roll := fun mode' _ _ _ => by
    cases mode' with
    | recreate => rfl
    | inPlace => rfl

theorem updatesBy_strategy (mode : UpdateMode) :
    (strategy mode).UpdatesBy (fun _ => tidied) (fun _ _ => sealed) where
  updateInPlace := fun _ _ _ => rfl
  roll := fun _ _ _ => by
    cases mode with
    | recreate => rfl
    | inPlace => rfl
  key_update := fun _ _ => rfl
  key_roll := fun _ _ _ => rfl
  version_update := fun _ _ => rfl
  version_roll := fun _ _ _ => rfl

-- =========================================================== the group

def parent : Parent := ⟨"v1", "Group", "group", "ns", "u"⟩

def reconciler (mode : UpdateMode) : Reconciler (Memory ConfigMap) Nat ConfigMap :=
  ⟨Memory.store, strategy mode, parent, ∅⟩

def key (name : String) : Key := ⟨parent.space, name⟩

/-- A config map under a name, owned by the parent or by nobody, with annotations. -/
def member (name : String) (owned : Bool) (marks : Option TextMap) : Object ConfigMap :=
  ⟨{ Metadata.empty with
      name := some name, space := some parent.space
      annotations := marks
      ownerReferences := if owned then some [parent.ownerReference] else none }, ConfigMap.empty⟩

/-- A group with a child that waits, one that is released, one that nobody wants, and an object of
someone else that has the name of a fourth. -/
def group : Memory ConfigMap :=
  let m := (Memory.empty.seed (member "a" true none)).2
  let m := (m.seed (member "b" true
    (some (SortedMap.ofList [(Rollout.releasedMark, "true")])))).2
  let m := (m.seed (member "c" true none)).2
  (m.seed (member "d" false none)).2

theorem reachable_group : group.Reachable := .seed _ (.seed _ (.seed _ (.seed _ .empty)))

/-- A group of one child. -/
def lone : Memory ConfigMap := (Memory.empty.seed (member "a" true none)).2

theorem reachable_lone : lone.Reachable := .seed _ .empty

/-- A group of two children, which differ in their annotations. -/
def pair : Memory ConfigMap := (lone.seed (member "b" true (some ∅))).2

/-- All children that are wanted. -/
def wanted : SortedSet Key := SortedMap.ofKeys [key "a", key "b", key "d", key "e"]

theorem space_of_mem_wanted {k : Key} (hk : k ∈ wanted) : k.space = parent.space := by
  have hall : ∀ k ∈ [key "a", key "b", key "d", key "e"], k.space = parent.space := by decide
  exact hall k (SortedMap.contains_ofKeys.1 hk)

end ControlLoop.Sealing
