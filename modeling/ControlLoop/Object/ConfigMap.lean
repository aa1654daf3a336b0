/-
Config maps: objects that hold texts under names.
-/
import ControlLoop.Object

namespace ControlLoop

open Json (fieldFor)
open Json.Reader (nullable textMap truth)

/-- The body of a config map. -/
structure ConfigMap where
  data : Option TextMap
  /-- Whether the data may no longer change. -/
  immutable : Option Bool
  deriving DecidableEq

namespace ConfigMap

def empty : ConfigMap := ⟨none, none⟩

instance : Inhabited ConfigMap := ⟨empty⟩

instance : Resource ConfigMap where
  apiVersion := "v1"
  kind := "ConfigMap"
  plural := "configmaps"
  bodyFields c := fieldFor "data" Json.ofTextMap c.data ++ fieldFor "immutable" .bool c.immutable
  emptyBody := empty
  knownFields := [
    .ofSet "data" (nullable textMap) fun d c => { c with data := d },
    .ofSet "immutable" (nullable truth) fun b c => { c with immutable := b }]

/-- The texts; an absent map has none. -/
def dataMap (c : ConfigMap) : TextMap := c.data.getD ∅

end ConfigMap

end ControlLoop
