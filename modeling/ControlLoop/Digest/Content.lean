/-
Stable digests of texts, collections of texts and written values.

What is digested is one byte string: every element in UTF-8 followed by
a zero byte, so that the ends of the elements are part of the digest.
A set is digested in sorted order without repeats, a map as its keys
and values in key order, and any other value as its JSON text.
-/
import ControlLoop.Digest.Sha256
import ControlLoop.Serial
import ControlLoop.Text.Bytes

namespace ControlLoop

namespace Digest

/-- Every element followed by a zero byte. -/
def terminated (elements : List String) : List UInt8 :=
  elements.flatMap fun s => Text.utf8 s ++ [0]

/-- The digest of a byte string, in hexadecimal. -/
def ofBytes (bytes : List UInt8) : String := hexText (sha256 bytes)

/-- The elements of a set: sorted, each once. -/
def setElements (values : List String) : List String := (SortedMap.ofKeys values).keys

/-- The keys and values of a map, each key before its value. -/
def mapElements (m : TextMap) : List String := m.toList.flatMap fun (k, v) => [k, v]

/-- The digest of a list: order and repeats count. -/
def ofSequence (values : List String) : String := ofBytes (terminated values)

/-- The digest of a set: neither order nor repeats count. -/
def ofSet (values : List String) : String := ofBytes (terminated (setElements values))

/-- The digest of a map. -/
def ofMap (m : TextMap) : String := ofBytes (terminated (mapElements m))

/-- The digest of a value's JSON text. -/
def ofSerial (v : Serial) : Except Json.Failure String := do
  .ok (ofSequence [← v.text])

end Digest

end ControlLoop
