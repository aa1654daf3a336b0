/-
The identity of an object: a namespace and a name in it. Keys are
ordered by namespace and then by name.
-/
import ControlLoop.SortedMap

namespace ControlLoop

/-- A name in a namespace. Objects outside of namespaces have an empty `space`. -/
structure Key where
  /-- The namespace. -/
  space : String
  name : String
  deriving DecidableEq, Repr, Inhabited

namespace Key

instance : Ord Key := ⟨compareLex (compareOn Key.space) (compareOn Key.name)⟩

instance : Std.TransOrd Key :=
  inferInstanceAs (Std.TransCmp (compareLex (compareOn Key.space) (compareOn Key.name)))

instance : Std.LawfulEqOrd Key where
  eq_of_compare {a b} h := by
    obtain ⟨h₁, h₂⟩ : compareOn Key.space a b = .eq ∧ compareOn Key.name a b = .eq :=
      compareLex_eq_eq.1 h
    cases a
    cases b
    obtain rfl := Std.LawfulEqOrd.eq_of_compare h₁
    obtain rfl := Std.LawfulEqOrd.eq_of_compare h₂
    rfl

/-- Namespace and name as one text. -/
def text (k : Key) : String := s!"{k.space}/{k.name}"

/-- The namespace of a reference to the object: none where there is no namespace. -/
def refSpace (k : Key) : Option String := if k.space.isEmpty then none else some k.space

end Key

end ControlLoop
