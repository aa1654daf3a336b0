/-
Which lists of texts are digested as the same byte string.

# Reading the bytes back

The bytes of a list are those of one long text, in which a zero ends
each element (`terminated_eq`). A text is read back from its bytes, so
two lists share their bytes only if they share this text, and what is
between the zeros of it is read back by splitting (`splitOn_closed`).
Thus the bytes tell a list as far as its pieces: an element with a zero
in it cannot be told from the elements that it would fall into there
(`terminated_eq_iff`), and lists without zeros are told apart for good
(`terminated_inj`).
-/
import ControlLoop.Digest.Content

namespace ControlLoop.Digest

/-- The character that ends an element. -/
def zero : Char := '\x00'

/-- The elements, each followed by a zero. -/
def closed (elements : List String) : List Char := elements.flatMap fun s => s.toList ++ [zero]

/-- The elements, each taken apart where it has a zero in it. -/
def pieces (elements : List String) : List (List Char) :=
  elements.flatMap fun s => s.toList.splitOn zero

-- ============================================================ the bytes

theorem terminated_eq (elements : List String) :
    terminated elements = (closed elements).flatMap String.utf8EncodeChar := by
  unfold terminated closed
  rw [List.flatMap_assoc]
  congr 1
  funext s
  rw [List.flatMap_append]
  rfl

/-- A text is read back from its bytes. -/
theorem eq_of_flatMap_utf8EncodeChar {cs ds : List Char}
    (h : cs.flatMap String.utf8EncodeChar = ds.flatMap String.utf8EncodeChar) : cs = ds := by
  have hbytes : cs.utf8Encode = ds.utf8Encode := by
    unfold List.utf8Encode
    rw [h]
  have hread : some cs.toArray = some ds.toArray := by
    rw [← List.utf8Decode?_utf8Encode, hbytes, List.utf8Decode?_utf8Encode]
  exact List.toArray_inj (Option.some.inj hread)

-- =========================================================== the pieces

/-- Behind the last zero nothing is left. -/
theorem splitOn_closed (elements : List String) :
    (closed elements).splitOn zero = pieces elements ++ [[]] := by
  induction elements with
  | nil => rfl
  | cons s rest ih =>
      have hcons : closed (s :: rest) = s.toList ++ zero :: closed rest := by
        unfold closed
        rw [List.flatMap_cons, List.append_assoc]
        rfl
      rw [hcons, List.splitOn_append_cons_self, ih]
      unfold pieces
      rw [List.flatMap_cons, List.append_assoc]

theorem closed_eq_iff {elements elements' : List String} :
    closed elements = closed elements' ↔ pieces elements = pieces elements' := by
  constructor
  · intro h
    have hsplit : pieces elements ++ [[]] = pieces elements' ++ [[]] := by
      rw [← splitOn_closed, ← splitOn_closed, h]
    exact List.append_cancel_right hsplit
  · intro h
    have hjoin : ∀ es, [zero].intercalate (pieces es ++ [[]]) = closed es := by
      intro es
      rw [← splitOn_closed]
      exact List.intercalate_splitOn zero
    rw [← hjoin, h, hjoin]

/-- Lists are digested as the same bytes exactly if they have the same pieces. -/
theorem terminated_eq_iff {elements elements' : List String} :
    terminated elements = terminated elements' ↔ pieces elements = pieces elements' := by
  rw [terminated_eq, terminated_eq, ← closed_eq_iff]
  constructor
  · exact eq_of_flatMap_utf8EncodeChar
  · intro h
    rw [h]

/-- Elements without a zero are pieces by themselves. -/
theorem pieces_of_notMem {elements : List String} (h : ∀ s ∈ elements, zero ∉ s.toList) :
    pieces elements = elements.map String.toList := by
  induction elements with
  | nil => rfl
  | cons s rest ih =>
      unfold pieces at ih ⊢
      rw [List.flatMap_cons, ih fun t ht => h t (List.mem_cons_of_mem s ht),
        List.splitOn_eq_singleton (h s List.mem_cons_self)]
      rfl

/-- Of lists without zeros no two are digested as the same bytes. -/
theorem terminated_inj {elements elements' : List String}
    (h : ∀ s ∈ elements, zero ∉ s.toList) (h' : ∀ s ∈ elements', zero ∉ s.toList) :
    terminated elements = terminated elements' ↔ elements = elements' := by
  rw [terminated_eq_iff, pieces_of_notMem h, pieces_of_notMem h']
  exact List.map_inj_right fun _ _ => String.toList_inj.1

end ControlLoop.Digest
