/-
What is read of a query that was sent.

# The two ways of cutting a text

A query is cut at each `&` and each part of it at its first `=`
(`parameters`). A name without an `=` comes back whole from such a part,
whatever follows it (`atEquals_append`).

# The form encoding

A byte is either written as itself, as a plus or by its code, and each
of these is told from the others by its first character. So the bytes of
a text are read back one by one (`formBytes?_formEncoded`), and the text
from its bytes. As what is written has neither `#` nor `&` in it, an
address is sent with all of its query, and the value ends where the
query does (`parameter?_query`).
-/
import ControlLoop.Api.Request
import Mathlib.Data.List.TakeWhile

namespace ControlLoop.Text

-- ======================================================== the first equality sign

/-- What stands before the first `=`, and what stands behind it. -/
def atEquals (cs : List Char) : List Char × List Char :=
  (cs.takeWhile (· ≠ '='), (cs.dropWhile (· ≠ '=')).tail)

theorem forall_ne_of_notMem {d : Char} {cs : List Char} (h : d ∉ cs) :
    ∀ c ∈ cs, decide (c ≠ d) = true :=
  fun _ hc => decide_eq_true fun heq => h (heq ▸ hc)

theorem atEquals_append {name : List Char} (h : '=' ∉ name) (value : List Char) :
    atEquals (name ++ '=' :: value) = (name, value) := by
  have hname := forall_ne_of_notMem h
  unfold atEquals
  rw [List.takeWhile_append_of_pos hname, List.dropWhile_append_of_pos hname]
  simp

-- ====================================================== the form encoding

/-- The value of a digit below sixteen. -/
def hexValue? (c : Char) : Option Nat :=
  if '0' ≤ c ∧ c ≤ '9' then some (c.toNat - '0'.toNat)
  else if 'A' ≤ c ∧ c ≤ 'F' then some (c.toNat - 'A'.toNat + 10)
  else if 'a' ≤ c ∧ c ≤ 'f' then some (c.toNat - 'a'.toNat + 10)
  else none

/-- The bytes that are written in the form encoding, if what is written is sound. -/
def formBytes? : List Char → Option (List UInt8)
  | [] => some []
  | '+' :: cs => do some (0x20 :: (← formBytes? cs))
  | '%' :: high :: low :: cs => do
    let b := UInt8.ofNat (16 * (← hexValue? high) + (← hexValue? low))
    some (b :: (← formBytes? cs))
  | c :: cs => do some (UInt8.ofNat c.toNat :: (← formBytes? cs))

/-- The text that is written in the form encoding, if what is written is sound. -/
def formDecoded? (s : List Char) : Option String := do
  let cs ← (← formBytes? s).toByteArray.utf8Decode?
  some (String.ofList cs.toList)

theorem formBytes?_cons {c : Char} (hplus : c ≠ '+') (hpercent : c ≠ '%') (cs : List Char) :
    formBytes? (c :: cs) = (formBytes? cs).map (UInt8.ofNat c.toNat :: ·) := by
  rw [formBytes?]
  · cases formBytes? cs <;> rfl
  · exact hplus
  · exact fun _ _ _ h => absurd h hpercent

theorem isFormPlain_spec : ∀ n : Fin 256, isFormPlain (UInt8.ofNat n) = true →
    Char.ofNat n ≠ '+' ∧ Char.ofNat n ≠ '%' ∧ (Char.ofNat n).toNat = n := by
  decide +kernel

theorem hexValue?_upperHexDigit : ∀ n : Fin 16, hexValue? (upperHexDigit n) = some n.val := by
  decide +kernel

theorem notMem_formByte : ∀ n : Fin 256, '#' ∉ formByte (UInt8.ofNat n) ∧
    '&' ∉ formByte (UInt8.ofNat n) := by
  decide +kernel

/-- A byte is read back from how it is written. -/
theorem formBytes?_formByte_append (b : UInt8) (cs : List Char) :
    formBytes? (formByte b ++ cs) = (formBytes? cs).map (b :: ·) := by
  have hbyte : UInt8.ofNat b.toNat = b := UInt8.ofNat_toNat
  have hlt : b.toNat < 256 := b.toNat_lt
  unfold formByte
  split
  · next hplain =>
      have hspec := isFormPlain_spec ⟨b.toNat, hlt⟩
      rw [hbyte] at hspec
      obtain ⟨hplus, hpercent, hcode⟩ := hspec hplain
      show formBytes? (Char.ofNat b.toNat :: cs) = _
      rw [formBytes?_cons hplus hpercent, hcode, hbyte]
  · split
    · next hspace =>
        rw [hspace]
        show formBytes? ('+' :: cs) = _
        rw [formBytes?]
        cases formBytes? cs <;> rfl
    · have hhigh := hexValue?_upperHexDigit ⟨b.toNat / 16, by omega⟩
      have hlow := hexValue?_upperHexDigit ⟨b.toNat % 16, by omega⟩
      simp only at hhigh hlow
      show formBytes? ('%' :: upperHexDigit (b.toNat / 16) :: upperHexDigit (b.toNat % 16) :: cs) = _
      rw [formBytes?, hhigh, hlow]
      have hvalue : 16 * (b.toNat / 16) + b.toNat % 16 = b.toNat := Nat.div_add_mod ..
      show (do some (UInt8.ofNat (16 * (b.toNat / 16) + b.toNat % 16) :: (← formBytes? cs))) = _
      rw [hvalue, hbyte]
      cases formBytes? cs <;> rfl

theorem formBytes?_flatMap (bs : List UInt8) : formBytes? (bs.flatMap formByte) = some bs := by
  induction bs with
  | nil => rfl
  | cons b rest ih =>
      rw [List.flatMap_cons, formBytes?_formByte_append, ih]
      rfl

/-- A text is read back from its form encoding. -/
theorem formDecoded?_formEncoded (s : String) : formDecoded? (formEncoded s).toList = some s := by
  have hbytes : formBytes? (formEncoded s).toList = some (utf8 s) := by
    rw [formEncoded, String.toList_ofList]
    exact formBytes?_flatMap (utf8 s)
  have htext : (utf8 s).toByteArray.utf8Decode? = some s.toList.toArray :=
    List.utf8Decode?_utf8Encode
  unfold formDecoded?
  rw [hbytes]
  show (do
    let cs ← (utf8 s).toByteArray.utf8Decode?
    some (String.ofList cs.toList)) = _
  rw [htext]
  show some (String.ofList s.toList) = some s
  rw [String.ofList_toList]

theorem notMem_formEncoded (s : String) :
    '#' ∉ (formEncoded s).toList ∧ '&' ∉ (formEncoded s).toList := by
  have hbyte : ∀ b : UInt8, '#' ∉ formByte b ∧ '&' ∉ formByte b := fun b => by
    have h := notMem_formByte ⟨b.toNat, b.toNat_lt⟩
    rwa [UInt8.ofNat_toNat] at h
  rw [formEncoded, String.toList_ofList, List.mem_flatMap, List.mem_flatMap]
  constructor
  · rintro ⟨b, -, hmem⟩
    exact (hbyte b).1 hmem
  · rintro ⟨b, -, hmem⟩
    exact (hbyte b).2 hmem

end ControlLoop.Text

namespace ControlLoop.Api

-- =========================================================== the query

/-- The parameters in an address: what stands behind its first `?`, cut at each `&` and then at the
first `=`. -/
def parameters (uri : String) : List (List Char × List Char) :=
  ((uri.toList.dropWhile (· ≠ '?')).tail.splitOn '&').map Text.atEquals

/-- The text of a parameter. -/
def parameter? (uri name : String) : Option String :=
  ((parameters uri).lookup name.toList).bind Text.formDecoded?

theorem toList_query (name value : String) :
    (query name value).toList
      = '?' :: '&' :: (name.toList ++ '=' :: (Text.formEncoded value).toList) := by
  show ("?&" ++ name ++ "=" ++ Text.formEncoded value).toList = _
  simp

/-- The one parameter of a query is read back. -/
theorem parameter?_query {path name : String} (hpath : '?' ∉ path.toList)
    (hname : name.toList ≠ [] ∧ '&' ∉ name.toList ∧ '=' ∉ name.toList) (value : String) :
    parameter? (path ++ query name value) name = some value := by
  obtain ⟨hne, hand, hequals⟩ := hname
  have hquery : ((path ++ query name value).toList.dropWhile (· ≠ '?')).tail
      = '&' :: (name.toList ++ '=' :: (Text.formEncoded value).toList) := by
    rw [String.toList_append,
      List.dropWhile_append_of_pos (Text.forall_ne_of_notMem hpath), toList_query]
    rfl
  have hpart : '&' ∉ name.toList ++ '=' :: (Text.formEncoded value).toList := by
    have hvalue := (Text.notMem_formEncoded value).2
    simp [hand, hvalue]
  have hparameters : parameters (path ++ query name value)
      = [([], []), (name.toList, (Text.formEncoded value).toList)] := by
    unfold parameters
    rw [hquery]
    show (([] ++ '&' :: _ : List Char).splitOn '&').map Text.atEquals = _
    rw [List.splitOn_append_cons_self, List.splitOn_eq_singleton hpart]
    show [Text.atEquals [], Text.atEquals _] = _
    rw [Text.atEquals_append hequals]
    rfl
  unfold parameter?
  rw [hparameters, List.lookup_cons, List.lookup_cons]
  have hother : (name.toList == []) = false := by simpa using hne
  simp [hother, Text.formDecoded?_formEncoded]

theorem sentPart_eq {uri : String} (h : '#' ∉ uri.toList) : sentPart uri = uri := by
  rw [sentPart, List.takeWhile_eq_self_iff.2 (Text.forall_ne_of_notMem h), String.ofList_toList]

theorem eq_sentPart_of_checkedUri {uri sent : String} (h : checkedUri uri = .ok sent) :
    sent = sentPart uri := by
  unfold checkedUri at h
  simp only at h
  split at h
  · cases h
  · split at h
    · cases h
      rfl
    · cases h

/-- The request for a listing carries the text of the selector, whatever that is, if the path does
not end early. -/
theorem parameter?_of_listRequest {plural space : String} {selector : TextMap} {request : Request}
    (hpath : '?' ∉ (collectionPath plural space).toList ∧ '#' ∉ (collectionPath plural space).toList)
    (h : listRequest plural space selector = .ok request) :
    parameter? request.uri "labelSelector" = some (selectorText selector) := by
  unfold listRequest at h
  cases huri : checkedUri (collectionPath plural space
      ++ query "labelSelector" (selectorText selector)) with
  | error fault =>
      rw [huri] at h
      cases h
  | ok sent =>
      rw [huri] at h
      cases h
      have hwhole : '#' ∉ (collectionPath plural space
          ++ query "labelSelector" (selectorText selector)).toList := by
        have hvalue := (Text.notMem_formEncoded (selectorText selector)).1
        rw [String.toList_append, toList_query]
        simp [hpath.2, hvalue]
      show parameter? sent "labelSelector" = _
      rw [eq_sentPart_of_checkedUri huri, sentPart_eq hwhole]
      exact parameter?_query hpath.1 (by decide) (selectorText selector)

end ControlLoop.Api
