/-
Different lists of parts keep different names, as far as their digests
do.

Whatever is folded, dropped or cut of the readable portion of a name,
its last eight characters are those of the digest of the parts as they
were given (`IsMadeOf.digest_suffix`). So if two lists get the same
name, within whatever constraints each of them is named, their short
digests coincide (`IsMadeOf.shortDigest_eq`). What is digested differs
for lists with different pieces, that is, for any two different lists
whose parts have no zero in them (`names_apart`). A part with a zero in
it has the name of the two parts that it would fall into there
(`same_name_of_zero`).
-/
import ControlLoop.Proofs.Digest.Terminated
import ControlLoop.Proofs.Names.Validity

namespace ControlLoop.Names

/-- What a name takes from a byte string. -/
def shortDigest (bytes : List UInt8) : List Char := (Digest.ofBytes bytes).toList.take digestLength

/-- The names that a list of parts may get. -/
inductive IsMadeOf (parts : List String) : String → Prop
  | join : IsMadeOf parts (join parts)
  | within (constraints : Constraints) : IsMadeOf parts (joinWithin constraints parts)

/-- A name ends in the digest of the parts as they were given. -/
theorem IsMadeOf.digest_suffix {parts : List String} {name : String} (h : IsMadeOf parts name) :
    shortDigest (partsBytes parts) <:+ name.toList := by
  show partsDigest parts <:+ name.toList
  cases h with
  | join =>
      cases parts with
      | nil =>
          show partsDigest [] <:+ (String.ofList (partsDigest [])).toList
          simp only [String.toList_ofList, List.suffix_refl]
      | cons part parts =>
          rw [join_cons, String.toList_ofList]
          exact (List.suffix_cons _ _).trans (List.suffix_append _ _)
  | within constraints =>
      cases parts with
      | nil =>
          show partsDigest [] <:+ (String.ofList (partsDigest [])).toList
          simp only [String.toList_ofList, List.suffix_refl]
      | cons part parts =>
          rw [joinWithin_cons]
          split
          · rw [String.toList_ofList]
            exact (List.suffix_cons _ _).trans (List.suffix_append _ _)
          · rw [String.toList_ofList]
            exact List.suffix_append _ _

/-- Lists that get the same name have the same short digest. -/
theorem IsMadeOf.shortDigest_eq {p q : List String} {name : String} (hp : IsMadeOf p name)
    (hq : IsMadeOf q name) : shortDigest (partsBytes p) = shortDigest (partsBytes q) := by
  have hlength : (shortDigest (partsBytes p)).length = (shortDigest (partsBytes q)).length :=
    (length_partsDigest p).trans (length_partsDigest q).symm
  have hsuffix := List.suffix_of_suffix_length_le hp.digest_suffix hq.digest_suffix
    (Nat.le_of_eq hlength)
  exact hsuffix.eq_of_length hlength

/-- Lists of parts are digested as the same bytes exactly if they have the same pieces, so different
lists without zeros never are; every name ends in eight digits of the digest of its own list, and
two lists get the same name only if these digits are the same. -/
theorem names_apart (p q : List String) :
    (partsBytes p = partsBytes q ↔ Digest.pieces p = Digest.pieces q)
      ∧ ((∀ s ∈ p, Digest.zero ∉ s.toList) → (∀ s ∈ q, Digest.zero ∉ s.toList) → p ≠ q →
        partsBytes p ≠ partsBytes q)
      ∧ (∀ name, IsMadeOf p name → shortDigest (partsBytes p) <:+ name.toList)
      ∧ (shortDigest (partsBytes p)).length = 8
      ∧ (∀ c ∈ shortDigest (partsBytes p), ∃ n < 16, c = Nat.digitChar n)
      ∧ ∀ name, IsMadeOf p name → IsMadeOf q name →
        shortDigest (partsBytes p) = shortDigest (partsBytes q) := by
  refine ⟨Digest.terminated_eq_iff, fun hp hq hne hbytes => ?_, fun name hp => hp.digest_suffix,
    length_partsDigest p, fun c hc => exists_digit_of_mem_partsDigest hc,
    fun name hp hq => hp.shortDigest_eq hq⟩
  exact hne ((Digest.terminated_inj hp hq).1 hbytes)

/-- Parts that read alike in the end. -/
theorem names_apart_of_alike :
    joined ["db", "shard-1"] = joined ["db-shard", "1"]
      ∧ partsBytes ["db", "shard-1"] ≠ partsBytes ["db-shard", "1"] :=
  ⟨by decide, (names_apart ["db", "shard-1"] ["db-shard", "1"]).2.1 (by decide) (by decide)
    (by decide)⟩

/-- A part with a zero in it and the two parts to which it falls get the same name. -/
theorem same_name_of_zero :
    ["a\x00b"] ≠ ["a", "b"]
      ∧ partsBytes ["a\x00b"] = partsBytes ["a", "b"]
      ∧ joinWithin dnsLabel ["a\x00b"] = joinWithin dnsLabel ["a", "b"] := by
  have hbytes : partsBytes ["a\x00b"] = partsBytes ["a", "b"] := by decide
  have hdigest : partsDigest ["a\x00b"] = partsDigest ["a", "b"] := congrArg shortDigest hbytes
  have hreadable : readable dnsLabel ["a\x00b"] = readable dnsLabel ["a", "b"] := by decide
  refine ⟨by decide, hbytes, ?_⟩
  rw [joinWithin_cons, joinWithin_cons, hdigest, hreadable]

end ControlLoop.Names
