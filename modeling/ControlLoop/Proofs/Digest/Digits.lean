/-
A digest is written in 64 hexadecimal digits.

Names take the first of these digits, and a composed digest is taken of
other digests; so both need to know which characters there can be
(`exists_digit_of_mem_ofBytes`), and names that there are enough of them
(`length_ofBytes`).
-/
import ControlLoop.Digest.Content

namespace ControlLoop.Digest

theorem length_bigEndian (n width : Nat) : (bigEndian n width).length = width := by
  induction width with
  | zero => rfl
  | succ width ih => rw [bigEndian, List.length_cons, ih]

theorem length_sha256 (message : List UInt8) : (sha256 message).length = 32 := by
  simp [sha256, Sha256State.words, length_bigEndian]

theorem length_ofBytes (bytes : List UInt8) : (ofBytes bytes).toList.length = 64 := by
  simp [ofBytes, hexText, List.length_flatMap, List.map_const', length_sha256]

theorem exists_digit_of_mem_ofBytes {bytes : List UInt8} {c : Char}
    (h : c ∈ (ofBytes bytes).toList) : ∃ n < 16, c = Nat.digitChar n := by
  rw [ofBytes, hexText, String.toList_ofList] at h
  obtain ⟨b, -, hb⟩ := List.mem_flatMap.1 h
  have hlt : b.toNat < 256 := b.toNat_lt
  rcases hb with _ | ⟨_, _ | ⟨_, hb⟩⟩
  · exact ⟨_, by omega, rfl⟩
  · exact ⟨_, by omega, rfl⟩
  · cases hb

end ControlLoop.Digest
