import Mathlib.Data.List.Basic
import CaptureExport.Gzip.Inflate
import CaptureExport.Word

/-! # Reading back what was compressed

A stream of stored blocks gives the content it was made of, and its last octets are the checksum and
the length of that content.
-/

namespace CaptureExport.Gzip

variable {content rest : Bytes} {out : Array UInt8} {fuel : ℕ} {final : Bool}

theorem ofLittleEndian_word {n : ℕ} (h : n ≤ blockLimit) :
    ofLittleEndian [UInt8.ofNat n, UInt8.ofNat (n / 256)] = n := by
  have hw := ofLittleEndian_littleEndian 2 n
  simp only [littleEndian] at hw
  rw [hw]
  exact Nat.mod_eq_of_lt (Nat.lt_of_le_of_lt h (by decide))

theorem stored?_block (h : content.length ≤ blockLimit) :
    stored? ⟨littleEndian 2 content.length ++ (littleEndian 2 (0xFFFF - content.length) ++
      (content ++ rest)), 0, 0⟩ out = some (⟨rest, 0, 0⟩, out ++ content.toArray) := by
  have hn := ofLittleEndian_word h
  have hc := ofLittleEndian_word (Nat.sub_le 0xFFFF content.length)
  have hsum : content.length + (0xFFFF - content.length) = 0xFFFF := Nat.add_sub_of_le h
  simp only [littleEndian, List.cons_append, List.nil_append, stored?, hn, hc, hsum]
  simp

theorem inflate?_block (h : content.length ≤ blockLimit) :
    inflate? (fuel + 1) ⟨block final content ++ rest, 0, 0⟩ out =
      if final then some (⟨rest, 0, 0⟩, out ++ content.toArray)
      else inflate? fuel ⟨rest, 0, 0⟩ (out ++ content.toArray) := by
  have hs := @stored?_block content rest out h
  have hb : block final content ++ rest = (if final then 1 else 0) ::
      (littleEndian 2 content.length ++ (littleEndian 2 (0xFFFF - content.length) ++
        (content ++ rest))) := by simp [block]
  rw [inflate?, hb]
  cases final <;> simp [Source.bit?, Source.bits?, Source.align, hs]

theorem inflate?_blocks (hf : (blocks content).length ≤ fuel) :
    inflate? (fuel + 1) ⟨blocks content ++ rest, 0, 0⟩ out =
      some (⟨rest, 0, 0⟩, out ++ content.toArray) := by
  fun_induction blocks content generalizing fuel out with
  | case1 content h => rw [inflate?_block h, if_pos rfl]
  | case2 content h ih =>
    have htake : (content.take blockLimit).length ≤ blockLimit := List.length_take_le ..
    rw [List.append_assoc, inflate?_block htake, if_neg (by decide)]
    simp only [List.length_append, block, List.length_cons, length_littleEndian] at hf
    obtain ⟨fuel, rfl⟩ : ∃ k, fuel = k + 1 := Nat.exists_eq_succ_of_ne_zero (by omega)
    rw [ih (by omega), Array.append_assoc]
    simp only [List.append_toArray, List.take_append_drop]

/-- A compressed content is read back as it was. -/
theorem decode?_encode (content : Bytes) : decode? (encode content) = some content := by
  have hlen : 5 ≤ (blocks content).length := by
    rw [blocks]
    split <;> simp [block] <;> omega
  have hdrop : (encode content).drop 10 = blocks content ++ trailer content := by
    simp [encode, header]
  have htake : (encode content).take 4 = header.take 4 := by simp [encode, header]
  have hstream : ¬ (encode content).length < 18 := by
    simp only [encode, header, trailer, List.length_append, length_littleEndian, List.length_cons,
      List.length_nil]
    omega
  have hfuel : (blocks content).length ≤ 3 * (blocks content ++ trailer content).length := by
    rw [List.length_append]
    omega
  simp only [decode?, htake, hstream, hdrop, inflate?_blocks hfuel]
  simp

/-- A stream stands for a content: it is read back as the content, and it ends in the checksum and
the length of it. -/
structure Stream (stream content : Bytes) : Prop where
  decoded : decode? stream = some content
  checksum_eq : ofLittleEndian ((stream.drop (stream.length - 8)).take 4) =
    (Crc32.checksum content).toNat
  length_eq : ofLittleEndian (stream.drop (stream.length - 4)) = content.length % Word.limit32

theorem stream_encode (content : Bytes) : Stream (encode content) content := by
  have hlen : (encode content).length = (header ++ blocks content).length + 8 := by
    simp only [encode, trailer, List.length_append, length_littleEndian]
  have hlast : (encode content).drop ((encode content).length - 8) = trailer content := by
    rw [hlen, Nat.add_sub_cancel, encode, List.drop_left]
  have hsum : (trailer content).take 4 = littleEndian 4 (Crc32.checksum content).toNat := by
    rw [trailer, List.take_left' (length_littleEndian 4 _)]
  have hlength : (trailer content).drop 4 = littleEndian 4 content.length := by
    rw [trailer, List.drop_left' (length_littleEndian 4 _)]
  refine ⟨decode?_encode content, ?_, ?_⟩
  · rw [hlast, hsum, ofLittleEndian_littleEndian]
    exact Nat.mod_eq_of_lt (Crc32.checksum content).toNat_lt
  · have hdrop : (encode content).length - 4 = (encode content).length - 8 + 4 := by omega
    rw [hdrop, ← List.drop_drop, hlast, hlength, ofLittleEndian_littleEndian]

end CaptureExport.Gzip
