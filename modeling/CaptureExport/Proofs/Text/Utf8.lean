import Mathlib.Tactic.IntervalCases
import CaptureExport.Text.Utf8

/-! # Reading UTF-8 back

The octets of a character lead the machine through one pending character and back, so what is
encoded is read back strictly. An octet of ASCII stands for its own character only.
-/

namespace CaptureExport.Utf8

variable {b low high : UInt8} {r : Bytes} {c : Char} {p : Pending} {cs : List Char} {n : ℕ}

theorem toNat_ofNat (h : n < 256) : (UInt8.ofNat n).toNat = n := by
  simp [UInt8.toNat_ofNat', Nat.mod_eq_of_lt h]

theorem toNat_valid (c : Char) : c.toNat < 0xD800 ∨ (0xDFFF < c.toNat ∧ c.toNat < 0x110000) :=
  c.valid

/-! ## First octets -/

theorem start_one (h : n < 128) : start (UInt8.ofNat n) = .inl (.char (Char.ofNat n)) := by
  have hb : (UInt8.ofNat n).toNat = n := toNat_ofNat (by omega)
  have hlt : UInt8.ofNat n < 0x80 := by simpa [UInt8.lt_iff_toNat_lt, hb] using h
  rw [start, if_pos hlt, hb]

theorem start_two (h : 2 ≤ n) (hn : n < 32) :
    start (UInt8.ofNat (n + 192)) = .inr ⟨[UInt8.ofNat (n + 192)], n, 1, 0x80, 0xBF⟩ := by
  interval_cases n <;> rfl

theorem start_three (hn : n < 16) :
    start (UInt8.ofNat (n + 224)) = .inr ⟨[UInt8.ofNat (n + 224)], n, 2,
      if n = 0 then 0xA0 else 0x80, if n = 13 then 0x9F else 0xBF⟩ := by
  interval_cases n <;> rfl

theorem start_four (hn : n < 5) :
    start (UInt8.ofNat (n + 240)) = .inr ⟨[UInt8.ofNat (n + 240)], n, 3,
      if n = 0 then 0x90 else 0x80, if n = 4 then 0x8F else 0xBF⟩ := by
  interval_cases n <;> rfl

theorem piecesFrom_start (h : start b = .inr p) :
    piecesFrom none (b :: r) = piecesFrom (some p) r := by
  simp [piecesFrom, h]

/-! ## Further octets -/

theorem piecesFrom_last {taken : Bytes} {code : ℕ} (hn : n < 64) (hlow : low.toNat ≤ n + 128)
    (hhigh : n + 128 ≤ high.toNat) :
    piecesFrom (some ⟨taken, code, 1, low, high⟩) (UInt8.ofNat (n + 128) :: r) =
      .char (Char.ofNat (64 * code + n)) :: piecesFrom none r := by
  have hb : (UInt8.ofNat (n + 128)).toNat = n + 128 := toNat_ofNat (by omega)
  have hm : (n + 128) % 64 = n := by omega
  generalize UInt8.ofNat (n + 128) = b at hb
  simp [piecesFrom, UInt8.le_iff_toNat_le, hb, hlow, hhigh, hm]

theorem piecesFrom_next {taken : Bytes} {code missing : ℕ} (hn : n < 64)
    (hlow : low.toNat ≤ n + 128) (hhigh : n + 128 ≤ high.toNat) :
    piecesFrom (some ⟨taken, code, missing + 2, low, high⟩) (UInt8.ofNat (n + 128) :: r) =
      piecesFrom (some ⟨taken ++ [UInt8.ofNat (n + 128)], 64 * code + n, missing + 1, 0x80, 0xBF⟩)
        r := by
  have hb : (UInt8.ofNat (n + 128)).toNat = n + 128 := toNat_ofNat (by omega)
  have hm : (n + 128) % 64 = n := by omega
  generalize UInt8.ofNat (n + 128) = b at hb
  simp [piecesFrom, UInt8.le_iff_toNat_le, hb, hlow, hhigh, hm]

/-- The octets of a character are read as that character. -/
theorem piecesFrom_encodeChar (c : Char) (r : Bytes) :
    piecesFrom none (String.utf8EncodeChar c ++ r) = .char c :: piecesFrom none r := by
  have hvalid := toNat_valid c
  have hc {n : ℕ} (h : n = c.toNat) : Char.ofNat n = c := by rw [h, Char.ofNat_toNat]
  have hval : c.val.toNat = c.toNat := rfl
  unfold String.utf8EncodeChar
  simp only [hval]
  split
  · simp [piecesFrom, start_one (show c.toNat < 128 by omega)]
  split
  · have hlead : 2 ≤ c.toNat / 64 % 32 := by omega
    simp only [List.cons_append, List.nil_append]
    rw [piecesFrom_start (start_two hlead (by omega)),
      piecesFrom_last (by omega) (by simp) (by simp; omega), hc (by omega)]
  split
  · simp only [List.cons_append, List.nil_append]
    rw [piecesFrom_start (start_three (by omega)), piecesFrom_next (by omega),
      piecesFrom_last (by omega) (by simp) (by simp; omega), hc (by omega)]
    · split <;> simp
      omega
    · split <;> (simp; omega)
  · simp only [List.cons_append, List.nil_append]
    rw [piecesFrom_start (start_four (by omega)), piecesFrom_next (by omega),
      piecesFrom_next (by omega) (by simp) (by simp; omega),
      piecesFrom_last (by omega) (by simp) (by simp; omega), hc (by omega)]
    · split <;> simp
      omega
    · split <;> (simp; omega)

theorem pieces_encode (cs : List Char) : pieces (encode cs) = cs.map .char := by
  induction cs with
  | nil => rfl
  | cons c cs ih =>
    rw [pieces, encode, List.flatMap_cons, piecesFrom_encodeChar]
    exact congrArg (Piece.char c :: ·) ih

/-- What is encoded is read back. -/
theorem decode?_encode (cs : List Char) : decode? (encode cs) = some cs := by
  rw [decode?, pieces_encode]
  induction cs with
  | nil => rfl
  | cons c cs ih => simp [List.mapM_cons, ih, Piece.char?]

theorem encode_injective : Function.Injective encode := fun cs ds h =>
  Option.some.inj (by rw [← decode?_encode cs, h, decode?_encode])

/-! ## Octets of ASCII -/

theorem toNat_charOfNat (h : n < 128) : (Char.ofNat n).toNat = n := by
  have hvalid : n.isValidChar := .inl (by omega)
  rw [Char.ofNat, dif_pos hvalid]
  rfl

theorem mem_encodeChar_iff (hb : b < 0x80) :
    b ∈ String.utf8EncodeChar c ↔ c = Char.ofNat b.toNat := by
  have hlt : b.toNat < 128 := by simpa [UInt8.lt_iff_toNat_lt] using hb
  have hchar : c = Char.ofNat b.toNat ↔ c.toNat = b.toNat :=
    ⟨fun h => by rw [h, toNat_charOfNat hlt], fun h => by rw [← h, Char.ofNat_toNat]⟩
  have hoctet {n : ℕ} (hn : n < 256) : b = UInt8.ofNat n ↔ b.toNat = n := by
    rw [← UInt8.toNat_inj, toNat_ofNat hn]
  have hval : c.val.toNat = c.toNat := rfl
  rw [hchar]
  unfold String.utf8EncodeChar
  simp only [hval]
  split
  · rw [List.mem_singleton, hoctet (by omega), eq_comm]
  split <;> [skip; split]
  all_goals
    simp only [List.mem_cons, List.not_mem_nil, or_false]
    repeat rw [hoctet (by omega)]
    omega

theorem mem_encode_iff (hb : b < 0x80) : b ∈ encode cs ↔ Char.ofNat b.toNat ∈ cs := by
  simp [encode, mem_encodeChar_iff hb]

end CaptureExport.Utf8
