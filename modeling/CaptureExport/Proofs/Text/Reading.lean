import CaptureExport.Proofs.Text.Utf8

/-! # Reading UTF-8 strictly

Octets that are read as characters only are the octets of these characters: every first octet asks
for as many further ones as its character has, within the bounds that exclude overlong forms.
-/

namespace CaptureExport.Utf8

variable {b low high : UInt8} {r bs : Bytes} {cs : List Char} {n k : ℕ}

theorem mapM_char?_eq_some_iff {l : List Piece} :
    l.mapM Piece.char? = some cs ↔ l = cs.map .char := by
  induction l generalizing cs with
  | nil => cases cs <;> simp
  | cons piece l ih =>
    rw [List.mapM_cons]
    cases piece with
    | illFormed octets => cases cs <;> simp [Piece.char?]
    | char c =>
      simp only [Piece.char?, Option.bind_eq_bind, Option.bind_some, Option.bind_eq_some_iff, ih]
      constructor
      · rintro ⟨cs', rfl, h⟩
        obtain rfl := Option.some.inj h
        rfl
      · intro h
        cases cs with
        | nil => cases h
        | cons d cs' =>
          obtain ⟨hc, hl⟩ := List.cons.inj h
          exact ⟨cs', hl, by rw [Piece.char.inj hc]; rfl⟩

theorem toNat_charOf (h : k < 0xD800 ∨ (0xDFFF < k ∧ k < 0x110000)) : (Char.ofNat k).toNat = k := by
  have hvalid : k.isValidChar := h
  rw [Char.ofNat, dif_pos hvalid]
  rfl

theorem eq_further (hlow : 128 ≤ b.toNat) (hhigh : b.toNat < 192) :
    b = UInt8.ofNat (b.toNat % 64 + 128) := by
  rw [← UInt8.toNat_inj, toNat_ofNat (by omega)]
  omega

theorem last_of_piecesFrom {taken : Bytes} {code : ℕ}
    (h : piecesFrom (some ⟨taken, code, 1, low, high⟩) r = cs.map .char) :
    ∃ b r' cs', r = b :: r' ∧ low ≤ b ∧ b ≤ high ∧
      cs = Char.ofNat (64 * code + b.toNat % 64) :: cs' ∧ piecesFrom none r' = cs'.map .char := by
  cases r with
  | nil => cases cs <;> simp [piecesFrom] at h
  | cons b r =>
    rw [piecesFrom] at h
    split at h
    · rename_i hb
      cases cs with
      | nil => simp at h
      | cons c cs =>
        obtain ⟨hc, hr⟩ : Char.ofNat (64 * code + b.toNat % 64) = c ∧
          piecesFrom none r = cs.map .char := by simpa using h
        exact ⟨b, r, cs, rfl, hb.1, hb.2, by rw [hc], hr⟩
    · cases cs <;> split at h <;> simp at h

theorem next_of_piecesFrom {taken : Bytes} {code missing : ℕ}
    (h : piecesFrom (some ⟨taken, code, missing + 2, low, high⟩) r = cs.map .char) :
    ∃ b r', r = b :: r' ∧ low ≤ b ∧ b ≤ high ∧
      piecesFrom (some ⟨taken ++ [b], 64 * code + b.toNat % 64, missing + 1, 0x80, 0xBF⟩) r' =
        cs.map .char := by
  cases r with
  | nil => cases cs <;> simp [piecesFrom] at h
  | cons b r =>
    rw [piecesFrom] at h
    split at h
    · rename_i hb
      exact ⟨b, r, rfl, hb.1, hb.2, by simpa using h⟩
    · cases cs <;> split at h <;> simp at h

/-- What a first octet leads to: a character of its own, octets that belong to none, or a character
with further octets. -/
theorem start_cases (b : UInt8) :
    (∃ n < 128, b = UInt8.ofNat n) ∨ (∃ octets, start b = .inl (.illFormed octets)) ∨
      (∃ n, 2 ≤ n ∧ n < 32 ∧ b = UInt8.ofNat (n + 192)) ∨
      (∃ n < 16, b = UInt8.ofNat (n + 224)) ∨ ∃ n < 5, b = UInt8.ofNat (n + 240) := by
  have hb := b.toNat_lt
  have hof {n : ℕ} (h : b.toNat = n) : b = UInt8.ofNat n := by rw [← h, UInt8.ofNat_toNat]
  by_cases h₁ : b.toNat < 128
  · exact .inl ⟨_, h₁, hof rfl⟩
  by_cases h₂ : b.toNat < 194
  · refine .inr (.inl ⟨[b], ?_⟩)
    have h₁' : ¬ b < 0x80 := by simpa [UInt8.lt_iff_toNat_lt] using h₁
    have h₂' : b < 0xC2 := by simpa [UInt8.lt_iff_toNat_lt] using h₂
    rw [start, if_neg h₁', if_pos h₂']
  by_cases h₃ : b.toNat < 224
  · exact .inr (.inr (.inl ⟨b.toNat - 192, by omega, by omega, hof (by omega)⟩))
  by_cases h₄ : b.toNat < 240
  · exact .inr (.inr (.inr (.inl ⟨b.toNat - 224, by omega, hof (by omega)⟩)))
  by_cases h₅ : b.toNat < 245
  · exact .inr (.inr (.inr (.inr ⟨b.toNat - 240, by omega, hof (by omega)⟩)))
  · refine .inr (.inl ⟨[b], ?_⟩)
    have hlt {m : UInt8} (hm : m.toNat ≤ 244) : ¬ b < m := by
      rw [UInt8.lt_iff_toNat_lt]; omega
    have hne {m : UInt8} (hm : m.toNat ≤ 244) : ¬ b = m := by
      rw [← UInt8.toNat_inj]; omega
    simp [start, hlt, hne]

theorem encodeChar_two (h : 2 ≤ n) (hn : n < 32) (hk : k < 64) :
    String.utf8EncodeChar (Char.ofNat (64 * n + k)) =
      [UInt8.ofNat (n + 192), UInt8.ofNat (k + 128)] := by
  have hc : (Char.ofNat (64 * n + k)).val.toNat = 64 * n + k := toNat_charOf (by omega)
  unfold String.utf8EncodeChar
  simp only [hc]
  rw [if_neg (by omega), if_pos (by omega)]
  congr <;> omega

theorem encodeChar_three (hn : n < 16) {m : ℕ} (hm : m < 64) (hk : k < 64)
    (hlow : n = 0 → 32 ≤ m) (hhigh : n = 13 → m < 32) :
    String.utf8EncodeChar (Char.ofNat (64 * (64 * n + m) + k)) =
      [UInt8.ofNat (n + 224), UInt8.ofNat (m + 128), UInt8.ofNat (k + 128)] := by
  have hc : (Char.ofNat (64 * (64 * n + m) + k)).val.toNat = 64 * (64 * n + m) + k :=
    toNat_charOf (by omega)
  unfold String.utf8EncodeChar
  simp only [hc]
  rw [if_neg (by omega), if_neg (by omega), if_pos (by omega)]
  congr <;> omega

theorem encodeChar_four (hn : n < 5) {l m : ℕ} (hl : l < 64) (hm : m < 64) (hk : k < 64)
    (hlow : n = 0 → 16 ≤ l) (hhigh : n = 4 → l < 16) :
    String.utf8EncodeChar (Char.ofNat (64 * (64 * (64 * n + l) + m) + k)) =
      [UInt8.ofNat (n + 240), UInt8.ofNat (l + 128), UInt8.ofNat (m + 128),
        UInt8.ofNat (k + 128)] := by
  have hc : (Char.ofNat (64 * (64 * (64 * n + l) + m) + k)).val.toNat =
    64 * (64 * (64 * n + l) + m) + k := toNat_charOf (by omega)
  unfold String.utf8EncodeChar
  simp only [hc]
  rw [if_neg (by omega), if_neg (by omega), if_neg (by omega)]
  congr <;> omega

/-- Octets that are read as characters only begin with the octets of the first character. -/
theorem exists_encodeChar (h : piecesFrom none (b :: r) = cs.map .char) : ∃ c cs' r',
    cs = c :: cs' ∧ b :: r = String.utf8EncodeChar c ++ r' ∧
      piecesFrom none r' = cs'.map .char := by
  have htail {x : UInt8} (hlow : (0x80 : UInt8) ≤ x) (hhigh : x ≤ (0xBF : UInt8)) :
      x = UInt8.ofNat (x.toNat % 64 + 128) := by
    simp only [UInt8.le_iff_toNat_le, UInt8.reduceToNat] at hlow hhigh
    exact eq_further hlow (by omega)
  rcases start_cases b with ⟨n, hn, rfl⟩ | ⟨octets, hs⟩ | ⟨n, h₂, hn, rfl⟩ | ⟨n, hn, rfl⟩ |
    ⟨n, hn, rfl⟩
  · rw [piecesFrom, start_one hn] at h
    cases cs with
    | nil => simp at h
    | cons c cs =>
      obtain ⟨rfl, hr⟩ : Char.ofNat n = c ∧ piecesFrom none r = cs.map .char := by simpa using h
      refine ⟨_, cs, r, rfl, ?_, hr⟩
      have hc : (Char.ofNat n).val.toNat = n := toNat_charOf (by omega)
      unfold String.utf8EncodeChar
      simp only [hc]
      rw [if_pos (by omega)]
      rfl
  · rw [piecesFrom, hs] at h
    cases cs <;> simp at h
  · rw [piecesFrom_start (start_two h₂ hn)] at h
    obtain ⟨x, r', cs', rfl, hlow, hhigh, rfl, hr⟩ := last_of_piecesFrom h
    refine ⟨_, cs', r', rfl, ?_, hr⟩
    rw [encodeChar_two h₂ hn (by omega), ← htail hlow hhigh]
    rfl
  · rw [piecesFrom_start (start_three hn)] at h
    obtain ⟨x, r', rfl, hlow, hhigh, h⟩ := next_of_piecesFrom h
    obtain ⟨y, r', cs', rfl, hlow', hhigh', rfl, hr⟩ := last_of_piecesFrom h
    refine ⟨_, cs', r', rfl, ?_, hr⟩
    have hbounds : 128 ≤ x.toNat ∧ x.toNat ≤ 191 ∧ (n = 0 → 160 ≤ x.toNat) ∧
        (n = 13 → x.toNat ≤ 159) := by
      simp only [UInt8.le_iff_toNat_le] at hlow hhigh
      split at hlow <;> split at hhigh <;> simp at hlow hhigh <;> omega
    rw [encodeChar_three hn (by omega) (by omega) (by omega) (by omega),
      ← eq_further (by omega) (by omega), ← htail hlow' hhigh']
    rfl
  · rw [piecesFrom_start (start_four hn)] at h
    obtain ⟨x, r', rfl, hlow, hhigh, h⟩ := next_of_piecesFrom h
    obtain ⟨y, r', rfl, hlow', hhigh', h⟩ := next_of_piecesFrom h
    obtain ⟨z, r', cs', rfl, hlow₂, hhigh₂, rfl, hr⟩ := last_of_piecesFrom h
    refine ⟨_, cs', r', rfl, ?_, hr⟩
    have hbounds : 128 ≤ x.toNat ∧ x.toNat ≤ 191 ∧ (n = 0 → 144 ≤ x.toNat) ∧
        (n = 4 → x.toNat ≤ 143) := by
      simp only [UInt8.le_iff_toNat_le] at hlow hhigh
      split at hlow <;> split at hhigh <;> simp at hlow hhigh <;> omega
    rw [encodeChar_four hn (by omega) (by omega) (by omega) (by omega) (by omega),
      ← eq_further (by omega) (by omega), ← htail hlow' hhigh', ← htail hlow₂ hhigh₂]
    rfl

/-- The strict reading takes the encodings and nothing else. -/
theorem decode?_eq_some_iff : decode? bs = some cs ↔ bs = encode cs := by
  refine ⟨fun h => ?_, fun h => h ▸ decode?_encode cs⟩
  have hpieces : piecesFrom none bs = cs.map .char := mapM_char?_eq_some_iff.mp h
  clear h
  induction hlen : bs.length using Nat.strongRecOn generalizing bs cs with
  | ind len ih =>
    cases bs with
    | nil =>
      cases cs with
      | nil => rfl
      | cons c cs => simp [piecesFrom] at hpieces
    | cons b r =>
      obtain ⟨c, cs', r', rfl, hbr, hr⟩ := exists_encodeChar hpieces
      have hpos : 0 < (String.utf8EncodeChar c).length := by
        simpa using c.utf8Size_pos
      have hlt : r'.length < len := by
        rw [← hlen, hbr, List.length_append]
        omega
      rw [hbr, ih _ hlt hr rfl]
      rfl

end CaptureExport.Utf8
