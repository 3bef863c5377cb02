import CaptureExport.Checksum.Crc32

/-! # Gzip streams

A header without name or time, blocks that hold the content as it is, and a trailer with the
checksum and the length of the content. A block holds at most `0xFFFF` octets.
-/

namespace CaptureExport.Gzip

def littleEndian : Nat → Nat → Bytes
  | 0, _ => []
  | k + 1, n => UInt8.ofNat n :: littleEndian k (n / 256)

def ofLittleEndian : Bytes → Nat
  | [] => 0
  | b :: r => b.toNat + 256 * ofLittleEndian r

@[simp] theorem length_littleEndian (k n : Nat) : (littleEndian k n).length = k := by
  induction k generalizing n with
  | zero => rfl
  | succ k ih => simp [littleEndian, ih]

theorem ofLittleEndian_littleEndian (k n : Nat) :
    ofLittleEndian (littleEndian k n) = n % Nat.pow 256 k := by
  induction k generalizing n with
  | zero => simp [littleEndian, ofLittleEndian, Nat.mod_one]
  | succ k ih =>
    have h : Nat.pow 256 (k + 1) = 256 * Nat.pow 256 k := Nat.mul_comm _ _
    rw [h, Nat.mod_mul]
    simp only [littleEndian, ofLittleEndian, ih, UInt8.toNat_ofNat']

def header : Bytes := [0x1F, 0x8B, 8, 0, 0, 0, 0, 0, 0, 0xFF]

def blockLimit : Nat := 0xFFFF

def block (final : Bool) (content : Bytes) : Bytes :=
  (if final then 1 else 0) :: littleEndian 2 content.length ++
    littleEndian 2 (0xFFFF - content.length) ++ content

def blocks (content : Bytes) : Bytes :=
  if content.length ≤ blockLimit then block true content
  else block false (content.take blockLimit) ++ blocks (content.drop blockLimit)
termination_by content.length
decreasing_by simp [blockLimit] at *; omega

def trailer (content : Bytes) : Bytes :=
  littleEndian 4 (Crc32.checksum content).toNat ++ littleEndian 4 content.length

def encode (content : Bytes) : Bytes := header ++ blocks content ++ trailer content

end CaptureExport.Gzip
