import CaptureExport.Text.Utf8

/-! # CRC-32

The cyclic redundancy check with the reflected polynomial `0xEDB88320`, all ones at the start
and inverted at the end.
-/

namespace CaptureExport.Crc32

def bitStep (c : UInt32) : UInt32 :=
  if c &&& 1 = 1 then (c >>> 1) ^^^ 0xEDB88320 else c >>> 1

def octetStep (c : UInt32) (b : UInt8) : UInt32 :=
  let c := c ^^^ b.toUInt32
  bitStep (bitStep (bitStep (bitStep (bitStep (bitStep (bitStep (bitStep c)))))))

def checksum (bs : Bytes) : UInt32 := bs.foldl octetStep 0xFFFFFFFF ^^^ 0xFFFFFFFF

end CaptureExport.Crc32
