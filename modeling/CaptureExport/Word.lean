/-! # Machine words

The first natural numbers that words of some widths do not hold. A signed word holds the integers
from minus the limit of one bit less below that limit.
-/

namespace CaptureExport.Word

abbrev limit32 : Nat := 0x100000000

abbrev limit63 : Nat := 0x8000000000000000

abbrev limit64 : Nat := 0x10000000000000000

abbrev limit127 : Nat := 0x80000000000000000000000000000000

abbrev limit128 : Nat := 0x100000000000000000000000000000000

end CaptureExport.Word
