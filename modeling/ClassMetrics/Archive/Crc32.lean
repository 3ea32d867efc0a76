import ClassMetrics.Bytes

/-!
The 32-bit cyclic redundancy check that archives keep of every entry.
-/

namespace ClassMetrics.Archive

/-- Shifts one bit out of the remainder. -/
def crcShift (remainder : UInt32) : UInt32 :=
  if remainder &&& 1 = 1 then (remainder >>> 1) ^^^ 0xedb88320 else remainder >>> 1

def crcShifts : Nat → UInt32 → UInt32
  | 0, remainder => remainder
  | count + 1, remainder => crcShifts count (crcShift remainder)

def crcByte (remainder : UInt32) (byte : UInt8) : UInt32 :=
  crcShifts 8 (remainder ^^^ byte.toUInt32)

/-- The check value of a byte string. -/
def crc32 (bytes : Bytes) : UInt32 :=
  bytes.foldl crcByte 0xffffffff ^^^ 0xffffffff

end ClassMetrics.Archive
