import MessageStore.Bytes

/-!
# The CRC-32 checksum

The reflected cyclic redundancy check with the polynomial `0xEDB88320`: the
register starts with all bits set, absorbs the octets in order, lowest bit
first, and is complemented at the end.  Journal records carry the checksum
of the entry they hold.
-/

namespace MessageStore.Crc32

/-- Shifts one bit out of the register, and folds the polynomial in if the
bit was set. -/
def shift (register : UInt32) : UInt32 :=
  if register &&& 1 = 1 then (register >>> 1) ^^^ 0xEDB88320
  else register >>> 1

def absorb (register : UInt32) (octet : UInt8) : UInt32 :=
  shift <| shift <| shift <| shift <|
    shift <| shift <| shift <| shift <| register ^^^ octet.toUInt32

def checksum (bytes : Bytes) : UInt32 :=
  bytes.foldl absorb 0xFFFFFFFF ^^^ 0xFFFFFFFF

-- The published check value.
example : checksum (Bytes.ofAscii "123456789") = 0xCBF43926 := by cbv

end MessageStore.Crc32
