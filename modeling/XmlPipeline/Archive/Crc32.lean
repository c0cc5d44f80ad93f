/-!
This module contains the checksum of archive entries: the remainder of a byte sequence modulo the
polynomial `0xEDB88320`, with the bits of each byte in ascending order.
-/

namespace XmlPipeline
namespace Archive

def crcBit (crc : UInt32) : UInt32 :=
  if crc &&& 1 == 1 then (crc >>> 1) ^^^ 0xEDB88320 else crc >>> 1

def crcByte (crc : UInt32) (b : UInt8) : UInt32 :=
  Nat.repeat crcBit 8 (crc ^^^ b.toUInt32)

def crc32 (bytes : List UInt8) : UInt32 :=
  bytes.foldl crcByte 0xFFFFFFFF ^^^ 0xFFFFFFFF

end Archive
end XmlPipeline
