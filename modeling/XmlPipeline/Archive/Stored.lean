import XmlPipeline.Archive.Field

/-!
This module contains deflate streams whose blocks are all stored, that is kept as they are.
-/

namespace XmlPipeline
namespace Archive

def maxStored : Nat := 0xFFFF

def storedBlock (isLast : Bool) (bytes : List UInt8) : List UInt8 :=
  (if isLast then 1 else 0) :: field 2 bytes.length ++ field 2 (maxStored - bytes.length) ++ bytes

def deflate (bytes : List UInt8) : List UInt8 :=
  if bytes.length ≤ maxStored then
    storedBlock true bytes
  else
    storedBlock false (bytes.take maxStored) ++ deflate (bytes.drop maxStored)
termination_by bytes.length
decreasing_by
  simp only [List.length_drop, maxStored] at *
  omega

def inflate? : List UInt8 → Option (List UInt8)
  | header :: low :: high :: inverseLow :: inverseHigh :: body =>
    let length := low.toNat + 256 * high.toNat
    let inverse := inverseLow.toNat + 256 * inverseHigh.toNat
    if length + inverse ≠ maxStored || body.length < length then
      none
    else if header == 1 then
      if body.length = length then some body else none
    else if header == 0 then
      (inflate? (body.drop length)).map (body.take length ++ ·)
    else
      none
  | _ => none
termination_by bytes => bytes.length
decreasing_by
  simp only [List.length_drop, List.length_cons]
  omega

end Archive
end XmlPipeline
