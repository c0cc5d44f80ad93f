import XmlPipeline.Json.Problem

/-!
This module contains decoders, which read a value of some type from the front of a JSON text. The text is
read once from left to right, so that of several problems the first one is reported.
-/

namespace XmlPipeline
namespace Json

abbrev Decoder (α : Type) := StateT (List UInt8) (Except Failure) α

def ascii (c : Char) : UInt8 :=
  UInt8.ofNat c.toNat

def isDigit (b : UInt8) : Bool :=
  ascii '0' ≤ b && b ≤ ascii '9'

def digitValue (b : UInt8) : Nat :=
  b.toNat - (ascii '0').toNat

namespace Decoder

def fail {α : Type} (problem : Problem) : Decoder α := fun rest =>
  .error ⟨problem, rest.length⟩

def failAtNext {α : Type} (problem : Problem) : Decoder α := fun rest =>
  .error ⟨problem, rest.length - 1⟩

def peek : Decoder (Option UInt8) := fun rest =>
  .ok (rest.head?, rest)

def next : Decoder (Option UInt8) := fun rest =>
  .ok (rest.head?, rest.tail)

def drop : Decoder Unit := fun rest =>
  .ok ((), rest.tail)

def isSpace (b : UInt8) : Bool :=
  b == 0x20 || b == 0x0A || b == 0x09 || b == 0x0D

def peekBehindSpace : Decoder (Option UInt8) := fun rest =>
  let rest := rest.dropWhile isSpace
  .ok (rest.head?, rest)

def word : List Char → Decoder Unit
  | [] => return
  | c :: cs => do
    match ← next with
    | none => fail .endInValue
    | some b => if b == ascii c then word cs else fail .expectedWord

end Decoder

end Json
end XmlPipeline
