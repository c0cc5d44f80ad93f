import XmlPipeline.Json.Decoder.Basic
import XmlPipeline.Text.Unsigned
import XmlPipeline.Text.Utf8

/-!
This module contains the decoding of strings with their escapes.
-/

namespace XmlPipeline
namespace Json

def hexValue? (bytes : List UInt8) : Option Nat :=
  bytes.foldlM (fun n b =>
    (Text.digitValue? 16 (Char.ofNat b.toNat)).map fun digit => 16 * n + digit) 0

def takeHex (bytes : List UInt8) : Except Failure (Nat × List UInt8) :=
  if bytes.length < 4 then
    .error ⟨.endInString, 0⟩
  else
    match hexValue? (bytes.take 4) with
    | some n => .ok (n, bytes.drop 4)
    | none => .error ⟨.invalidEscape, (bytes.drop 4).length⟩

def takeLowSurrogate (high : Nat) (bytes : List UInt8) : Except Failure (Nat × List UInt8) :=
  match bytes with
  | [] => .error ⟨.endInString, 0⟩
  | first :: rest =>
    if first ≠ ascii '\\' then .error ⟨.cutSurrogatePair, rest.length⟩
    else match rest with
      | [] => .error ⟨.endInString, 0⟩
      | second :: rest =>
        if second ≠ ascii 'u' then .error ⟨.cutSurrogatePair, rest.length⟩
        else do
          let (low, rest) ← takeHex rest
          if 0xDC00 ≤ low && low ≤ 0xDFFF then
            return (0x10000 + (high - 0xD800) * 0x400 + (low - 0xDC00), rest)
          else
            throw ⟨.loneSurrogate, rest.length⟩

def takeUnicodeEscape (bytes : List UInt8) : Except Failure (List UInt8 × List UInt8) := do
  let (n, rest) ← takeHex bytes
  if 0xDC00 ≤ n && n ≤ 0xDFFF then
    throw ⟨.loneSurrogate, rest.length⟩
  else if 0xD800 ≤ n && n ≤ 0xDBFF then
    let (n, rest) ← takeLowSurrogate n rest
    return (Utf8.encode [Char.ofNat n], rest)
  else
    return (Utf8.encode [Char.ofNat n], rest)

def simpleEscape? (b : UInt8) : Option Char :=
  match Char.ofNat b.toNat with
  | '"' => some '"'
  | '\\' => some '\\'
  | '/' => some '/'
  | 'b' => some '\x08'
  | 'f' => some '\x0c'
  | 'n' => some '\n'
  | 'r' => some '\r'
  | 't' => some '\t'
  | _ => none

def takeEscape : List UInt8 → Except Failure (List UInt8 × List UInt8)
  | [] => .error ⟨.endInString, 0⟩
  | b :: rest =>
    match simpleEscape? b with
    | some c => .ok (Utf8.encode [c], rest)
    | none => if b == ascii 'u' then takeUnicodeEscape rest else .error ⟨.invalidEscape, rest.length⟩

/--
Take what follows a backslash in a text that is skipped. Surrogates need not come in pairs there.
-/
def skipEscape : List UInt8 → Except Failure (List UInt8 × List UInt8)
  | [] => .error ⟨.endInString, 0⟩
  | b :: rest =>
    if (simpleEscape? b).isSome then .ok ([], rest)
    else if b == ascii 'u' then (takeHex rest).map fun (_, rest) => ([], rest)
    else .error ⟨.invalidEscape, rest.length⟩

/--
Take a string up to the closing quote, for at most `fuel` bytes. `behind` tells on which side of a
control character the failure is noticed.
-/
def takeString (escape : List UInt8 → Except Failure (List UInt8 × List UInt8)) (behind : Bool) :
    (fuel : Nat) → List UInt8 → Except Failure (List UInt8 × List UInt8)
  | 0, _ => .error ⟨.endInString, 0⟩
  | _ + 1, [] => .error ⟨.endInString, 0⟩
  | fuel + 1, b :: rest =>
    if b == ascii '"' then
      .ok ([], rest)
    else if b == ascii '\\' then do
      let (start, rest) ← escape rest
      let (bytes, rest) ← takeString escape behind fuel rest
      return (start ++ bytes, rest)
    else if b < 0x20 then
      .error ⟨.controlCharacter, if behind then rest.length else rest.length + 1⟩
    else do
      let (bytes, rest) ← takeString escape behind fuel rest
      return (b :: bytes, rest)

namespace Decoder

def stringBody : Decoder String := fun rest =>
  (takeString takeEscape true (rest.length + 1) rest).map fun (bytes, rest) =>
    ((Utf8.decode? bytes).getD "", rest)

def skipString : Decoder Unit := fun rest =>
  (takeString skipEscape false (rest.length + 1) rest).map fun (_, rest) => ((), rest)

end Decoder
end Json
end XmlPipeline
