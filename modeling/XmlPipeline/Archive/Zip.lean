import XmlPipeline.Archive.Crc32
import XmlPipeline.Archive.Stored
import XmlPipeline.Text.Utf8

/-!
This module contains zip archives. An archive holds a record with the content of each entry, then the
directory, which repeats what is known about each entry and says where its record starts, and at last a
record that says where the directory starts.
-/

namespace XmlPipeline
namespace Archive

structure Entry where
  name : String
  content : List UInt8
  deriving DecidableEq, Repr, Inhabited

namespace Entry

def flags (entry : Entry) : Nat :=
  if entry.name.toList.all (·.toNat < 0x80) then 0 else 0x0800

def facts (entry : Entry) : List UInt8 :=
  field 2 20 ++ field 2 entry.flags ++ field 2 8 ++ field 2 0 ++ field 2 0x21
    ++ field 4 (crc32 entry.content).toNat ++ field 4 (deflate entry.content).length
    ++ field 4 entry.content.length ++ field 2 (utf8 entry.name).length ++ field 2 0

def signature : Nat := 0x04034B50

def record (entry : Entry) : List UInt8 :=
  field 4 signature ++ entry.facts ++ utf8 entry.name ++ deflate entry.content

end Entry

def placeSignature : Nat := 0x02014B50

def place (offset : Nat) (entry : Entry) : List UInt8 :=
  field 4 placeSignature ++ field 2 0x032E ++ entry.facts ++ field 2 0 ++ field 2 0 ++ field 2 0
    ++ field 4 0x81A40000 ++ field 4 offset ++ utf8 entry.name

def directory (offset : Nat) : List Entry → List UInt8
  | [] => []
  | entry :: entries => place offset entry ++ directory (offset + entry.record.length) entries

def endSignature : Nat := 0x06054B50

def write (entries : List Entry) : List UInt8 :=
  let records := entries.flatMap Entry.record
  let places := directory 0 entries
  records ++ places ++ field 4 endSignature ++ field 2 0 ++ field 2 0 ++ field 2 entries.length
    ++ field 2 entries.length ++ field 4 places.length ++ field 4 records.length ++ field 2 0

def decompress? (method : Nat) (bytes : List UInt8) : Option (List UInt8) :=
  if method = 0 then some bytes else if method = 8 then inflate? bytes else none

def readContent? (archive : List UInt8) (offset method size : Nat) : Option (List UInt8) := do
  let (head, rest) ← readFields? [4, 2, 2, 2, 2, 2, 4, 4, 4, 2, 2] (archive.drop offset)
  guard (head[0]? = some Entry.signature)
  let (_, rest) ← take? ((head[9]?).getD 0 + (head[10]?).getD 0) rest
  let (body, _) ← take? size rest
  decompress? method body

def readEntries? (archive : List UInt8) : (count : Nat) → List UInt8 → Option (List Entry)
  | 0, _ => some []
  | count + 1, bytes =>
    match readFields? [4, 2, 2, 2, 2, 2, 2, 4, 4, 4, 2, 2, 2, 2, 2, 4, 4] bytes with
    | some ([signature, _, _, _, method, _, _, crc, size, _, nameLength, extraLength, commentLength,
        _, _, _, offset], rest) => do
      guard (signature = placeSignature)
      let (name, rest) ← take? nameLength rest
      let (_, rest) ← take? (extraLength + commentLength) rest
      let name ← Utf8.decode? name
      let content ← readContent? archive offset method size
      guard ((crc32 content).toNat = crc)
      let entries ← readEntries? archive count rest
      return { name, content } :: entries
    | _ => none

def readEnd? (bytes : List UInt8) : Option (Nat × Nat) :=
  match readFields? [4, 2, 2, 2, 2, 4, 4, 2] bytes with
  | some ([signature, _, _, _, count, _, offset, comment], rest) =>
    if signature = endSignature && rest.length = comment then some (count, offset) else none
  | _ => none

def findEnd? : List UInt8 → Option (Nat × Nat)
  | [] => none
  | b :: bytes => (findEnd? bytes) <|> readEnd? (b :: bytes)

def read? (archive : List UInt8) : Option (List Entry) := do
  let (count, offset) ← findEnd? archive
  readEntries? archive count (archive.drop offset)

end Archive
end XmlPipeline
