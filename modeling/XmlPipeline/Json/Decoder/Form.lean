import XmlPipeline.Json.Decoder.Skip
import XmlPipeline.Json.Decoder.Value

/-!
This module contains the decoding of lists and structures. A structure is written as an object, where
members that it does not know are skipped, or as the list of its fields.
-/

namespace XmlPipeline
namespace Json
namespace Decoder

def nextItem (isFirst : Bool) : Decoder Bool := do
  match ← peekBehindSpace with
  | none => failAtNext .endInList
  | some b =>
    if b == ascii ']' then
      return false
    else if isFirst then
      return true
    else if b == ascii ',' then
      drop
      match ← peekBehindSpace with
      | none => failAtNext .endInValue
      | some b => if b == ascii ']' then failAtNext .trailingComma else return true
    else
      failAtNext .expectedListSeparator

def endList : Decoder Unit := do
  match ← peekBehindSpace with
  | none => failAtNext .endInList
  | some b =>
    if b == ascii ']' then
      drop
    else if b == ascii ',' then
      drop
      if (← peekBehindSpace) == some (ascii ']') then failAtNext .trailingComma
      else failAtNext .trailingCharacters
    else
      failAtNext .trailingCharacters

def endObject : Decoder Unit := do
  match ← peekBehindSpace with
  | none => failAtNext .endInObject
  | some b =>
    if b == ascii '\x7d' then drop
    else if b == ascii ',' then failAtNext .trailingComma
    else failAtNext .trailingCharacters

/--
The items of a list up to its closing bracket. Each item takes at least one byte, which bounds their
number by `fuel`.
-/
def items {α : Type} (item : Decoder α) : (fuel : Nat) → (isFirst : Bool) → Decoder (List α)
  | 0, _ => return []
  | fuel + 1, isFirst => do
    if ← nextItem isFirst then
      let first ← item
      return first :: (← items item fuel false)
    else
      return []

def list {α : Type} (item : Decoder α) : Decoder (List α) := do
  if (← startOfValue) == ascii '[' then
    drop
    let found ← items item ((← get).length + 1) true
    endList
    return found
  else
    failWithFound "a sequence"

def nextKey (isFirst : Bool) : Decoder Bool := do
  match ← peekBehindSpace with
  | none => failAtNext .endInObject
  | some b =>
    if b == ascii '\x7d' then
      return false
    else if isFirst then
      if b == ascii '"' then
        drop
        return true
      else
        failAtNext .expectedKey
    else if b == ascii ',' then
      drop
      match ← peekBehindSpace with
      | none => failAtNext .endInValue
      | some b =>
        if b == ascii '"' then
          drop
          return true
        else if b == ascii '\x7d' then
          failAtNext .trailingComma
        else
          failAtNext .expectedKey
    else
      failAtNext .expectedObjectSeparator

def colon : Decoder Unit := do
  match ← peekBehindSpace with
  | none => failAtNext .endInObject
  | some b => if b == ascii ':' then drop else failAtNext .expectedColon

structure Field (α : Type) where
  name : String
  decode : α → Decoder α

def behindBracket (bracket : Bracket) (rest : List UInt8) : List UInt8 :=
  match rest.dropWhile isSpace with
  | [] => []
  | b :: rest =>
    if b == bracket.closing then rest
    else if b == ascii ',' && bracket == .list then rest.dropWhile isSpace
    else b :: rest

/--
Fail because of the form of a whole list or object. The failure is noticed behind its closing bracket if
that comes next.
-/
def failBehind {α : Type} (bracket : Bracket) (problem : Problem) : Decoder α := fun rest =>
  .error ⟨problem, (behindBracket bracket rest).length⟩

/--
The members of an object, read into a structure. `seen` holds the names of the fields that were read.
Members that are no fields are skipped.
-/
def members {α : Type} (known : List (Field α)) :
    (fuel : Nat) → (isFirst : Bool) → (seen : List String) → α → Decoder (List String × α)
  | 0, _, seen, value => return (seen, value)
  | fuel + 1, isFirst, seen, value => do
    if ← nextKey isFirst then
      let name ← stringBody
      match known.find? (·.name == name) with
      | none =>
        colon
        skipValue
        members known fuel false seen value
      | some field =>
        if seen.contains name then
          failBehind .object (.duplicateField name)
        else
          colon
          let value ← field.decode value
          members known fuel false (name :: seen) value
    else
      return (seen, value)

def positional {α : Type} :
    List (Field α) → (isFirst : Bool) → (count : Nat) → α → Decoder (Nat × α)
  | [], _, count, value => return (count, value)
  | field :: rest, isFirst, count, value => do
    if ← nextItem isFirst then
      let value ← field.decode value
      positional rest false (count + 1) value
    else
      return (count, value)

structure Form (α : Type) where
  name : String
  fields : List (Field α)
  requiresFirst : Bool := false

def Form.decoder {α : Type} (form : Form α) (start : α) : Decoder α := do
  let b ← startOfValue
  if b == ascii '[' then
    drop
    let (count, value) ← positional form.fields true 0 start
    if form.requiresFirst && count == 0 then
      failBehind .list <| .wrongLength 0 <|
        "struct " ++ form.name ++ " with " ++ toString form.fields.length ++ " elements"
    else
      endList
      return value
  else if b == ascii '\x7b' then
    drop
    let (seen, value) ← members form.fields ((← get).length + 1) true [] start
    match form.fields.head? with
    | some first =>
      if form.requiresFirst && !seen.contains first.name then
        failBehind .object (.missingField first.name)
      else
        endObject
        return value
    | none =>
      endObject
      return value
  else
    failWithFound ("struct " ++ form.name)

def read {α : Type} (decoder : Decoder α) (text : String) : Except String α :=
  let bytes := utf8 text
  match decoder bytes with
  | .error failure => .error (failure.message bytes)
  | .ok (value, rest) =>
    match rest.dropWhile isSpace with
    | [] => .ok value
    | rest => .error ((⟨.trailingCharacters, rest.length - 1⟩ : Failure).message bytes)

end Decoder
end Json
end XmlPipeline
