import XmlPipeline.Json.Decoder.Number
import XmlPipeline.Json.Decoder.Text

/-!
This module contains the decoding of simple values, and the failure to find a value of the type that is
expected.
-/

namespace XmlPipeline
namespace Json
namespace Decoder

def failWithFound {α : Type} (expected : String) : Decoder α := do
  let fail (found : Found) : Decoder α := fail (.wrongType found expected)
  match ← peek with
  | none => failAtNext .expectedValue
  | some b =>
    if b == ascii 'n' then
      drop
      word ['u', 'l', 'l']
      fail .null
    else if b == ascii 't' then
      drop
      word ['r', 'u', 'e']
      fail (.bool true)
    else if b == ascii 'f' then
      drop
      word ['a', 'l', 's', 'e']
      fail (.bool false)
    else if b == ascii '-' then
      drop
      fail (← number true)
    else if isDigit b then
      fail (← number false)
    else if b == ascii '"' then
      drop
      fail (.text (← stringBody))
    else if b == ascii '[' then
      fail .list
    else if b == ascii '\x7b' then
      fail .object
    else
      failAtNext .expectedValue

def startOfValue : Decoder UInt8 := do
  match ← peekBehindSpace with
  | some b => return b
  | none => failAtNext .endInValue

def string (expected : String) : Decoder String := do
  if (← startOfValue) == ascii '"' then
    drop
    stringBody
  else
    failWithFound expected

def bool : Decoder Bool := do
  let b ← startOfValue
  if b == ascii 't' then
    drop
    word ['r', 'u', 'e']
    return true
  else if b == ascii 'f' then
    drop
    word ['a', 'l', 's', 'e']
    return false
  else
    failWithFound "a boolean"

def nullable {α : Type} (value : Decoder α) : Decoder (Option α) := do
  if (← peekBehindSpace) == some (ascii 'n') then
    drop
    word ['u', 'l', 'l']
    return none
  else
    return some (← value)

end Decoder
end Json
end XmlPipeline
