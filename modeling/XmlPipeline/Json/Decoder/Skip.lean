import XmlPipeline.Json.Decoder.Number
import XmlPipeline.Json.Decoder.Text

/-!
This module contains decoders that skip a value of any form. What is skipped has to be JSON all the same.
-/

namespace XmlPipeline
namespace Json
namespace Decoder

inductive Bracket where
  | list
  | object
  deriving DecidableEq

namespace Bracket

def closing : Bracket → UInt8
  | list => ascii ']'
  | object => ascii '\x7d'

def separatorProblem : Bracket → Problem
  | list => .expectedListSeparator
  | object => .expectedObjectSeparator

def endProblem : Bracket → Problem
  | list => .endInList
  | object => .endInObject

end Bracket

def skipStart : Decoder (Option Bracket) := do
  match ← peekBehindSpace with
  | none => failAtNext .endInValue
  | some b =>
    if b == ascii 'n' then
      drop
      word ['u', 'l', 'l']
      return none
    else if b == ascii 't' then
      drop
      word ['r', 'u', 'e']
      return none
    else if b == ascii 'f' then
      drop
      word ['a', 'l', 's', 'e']
      return none
    else if b == ascii '-' then
      drop
      skipNumber
      return none
    else if isDigit b then
      skipNumber
      return none
    else if b == ascii '"' then
      drop
      skipString
      return none
    else if b == ascii '[' then
      drop
      return some .list
    else if b == ascii '\x7b' then
      drop
      return some .object
    else
      failAtNext .expectedValue

/--
Close brackets up to the next comma, which is taken, or the next value. `afterValue` tells whether a
comma may come. The result is what is still open.
-/
def closeBrackets : List Bracket → (afterValue : Bool) → Decoder (List Bracket)
  | [], _ => return []
  | bracket :: outer, afterValue => do
    match ← peekBehindSpace with
    | none => failAtNext bracket.endProblem
    | some b =>
      if b == ascii ',' && afterValue then
        drop
        return bracket :: outer
      else if b == bracket.closing then
        drop
        closeBrackets outer true
      else if afterValue then
        failAtNext bracket.separatorProblem
      else
        return bracket :: outer

def skipKey : Decoder Unit := do
  match ← peekBehindSpace with
  | none => failAtNext .endInObject
  | some b =>
    if b == ascii '"' then
      drop
      skipString
    else
      failAtNext .expectedKey
  match ← peekBehindSpace with
  | none => failAtNext .endInObject
  | some b => if b == ascii ':' then drop else failAtNext .expectedColon

/--
Skip values until all open brackets are closed. Each round takes at least one byte, which bounds the
rounds by `fuel`.
-/
def skipValues : (fuel : Nat) → List Bracket → Decoder Unit
  | 0, _ => fail .expectedValue
  | fuel + 1, enclosing => do
    let opened? ← skipStart
    let after ← closeBrackets (opened?.toList ++ enclosing) opened?.isNone
    match after with
    | [] => return
    | bracket :: outer =>
      if bracket == .object then
        skipKey
      skipValues fuel (bracket :: outer)

def skipValue : Decoder Unit := fun rest =>
  skipValues (rest.length + 1) [] rest

end Decoder
end Json
end XmlPipeline
