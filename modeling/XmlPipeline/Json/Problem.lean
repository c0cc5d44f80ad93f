import XmlPipeline.Decimal.Binary64
import XmlPipeline.Text.Quoted

/-!
This module contains the problems that come up when JSON text is read into a type: text that is not JSON,
and JSON that does not have the form of the type. A problem is reported with the line and the column at
which it was noticed.
-/

namespace XmlPipeline
namespace Json

inductive Found where
  | null
  | bool (value : Bool)
  | whole (isNegative : Bool) (magnitude : Nat)
  | floating (isNegative : Bool) (magnitude : Binary64)
  | text (value : String)
  | list
  | object

namespace Found

def sign (isNegative : Bool) : String :=
  if isNegative then "-" else ""

def display : Found → String
  | null => "null"
  | bool value => "boolean \x60" ++ toString value ++ "\x60"
  | whole isNegative magnitude =>
    "integer \x60" ++ sign isNegative ++ toString magnitude ++ "\x60"
  | floating isNegative magnitude =>
    "floating point \x60" ++ sign isNegative ++ magnitude.text ++ "\x60"
  | text value => "string " ++ Text.quoted value
  | list => "sequence"
  | object => "map"

end Found

inductive Problem where
  | endInValue
  | endInList
  | endInObject
  | endInString
  | expectedColon
  | expectedListSeparator
  | expectedObjectSeparator
  | expectedWord
  | expectedValue
  | invalidEscape
  | invalidNumber
  | numberTooLarge
  | loneSurrogate
  | cutSurrogatePair
  | controlCharacter
  | expectedKey
  | trailingComma
  | trailingCharacters
  | wrongType (found : Found) (expected : String)
  | wrongLength (length : Nat) (expected : String)
  | duplicateField (name : String)
  | missingField (name : String)

namespace Problem

def message : Problem → String
  | endInValue => "EOF while parsing a value"
  | endInList => "EOF while parsing a list"
  | endInObject => "EOF while parsing an object"
  | endInString => "EOF while parsing a string"
  | expectedColon => "expected \x60:\x60"
  | expectedListSeparator => "expected \x60,\x60 or \x60]\x60"
  | expectedObjectSeparator => "expected \x60,\x60 or \x60\x7d\x60"
  | expectedWord => "expected ident"
  | expectedValue => "expected value"
  | invalidEscape => "invalid escape"
  | invalidNumber => "invalid number"
  | numberTooLarge => "number out of range"
  | loneSurrogate => "lone leading surrogate in hex escape"
  | cutSurrogatePair => "unexpected end of hex escape"
  | controlCharacter =>
    "control character (\\u0000-\\u001F) found while parsing a string"
  | expectedKey => "key must be a string"
  | trailingComma => "trailing comma"
  | trailingCharacters => "trailing characters"
  | wrongType found expected => "invalid type: " ++ found.display ++ ", expected " ++ expected
  | wrongLength length expected =>
    "invalid length " ++ toString length ++ ", expected " ++ expected
  | duplicateField name => "duplicate field \x60" ++ name ++ "\x60"
  | missingField name => "missing field \x60" ++ name ++ "\x60"

end Problem

/--
A problem, and the number of bytes of the text that come after the place where it was noticed.
-/
structure Failure where
  problem : Problem
  left : Nat

namespace Failure

def lineAndColumn (before : List UInt8) : Nat × Nat :=
  (before.count 0x0A + 1, (before.reverse.takeWhile (· ≠ 0x0A)).length)

def message (failure : Failure) (text : List UInt8) : String :=
  let (line, column) := lineAndColumn (text.take (text.length - failure.left))
  failure.problem.message ++ " at line " ++ toString line ++ " column " ++ toString column

end Failure
end Json
end XmlPipeline
