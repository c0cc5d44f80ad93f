/-!
This module contains the reader of unsigned whole numbers in a given radix. Leading zeros are free,
one leading plus sign is allowed, and the value is bounded. Of the digits that make a number
unreadable, the first one decides which error is reported.
-/

namespace XmlPipeline
namespace Text

inductive NumberError where
  | noDigits
  | invalidDigit
  | tooLarge
  deriving DecidableEq, Repr

namespace NumberError

def message : NumberError → String
  | noDigits => "cannot parse integer from empty string"
  | invalidDigit => "invalid digit found in string"
  | tooLarge => "number too large to fit in target type"

end NumberError

def digitValue? (radix : Nat) (c : Char) : Option Nat :=
  let value? :=
    if '0' ≤ c ∧ c ≤ '9' then some (c.toNat - '0'.toNat)
    else if 'a' ≤ c ∧ c ≤ 'z' then some (c.toNat - 'a'.toNat + 10)
    else if 'A' ≤ c ∧ c ≤ 'Z' then some (c.toNat - 'A'.toNat + 10)
    else none
  value?.filter (· < radix)

def readDigits (radix limit : Nat) (value : Nat) : List Char → Except NumberError Nat
  | [] => .ok value
  | c :: cs =>
    match digitValue? radix c with
    | none => .error .invalidDigit
    | some digit =>
      if value * radix + digit ≤ limit then
        readDigits radix limit (value * radix + digit) cs
      else
        .error .tooLarge

def readUnsigned (radix limit : Nat) : List Char → Except NumberError Nat
  | [] => .error .noDigits
  | ['+'] => .error .invalidDigit
  | '+' :: cs => readDigits radix limit 0 cs
  | cs => readDigits radix limit 0 cs

def maxUnsigned32 : Nat := 4294967295

end Text
end XmlPipeline
