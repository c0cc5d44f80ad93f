import XmlPipeline.Json.Decoder.Basic

/-!
This module contains the decoding of numbers. Whole numbers that do not fit 64 bits are read as floating
point numbers.
-/

namespace XmlPipeline
namespace Json
namespace Decoder

def digits : Decoder (List UInt8) := fun rest =>
  .ok (rest.takeWhile isDigit, rest.dropWhile isDigit)

def maxUnsigned64 : Nat := 18446744073709551615

def digitsWithin (limit value count : Nat) : List UInt8 → (Nat × Nat) × List UInt8
  | [] => ((value, count), [])
  | b :: rest =>
    if isDigit b && value * 10 + digitValue b ≤ limit then
      digitsWithin limit (value * 10 + digitValue b) (count + 1) rest
    else
      ((value, count), b :: rest)

def floating (isNegative : Bool) (significand : Nat) (exponent : Int) : Decoder Found := do
  match (Binary64.ofRatio? significand 1).bind (·.scaleByTen? exponent) with
  | some magnitude => return .floating isNegative magnitude
  | none => fail .numberTooLarge

def maxExponent : Nat := 2147483647

def exponentPart (isNegative : Bool) (significand : Nat) (start : Int) : Decoder Found := do
  drop
  let sign ← peek
  if sign == some (ascii '+') || sign == some (ascii '-') then
    drop
  match ← next with
  | none => fail .endInValue
  | some first =>
    if !isDigit first then
      fail .invalidNumber
    else
      let (value, _) ← fun rest => .ok (digitsWithin maxExponent (digitValue first) 0 rest)
      if ((← peek).map isDigit).getD false then
        drop
        if significand != 0 && sign != some (ascii '-') then
          fail .numberTooLarge
        else
          let _ ← digits
          floating isNegative 0 0
      else if sign == some (ascii '-') then
        floating isNegative significand (start - value)
      else
        floating isNegative significand (start + value)

def isExponentMark (b : Option UInt8) : Bool :=
  b == some (ascii 'e') || b == some (ascii 'E')

def afterDigits (isNegative : Bool) (significand : Nat) (exponent : Int) : Decoder Found := do
  if isExponentMark (← peek) then exponentPart isNegative significand exponent
  else floating isNegative significand exponent

def fractionPart (isNegative : Bool) (significand : Nat) (exponent : Int) : Decoder Found := do
  drop
  let (value, count) ← fun rest => .ok (digitsWithin maxUnsigned64 significand 0 rest)
  let following ← peek
  if (following.map isDigit).getD false then
    let _ ← digits
    afterDigits isNegative value (exponent - count)
  else if count = 0 then
    failAtNext (if following.isNone then .endInValue else .invalidNumber)
  else
    afterDigits isNegative value (exponent - count)

/--
The rest of a number whose whole part is taken. A negative number that does not fit 64 bits, and a negative
zero, are taken for floating point numbers.
-/
def numberRest (isNegative : Bool) (significand : Nat) : Decoder Found := do
  let following ← peek
  if following == some (ascii '.') then
    fractionPart isNegative significand 0
  else if isExponentMark following then
    exponentPart isNegative significand 0
  else if isNegative && (significand = 0 || 9223372036854775808 < significand) then
    floating isNegative significand 0
  else
    return .whole isNegative significand

def number (isNegative : Bool) : Decoder Found := do
  match ← next with
  | none => fail .endInValue
  | some first =>
    if first == ascii '0' then
      if ((← peek).map isDigit).getD false then failAtNext .invalidNumber
      else numberRest isNegative 0
    else if isDigit first then
      let (value, _) ← fun rest => .ok (digitsWithin maxUnsigned64 (digitValue first) 0 rest)
      let surplus ← digits
      if surplus.isEmpty then
        numberRest isNegative value
      else if (← peek) == some (ascii '.') then
        fractionPart isNegative value surplus.length
      else
        afterDigits isNegative value surplus.length
    else
      fail .invalidNumber

def skipExponent : Decoder Unit := do
  drop
  let sign ← peek
  if sign == some (ascii '+') || sign == some (ascii '-') then
    drop
  if ((← next).map isDigit).getD false then
    let _ ← digits
  else
    fail .invalidNumber

def skipNumber : Decoder Unit := do
  match ← next with
  | none => fail .invalidNumber
  | some first =>
    if first == ascii '0' then
      if ((← peek).map isDigit).getD false then
        failAtNext .invalidNumber
    else if isDigit first then
      let _ ← digits
    else
      fail .invalidNumber
    if (← peek) == some (ascii '.') then
      drop
      if (← digits).isEmpty then
        failAtNext .invalidNumber
    if isExponentMark (← peek) then
      skipExponent

end Decoder
end Json
end XmlPipeline
