/-!
This module contains the nonnegative numbers of the binary interchange format of 64 bits: how a ratio is
rounded to one of them, and the shortest decimal that stands for one.
-/

namespace XmlPipeline

/--
The number `mantissa * 2 ^ exponent`.
-/
structure Binary64 where
  mantissa : Nat
  exponent : Int
  deriving DecidableEq, Repr

namespace Binary64

/--
The quotient rounded to the nearest whole number, a half to the even neighbour.
-/
def roundDiv (num den : Nat) : Nat :=
  let quotient := num / den
  let twice := 2 * (num % den)
  if den < twice || (twice == den && quotient % 2 == 1) then quotient + 1 else quotient

def scale (num den : Nat) (exponent : Int) : Nat × Nat :=
  (num * Nat.pow 2 (-exponent).toNat, den * Nat.pow 2 exponent.toNat)

def unitExponent (num den : Nat) : Int :=
  let estimate : Int := (num.log2 : Int) - (den.log2 : Int) - 52
  let (scaledNum, scaledDen) := scale num den estimate
  max (-1074) (if scaledNum / scaledDen < Nat.pow 2 52 then estimate - 1 else estimate)

def ofRatio? (num den : Nat) : Option Binary64 :=
  let exponent := unitExponent num den
  let (scaledNum, scaledDen) := scale num den exponent
  let mantissa := roundDiv scaledNum scaledDen
  let rounded : Binary64 :=
    if mantissa == Nat.pow 2 53 then ⟨Nat.pow 2 52, exponent + 1⟩ else ⟨mantissa, exponent⟩
  if 971 < rounded.exponent then none else some rounded

def isZero (x : Binary64) : Bool :=
  x.mantissa == 0

def numerator (x : Binary64) : Nat :=
  x.mantissa * Nat.pow 2 x.exponent.toNat

def denominator (x : Binary64) : Nat :=
  Nat.pow 2 (-x.exponent).toNat

def mul? (x y : Binary64) : Option Binary64 :=
  ofRatio? (x.numerator * y.numerator) (x.denominator * y.denominator)

def div? (x y : Binary64) : Option Binary64 :=
  ofRatio? (x.numerator * y.denominator) (x.denominator * y.numerator)

def powerOfTen? (n : Nat) : Option Binary64 :=
  ofRatio? (Nat.pow 10 n) 1

def scaleByTen? (x : Binary64) : Int → Option Binary64
  | .ofNat n =>
    if x.isZero then some x
    else if n ≤ 308 then (powerOfTen? n).bind x.mul?
    else none
  | .negSucc n => shrink x (n + 1)
where
  shrink (x : Binary64) (n : Nat) : Option Binary64 :=
    if x.isZero then
      some x
    else if n ≤ 308 then
      (powerOfTen? n).bind x.div?
    else
      (powerOfTen? 308).bind x.div? |>.bind (shrink · (n - 308))
  termination_by n
  decreasing_by omega

/--
The decimal number `digits * 10 ^ exponent`.
-/
structure Decimal where
  digits : Nat
  exponent : Int
  deriving DecidableEq, Repr

namespace Decimal

def ratio (d : Decimal) : Nat × Nat :=
  (d.digits * Nat.pow 10 d.exponent.toNat, Nat.pow 10 (-d.exponent).toNat)

end Decimal

def isReadFrom (x : Binary64) (d : Decimal) : Bool :=
  let (num, den) := d.ratio
  ofRatio? num den == some x

def leadingExponent (x : Binary64) : Int :=
  let above (k : Nat) : Bool := x.denominator * Nat.pow 10 k ≤ x.numerator
  let below (k : Nat) : Bool := x.denominator ≤ x.numerator * Nat.pow 10 k
  if above 0 then
    ((List.range 310).find? fun k => !above (k + 1)).getD 0
  else
    -(((List.range 330).find? below).getD 0 : Nat)

def enclosing (x : Binary64) (exponent : Int) : Decimal × Decimal :=
  let floor := x.numerator * Nat.pow 10 (-exponent).toNat / (x.denominator * Nat.pow 10 exponent.toNat)
  (⟨floor, exponent⟩, ⟨floor + 1, exponent⟩)

def prefersLower (x : Binary64) (exponent : Int) : Bool :=
  let den := x.denominator * Nat.pow 10 exponent.toNat
  let num := x.numerator * Nat.pow 10 (-exponent).toNat
  let twice := 2 * (num % den)
  twice < den || (twice == den && num / den % 2 == 0)

def nearest? (x : Binary64) (exponent : Int) : Option Decimal :=
  let (lower, upper) := x.enclosing exponent
  let (first, second) := if x.prefersLower exponent then (lower, upper) else (upper, lower)
  if x.isReadFrom first then some first else if x.isReadFrom second then some second else none

def shortest (x : Binary64) : Decimal :=
  ((List.range 17).findSome? fun k => x.nearest? (x.leadingExponent - (k : Nat))).getD ⟨0, 0⟩

def Decimal.reduce (d : Decimal) : Decimal :=
  let digits := (Nat.toDigits 10 d.digits).reverse
  let zeros := (digits.takeWhile (· == '0')).length
  if d.digits = 0 then d else ⟨d.digits / Nat.pow 10 zeros, d.exponent + zeros⟩

/--
The text of a number: positional between `0.00001` and `10 ^ 16`, and otherwise with an exponent that
always has its sign.
-/
def text (x : Binary64) : String :=
  if x.isZero then "0.0"
  else
    let shortest := x.shortest.reduce
    let digits := Nat.toDigits 10 shortest.digits
    let point : Int := digits.length + shortest.exponent
    let zeros (n : Int) : List Char := List.replicate n.toNat '0'
    if 0 ≤ shortest.exponent ∧ point ≤ 16 then
      String.ofList (digits ++ zeros shortest.exponent) ++ ".0"
    else if 0 < point ∧ point ≤ 16 then
      String.ofList (digits.take point.toNat) ++ "." ++ String.ofList (digits.drop point.toNat)
    else if -5 < point ∧ point ≤ 0 then
      "0." ++ String.ofList (zeros (-point) ++ digits)
    else
      let rest := if digits.length = 1 then [] else '.' :: digits.drop 1
      let mark := if 0 < point then "e+" else "e"
      String.ofList (digits.take 1 ++ rest) ++ mark ++ toString (point - 1)

end Binary64
end XmlPipeline
