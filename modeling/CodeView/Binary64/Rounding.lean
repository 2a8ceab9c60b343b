import CodeView.Binary64.Basic

/-!
# Rounding to the nearest 64-bit float

`Binary64.ofRatio` gives the float nearest to a positive fraction, a tie going to the even
significand, and nothing when the fraction lies beyond the largest finite float. `ofDecimal` does
the same for a decimal numeral `digits * 10 ^ exponent`; `ofNat` and `ofInt` for integers.
-/

namespace CodeView.Binary64

/-- The quotient rounded to the nearest integer, a tie going to the even one. -/
def roundToEven (num den : Nat) : Nat :=
  let quotient := num / den
  let twice := 2 * (num % den)
  if twice < den then quotient
  else if den < twice then quotient + 1
  else quotient + quotient % 2

/-- The fraction `num / den`, multiplied by `2 ^ shift`. -/
def scaled (num den : Nat) (shift : Int) : Nat × Nat :=
  if 0 ≤ shift then (num * Nat.pow 2 shift.toNat, den) else (num, den * Nat.pow 2 (-shift).toNat)

/-- The binary exponent of a positive fraction: `2 ^ k ≤ num / den < 2 ^ (k + 1)`. -/
def binaryExponent (num den : Nat) : Int :=
  let guess : Int := (num.log2 : Int) - den.log2
  let (n, d) := scaled num den (-guess)
  if d ≤ n then guess else guess - 1

/-- The magnitude bits of the float nearest to `num / den`. The result is not bounded: from
`infinityMagnitude` on there is no such finite float. -/
def nearestMagnitude (num den : Nat) : Nat :=
  let exponent := max (binaryExponent num den - 52) (-1074)
  let (n, d) := scaled num den (-exponent)
  (exponent + 1074).toNat * Nat.pow 2 52 + roundToEven n d

/-- The float nearest to `num / den`, if there is a finite one. -/
def ofRatio (negative : Bool) (num den : Nat) : Option Binary64 :=
  if num = 0 then some (zero negative)
  else
    let magnitude := nearestMagnitude num den
    if magnitude < infinityMagnitude then some (ofMagnitude negative magnitude) else none

/-- The number of decimal digits of `n`; zero has one. -/
def digitCount (n : Nat) : Nat :=
  (Nat.toDigits 10 n).length

/-- The float nearest to `digits * 10 ^ exponent`, if there is a finite one. Numerals far outside
the range of floats are decided by their order of magnitude alone. -/
def ofDecimal (negative : Bool) (digits : Nat) (exponent : Int) : Option Binary64 :=
  if digits = 0 then some (zero negative)
  else if 400 < exponent + digitCount digits then none
  else if exponent + digitCount digits < -400 then some (zero negative)
  else if 0 ≤ exponent then ofRatio negative (digits * Nat.pow 10 exponent.toNat) 1
  else ofRatio negative digits (Nat.pow 10 (-exponent).toNat)

/-- The float nearest to a natural number below `2 ^ 64`. -/
def ofNat (n : Nat) : Binary64 :=
  if n = 0 then zero false else ofMagnitude false (nearestMagnitude n 1)

/-- The float nearest to an integer of at most 64 bits. -/
def ofInt (n : Int) : Binary64 :=
  if 0 ≤ n then ofNat n.toNat else ofMagnitude true (nearestMagnitude n.natAbs 1)

end CodeView.Binary64
