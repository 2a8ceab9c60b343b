import CodeView.Binary64.Rounding

/-!
# Floats times powers of ten

`Binary64.ofParts` makes a float from a significand and a power of ten the quick way: the
significand becomes a float, and that float is multiplied with a power of ten, or divided by one,
which is a float as well. Each step rounds, so that the result need not be the float nearest to
`significand * 10 ^ exponent`; that one is `ofDecimal`.
-/

namespace CodeView.Binary64

/-- The magnitude of a finite float as a fraction. -/
def ratio (x : Binary64) : Nat × Nat :=
  scaled x.significand 1 x.exponent

/-- The product of the magnitudes of two finite floats, rounded, with the given sign. There is none
if it is too large. -/
def product (negative : Bool) (x y : Binary64) : Option Binary64 :=
  let (a, b) := x.ratio
  let (c, d) := y.ratio
  ofRatio negative (a * c) (b * d)

/-- The quotient of the magnitudes of two finite floats, rounded, with the given sign. There is none
if it is too large. -/
def quotient (negative : Bool) (x y : Binary64) : Option Binary64 :=
  let (a, b) := x.ratio
  let (c, d) := y.ratio
  ofRatio negative (a * d) (b * c)

/-- The last power of ten that is within the range of floats. -/
def lastPower : Nat := 308

/-- The float nearest to a power of ten, up to the last one in range. -/
def powerOfTen (k : Nat) : Option Binary64 :=
  ofDecimal false 1 k

/-- Divides a float by the last power of ten, as often as said or until it is zero. -/
def descend (x : Binary64) : Nat → Option Binary64
  | 0 => some x
  | steps + 1 =>
    if x.isZero then some x
    else do
      let next ← x.quotient false (← powerOfTen lastPower)
      descend next steps

/-- The float for `significand * 10 ^ exponent`, with the given sign, by a product or quotient of
floats; for a small power of ten there is one quotient after the other. The significand is below
`2 ^ 64`. There is no float if a product is too large, or if the power of ten is and the significand
is not zero. -/
def ofParts (negative : Bool) (significand : Nat) (exponent : Int) : Option Binary64 :=
  let x := ofNat significand
  let size := exponent.natAbs
  if 0 ≤ exponent then
    if size ≤ lastPower then do x.product negative (← powerOfTen size)
    else if significand = 0 then some (zero negative)
    else none
  else do
    let steps := (size - 1) / lastPower
    let y ← descend x steps
    y.quotient negative (← powerOfTen (size - lastPower * steps))

end CodeView.Binary64
