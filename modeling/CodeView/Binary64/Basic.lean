/-!
# 64-bit binary floating point, as bits

A `Binary64` is its 64 bits: a sign, eleven bits of exponent and 52 bits of fraction. Everything
below is exact arithmetic on natural numbers; no machine float is involved.

* `isNaN`, `isInfinite` and `isZero` are read off the fields;
* a finite value is `significand * 2 ^ exponent`, with the sign apart;
* `ofMagnitude` packs a significand and an exponent back into bits.
-/

namespace CodeView

/-- A 64-bit binary floating-point number, given by its bits. -/
structure Binary64 where
  bits : UInt64
  deriving DecidableEq, Repr, Inhabited

namespace Binary64

/-- The sign bit is set. -/
def isNegative (x : Binary64) : Bool :=
  Nat.pow 2 63 ≤ x.bits.toNat

/-- The eleven exponent bits. -/
def exponentField (x : Binary64) : Nat :=
  x.bits.toNat / Nat.pow 2 52 % Nat.pow 2 11

/-- The 52 fraction bits. -/
def fractionField (x : Binary64) : Nat :=
  x.bits.toNat % Nat.pow 2 52

/-- Not a number: the largest exponent field and a fraction. -/
def isNaN (x : Binary64) : Bool :=
  x.exponentField == 2047 && x.fractionField != 0

/-- One of the two infinities. -/
def isInfinite (x : Binary64) : Bool :=
  x.exponentField == 2047 && x.fractionField == 0

/-- One of the two zeros. -/
def isZero (x : Binary64) : Bool :=
  x.exponentField == 0 && x.fractionField == 0

/-- The integer that a finite value's magnitude multiplies its power of two with. -/
def significand (x : Binary64) : Nat :=
  if x.exponentField = 0 then x.fractionField else Nat.pow 2 52 + x.fractionField

/-- The power of two of a finite value's magnitude; `-1074` is the least. -/
def exponent (x : Binary64) : Int :=
  if x.exponentField = 0 then -1074 else (x.exponentField : Int) - 1075

/-- The bits of the positive infinity, without sign. -/
def infinityMagnitude : Nat := 2047 * Nat.pow 2 52

/-- The number with the given sign and 63 magnitude bits. -/
def ofMagnitude (negative : Bool) (magnitude : Nat) : Binary64 :=
  ⟨UInt64.ofNat (if negative then Nat.pow 2 63 + magnitude else magnitude)⟩

/-- A zero with the given sign. -/
def zero (negative : Bool) : Binary64 :=
  ofMagnitude negative 0

end Binary64

end CodeView
