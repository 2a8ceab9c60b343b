import CodeView.Binary64.Rounding

/-!
# The shortest decimal that reads back

A finite nonzero float stands for all reals that round to it: an interval around its value, whose
ends belong to it exactly if the significand is even. `Binary64.shortest` is a decimal in that
interval with the fewest digits; among several the one nearest to the value, and of two equally
near the larger.

The interval is kept in integers: a low end, the value and a high end over one denominator.
-/

namespace CodeView

/-- The decimal `digits * 10 ^ exponent`. -/
structure Decimal where
  digits : Nat
  exponent : Int
  deriving DecidableEq, Repr

/-- Moves at most `count` trailing zeros of the digits into the exponent. -/
def Decimal.trim (d : Decimal) : Nat → Decimal
  | 0 => d
  | count + 1 =>
    if d.digits ≠ 0 ∧ d.digits % 10 = 0 then trim ⟨d.digits / 10, d.exponent + 1⟩ count else d

namespace Binary64

/-- The reals that round to a finite float, cleared of fractions: `low / den` to `high / den`
around `value / den`. -/
structure Basin where
  low : Nat
  value : Nat
  high : Nat
  den : Nat
  closed : Bool

/-- The basin of a finite nonzero float, by magnitude. Above a power of two the neighbours below lie
twice as dense, so that the low end is nearer. -/
def basin (x : Binary64) : Basin :=
  let m := x.significand
  let shift := x.exponent - 2
  let up := Nat.pow 2 shift.toNat
  let reach := if x.fractionField = 0 && 1 < x.exponentField then 1 else 2
  { low := (4 * m - reach) * up
    value := 4 * m * up
    high := (4 * m + 2) * up
    den := Nat.pow 2 (-shift).toNat
    closed := m % 2 == 0 }

/-- Whether `num / den'` lies in the basin, where `den'` is the basin's denominator times `den`. -/
def Basin.contains (b : Basin) (num den : Nat) : Bool :=
  if b.closed then b.low * den ≤ num && num ≤ b.high * den
  else b.low * den < num && num < b.high * den

/-- The decimal exponent of the value: `10 ^ k ≤ value / den < 10 ^ (k + 1)`. -/
def Basin.decimalExponent (b : Basin) : Int :=
  if b.den ≤ b.value then (digitCount (b.value / b.den) : Int) - 1
  else -(digitCount ((b.den - 1) / b.value) : Int)

/-- The point of the grid of multiples of `10 ^ step` that lies in the basin and is nearest to the
value, if one of the value's two neighbours on the grid is in the basin. -/
def Basin.onGrid (b : Basin) (step : Int) : Option Decimal :=
  let unit := Nat.pow 10 step.toNat
  let scale := Nat.pow 10 (-step).toNat
  let below := b.value * scale / (b.den * unit)
  let above := below + 1
  let lower := below * unit * b.den
  let upper := above * unit * b.den
  match below != 0 && b.contains lower scale, b.contains upper scale with
  | true, true =>
    if b.value * scale - lower < upper - b.value * scale then some ⟨below, step⟩
    else some ⟨above, step⟩
  | true, false => some ⟨below, step⟩
  | false, true => some ⟨above, step⟩
  | false, false => none

/-- The first grid with a point in the basin, from coarse to fine. -/
def Basin.search (b : Basin) : List Int → Option Decimal
  | [] => none
  | step :: steps => (b.onGrid step).or (b.search steps)

/-- The value of a finite float, written out in full. -/
def exact (x : Binary64) : Decimal :=
  if 0 ≤ x.exponent then ⟨x.significand * Nat.pow 2 x.exponent.toNat, 0⟩
  else ⟨x.significand * Nat.pow 5 (-x.exponent).toNat, x.exponent⟩

/-- The decimal with the fewest digits that rounds to the magnitude of a finite nonzero float. -/
def shortest (x : Binary64) : Decimal :=
  let b := x.basin
  let top := b.decimalExponent
  let steps := (List.range 17).map fun (n : Nat) => top - n
  ((b.search steps).getD x.exact).trim 800

end Binary64

end CodeView
