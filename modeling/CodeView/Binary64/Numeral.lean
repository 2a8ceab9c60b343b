import CodeView.Binary64.Shortest

/-!
# Decimals as text

`Decimal.positional` writes every digit in its place, with a point only before a fraction;
`Decimal.scientific` writes one digit before the point and an exponent after the mark. Both write
the digits of the decimal and nothing but zeros besides, so both denote it exactly.
-/

namespace CodeView.Decimal

/-- The digits, most significant first. -/
def digitChars (d : Decimal) : List Char :=
  Nat.toDigits 10 d.digits

/-- The exponent of the first digit. -/
def leadingExponent (d : Decimal) : Int :=
  d.exponent + (d.digitChars.length : Int) - 1

/-- Plain positional notation: `120`, `1.5`, `0.001`. -/
def positional (d : Decimal) : String :=
  let digits := d.digitChars
  if 0 ≤ d.exponent then
    String.ofList (digits ++ List.replicate d.exponent.toNat '0')
  else
    let places := (-d.exponent).toNat
    if places < digits.length then
      String.ofList (digits.take (digits.length - places) ++ '.' ::
        digits.drop (digits.length - places))
    else
      String.ofList ('0' :: '.' :: List.replicate (places - digits.length) '0' ++ digits)

/-- The first digit, and the others after a point if there are any. -/
def mantissa (d : Decimal) : String :=
  match d.digitChars with
  | [] => ""
  | [c] => String.singleton c
  | c :: rest => String.ofList (c :: '.' :: rest)

/-- Scientific notation with the exponent mark `E`, a sign, and at least two digits of exponent. -/
def scientific (d : Decimal) : String :=
  let e := d.leadingExponent
  let digits := toString e.natAbs
  d.mantissa ++ "E" ++ (if e < 0 then "-" else "+") ++
    (if digits.length < 2 then "0" ++ digits else digits)

end CodeView.Decimal
