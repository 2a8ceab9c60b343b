import CodeView.Binary64.Scaling
import CodeView.Json.Reading
import CodeView.Text.Utf8

/-!
# Strings and numbers of JSON texts

Each scanner takes the unread text and gives what it found with the text after it, or the problem
that stopped it.

* `skipBlank` drops blanks, tabs and line ends;
* `scanString` reads a string after its opening quote. An escape that names half a surrogate pair,
  or bytes that are no characters, leave the text readable, but the string without a value;
* `scanNumber` reads a numeral, and `Numeral.number?` is the number that is read for it: an integer
  without fraction and exponent is kept if it has at most 64 bits, all else becomes a float. `-0` is
  the float zero with a sign. A float is made from the first digits, as many as 64 bits hold, and a
  power of ten, so it need not be the nearest one.
-/

namespace CodeView.Json

/-- The blanks of JSON. -/
def isBlank (c : Char) : Bool :=
  c = ' ' || c = '\n' || c = '\t' || c = '\r'

/-- The text after its leading blanks. -/
def skipBlank (text : List Char) : List Char :=
  text.dropWhile isBlank

/-! ## Strings -/

/-- The value of a hexadecimal digit. -/
def hexDigit? (c : Char) : Option Nat :=
  if '0' ≤ c ∧ c ≤ '9' then some (c.toNat - '0'.toNat)
  else if 'a' ≤ c ∧ c ≤ 'f' then some (c.toNat - 'a'.toNat + 10)
  else if 'A' ≤ c ∧ c ≤ 'F' then some (c.toNat - 'A'.toNat + 10)
  else none

/-- The number that four hexadecimal digits write. -/
def hexUnit? (a b c d : Char) : Option Nat :=
  match hexDigit? a, hexDigit? b, hexDigit? c, hexDigit? d with
  | some a, some b, some c, some d => some (((a * 16 + b) * 16 + c) * 16 + d)
  | _, _, _, _ => none

/-- The character that a one-letter escape stands for. -/
def shortEscape? : Char → Option Char
  | '"' => some '"'
  | '\\' => some '\\'
  | '/' => some '/'
  | 'b' => some '\x08'
  | 'f' => some '\x0c'
  | 'n' => some '\n'
  | 'r' => some '\r'
  | 't' => some '\t'
  | _ => none

/-- The first half of a surrogate pair. -/
def isHighSurrogate (n : Nat) : Bool :=
  0xd800 ≤ n && n < 0xdc00

/-- The second half of a surrogate pair. -/
def isLowSurrogate (n : Nat) : Bool :=
  0xdc00 ≤ n && n < 0xe000

/-- A part of a string, with the text after it: a byte, or a 16-bit unit from a `\u` escape. -/
inductive Piece where
  | byte (b : UInt8) (rest : List Char)
  | unit (n : Nat) (rest : List Char)

/-- The problem of a control character in a string. A string that is skipped ends in front of it,
one whose characters are asked for ends after it. -/
def controlBreak (c : Char) (rest : List Char) : Break :=
  ⟨.problem .controlCharacter (c :: rest) .glimpsed, .problem .controlCharacter rest .past⟩

/-- Reads the parts of a string after its opening quote, up to the closing one, and gives the text
after it or the problem that stops the reading; `taken` holds the parts before, last first. -/
def scanPieces : List Char → List Piece → List Piece × Except Break (List Char)
  | [], taken => (taken.reverse, .error (.problem .endInString [] .ahead))
  | '"' :: rest, taken => (taken.reverse, .ok rest)
  | '\\' :: 'u' :: a :: b :: c :: d :: rest, taken =>
    match hexUnit? a b c d with
    | none => (taken.reverse, .error (.problem .invalidEscape rest .past))
    | some n => scanPieces rest (.unit n rest :: taken)
  | '\\' :: 'u' :: _, taken => (taken.reverse, .error (.problem .endInString [] .ahead))
  | '\\' :: c :: rest, taken =>
    match shortEscape? c with
    | some e => scanPieces rest (.byte e.toUInt8 rest :: taken)
    | none => (taken.reverse, .error (.problem .invalidEscape rest .past))
  | c :: rest, taken =>
    if c < ' ' then (taken.reverse, .error (controlBreak c rest))
    else scanPieces rest (.byte c.toUInt8 rest :: taken)

/-- The character of a surrogate pair. -/
def pairedChar (high low : Nat) : Char :=
  Char.ofNat (0x10000 + (high - 0xd800) * 0x400 + (low - 0xdc00))

/-- The fault of the first half of a surrogate pair in front of text that is no escape of a unit.
There is none if the text itself breaks off. -/
def openSurrogate? : List Char → Option Fault
  | '\\' :: 'u' :: _ => none
  | '\\' :: _ :: rest => some (.problem .openSurrogate rest .past)
  | ['\\'] => none
  | _ :: rest => some (.problem .openSurrogate rest .past)
  | [] => none

/-- A byte of a string, with the text after the part that it comes from. -/
abbrev MarkedByte := UInt8 × List Char

/-- The bytes of a character in front of the given text, last first. -/
def lastFirst (c : Char) (after : List Char) : List MarkedByte :=
  ((Text.Utf8.encode c).map (·, after)).reverse

/-- The bytes of the parts of a string, after those in `taken`, which are last first. Two units in
a row may form a surrogate pair; half a pair without the other half is a fault. -/
def joinPieces : List Piece → List MarkedByte → Except Fault (List MarkedByte)
  | [], taken => .ok taken.reverse
  | .byte b after :: rest, taken => joinPieces rest ((b, after) :: taken)
  | .unit n after :: rest, taken =>
    if isLowSurrogate n then .error (.problem .loneSurrogate after .past)
    else if isHighSurrogate n then
      match rest with
      | .unit m after' :: rest =>
        if isLowSurrogate m then joinPieces rest (lastFirst (pairedChar n m) after' ++ taken)
        else .error (.problem .loneSurrogate after' .past)
      | rest =>
        match openSurrogate? after with
        | some fault => .error fault
        | none => joinPieces rest taken
    else joinPieces rest (lastFirst (Char.ofNat n) after ++ taken)

/-- The text after the first byte that does not belong to a character. -/
def afterFirstBad (bytes : List MarkedByte) : List Char :=
  match bytes.drop (Text.Utf8.intactLength (bytes.map (·.1))) with
  | bad :: _ => bad.2
  | [] => []

/-- The characters of the parts of a string. -/
def stringOf (pieces : List Piece) : Except Fault String := do
  let bytes ← joinPieces pieces []
  match Text.Utf8.decode? (bytes.map (·.1)) with
  | some s => return s
  | none => throw (.problem .invalidCodePoint (afterFirstBad bytes) .past)

/-- Reads a string after its opening quote: its characters, or the fault that leaves it without
any, and the text after its closing quote. If the text breaks off after half a surrogate pair, the
characters are refused for that half. -/
def scanString (text : List Char) : Except Break (Except Fault String × List Char) :=
  match scanPieces text [] with
  | (pieces, .ok rest) => .ok (stringOf pieces, rest)
  | (pieces, .error problem) =>
    match joinPieces pieces [] with
    | .error flaw => .error { problem with asked := flaw }
    | .ok _ => .error problem

/-! ## Numbers -/

/-- The value of a list of decimal digits. -/
def decimalValue (digits : List Char) : Nat :=
  digits.foldl (fun n c => n * 10 + (c.toNat - '0'.toNat)) 0

/-- The leading digits of a text, and the text after them. -/
def takeDigits (text : List Char) : List Char × List Char :=
  (text.takeWhile Char.isDigit, text.dropWhile Char.isDigit)

/-- A numeral: its sign, the digits before and after the point, and the exponent. The fraction and
the exponent are absent or have digits. -/
structure Numeral where
  negative : Bool
  whole : List Char
  fraction : Option (List Char)
  exponent : Option Int
  deriving Repr

/-- The integer that a numeral without fraction and exponent stands for, if it has at most 64 bits.
There is no negative zero among them. -/
def Numeral.integer? (n : Numeral) : Option Number :=
  match n.fraction, n.exponent with
  | none, none =>
    let value := decimalValue n.whole
    if n.negative = false ∧ value < Nat.pow 2 64 then some (.natural (UInt64.ofNat value))
    else if n.negative = true ∧ 0 < value ∧ value ≤ Nat.pow 2 63 then
      some (.negative (Int64.ofInt (-(value : Int))))
    else none
  | _, _ => none

/-- Appends digits to a significand as long as 64 bits hold it: the new significand, and the digits
that are left. -/
def fillSignificand (significand : Nat) : List Char → Nat × List Char
  | [] => (significand, [])
  | d :: ds =>
    let next := significand * 10 + (d.toNat - '0'.toNat)
    if next < Nat.pow 2 64 then fillSignificand next ds else (significand, d :: ds)

/-- The significand that is taken from a numeral, and the power of ten that goes with it. A digit
before the point that is left counts as a zero, one after the point does not count. -/
def Numeral.parts (n : Numeral) : Nat × Int :=
  let digits := n.fraction.getD []
  let (whole, dropped) := fillSignificand 0 n.whole
  let (significand, ignored) := fillSignificand whole digits
  (significand, n.exponent.getD 0 + dropped.length - (digits.length - ignored.length : Nat))

/-- The float that is read for a numeral, unless it is out of range. An exponent of more than 31
bits decides by its sign. -/
def Numeral.float? (n : Numeral) : Option Binary64 :=
  let (significand, exponent) := n.parts
  let written := n.exponent.getD 0
  if written.natAbs < Nat.pow 2 31 then Binary64.ofParts n.negative significand exponent
  else if significand ≠ 0 ∧ 0 < written then none
  else some (.zero n.negative)

/-- The number that is read for a numeral, unless it is a float out of range. -/
def Numeral.number? (n : Numeral) : Option Number :=
  n.integer? <|> n.float?.map .float

/-- The problem of a numeral that ends too early: if it is skipped a digit is missing, if its value
is asked for the rest of the text is. -/
def endOfNumeral : Break :=
  ⟨.problem .invalidNumber [] .ahead, .problem .endInValue [] .ahead⟩

/-- How many digits of an exponent are needed to see that it has more than 31 bits; `value` is what
the digits before amount to. -/
def digitsToOverflow? (value : Nat) : List Char → Option Nat
  | [] => none
  | d :: ds =>
    let next := value * 10 + (d.toNat - '0'.toNat)
    if Nat.pow 2 31 ≤ next then some 1 else (digitsToOverflow? next ds).map (· + 1)

/-- An exponent: its sign and digits, and the text in front of them. -/
structure Exponent where
  negative : Bool
  digits : List Char
  start : List Char

/-- The value of an exponent. -/
def Exponent.value (e : Exponent) : Int :=
  if e.negative then -(decimalValue e.digits : Int) else decimalValue e.digits

/-- Where a numeral is found to be out of range, if it is: in the middle of an exponent of too many
digits, else at its end. -/
def rangeFault (exponent : Option Exponent) (rest : List Char) : Fault :=
  match exponent with
  | none => .problem .numberOutOfRange rest .glimpsed
  | some e =>
    match digitsToOverflow? 0 e.digits with
    | none => .problem .numberOutOfRange rest .glimpsed
    | some count => .problem .numberOutOfRange (e.start.drop count) .past

/-- Reads the exponent of a numeral after its mark. -/
def scanExponent (text : List Char) : Except Break (Exponent × List Char) :=
  let (negative, text) :=
    match text with
    | '+' :: rest => (false, rest)
    | '-' :: rest => (true, rest)
    | rest => (false, rest)
  match takeDigits text with
  | ([], []) => .error endOfNumeral
  | ([], _ :: rest) => .error (.problem .invalidNumber rest .past)
  | (digits, rest) => .ok (⟨negative, digits, text⟩, rest)

/-- Reads what may follow the digits before the point. -/
def scanFraction (text : List Char) : Except Break (Option (List Char) × List Char) :=
  match text with
  | '.' :: text =>
    match takeDigits text with
    | ([], []) => .error endOfNumeral
    | ([], rest) => .error (.problem .invalidNumber rest .ahead)
    | (digits, rest) => .ok (some digits, rest)
  | text => .ok (none, text)

/-- Reads the digits before the point: a single zero, or digits that start with another. -/
def scanWhole (text : List Char) : Except Break (List Char × List Char) :=
  match takeDigits text with
  | ([], []) => .error endOfNumeral
  | ([], _ :: rest) => .error (.problem .invalidNumber rest .past)
  | ('0' :: d :: ds, rest) => .error (.problem .invalidNumber (d :: ds ++ rest) .ahead)
  | (digits, rest) => .ok (digits, rest)

/-- Reads the exponent of a numeral, if it has one. -/
def scanExponent? (text : List Char) : Except Break (Option Exponent × List Char) :=
  match text with
  | 'e' :: text | 'E' :: text => (scanExponent text).map fun (e, rest) => (some e, rest)
  | text => .ok (none, text)

/-- Reads a number: its value, or the fault of one that is out of range, and the text after it. -/
def scanNumber (text : List Char) : Except Break (Except Fault Number × List Char) := do
  let (negative, text) :=
    match text with
    | '-' :: rest => (true, rest)
    | rest => (false, rest)
  let (whole, text) ← scanWhole text
  let (fraction, text) ← scanFraction text
  let (exponent, text) ← scanExponent? text
  let numeral : Numeral := ⟨negative, whole, fraction, exponent.map Exponent.value⟩
  match numeral.number? with
  | some n => return (.ok n, text)
  | none => return (.error (rangeFault exponent text), text)

end CodeView.Json
