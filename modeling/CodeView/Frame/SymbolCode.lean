import CodeView.Frame.StateTable

/-!
# Symbols by words of bits

The other of the two codes of a frame. Each symbol has a word of bits, and no word is the start of
another. The words follow from the weights of the symbols (`SymbolCode.ofWeights`): the heavier a
symbol, the shorter its word. A weight of zero means that a symbol does not occur. The weights are
written in front of the stream (`readCode`), all but the last, which makes the words fill the code.
-/

namespace CodeView.Frame

/-- A code: for each number of `log` bits, the symbol whose word it starts with and the length of
that word. -/
structure SymbolCode where
  log : Nat
  words : Array (UInt8 × Nat)
  deriving DecidableEq, Repr

namespace SymbolCode

/-- The longest word that is allowed. -/
def maxLog : Nat := 12

/-- How much of a code a symbol of a weight takes. -/
def share (weight : Nat) : Nat :=
  if weight = 0 then 0 else Nat.pow 2 (weight - 1)

/-- How much of a code the symbols of some weights take together. -/
def totalShare (weights : List Nat) : Nat :=
  weights.foldr (fun weight total => share weight + total) 0

/-- The last weight, of the symbol that takes what the others leave. That has to be a power of
two. -/
def lastWeight (weights : List Nat) : Except Fault Nat := do
  let total := totalShare weights
  if total = 0 ∨ maxLog ≤ total.log2 then throw .corrupt
  let left := Nat.pow 2 (total.log2 + 1) - total
  if left ≠ Nat.pow 2 left.log2 then throw .corrupt
  return left.log2 + 1

/-- The code of the given weights, the last one included. Light symbols come first, so their words
are the lowest numbers. The lightest come in pairs. -/
def ofWeights (weights : List Nat) : Except Fault SymbolCode := do
  let log := (totalShare weights).log2
  let lightest := weights.count 1
  if lightest < 2 ∨ lightest % 2 = 1 then throw .corrupt
  let ofWeight (weight : Nat) : List (UInt8 × Nat) :=
    weights.zipIdx.flatMap fun (w, symbol) =>
      if w = weight then List.replicate (share w) (UInt8.ofNat symbol, log + 1 - w) else []
  return ⟨log, ((List.range log).flatMap fun i => ofWeight (i + 1)).toArray⟩

/-- Reads the given number of symbols, after those in `taken`, which are last first, and gives the
bits after them. -/
def readSymbols (code : SymbolCode) : Nat → Bits → List UInt8 → Except Fault (List UInt8 × Bits)
  | 0, bits, taken => .ok (taken.reverse, bits)
  | count + 1, bits, taken =>
    let ahead := bits.take code.log
    let padded := ahead ++ List.replicate (code.log - ahead.length) false
    match code.words[highFirst padded]? with
    | none => .error .corrupt
    | some (symbol, width) =>
      if ahead.length < width then .error .corrupt
      else code.readSymbols count (bits.drop width) (symbol :: taken)

/-- The symbols of one stream. A `strict` one has to end with the last symbol. -/
def readStream (code : SymbolCode) (strict : Bool) (count : Nat) (bytes : List UInt8) :
    Except Fault (List UInt8) := do
  let (symbols, bits) ← code.readSymbols count (← descending bytes) []
  if strict ∧ !bits.isEmpty then throw .corrupt
  return symbols

/-- The symbols of four streams, each of a quarter of them. In front stand the lengths of the first
three. Only short streams are held to their end, and those of a code with the longest words. -/
def readFourStreams (code : SymbolCode) (count : Nat) (bytes : List UInt8) :
    Except Fault (List UInt8) := do
  if bytes.length < 10 then throw .corrupt
  let quarter := (count + 3) / 4
  let length (i : Nat) : Nat := littleEndian ((bytes.drop (2 * i)).take 2)
  let stream (i : Nat) (rest : List UInt8) : List UInt8 × List UInt8 :=
    (rest.take (length i), rest.drop (length i))
  if bytes.length < 6 + length 0 + length 1 + length 2 ∨ count < 3 * quarter then throw .corrupt
  let (a, rest) := stream 0 (bytes.drop 6)
  let (b, rest) := stream 1 rest
  let (c, d) := stream 2 rest
  let strict := code.log = maxLog ∨ count = 3 * quarter ∨ [a, b, c, d].any (·.length < 8)
  let first ← code.readStream strict quarter a
  let second ← code.readStream strict quarter b
  let third ← code.readStream strict quarter c
  let fourth ← code.readStream strict (count - 3 * quarter) d
  return first ++ second ++ third ++ fourth

end SymbolCode

/-! ## Written weights -/

/-- Reads weights that are coded by two states in turn, until the bits are used up. The state that
could not go on is left out, the other one still counts. -/
def readStatedWeights (t : StateTable) : Nat → State → State → Supply → Except Fault (List Nat)
  | 0, _, _, _ => .error .corrupt
  | fuel + 1, s, other, supply =>
    let (next, supply) := t.next s supply
    if supply.overdrawn then .ok [s.symbol, other.symbol]
    else (readStatedWeights t fuel other next supply).map (s.symbol :: ·)

/-- The weights that bytes hold in coded form. -/
def codedWeights (bytes : List UInt8) : Except Fault (List Nat) := do
  let (t, bytes) ← readTable 6 255 bytes
  let (s, supply) := t.start (← Supply.ofBytes bytes)
  let (other, supply) := t.start supply
  readStatedWeights t 255 s other supply

/-- The weights that bytes hold as they are: two in a byte, the first in its upper half. -/
def plainWeights (count : Nat) (bytes : List UInt8) : List Nat :=
  (bytes.flatMap fun b => [b.toNat / 16, b.toNat % 16]).take count

/-- Reads the weights of a code, all but the last, and gives the bytes after them. -/
def readWeights : List UInt8 → Except Fault (List Nat × List UInt8)
  | [] => .error .corrupt
  | head :: bytes => do
    let head := head.toNat
    let length := if head < 128 then head else (head - 126) / 2
    if bytes.length < length then throw .corrupt
    let weights ←
      if head < 128 then codedWeights (bytes.take length)
      else pure (plainWeights (head - 127) (bytes.take length))
    if 255 < weights.length ∨ weights.any (SymbolCode.maxLog < ·) then throw .corrupt
    return (weights, bytes.drop length)

/-- Reads a code and gives the bytes after it. -/
def readCode (bytes : List UInt8) : Except Fault (SymbolCode × List UInt8) := do
  let (weights, bytes) ← readWeights bytes
  let last ← SymbolCode.lastWeight weights
  return (← SymbolCode.ofWeights (weights ++ [last]), bytes)

end CodeView.Frame
