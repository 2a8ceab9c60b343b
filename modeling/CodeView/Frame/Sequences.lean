import CodeView.Frame.Literals

/-!
# Sequences of a block

After its literals a compressed block says how they are put together: each `Sequence` takes some
literals and then repeats a stretch of what was unpacked before. Its three numbers are coded by
states, and all three streams are read from the same bits.
-/

namespace CodeView.Frame

/-- Some literals, and then a stretch that started `offset` bytes before. -/
structure Sequence where
  literals : Nat
  offset : Nat
  length : Nat
  deriving DecidableEq, Repr

/-- The tables of the three numbers of a sequence. -/
structure SequenceTables where
  literals : StateTable
  offsets : StateTable
  lengths : StateTable

/-- The three offsets that were used last, the last one first. -/
structure Recent where
  first : Nat
  second : Nat
  third : Nat
  deriving DecidableEq, Repr

/-- The offsets that count as used at the start of a frame. -/
def Recent.start : Recent := ⟨1, 4, 8⟩

/-! ## The numbers behind symbols -/

/-- A symbol stands for a number from `base` on: the value of the next `width` bits is added. -/
structure Range where
  base : Nat
  width : Nat

/-- Ranges one after the other, from a number on. -/
def rangesFrom : Nat → List Nat → List Range
  | _, [] => []
  | base, width :: widths => ⟨base, width⟩ :: rangesFrom (base + Nat.pow 2 width) widths

/-- The ranges of numbers of literals. -/
def literalRanges : Array Range :=
  (rangesFrom 0 (List.replicate 16 0 ++
    [1, 1, 1, 1, 2, 2, 3, 3, 4, 6, 7, 8, 9, 10, 11, 12, 13, 14, 15, 16])).toArray

/-- The ranges of lengths. -/
def lengthRanges : Array Range :=
  (rangesFrom 3 (List.replicate 32 0 ++
    [1, 1, 1, 1, 2, 2, 3, 3, 4, 4, 5, 7, 8, 9, 10, 11, 12, 13, 14, 15, 16])).toArray

/-- Reads the number that a symbol stands for. -/
def readRange (ranges : Array Range) (symbol : Nat) (supply : Supply) : Nat × Supply :=
  let range := ranges.getD symbol ⟨0, 0⟩
  let (n, supply) := supply.draw range.width
  (range.base + n, supply)

/-! ## Tables -/

/-- One of the three codes: the table that needs not be written, and the limits of one that is. -/
structure SequenceCode where
  usual : StateTable
  maxLog : Nat
  maxSymbol : Nat

/-- The code of numbers of literals. -/
def literalsCode : SequenceCode :=
  { usual := .ofCounts 6 [
      4, 3, 2, 2, 2, 2, 2, 2, 2, 2, 2, 2, 2, 1, 1, 1, 2, 2, 2, 2, 2, 2, 2, 2, 2, 3, 2, 1, 1, 1, 1,
      1, -1, -1, -1, -1]
    maxLog := 9
    maxSymbol := 35 }

/-- The code of offsets. -/
def offsetsCode : SequenceCode :=
  { usual := .ofCounts 5 [
      1, 1, 1, 1, 1, 1, 2, 2, 2, 1, 1, 1, 1, 1, 1, 1, 1, 1, 1, 1, 1, 1, 1, 1, -1, -1, -1, -1, -1]
    maxLog := 8
    maxSymbol := 31 }

/-- The code of lengths. -/
def lengthsCode : SequenceCode :=
  { usual := .ofCounts 6 [
      1, 4, 3, 2, 2, 2, 2, 2, 2, 1, 1, 1, 1, 1, 1, 1, 1, 1, 1, 1, 1, 1, 1, 1, 1, 1, 1, 1, 1, 1, 1,
      1, 1, 1, 1, 1, 1, 1, 1, 1, 1, 1, 1, 1, 1, 1, -1, -1, -1, -1, -1, -1, -1]
    maxLog := 9
    maxSymbol := 52 }

/-- Reads the table of a code: the usual one, that of a single symbol, a written one, or the one of
an earlier block. -/
def SequenceCode.read (code : SequenceCode) (mode : Nat) (earlier : Option StateTable)
    (bytes : List UInt8) : Except Fault (StateTable × List UInt8) :=
  match mode with
  | 0 => .ok (code.usual, bytes)
  | 1 =>
    match bytes with
    | [] => .error .corrupt
    | symbol :: rest =>
      if code.maxSymbol < symbol.toNat then .error .corrupt
      else .ok (.single symbol.toNat, rest)
  | 2 => readTable code.maxLog code.maxSymbol bytes
  | _ =>
    match earlier with
    | some t => .ok (t, bytes)
    | none => .error .corrupt

/-- Reads the three tables. -/
def readTables (earlier : Option SequenceTables) :
    List UInt8 → Except Fault (SequenceTables × List UInt8)
  | [] => .error .sizeWrong
  | modes :: bytes => do
    let modes := modes.toNat
    if modes % 4 ≠ 0 then throw .corrupt
    let (literals, bytes) ← literalsCode.read (modes / 64) (earlier.map (·.literals)) bytes
    let (offsets, bytes) ← offsetsCode.read (modes / 16 % 4) (earlier.map (·.offsets)) bytes
    let (lengths, bytes) ← lengthsCode.read (modes / 4 % 4) (earlier.map (·.lengths)) bytes
    return (⟨literals, offsets, lengths⟩, bytes)

/-- Reads how many sequences there are. -/
def readSequenceCount : List UInt8 → Except Fault (Nat × List UInt8)
  | [] => .error .sizeWrong
  | head :: bytes =>
    let head := head.toNat
    if head < 128 then .ok (head, bytes)
    else if head = 255 then
      if bytes.length < 2 then .error .sizeWrong
      else .ok (littleEndian (bytes.take 2) + 0x7f00, bytes.drop 2)
    else
      match bytes with
      | [] => .error .sizeWrong
      | low :: bytes => .ok ((head - 128) * 256 + low.toNat, bytes)

/-! ## Sequences -/

/-- The offset that a written number stands for, and the offsets used last after it. Small numbers
name one of these, counted from the second if there are no literals in between. -/
def Recent.offset (r : Recent) (number literals : Nat) : Nat × Recent :=
  if 3 < number then (number - 3, ⟨number - 3, r.first, r.second⟩)
  else
    match number + (if literals = 0 then 1 else 0) with
    | 1 => (r.first, r)
    | 2 => (r.second, ⟨r.second, r.first, r.third⟩)
    | 3 => (r.third, ⟨r.third, r.first, r.second⟩)
    | _ => (r.first - 1, ⟨r.first - 1, r.first, r.second⟩)

/-- The states of the three streams. -/
structure SequenceStates where
  literals : State
  offsets : State
  lengths : State

/-- Reads the sequence of the given states. -/
def readSequence (s : SequenceStates) (recent : Recent) (supply : Supply) :
    Sequence × Recent × Supply :=
  let (low, supply) := supply.draw s.offsets.symbol
  let (length, supply) := readRange lengthRanges s.lengths.symbol supply
  let (literals, supply) := readRange literalRanges s.literals.symbol supply
  let (offset, recent) := recent.offset (Nat.pow 2 s.offsets.symbol + low) literals
  (⟨literals, offset, length⟩, recent, supply)

/-- The states after those of a sequence. -/
def SequenceTables.next (t : SequenceTables) (s : SequenceStates) (supply : Supply) :
    SequenceStates × Supply :=
  let (literals, supply) := t.literals.next s.literals supply
  let (lengths, supply) := t.lengths.next s.lengths supply
  let (offsets, supply) := t.offsets.next s.offsets supply
  (⟨literals, offsets, lengths⟩, supply)

/-- The first states of the three streams. -/
def SequenceTables.start (t : SequenceTables) (supply : Supply) : SequenceStates × Supply :=
  let (literals, supply) := t.literals.start supply
  let (offsets, supply) := t.offsets.start supply
  let (lengths, supply) := t.lengths.start supply
  (⟨literals, offsets, lengths⟩, supply)

end CodeView.Frame
