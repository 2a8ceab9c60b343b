import CodeView.Frame.Sequences

/-!
# Blocks

The content of a frame comes in blocks: bytes as they are, one byte many times, or compressed. A
compressed block can repeat what came before it in the frame and use its codes, so unpacking a block
takes one `Progress` to the next.
-/

namespace CodeView.Frame

/-- How a block is stored. -/
inductive BlockKind where
  | plain
  | repeated
  | compressed
  deriving DecidableEq, Repr

/-- The header of a block. Of a repeated byte, the size is how often it comes. -/
structure BlockHeader where
  isLast : Bool
  kind : BlockKind
  size : Nat
  deriving DecidableEq, Repr

/-- How many bytes of a block are stored. -/
def BlockHeader.stored (h : BlockHeader) : Nat :=
  if h.kind = .repeated then 1 else h.size

/-- The header of a block, from its three bytes. -/
def blockHeader (a b c : UInt8) : Except Fault BlockHeader :=
  let n := littleEndian [a, b, c]
  match n / 2 % 4 with
  | 0 => .ok ⟨n % 2 = 1, .plain, n / 8⟩
  | 1 => .ok ⟨n % 2 = 1, .repeated, n / 8⟩
  | 2 => .ok ⟨n % 2 = 1, .compressed, n / 8⟩
  | _ => .error .corrupt

/-- How far a frame is unpacked: its content so far, and what a block can use of those before it. -/
structure Progress where
  content : Array UInt8
  code : Option SymbolCode
  tables : Option SequenceTables
  recent : Recent

/-- The start of a frame. -/
def Progress.start : Progress :=
  ⟨#[], none, none, .start⟩

/-- Bytes with a stretch after them that repeats what stands `offset` bytes before. -/
def repeatFrom (offset : Nat) : Nat → Array UInt8 → Array UInt8
  | 0, content => content
  | count + 1, content =>
    repeatFrom offset count (content.push (content.getD (content.size - offset) 0))

/-- What a sequence adds to a content, with the literals that are left after it. The content must
not get longer than `limit`. -/
def Sequence.run (s : Sequence) (limit : Nat) (content : Array UInt8) (literals : List UInt8) :
    Except Fault (Array UInt8 × List UInt8) := do
  if limit < content.size + s.literals + s.length then throw .roomExceeded
  if literals.length < s.literals then throw .corrupt
  let content := content ++ literals.take s.literals
  if s.offset = 0 ∨ content.size < s.offset then throw .corrupt
  return (repeatFrom s.offset s.length content, literals.drop s.literals)

/-- Reads and runs the given number of sequences, and gives what they make of a content, the
literals that are left and the offsets used last. The bits have to end with the last one. -/
def runSequences (t : SequenceTables) (limit : Nat) :
    Nat → SequenceStates → Recent → Supply → Array UInt8 → List UInt8 →
      Except Fault (Array UInt8 × List UInt8 × Recent)
  | 0, _, recent, supply, content, literals =>
    if supply.isSpent then .ok (content, literals, recent) else .error .corrupt
  | count + 1, states, recent, supply, content, literals => do
    let (sequence, recent, supply) := readSequence states recent supply
    let (content, literals) ← sequence.run limit content literals
    let (states, supply) := if count = 0 then (states, supply) else t.next states supply
    runSequences t limit count states recent supply content literals

/-- Unpacks a compressed block. -/
def unpackCompressed (limits : Limits) (p : Progress) (bytes : List UInt8) :
    Except Fault Progress := do
  let limit := p.content.size + limits.room
  let (literals, code, bytes) ← readLiterals limits p.code bytes
  let (count, bytes) ← readSequenceCount bytes
  let (content, literals, tables, recent) ←
    if count = 0 then
      if bytes.isEmpty then pure (p.content, literals, p.tables, p.recent) else throw .corrupt
    else do
      let (tables, bytes) ← readTables p.tables bytes
      if limits.room = 0 then throw .roomExceeded
      let (states, supply) := tables.start (← Supply.ofBytes bytes)
      let (content, literals, recent) ←
        runSequences tables limit count states p.recent supply p.content literals
      pure (content, literals, some tables, recent)
  if limit < content.size + literals.length then throw .roomExceeded
  return ⟨content ++ literals, code, tables, recent⟩

/-- Unpacks the stored bytes of a block. -/
def BlockHeader.unpack (h : BlockHeader) (limits : Limits) (p : Progress) (bytes : List UInt8) :
    Except Fault Progress :=
  match h.kind with
  | .plain =>
    if limits.room < bytes.length then .error .roomExceeded
    else .ok { p with content := p.content ++ bytes }
  | .repeated =>
    if limits.room < h.size then .error .roomExceeded
    else .ok { p with content := p.content ++ Array.replicate h.size (bytes.headD 0) }
  | .compressed => unpackCompressed limits p bytes

end CodeView.Frame
