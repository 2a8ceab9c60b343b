import CodeView.Frame.Bits

/-!
# The start of a frame

A frame is known by its first four bytes. A byte that describes the header follows, and then, as far
as that byte says so, the size of the window, the number of a dictionary and the size of the
content. Between frames there may be others that are to be skipped.

`readStart` looks at as much of the start as there is: bytes that cannot become a frame are refused
at once.
-/

namespace CodeView.Frame

/-- The first bytes of a frame. -/
def magic : List UInt8 := [0x28, 0xb5, 0x2f, 0xfd]

/-- What the header of a frame says. The content may be of unknown size. -/
structure Header where
  contentSize : Option Nat
  windowSize : Nat
  dictionary : Nat
  hasChecksum : Bool
  deriving DecidableEq, Repr

/-- The most that a block of any frame holds. -/
def maxBlock : Nat := Nat.pow 2 17

/-- The most that a block of the frame holds, before and after unpacking. -/
def Header.maxBlock (h : Header) : Nat :=
  min h.windowSize Frame.maxBlock

/-- The largest window that is unpacked. -/
def maxWindow : Nat := Nat.pow 2 27 + 1

/-- The size of the memory into which blocks are unpacked: the whole content, or the window with
room for a block to start anew. -/
def Header.memory (h : Header) : Nat :=
  let window := max h.windowSize 1024
  let needed := window + 2 * h.maxBlock + 64
  match h.contentSize with
  | some size => min size needed
  | none => needed

/-- What bytes start with: a frame, or one that is to be skipped with the given number of bytes. The
bytes after the header come with it. -/
inductive Start where
  | frame (header : Header) (rest : List UInt8)
  | skipped (length : Nat) (rest : List UInt8)
  deriving Repr

/-- Whether bytes start like a frame, as far as they go. -/
def startsFrame (bytes : List UInt8) : Bool :=
  bytes.take 4 == magic.take bytes.length

/-- Whether bytes start like a frame that is to be skipped, as far as they go. Sixteen first bytes
are set aside for these. -/
def startsSkipped : List UInt8 → Bool
  | [] => true
  | b :: rest => b &&& 0xf0 == 0x50 && rest.take 3 == [0x2a, 0x4d, 0x18].take rest.length

/-- Whether bytes start like a frame of a version that is no longer read. -/
def startsOldFrame (bytes : List UInt8) : Bool :=
  [[0xfd, 0x2f, 0xb5, 0x1e], [0x22, 0xb5, 0x2f, 0xfd], [0x23, 0xb5, 0x2f, 0xfd]].contains
    (bytes.take 4)

/-- The size of a window, from the byte that describes it. -/
def windowOf (descriptor : UInt8) : Except Fault Nat :=
  let d := descriptor.toNat
  if 31 < d / 8 + 10 then .error .windowTooLarge
  else
    let size := Nat.pow 2 (d / 8 + 10)
    .ok (size + size / 8 * (d % 8))

/-- Reads a number of the given length, and gives the bytes after it. -/
def takeNumber (length : Nat) (bytes : List UInt8) : Nat × List UInt8 :=
  (littleEndian (bytes.take length), bytes.drop length)

/-- Reads the header of a frame from the byte that describes it on. -/
def readHeader (descriptor : UInt8) (bytes : List UInt8) : Except Fault Start := do
  let d := descriptor.toNat
  let whole := d.testBit 5
  let windowLength := if whole then 0 else 1
  let dictionaryLength := [0, 1, 2, 4].getD (d % 4) 0
  let sizeLength := [if whole then 1 else 0, 2, 4, 8].getD (d / 64) 0
  if bytes.length < windowLength + dictionaryLength + sizeLength then throw .incomplete
  if d.testBit 3 then throw .unsupportedParameter
  let window ← if whole then pure 0 else windowOf (bytes.headD 0)
  let (dictionary, bytes) := takeNumber dictionaryLength (bytes.drop windowLength)
  let (size, bytes) := takeNumber sizeLength bytes
  let size := if sizeLength = 2 then size + 256 else size
  let contentSize := if sizeLength = 0 ∨ size = Nat.pow 2 64 - 1 then none else some size
  return .frame ⟨contentSize, if whole then size else window, dictionary, d.testBit 2⟩ bytes

/-- Reads the start of a frame. -/
def readStart (bytes : List UInt8) : Except Fault Start :=
  if startsFrame bytes then
    match bytes.drop 4 with
    | descriptor :: rest => readHeader descriptor rest
    | [] => .error .incomplete
  else if startsSkipped bytes then
    if bytes.length < 8 then .error .incomplete
    else
      let (length, rest) := takeNumber 4 (bytes.drop 4)
      .ok (.skipped length rest)
  else if startsOldFrame bytes && 4 < bytes.length then .error .oldVersion
  else .error .unknownFrame

end CodeView.Frame
