import CodeView.Frame.Fault

/-!
# Numbers and bits of a frame

Numbers of several bytes have their lowest byte first. Streams of bits are lists of truth values in
the order in which they are read:

* `ascending` streams go through the bytes from the first one on, in each from the lowest bit on,
  and the first bit of a number is its lowest;
* `descending` streams go the other way, from the last byte on, and the first bit of a number is its
  highest. Above the stream stands a single set bit that is not part of it.

A `Supply` is a descending stream from which more can be drawn than there is. That this was done is
found out at the end.
-/

namespace CodeView.Frame

/-- The number that bytes write, lowest first. -/
def littleEndian (bytes : List UInt8) : Nat :=
  bytes.foldr (fun b n => b.toNat + 256 * n) 0

/-- Bits, in the order in which they are read. -/
abbrev Bits := List Bool

/-- The bits of a byte, lowest first. -/
def byteBits (b : UInt8) : Bits :=
  (List.range 8).map b.toNat.testBit

/-- The bits of bytes, from the lowest bit of the first byte on. -/
def ascending (bytes : List UInt8) : Bits :=
  bytes.flatMap byteBits

/-- The bits of bytes below the highest that is set, from there down to the lowest bit of the first
byte. The highest set bit is in the last byte. -/
def descending (bytes : List UInt8) : Except Fault Bits :=
  match bytes.getLast? with
  | none => .error .corrupt
  | some b =>
    if b = 0 then .error .corrupt
    else .ok (((ascending bytes).reverse.dropWhile (! ·)).drop 1)

/-- The number whose lowest bit comes first. -/
def lowFirst (bits : Bits) : Nat :=
  bits.foldr (fun b n => b.toNat + 2 * n) 0

/-- The number whose highest bit comes first. -/
def highFirst (bits : Bits) : Nat :=
  bits.foldl (fun n b => 2 * n + b.toNat) 0

/-- The next bits of an ascending stream as a number, and the stream after them. -/
def takeBits (width : Nat) (bits : Bits) : Except Fault (Nat × Bits) :=
  let taken := bits.take width
  if taken.length < width then .error .corrupt else .ok (lowFirst taken, bits.drop width)

/-- Bits of a descending stream, and whether more have been drawn than there were. -/
structure Supply where
  bits : Bits
  overdrawn : Bool

namespace Supply

/-- The supply of the given bytes. -/
def ofBytes (bytes : List UInt8) : Except Fault Supply :=
  (descending bytes).map fun bits => ⟨bits, false⟩

/-- The next bits as a number. After the last one come zeros. -/
def draw (s : Supply) (width : Nat) : Nat × Supply :=
  let taken := s.bits.take width
  (highFirst taken * Nat.pow 2 (width - taken.length),
    ⟨s.bits.drop width, s.overdrawn || taken.length < width⟩)

/-- Whether all bits have been drawn, and no more. -/
def isSpent (s : Supply) : Bool :=
  s.bits.isEmpty && !s.overdrawn

end Supply

end CodeView.Frame
