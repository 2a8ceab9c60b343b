import CodeView.Frame.Bits

/-!
# Checksums

A frame may end with a check on its content: the lower half of a hash of 64 bits. `checksum` takes
the content in stripes of 32 bytes, each spread over four lanes, then what is left of it in words of
eight and four bytes and one by one.
-/

namespace CodeView.Frame

/-- The first factor. -/
def prime1 : UInt64 := 11400714785074694791

/-- The second factor. -/
def prime2 : UInt64 := 14029467366897019727

/-- The third factor. -/
def prime3 : UInt64 := 1609587929392839161

/-- The fourth factor. -/
def prime4 : UInt64 := 9650029242287828579

/-- The fifth factor. -/
def prime5 : UInt64 := 2870177450012600261

/-- Turns a number to the left: what leaves it at the top comes in at the bottom. -/
def turnLeft (x count : UInt64) : UInt64 :=
  x <<< count ||| x >>> (64 - count)

/-- The word that bytes write. -/
def wordOf (bytes : List UInt8) : UInt64 :=
  UInt64.ofNat (littleEndian bytes)

/-- A lane after one more word. -/
def mixWord (lane word : UInt64) : UInt64 :=
  turnLeft (lane + word * prime2) 31 * prime1

/-- A hash after one more lane. -/
def mixLane (hash lane : UInt64) : UInt64 :=
  (hash ^^^ mixWord 0 lane) * prime1 + prime4

/-- Four lanes. -/
structure Lanes where
  a : UInt64
  b : UInt64
  c : UInt64
  d : UInt64

/-- The lanes at the start. -/
def Lanes.start : Lanes :=
  ⟨prime1 + prime2, prime2, 0, 0 - prime1⟩

/-- The lanes after one more stripe. -/
def Lanes.add (l : Lanes) (stripe : List UInt8) : Lanes :=
  { a := mixWord l.a (wordOf (stripe.take 8))
    b := mixWord l.b (wordOf ((stripe.drop 8).take 8))
    c := mixWord l.c (wordOf ((stripe.drop 16).take 8))
    d := mixWord l.d (wordOf ((stripe.drop 24).take 8)) }

/-- The hash of four lanes. -/
def Lanes.hash (l : Lanes) : UInt64 :=
  let sum := turnLeft l.a 1 + turnLeft l.b 7 + turnLeft l.c 12 + turnLeft l.d 18
  [l.a, l.b, l.c, l.d].foldl mixLane sum

/-- The lanes after all whole stripes, and the bytes after these. -/
def Lanes.addAll (l : Lanes) (bytes : List UInt8) : Lanes × List UInt8 :=
  if bytes.length < 32 then (l, bytes) else (l.add (bytes.take 32)).addAll (bytes.drop 32)
termination_by bytes.length
decreasing_by simp only [List.length_drop]; omega

/-- The hash after the bytes that fill no word. -/
def addBytes (hash : UInt64) (bytes : List UInt8) : UInt64 :=
  bytes.foldl (fun h b => turnLeft (h ^^^ b.toUInt64 * prime5) 11 * prime1) hash

/-- The hash after at most one word of four bytes and the bytes after it. -/
def addHalfWord (hash : UInt64) (bytes : List UInt8) : UInt64 :=
  if bytes.length < 4 then addBytes hash bytes
  else
    addBytes (turnLeft (hash ^^^ wordOf (bytes.take 4) * prime1) 23 * prime2 + prime3)
      (bytes.drop 4)

/-- The hash after words of eight bytes and the bytes after them. -/
def addWords (hash : UInt64) (bytes : List UInt8) : UInt64 :=
  if bytes.length < 8 then addHalfWord hash bytes
  else
    addWords (turnLeft (hash ^^^ mixWord 0 (wordOf (bytes.take 8))) 27 * prime1 + prime4)
      (bytes.drop 8)
termination_by bytes.length
decreasing_by simp only [List.length_drop]; omega

/-- Lets every bit of a hash have an influence on every other. -/
def stir (hash : UInt64) : UInt64 :=
  let h := (hash ^^^ hash >>> 33) * prime2
  let h := (h ^^^ h >>> 29) * prime3
  h ^^^ h >>> 32

/-- The hash of a content. -/
def contentHash (content : List UInt8) : UInt64 :=
  let (lanes, rest) := Lanes.start.addAll content
  let hash := if content.length < 32 then prime5 else lanes.hash
  stir (addWords (hash + UInt64.ofNat content.length) rest)

/-- The check on a content. -/
def checksum (content : List UInt8) : Nat :=
  (contentHash content).toNat % Nat.pow 2 32

end CodeView.Frame
