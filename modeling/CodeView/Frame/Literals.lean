import CodeView.Frame.SymbolCode

/-!
# Literals of a block

A compressed block starts with the bytes that are not copied from elsewhere: as they are, as one
byte many times, or as symbols of a code. That code is written with them, or it is the one of an
earlier block.
-/

namespace CodeView.Frame

/-- How much a block may hold: the most that its frame allows, and the room left for it. -/
structure Limits where
  block : Nat
  room : Nat

/-- What is known of a list of literals before it is read: how many there are, how many bytes the
header takes and, for coded ones, how many bytes follow and in how many streams. -/
structure LiteralsHeader where
  count : Nat
  length : Nat
  coded : Nat
  fourStreams : Bool

/-- The header of literals that are not coded. -/
def plainHeader (bytes : List UInt8) : LiteralsHeader :=
  let head := littleEndian (bytes.take 3)
  match head / 4 % 4 with
  | 1 => ⟨head % Nat.pow 2 16 / 16, 2, 0, false⟩
  | 3 => ⟨head / 16, 3, 0, false⟩
  | _ => ⟨head % Nat.pow 2 8 / 8, 1, 0, false⟩

/-- The header of literals that are coded. -/
def codedHeader (bytes : List UInt8) : LiteralsHeader :=
  let head := littleEndian (bytes.take 5)
  match head / 4 % 4 with
  | 2 => ⟨head / Nat.pow 2 4 % Nat.pow 2 14, 4, head / Nat.pow 2 18 % Nat.pow 2 14, true⟩
  | 3 => ⟨head / Nat.pow 2 4 % Nat.pow 2 18, 5, head / Nat.pow 2 22 % Nat.pow 2 18, true⟩
  | streams =>
    ⟨head / Nat.pow 2 4 % Nat.pow 2 10, 3, head / Nat.pow 2 14 % Nat.pow 2 10, streams = 1⟩

/-- Checks a number of literals. -/
def Limits.checkLiterals (limits : Limits) (h : LiteralsHeader) : Except Fault Unit := do
  if limits.block < h.count then throw .corrupt
  if h.fourStreams ∧ h.count < 6 then throw .literalsHeader

/-- Checks that there is room for literals. -/
def Limits.checkRoom (limits : Limits) (h : LiteralsHeader) : Except Fault Unit :=
  if limits.room < h.count then .error .roomExceeded else .ok ()

/-- Reads literals that are there as they are. -/
def readPlainLiterals (limits : Limits) (bytes : List UInt8) :
    Except Fault (List UInt8 × List UInt8) := do
  let h := plainHeader bytes
  if bytes.length < h.length then throw .corrupt
  limits.checkLiterals h
  limits.checkRoom h
  let bytes := bytes.drop h.length
  if bytes.length < h.count then throw .corrupt
  return (bytes.take h.count, bytes.drop h.count)

/-- Reads literals that are all the same. -/
def readEqualLiterals (limits : Limits) (bytes : List UInt8) :
    Except Fault (List UInt8 × List UInt8) := do
  let h := plainHeader bytes
  match bytes.drop h.length with
  | [] => throw .corrupt
  | b :: rest =>
    limits.checkLiterals h
    limits.checkRoom h
    return (List.replicate h.count b, rest)

/-- Reads literals that are coded, by the given code or by one that stands in front of them, and
gives the code too. -/
def readCodedLiterals (limits : Limits) (known : Option SymbolCode) (bytes : List UInt8) :
    Except Fault (List UInt8 × SymbolCode × List UInt8) := do
  if bytes.length < 5 then throw .corrupt
  let h := codedHeader bytes
  limits.checkLiterals h
  let bytes := bytes.drop h.length
  if bytes.length < h.coded then throw .corrupt
  limits.checkRoom h
  let stream := bytes.take h.coded
  let (code, stream) ← match known with
    | some code => pure (code, stream)
    | none => readCode stream
  let literals ←
    if h.fourStreams then code.readFourStreams h.count stream
    else code.readStream true h.count stream
  return (literals, code, bytes.drop h.coded)

/-- Reads the literals of a block, and gives the code that later blocks may use and the bytes after
them. -/
def readLiterals (limits : Limits) (earlier : Option SymbolCode) (bytes : List UInt8) :
    Except Fault (List UInt8 × Option SymbolCode × List UInt8) := do
  match bytes with
  | head :: _ :: _ =>
    match head.toNat % 4 with
    | 0 =>
      let (literals, rest) ← readPlainLiterals limits bytes
      return (literals, earlier, rest)
    | 1 =>
      let (literals, rest) ← readEqualLiterals limits bytes
      return (literals, earlier, rest)
    | 2 =>
      let (literals, code, rest) ← readCodedLiterals limits none bytes
      return (literals, some code, rest)
    | _ =>
      if earlier.isNone then throw .dictionaryCorrupt
      let (literals, code, rest) ← readCodedLiterals limits earlier bytes
      return (literals, some code, rest)
  | _ => throw .corrupt

end CodeView.Frame
