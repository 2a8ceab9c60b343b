import CodeView.Frame.Bits

/-!
# Symbols by states

One of the two codes of a frame. A stream is read by a state that stands for a symbol; the next
state is a base number plus the value of the next few bits. The table of states follows from how
often each symbol occurs among them (`StateTable.ofCounts`), and these counts are written in front
of the stream (`readCounts`).

A symbol that is rarer than any state allows has the count -1: one state, at the end of the table.
-/

namespace CodeView.Frame

/-- A state: the symbol it stands for, and how the next one is found: `base` plus the value of the
next `width` bits. -/
structure State where
  symbol : Nat
  width : Nat
  base : Nat
  deriving DecidableEq, Repr, Inhabited

/-- The states of a code, as many as there are numbers of `log` bits. -/
structure StateTable where
  log : Nat
  states : Array State
  deriving DecidableEq, Repr

namespace StateTable

/-- A state by its number. -/
def state (t : StateTable) (n : Nat) : State :=
  t.states.getD n default

/-- The first state of a stream. -/
def start (t : StateTable) (supply : Supply) : State × Supply :=
  let (n, supply) := supply.draw t.log
  (t.state n, supply)

/-- The state after another one. -/
def next (t : StateTable) (s : State) (supply : Supply) : State × Supply :=
  let (n, supply) := supply.draw s.width
  (t.state (s.base + n), supply)

/-- The table of a single symbol, which is never left. -/
def single (symbol : Nat) : StateTable :=
  ⟨0, #[⟨symbol, 0, 0⟩]⟩

/-- The order in which a table of the given size is filled: in steps that reach each place once. -/
def places (size : Nat) : List Nat :=
  (List.range size).map fun i => i * (size / 2 + size / 8 + 3) % size

/-- The symbols with a count of -1, in order. -/
def rareSymbols (counts : List Int) : List Nat :=
  counts.zipIdx.filterMap fun (count, symbol) => if count = -1 then some symbol else none

/-- Each symbol as often as it counts. -/
def commonSymbols (counts : List Int) : List Nat :=
  counts.zipIdx.flatMap fun (count, symbol) => List.replicate count.toNat symbol

/-- The symbol at each place: rare ones from the end, the others over the places below. -/
def spread (size : Nat) (counts : List Int) : Array Nat :=
  let rare := rareSymbols counts
  let free := (places size).filter (· < size - rare.length)
  let filled := (free.zip (commonSymbols counts)).foldl (fun a (place, symbol) =>
    a.setIfInBounds place symbol) (Array.replicate size 0)
  rare.zipIdx.foldl (fun a (symbol, i) => a.setIfInBounds (size - 1 - i) symbol) filled

/-- The states of the symbols at each place: the `k`-th of a symbol that counts `n` has the base
that `n + k` gives. `next` holds these numbers, `done` the states so far. -/
def statesOf (log : Nat) : List Nat → Array Nat → Array State → Array State
  | [], _, done => done
  | symbol :: rest, next, done =>
    let n := next.getD symbol 1
    let width := log - n.log2
    statesOf log rest (next.setIfInBounds symbol (n + 1))
      (done.push ⟨symbol, width, n * Nat.pow 2 width - Nat.pow 2 log⟩)

/-- The table in which each symbol has as many states as it counts. -/
def ofCounts (log : Nat) (counts : List Int) : StateTable :=
  let next := (counts.map fun count => if count = -1 then 1 else count.toNat).toArray
  ⟨log, statesOf log (spread (Nat.pow 2 log) counts).toList next #[]⟩

end StateTable

/-! ## Written counts -/

/-- Reads one count when `remaining` states have no symbol yet. Of the numbers that could stand
there the small ones take a bit less than the others. -/
def readCount (remaining : Nat) (bits : Bits) : Except Fault (Int × Bits) := do
  let width := (remaining + 1).log2
  let short := Nat.pow 2 (width + 1) - 2 - remaining
  let (low, rest) ← takeBits width bits
  if low < short then return ((low : Int) - 1, rest)
  let (high, rest) ← takeBits 1 rest
  let value := if high = 1 then low + Nat.pow 2 width - short else low
  return ((value : Int) - 1, rest)

/-- Reads how many more zeros follow a count of zero: in steps of up to three. -/
def readZeros : Nat → Bits → Except Fault (Nat × Bits)
  | 0, _ => .error .corrupt
  | fuel + 1, bits => do
    let (n, bits) ← takeBits 2 bits
    if n < 3 then return (n, bits)
    let (m, bits) ← readZeros fuel bits
    return (n + m, bits)

/-- Reads counts until every state has a symbol; there may be up to `symbols` more of them. -/
def readCountList : (symbols remaining : Nat) → Bits → Except Fault (List Int × Bits)
  | _, 0, bits => .ok ([], bits)
  | 0, _, _ => .error .corrupt
  | symbols + 1, remaining, bits => do
    let (count, bits) ← readCount remaining bits
    if count = 0 then
      let (zeros, bits) ← readZeros bits.length bits
      if symbols < zeros then throw .corrupt
      let (counts, bits) ← readCountList (symbols - zeros) remaining bits
      return (count :: List.replicate zeros 0 ++ counts, bits)
    else
      let (counts, bits) ← readCountList symbols (remaining - count.natAbs) bits
      return (count :: counts, bits)
termination_by symbols => symbols

/-- Reads a table, which has at most `maxLog` bits and symbols up to `maxSymbol`, and gives the
bytes after it. -/
def readTable (maxLog maxSymbol : Nat) (bytes : List UInt8) :
    Except Fault (StateTable × List UInt8) := do
  let bits := ascending bytes
  let (log, bits) ← takeBits 4 bits
  let log := log + 5
  if maxLog < log then throw .corrupt
  let (counts, bits) ← readCountList (maxSymbol + 1) (Nat.pow 2 log) bits
  return (.ofCounts log counts, bytes.drop (bytes.length - bits.length / 8))

end CodeView.Frame
