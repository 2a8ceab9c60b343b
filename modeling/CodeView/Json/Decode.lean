import CodeView.Binary64.Numeral
import CodeView.Json.Read
import CodeView.Text.Shown

/-!
# Decoding readings

A `Decoder` turns a reading into a value of a type, or names the first fault in document order.
What it accepts depends a little on where the reading comes from (`Origin`): straight from a text,
from a value in memory, or from members that were held back until the end of their object.

* scalars are strict: no conversions, integers in range, a character is a string of length one;
* `variant` reads one of several named alternatives: a string, or an object of one member;
* `Fields` describes an object with known fields, once: their names in order, how each is read and
  what stands for an absent one. The same description reads an array of the fields in order;
* `decodeInput` and `decodeValue` run a decoder on a whole text and on a value in memory.

A reader that fails inside a list or object still tries to leave it. A fault that has no place of
its own gets the one that the reader has reached then (`leaveList`, `leaveObject`).
-/

namespace CodeView.Json

/-- Where a reading comes from. -/
inductive Origin where
  | text
  | value
  | held
  deriving DecidableEq, Repr

/-- Where a decoder stands: the origin of its reading, and how many more lists and objects may be
opened. Only a text is limited in depth. -/
structure Context where
  origin : Origin
  depth : Nat

/-- The start of a text: 127 lists and objects may be open at once. -/
def Context.text : Context := ⟨.text, 127⟩

/-- The start of a value in memory. -/
def Context.value : Context := ⟨.value, 0⟩

/-- The context of members that were held back. -/
def Context.held : Context := ⟨.held, 0⟩

/-- Turns a reading into a value of `α`. -/
abbrev Decoder (α : Type) := Context → Reading → Except Fault α

namespace Context

/-- A cause found at a mark. Only in a text is the mark kept. -/
def fault (ctx : Context) (cause : Cause) (rest : List Char) (stance : Stance) : Fault :=
  match ctx.origin with
  | .text => ⟨cause, some ⟨rest, stance⟩⟩
  | _ => .unplaced cause

/-- The context inside a list or object that starts at the given text. -/
def enter (ctx : Context) (start : List Char) : Except Fault Context :=
  match ctx.origin, ctx.depth with
  | .text, 0 => .error (.problem .tooDeep start .ahead)
  | .text, depth + 1 => .ok ⟨.text, depth⟩
  | _, _ => .ok ctx

/-- The fault of a part that is skipped, which only a text can have. -/
def skim (ctx : Context) (r : Reading) : Except Fault Unit :=
  match ctx.origin, r.skimFault? with
  | .text, some fault => .error fault
  | _, _ => .ok ()

/-- The fault of a part that is held back, which only a text can have. -/
def hold (ctx : Context) (r : Reading) : Except Fault Unit :=
  match ctx.origin, r.holdFault? ctx.depth with
  | .text, some fault => .error fault
  | _, _ => .ok ()

end Context

/-- Raises a fault, if there is one. -/
def raise : Option Fault → Except Fault Unit
  | none => .ok ()
  | some fault => .error fault

/-- Raises the problem with which a list or object breaks off. -/
def raiseCut (cut : Option Break) : Except Fault Unit :=
  raise (cut.map (·.asked))

/-- How far a reader comes that leaves a list. -/
def leaveList (rest : List Char) : Mark :=
  match skipBlank rest with
  | ']' :: rest => ⟨rest, .past⟩
  | ',' :: rest => .glimpse (skipBlank rest)
  | rest => .glimpse rest

/-- How far a reader comes that leaves an object. -/
def leaveObject (rest : List Char) : Mark :=
  match skipBlank rest with
  | '\x7d' :: rest => ⟨rest, .past⟩
  | rest => .glimpse rest

/-! ## Scalars -/

/-- The wording of a float: its shortest digits, with a fraction in positional notation if the
exponent of the first digit is at least -5 and below 16, else with a signed exponent. -/
def describeFloat (x : Binary64) : String :=
  let d := x.shortest
  let e := d.leadingExponent
  let text :=
    if x.isZero then "0.0"
    else if e < -5 then d.mantissa ++ "e" ++ toString e
    else if 16 ≤ e then d.mantissa ++ "e+" ++ toString e
    else if d.exponent < 0 then d.positional
    else d.positional ++ ".0"
  if x.isNegative then "-" ++ text else text

/-- The wording of a scalar that was not expected. -/
def Scalar.describe : Scalar → String
  | .null => "null"
  | .bool b => "boolean " ++ ticked (toString b)
  | .number (.natural n) => "integer " ++ ticked (toString n.toNat)
  | .number (.negative n) => "integer " ++ ticked (toString n.toInt)
  | .number (.float x) => "floating point " ++ ticked (describeFloat x)
  | .string s => "string " ++ Text.shown s

/-- The fault of a scalar, found after it: only the end of a number is seen by looking ahead. -/
def scalarFault (ctx : Context) (cause : Cause) (span : Span) : Scalar → Fault
  | .number _ => ctx.fault cause span.after .glimpsed
  | _ => ctx.fault cause span.after .past

/-- The fault of a reading that is not of the expected type. -/
def mismatch (ctx : Context) (expected : String) : Reading → Fault
  | .broken _ problem => problem.asked
  | .unusable _ fault => fault
  | .scalar span s => scalarFault ctx (.invalidType s.describe expected) span s
  | .array span _ _ => ctx.fault (.invalidType "sequence" expected) span.before .glimpsed
  | .object span _ _ => ctx.fault (.invalidType "map" expected) span.before .glimpsed

/-- What a decoder makes of a scalar: a value, or that it is of the right type with a value that
will not do, or that it is of another type. -/
inductive Fit (α : Type) where
  | good (a : α)
  | badValue
  | badType

/-- Reads a scalar by how it fits. -/
def scalar (expected : String) (fit : Scalar → Fit α) : Decoder α := fun ctx r =>
  match r with
  | .scalar span s =>
    match fit s with
    | .good a => .ok a
    | .badValue => .error (scalarFault ctx (.invalidValue s.describe expected) span s)
    | .badType => .error (mismatch ctx expected r)
  | _ => .error (mismatch ctx expected r)

/-- Reads a string. -/
def string : Decoder String := scalar "a string" fun
  | .string s => .good s
  | _ => .badType

/-- Reads a boolean. -/
def bool : Decoder Bool := scalar "a boolean" fun
  | .bool b => .good b
  | _ => .badType

/-- Reads a character: a string of exactly one. -/
def char : Decoder Char := scalar "a character" fun
  | .string s =>
    match s.toList with
    | [c] => .good c
    | _ => .badValue
  | _ => .badType

/-- Reads an integer from zero up to a limit, which is left out. -/
def natBelow (limit : Nat) (expected : String) : Decoder Nat := scalar expected fun
  | .number (.natural n) => if n.toNat < limit then .good n.toNat else .badValue
  | .number (.negative _) => .badValue
  | _ => .badType

/-- Reads an unsigned integer of 64 bits. -/
def uint64 : Decoder UInt64 := scalar "u64" fun
  | .number (.natural n) => .good n
  | .number (.negative _) => .badValue
  | _ => .badType

/-- Reads a signed integer of 64 bits. -/
def int64 : Decoder Int64 := scalar "i64" fun
  | .number (.natural n) =>
    if n.toNat < Nat.pow 2 63 then .good (Int64.ofNat n.toNat) else .badValue
  | .number (.negative n) => .good n
  | _ => .badType

/-- Reads a float; an integer gives the nearest one. -/
def binary64 : Decoder Binary64 := scalar "f64" fun
  | .number (.natural n) => .good (Binary64.ofNat n.toNat)
  | .number (.negative n) => .good (Binary64.ofInt n.toInt)
  | .number (.float x) => .good x
  | _ => .badType

/-- Reads `null` as nothing and all else by the decoder. -/
def nullable (decode : Decoder α) : Decoder (Option α) := fun ctx r =>
  match r with
  | .scalar _ .null => .ok none
  | _ => (decode ctx r).map some

/-! ## Lists and tables -/

/-- Reads a list. -/
def list (decode : Decoder α) : Decoder (List α) := fun ctx r =>
  match r with
  | .array span items cut => do
    let inner ← ctx.enter span.before
    let values ← (items.mapM (decode inner)).mapError (·.settled leaveList)
    raiseCut cut
    return values
  | _ => .error (mismatch ctx "a sequence" r)

/-- Reads a member of an object by a decoder for its value. -/
def member (decode : Decoder α) (ctx : Context) (m : Member) : Except Fault (String × α) := do
  let key ← m.key
  let a ← decode ctx m.value
  return (key, a)

/-- Reads an object of any keys whose values are all read by the same decoder. Members stay in
order, repeated ones included. -/
def table (decode : Decoder α) : Decoder (List (String × α)) := fun ctx r =>
  match r with
  | .object span members cut => do
    let inner ← ctx.enter span.before
    let entries ← (members.mapM (member decode inner)).mapError (·.settled leaveObject)
    raiseCut cut
    return entries
  | _ => .error (mismatch ctx "a map" r)

/-- The value of the last entry of a key. -/
def lastOf (key : String) (entries : List (String × α)) : Option α :=
  (entries.reverse.find? fun e => e.1 == key).map (·.2)

/-! ## Objects with known fields -/

/-- A known field: its name, whether it must be there, and the fault of a value for it. -/
structure Field where
  name : String
  required : Bool
  check : Context → Reading → Except Fault Unit

/-- How to read an object with known fields: the fields in order, and the value that the readings
found for them give. -/
structure Fields (α : Type) where
  known : List Field
  build : Context → (String → Option Reading) → Except Fault α

namespace Fields

/-- An object without fields. -/
protected def pure (a : α) : Fields α :=
  ⟨[], fun _ _ => .ok a⟩

/-- The fields of both, and one value applied to the other. -/
protected def ap (f : Fields (α → β)) (a : Fields α) : Fields β :=
  { known := f.known ++ a.known
    build := fun ctx find => do
      let g ← f.build ctx find
      let x ← a.build ctx find
      return g x }

/-- The same fields, and a function of their value. -/
protected def map (f : α → β) (a : Fields α) : Fields β :=
  ⟨a.known, fun ctx find => (a.build ctx find).map f⟩

instance : Functor Fields where
  map := Fields.map

instance : Seq Fields where
  seq f a := f.ap (a ())

/-- A field that must be there. -/
def required (name : String) (decode : Decoder α) : Fields α :=
  { known := [⟨name, true, fun ctx r => (decode ctx r).map fun _ => ()⟩]
    build := fun ctx find =>
      match find name with
      | some r => decode ctx r
      | none => .error (.unplaced (.missingField name)) }

/-- A field with a value that stands for an absent one. -/
def optional (name : String) (decode : Decoder α) (default : α) : Fields α :=
  { known := [⟨name, false, fun ctx r => (decode ctx r).map fun _ => ()⟩]
    build := fun ctx find =>
      match find name with
      | some r => decode ctx r
      | none => .ok default }

/-- Takes the members in order: a known field must not have been `seen` and its value must be good,
an unknown one is skipped. -/
def checkMembers (known : List Field) (ctx : Context) :
    List String → List Member → Except Fault Unit
  | _, [] => .ok ()
  | seen, m :: rest => do
    let key ← m.key
    match known.find? fun f => f.name == key with
    | none =>
      ctx.skim m.value
      checkMembers known ctx seen rest
    | some field =>
      if seen.contains key then
        throw (ctx.fault (.duplicateField key) m.keyEnd .adrift)
      field.check ctx m.value
      checkMembers known ctx (key :: seen) rest

/-- The value of the first member with a key. -/
def find (members : List Member) (name : String) : Option Reading :=
  (members.find? fun m => m.isNamed name).map Member.value

/-- Reads the members of an object. -/
def ofMembers (fields : Fields α) (ctx : Context) (members : List Member) (cut : Option Break) :
    Except Fault α := do
  checkMembers fields.known ctx [] members
  raiseCut cut
  fields.build ctx (find members)

/-- Takes the items of an array as the fields in order, as many as there are. -/
def checkItems (ctx : Context) : List Field → List Reading → Except Fault Unit
  | f :: fs, r :: rest => do
    f.check ctx r
    checkItems ctx fs rest
  | _, _ => .ok ()

/-- A number of elements in words. -/
def elements (count : Nat) : String :=
  toString count ++ (if count = 1 then " element" else " elements")

/-- The fault of a list that does not end at the given text. -/
def openListFault? (text : List Char) : Option Fault :=
  match skipBlank text with
  | ']' :: _ => none
  | ',' :: rest =>
    match skipBlank rest with
    | ']' :: rest => some (.problem .trailingComma (']' :: rest) .ahead)
    | rest => some (.problem .trailingCharacters rest .ahead)
  | [] => some (.problem .endInList [] .ahead)
  | rest => some (.problem .trailingCharacters rest .ahead)

/-- The fault of an array that goes on after the last field; its content starts at `start`. -/
def surplusFault? (ctx : Context) (known : List Field) (start : List Char) (items : List Reading) :
    Option Fault :=
  match ctx.origin with
  | .text => openListFault? (((items.take known.length).getLast?.map Reading.after).getD start)
  | _ =>
    if known.length < items.length then
      some (.unplaced (.invalidLength items.length "fewer elements in array"))
    else none

/-- Reads an array of the fields in order, whose content starts at `start`. Fields at the end may be
absent if something stands for them. Once all fields are read, the array has to end. -/
def ofItems (fields : Fields α) (expected : String) (ctx : Context) (start : List Char)
    (items : List Reading) (cut : Option Break) : Except Fault α := do
  checkItems ctx fields.known items
  if fields.known.length ≤ items.length then raise (surplusFault? ctx fields.known start items)
  else raiseCut cut
  let absent := fields.known.drop items.length
  if absent.any (·.required) then
    let length := items.length + (absent.takeWhile (!·.required)).length
    let wording := expected ++ " with " ++ elements fields.known.length
    throw (.unplaced (.invalidLength length wording))
  let found := (fields.known.map (·.name)).zip items
  fields.build ctx fun name => (found.find? fun p => p.1 == name).map (·.2)

/-- Reads an object with known fields, or an array of them. -/
def decode (fields : Fields α) (expected : String) : Decoder α := fun ctx r =>
  match r with
  | .object span members cut => do
    let inner ← ctx.enter span.before
    (fields.ofMembers inner members cut).mapError fun fault =>
      (fault.settled leaveObject).placedAt ⟨span.after, .past⟩
  | .array span items cut => do
    let inner ← ctx.enter span.before
    (fields.ofItems expected inner (span.before.drop 1) items cut).mapError fun fault =>
      (fault.settled leaveList).placedAt ⟨span.after, .past⟩
  | _ => .error (mismatch ctx expected r)

end Fields

/-! ## Named alternatives -/

/-- What comes with the name of an alternative: nothing, a value, or an object with known fields and
the words for it. -/
inductive Payload (α : Type) where
  | unit (a : α)
  | value (decode : Decoder α)
  | record (wording : String) (fields : Fields α)

/-- The words for a payload that is missing. -/
def Payload.sort : Payload α → String
  | .unit _ => "unit variant"
  | .value _ => "newtype variant"
  | .record _ _ => "struct variant"

/-- Finds the alternative of a name, or says which names there are. -/
def findVariant (variants : List (String × Payload α)) (name : String) :
    Except Cause (Payload α) :=
  match variants.find? fun v => v.1 == name with
  | some v => .ok v.2
  | none => .error (.unknownVariant name (variants.map (·.1)))

/-- Whether a reading stands for the absence of a payload. Among held members an empty object does
so too. -/
def isUnitPayload (ctx : Context) : Reading → Bool
  | .scalar _ .null => true
  | .object _ [] none => ctx.origin == .held
  | _ => false

/-- Reads what comes with the name of an alternative. A record written as an array is accepted only
in a text. -/
def Payload.decode : Payload α → Decoder α
  | .unit a, ctx, r => if isUnitPayload ctx r then .ok a else .error (mismatch ctx "unit" r)
  | .value decode, ctx, r => decode ctx r
  | .record wording fields, ctx, r =>
    match ctx.origin, r with
    | .text, _ => fields.decode wording ctx r
    | _, .object _ _ _ => fields.decode wording ctx r
    | _, _ => .error (mismatch ctx wording r)

/-- The fault of an object that does not end at the given text. -/
def openFault? (text : List Char) : Option Fault :=
  match skipBlank text with
  | '\x7d' :: _ => none
  | [] => some (.problem .endInObject [] .ahead)
  | rest => some (.problem .expectedValue rest .glimpsed)

/-- The fault of an object without members, which starts at the given text, where a member is
expected whose key is the name of an alternative. -/
def namelessFault (start : List Char) (cut : Option Break) : Fault :=
  match cut with
  | some problem => problem.asked
  | none => .problem .keyMustBeString (skipBlank (start.drop 1)) .ahead

/-- The fault of a part that is neither a name nor an object; it starts at the given text. -/
def noNameFault (start : List Char) (fault : Fault) : Fault :=
  match start with
  | [] => fault
  | '"' :: _ => fault
  | start => .problem .expectedValue start .ahead

/-- Reads one of several named alternatives: a string, or an object whose one member is the name and
what comes with it. A text is refused at the name before it is refused for a second member. -/
def variant (variants : List (String × Payload α)) : Decoder α := fun ctx r =>
  match r with
  | .scalar span (.string name) =>
    match findVariant variants name with
    | .error cause => .error (ctx.fault cause span.after .past)
    | .ok (.unit a) => .ok a
    | .ok payload =>
      .error (ctx.fault (.invalidType "unit variant" payload.sort) span.after .adrift)
  | .object span members cut => do
    let inner ← ctx.enter span.before
    match ctx.origin, members with
    | .text, [] => throw (namelessFault span.before cut)
    | .text, m :: _ => do
      let name ← m.key
      let payload ← (findVariant variants name).mapError fun c => ctx.fault c m.keyEnd .past
      let a ← payload.decode inner m.value
      raise (openFault? m.value.after)
      return a
    | _, [m] => do
      let name ← m.key
      let payload ← (findVariant variants name).mapError .unplaced
      payload.decode inner m.value
    | _, _ => throw (.unplaced (.invalidValue "map" "map with a single key"))
  | .scalar _ _ | .array _ _ _ =>
    match ctx.origin with
    | .text => .error (.problem .expectedValue r.before .ahead)
    | _ => .error (mismatch ctx "string or map" r)
  | .broken start problem => .error (noNameFault start problem.asked)
  | .unusable span fault => .error (noNameFault span.before fault)

/-- Reads one of several names. -/
def name (variants : List (String × α)) : Decoder α :=
  variant (variants.map fun v => (v.1, .unit v.2))

/-! ## Whole texts and values -/

/-- What is left to do after the last byte of an input: its source may still fail. -/
def Input.finish (input : Input) (a : α) : Except ReadError α :=
  match input.failure with
  | some message => .error (.source message)
  | none => .ok a

/-- Runs a decoder on an input; nothing but blanks may follow the value. -/
def decodeInput (decode : Decoder α) (input : Input) : Except ReadError α :=
  let text := Text.Utf8.wide input.bytes
  let (reading, next) := Reading.ofText text
  let outcome : Except Fault α := do
    let a ← decode Context.text reading
    let rest ← next.mapError (·.asked)
    raise (endFault? rest)
    return a
  (outcome.mapError (·.toError input text)).bind input.finish

/-- Runs a decoder on a value in memory. -/
def decodeValue (decode : Decoder α) (value : Value) : Except ReadError α :=
  (decode Context.value (Reading.ofValue value.canonical)).mapError fun fault => ⟨fault.cause, none⟩

end CodeView.Json
