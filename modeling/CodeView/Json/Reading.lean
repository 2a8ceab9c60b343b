import CodeView.Json.Fault
import CodeView.Json.Value

/-!
# Readings: a JSON text, as far as it goes

A `Reading` is what a text holds up to its first syntax problem. A list or object that breaks off
keeps what came before, with the problem as its `cut`. So a decoder that walks a reading in document
order meets the faults of the text and the faults of its content in the order in which they stand
in the text.

* every part knows the unread text before and after it;
* a number out of range, an unpaired surrogate or bytes that are no characters are no syntax
  problem: the part is `unusable`, and only a decoder that asks for its value fails. The key of a
  member can be unusable too;
* a member whose key was read and whose value was not is there, with a `broken` value;
* `Reading.ofValue` is the reading of a value in memory, which has no faults;
* `Reading.skimFault?` and `Reading.holdFault?` find the first fault inside a part that is skipped
  and inside one that is kept for later.
-/

namespace CodeView.Json

/-- A stretch of text: what is unread before it and after it. -/
structure Span where
  before : List Char
  after : List Char
  deriving Repr

/-- The span of a part that stands in no text. -/
def Span.none : Span := ⟨[], []⟩

mutual

/-- What a JSON text holds, as far as it could be read. A broken part starts at `start`, which is
empty if the text broke off before it. -/
inductive Reading where
  | broken (start : List Char) (problem : Break)
  | scalar (span : Span) (value : Scalar)
  | unusable (span : Span) (fault : Fault)
  | array (span : Span) (items : List Reading) (cut : Option Break)
  | object (span : Span) (members : List Member) (cut : Option Break)

/-- A member of an object, with the unread text after its key. -/
inductive Member where
  | mk (key : Except Fault String) (keyEnd : List Char) (value : Reading)

end

instance : Inhabited Reading := ⟨.scalar .none .null⟩

/-- The key of a member, or the fault that leaves it without characters. -/
def Member.key : Member → Except Fault String
  | .mk key _ _ => key

/-- Whether a member has the given key. -/
def Member.isNamed (m : Member) (name : String) : Bool :=
  match m.key with
  | .ok key => key == name
  | .error _ => false

/-- The unread text after the key of a member. -/
def Member.keyEnd : Member → List Char
  | .mk _ keyEnd _ => keyEnd

/-- The value of a member. -/
def Member.value : Member → Reading
  | .mk _ _ value => value

namespace Reading

/-- The unread text where a reading starts. -/
def before : Reading → List Char
  | .broken start _ => start
  | .scalar span _ | .unusable span _ | .array span _ _ | .object span _ _ => span.before

/-- The unread text after a reading. -/
def after : Reading → List Char
  | .broken _ _ => []
  | .scalar span _ | .unusable span _ | .array span _ _ | .object span _ _ => span.after

mutual

/-- The reading of a value in memory. -/
def ofValue : Value → Reading
  | .scalar s => .scalar .none s
  | .array items => .array .none (ofItems items) Option.none
  | .object members => .object .none (ofMembers members) Option.none

/-- The readings of a list of values. -/
def ofItems : List Value → List Reading
  | [] => []
  | v :: rest => ofValue v :: ofItems rest

/-- The readings of the members of an object. -/
def ofMembers : List (String × Value) → List Member
  | [] => []
  | (k, v) :: rest => .mk (.ok k) [] (ofValue v) :: ofMembers rest

end

mutual

/-- The value that was read, if the text did not break off and every part has a value. -/
def toValue? : Reading → Option Value
  | .broken _ _ => none
  | .scalar _ s => some (.scalar s)
  | .unusable _ _ => none
  | .array _ items cut =>
    if cut.isSome then none else (toItems? items).map .array
  | .object _ members cut =>
    if cut.isSome then none else (toMembers? members).map .object

/-- The values of a list of readings. -/
def toItems? : List Reading → Option (List Value)
  | [] => some []
  | r :: rest =>
    match toValue? r, toItems? rest with
    | some v, some vs => some (v :: vs)
    | _, _ => none

/-- The members of an object, as values. -/
def toMembers? : List Member → Option (List (String × Value))
  | [] => some []
  | .mk k _ r :: rest =>
    match k, toValue? r, toMembers? rest with
    | .ok k, some v, some vs => some ((k, v) :: vs)
    | _, _, _ => none

end

mutual

/-- The first syntax problem inside a part that is skipped. -/
def skimFault? : Reading → Option Fault
  | .broken _ problem => some problem.skipped
  | .scalar _ _ => none
  | .unusable _ _ => none
  | .array _ items cut => (skimItems? items).or (cut.map (·.skipped))
  | .object _ members cut => (skimMembers? members).or (cut.map (·.skipped))

/-- The first syntax problem in a list of readings. -/
def skimItems? : List Reading → Option Fault
  | [] => none
  | r :: rest => (skimFault? r).or (skimItems? rest)

/-- The first syntax problem in the members of an object. -/
def skimMembers? : List Member → Option Fault
  | [] => none
  | .mk _ _ r :: rest => (skimFault? r).or (skimMembers? rest)

end

mutual

/-- The first fault inside a part that is kept for later, when `depth` more lists and objects may be
opened: keeping a part takes all its values. -/
def holdFault? (depth : Nat) : Reading → Option Fault
  | .broken _ problem => some problem.asked
  | .scalar _ _ => none
  | .unusable _ fault => some fault
  | .array span items cut =>
    if depth = 0 then some (.problem .tooDeep span.before .ahead)
    else (holdItems? (depth - 1) items).or (cut.map (·.asked))
  | .object span members cut =>
    if depth = 0 then some (.problem .tooDeep span.before .ahead)
    else (holdMembers? (depth - 1) members).or (cut.map (·.asked))

/-- The first fault in a list of readings that are kept. -/
def holdItems? (depth : Nat) : List Reading → Option Fault
  | [] => none
  | r :: rest => (holdFault? depth r).or (holdItems? depth rest)

/-- The first fault in the members of an object that is kept. -/
def holdMembers? (depth : Nat) : List Member → Option Fault
  | [] => none
  | .mk key _ r :: rest =>
    match key with
    | .error flaw => some flaw
    | .ok _ => (holdFault? depth r).or (holdMembers? depth rest)

end

end Reading

end CodeView.Json
