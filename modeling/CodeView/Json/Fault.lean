/-!
# What can be wrong with a JSON text

A text is taken byte by byte, each byte as the character of its number: whatever has a meaning in
JSON is one byte, and only the content of a string has to be put together from several.

A `Fault` is a cause and, if it is known, the mark in the text where it was found. A mark is the
part of the text that was still unread, so a `Place` (line and column) is computed only when a
message needs one.

* `Problem` lists the ways in which a text is not JSON;
* `Cause` adds the ways in which JSON is not what was asked for, and `Cause.message` words them;
* `Break` is a problem that ends the reading of a text. How it is told depends on whether the part
  in which it stands was skipped or its content asked for;
* `Mark.place` counts lines from 1 and columns in bytes. A `text` reader does not count a byte it
  has only looked at, a `stream` reader does;
* an `Input` is a text on its way in. If its source fails after the last byte, that is what is told
  of a fault that was found by looking for one more.
-/

namespace CodeView.Json

/-- A way in which a text fails to be JSON. -/
inductive Problem where
  | endInList
  | endInObject
  | endInString
  | endInValue
  | expectedColon
  | expectedListCommaOrEnd
  | expectedObjectCommaOrEnd
  | expectedIdent
  | expectedValue
  | invalidEscape
  | invalidNumber
  | numberOutOfRange
  | controlCharacter
  | keyMustBeString
  | loneSurrogate
  | openSurrogate
  | invalidCodePoint
  | trailingComma
  | trailingCharacters
  | tooDeep
  deriving DecidableEq, Repr

/-- The wording of a problem. -/
def Problem.message : Problem → String
  | .endInList => "EOF while parsing a list"
  | .endInObject => "EOF while parsing an object"
  | .endInString => "EOF while parsing a string"
  | .endInValue => "EOF while parsing a value"
  | .expectedColon => "expected `:`"
  | .expectedListCommaOrEnd => "expected `,` or `]`"
  | .expectedObjectCommaOrEnd => "expected `,` or `\x7d`"
  | .expectedIdent => "expected ident"
  | .expectedValue => "expected value"
  | .invalidEscape => "invalid escape"
  | .invalidNumber => "invalid number"
  | .numberOutOfRange => "number out of range"
  | .controlCharacter => "control character (\\u0000-\\u001F) found while parsing a string"
  | .keyMustBeString => "key must be a string"
  | .loneSurrogate => "lone leading surrogate in hex escape"
  | .openSurrogate => "unexpected end of hex escape"
  | .invalidCodePoint => "invalid unicode code point"
  | .trailingComma => "trailing comma"
  | .trailingCharacters => "trailing characters"
  | .tooDeep => "recursion limit exceeded"

/-- Why a text or value was refused: it is no JSON, it is not of the right shape, its content is
rejected, or the source of the text failed. -/
inductive Cause where
  | problem (p : Problem)
  | invalidType (found expected : String)
  | invalidValue (found expected : String)
  | invalidLength (length : Nat) (expected : String)
  | missingField (name : String)
  | duplicateField (name : String)
  | unknownVariant (name : String) (variants : List String)
  | rejected (message : String)
  | source (message : String)
  deriving DecidableEq, Repr

/-- A name between backticks. -/
def ticked (name : String) : String :=
  "`" ++ name ++ "`"

/-- The list of names one of which was expected. -/
def expectedNames : List String → String
  | [] => "there are no variants"
  | [a] => "expected " ++ ticked a
  | [a, b] => "expected " ++ ticked a ++ " or " ++ ticked b
  | names => "expected one of " ++ ", ".intercalate (names.map ticked)

/-- The wording of a cause, without its place. -/
def Cause.message : Cause → String
  | .problem p => p.message
  | .invalidType found expected => "invalid type: " ++ found ++ ", expected " ++ expected
  | .invalidValue found expected => "invalid value: " ++ found ++ ", expected " ++ expected
  | .invalidLength length expected =>
    "invalid length " ++ toString length ++ ", expected " ++ expected
  | .missingField name => "missing field " ++ ticked name
  | .duplicateField name => "duplicate field " ++ ticked name
  | .unknownVariant name variants =>
    "unknown variant " ++ ticked name ++ ", " ++ expectedNames variants
  | .rejected message => message
  | .source message => message

/-- How the reader stood to the unread text when it found a fault: just past what it had taken,
looking ahead at a byte it refuses, or having glimpsed one that it has nothing against. A fault that
is `adrift` gets its place when the list or object around it is left. -/
inductive Stance where
  | past
  | ahead
  | glimpsed
  | adrift
  deriving DecidableEq, Repr

/-- A point in a text: what is unread there. -/
structure Mark where
  rest : List Char
  stance : Stance
  deriving DecidableEq, Repr

/-- A cause and, if known, where it was found. -/
structure Fault where
  cause : Cause
  mark : Option Mark
  deriving DecidableEq, Repr

/-- A fault of which the place is not known. -/
def Fault.unplaced (cause : Cause) : Fault :=
  ⟨cause, none⟩

/-- A problem found at the given unread text. -/
def Fault.problem (p : Problem) (rest : List Char) (stance : Stance) : Fault :=
  ⟨.problem p, some ⟨rest, stance⟩⟩

/-- The fault with a place, unless it has one. -/
def Fault.placedAt (fault : Fault) (mark : Mark) : Fault :=
  { fault with mark := fault.mark.or (some mark) }

/-- The fault with another mark, if it is adrift. -/
def Fault.settled (fault : Fault) (place : List Char → Mark) : Fault :=
  match fault.mark with
  | some ⟨rest, .adrift⟩ => { fault with mark := some (place rest) }
  | _ => fault

/-- The problem with which a text breaks off: as it is told when the part in which it stands is
skipped, and when the content of that part is asked for. The second may stand earlier. -/
structure Break where
  skipped : Fault
  asked : Fault
  deriving DecidableEq, Repr

/-- A problem that is told the same way in both cases. -/
def Break.plain (fault : Fault) : Break :=
  ⟨fault, fault⟩

/-- A plain problem found at the given unread text. -/
def Break.problem (p : Problem) (rest : List Char) (stance : Stance) : Break :=
  .plain (.problem p rest stance)

/-- Whether the reader had looked for a byte after the last one. -/
def Mark.isBeyond : Mark → Bool
  | ⟨[], .ahead⟩ | ⟨[], .glimpsed⟩ => true
  | _ => false

/-- The mark of a reader that has looked at the given unread text and found nothing wrong. -/
def Mark.glimpse : List Char → Mark
  | [] => ⟨[], .past⟩
  | rest => ⟨rest, .glimpsed⟩

/-- How a text is taken in: from memory, or from a stream that counts a byte as soon as it has
looked at it. -/
inductive Medium where
  | text
  | stream
  deriving DecidableEq, Repr

/-- A text on its way in: its bytes, and what its source says instead of giving one more. -/
structure Input where
  medium : Medium
  bytes : List UInt8
  failure : Option String
  deriving DecidableEq, Repr

/-- A text in memory. -/
def Input.text (bytes : List UInt8) : Input :=
  ⟨.text, bytes, none⟩

/-- A text from a stream that ends well. -/
def Input.stream (bytes : List UInt8) : Input :=
  ⟨.stream, bytes, none⟩

/-- A line, from 1, and a column in bytes: the number of bytes taken from the line so far. -/
structure Place where
  line : Nat
  column : Nat
  deriving DecidableEq, Repr

/-- The start of a text. -/
def Place.start : Place := ⟨1, 0⟩

/-- The place after one more byte. -/
def Place.advance (p : Place) (c : Char) : Place :=
  if c = '\n' then ⟨p.line + 1, 0⟩ else ⟨p.line, p.column + 1⟩

/-- The place of a mark in a text. A byte that was refused counts; one that was only glimpsed counts
in a stream. -/
def Mark.place (medium : Medium) (text : List Char) (mark : Mark) : Place :=
  let taken := (text.take (text.length - mark.rest.length)).foldl Place.advance Place.start
  match mark.stance, medium, mark.rest with
  | .ahead, _, c :: _ => taken.advance c
  | .glimpsed, .stream, c :: _ => taken.advance c
  | _, _, _ => taken

/-- A fault with its place worked out. -/
structure ReadError where
  cause : Cause
  place : Option Place
  deriving DecidableEq, Repr

/-- The failure of a source. -/
def ReadError.source (message : String) : ReadError :=
  ⟨.source message, none⟩

/-- The fault as an error of an input whose bytes are the given text. -/
def Fault.toError (input : Input) (text : List Char) (fault : Fault) : ReadError :=
  match input.failure, fault.mark.any Mark.isBeyond with
  | some message, true => .source message
  | _, _ => ⟨fault.cause, fault.mark.map (Mark.place input.medium text)⟩

/-- The wording of an error, with its place. -/
def ReadError.message (e : ReadError) : String :=
  match e.place with
  | none => e.cause.message
  | some p =>
    e.cause.message ++ " at line " ++ toString p.line ++ " column " ++ toString p.column

end CodeView.Json
