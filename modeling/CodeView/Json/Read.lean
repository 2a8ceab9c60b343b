import CodeView.Json.Scan

/-!
# Reading JSON texts

`Reading.ofText` reads a text as far as it goes. Every step takes at least one byte, so the number
of bytes bounds the number of steps; it is handed down as `fuel`.

A text is one value between blanks: what follows the value is checked by `endFault?`.
-/

namespace CodeView.Json

/-- Where the reading of a part ends: the text after it, or the problem with which the text breaks
off. -/
abbrev Next := Except Break (List Char)

/-- Reads the letters of a literal after its first one. -/
def expectLetters : List Char → List Char → Next
  | [], text => .ok text
  | _ :: _, [] => .error (.problem .endInValue [] .ahead)
  | l :: ls, c :: text =>
    if c = l then expectLetters ls text else .error (.problem .expectedIdent text .past)

/-- A part that could not be read, and its problem. -/
def brokenBy (start : List Char) (problem : Break) : Reading × Next :=
  (.broken start problem, .error problem)

/-- Reads a literal whose first letter is known. -/
def readLiteral (before text : List Char) (letters : String) (value : Scalar) : Reading × Next :=
  match expectLetters letters.toList text with
  | .error problem => brokenBy before problem
  | .ok rest => (.scalar ⟨before, rest⟩ value, .ok rest)

/-- A scalar that was read, or a part without a value. -/
def scalarOf (span : Span) : Except Fault Scalar → Reading
  | .ok s => .scalar span s
  | .error fault => .unusable span fault

/-- Reads a string after its opening quote. -/
def readString (before text : List Char) : Reading × Next :=
  match scanString text with
  | .error problem => brokenBy before problem
  | .ok (s, rest) => (scalarOf ⟨before, rest⟩ (s.map .string), .ok rest)

/-- Reads a number. -/
def readNumber (text : List Char) : Reading × Next :=
  match scanNumber text with
  | .error problem => brokenBy text problem
  | .ok (n, rest) => (scalarOf ⟨text, rest⟩ (n.map .number), .ok rest)

/-- A list as far as it was read, which may have broken off. -/
def closeArray (before : List Char) (items : List Reading) : Next → Reading × Next
  | .ok rest => (.array ⟨before, rest⟩ items none, .ok rest)
  | .error problem => (.array ⟨before, []⟩ items (some problem), .error problem)

/-- An object as far as it was read, which may have broken off. -/
def closeObject (before : List Char) (members : List Member) : Next → Reading × Next
  | .ok rest => (.object ⟨before, rest⟩ members none, .ok rest)
  | .error problem => (.object ⟨before, []⟩ members (some problem), .error problem)

/-- Reads the colon after a key. -/
def readColon (text : List Char) : Next :=
  match skipBlank text with
  | [] => .error (.problem .endInObject [] .ahead)
  | ':' :: rest => .ok rest
  | rest => .error (.problem .expectedColon rest .ahead)

/-- The problem of a list that ends after a comma. -/
def listAfterComma (rest : List Char) : Break :=
  ⟨.problem .expectedValue rest .ahead, .problem .trailingComma rest .ahead⟩

/-- The problem of an object that ends after a comma. -/
def objectAfterComma (rest : List Char) : Break :=
  ⟨.problem .keyMustBeString rest .ahead, .problem .trailingComma rest .ahead⟩

/-- The problem of a text that ends after a comma of an object. -/
def endAfterComma : Break :=
  ⟨.problem .endInObject [] .ahead, .problem .endInValue [] .ahead⟩

mutual

/-- Reads a value and gives the text after it, or the problem with which the text breaks off. -/
def readValue : Nat → List Char → Reading × Next
  | 0, text => brokenBy text (.problem .endInValue text .past)
  | fuel + 1, text =>
    let text := skipBlank text
    match text with
    | [] => brokenBy [] (.problem .endInValue [] .ahead)
    | 'n' :: rest => readLiteral text rest "ull" .null
    | 't' :: rest => readLiteral text rest "rue" (.bool true)
    | 'f' :: rest => readLiteral text rest "alse" (.bool false)
    | '"' :: rest => readString text rest
    | '[' :: rest =>
      match skipBlank rest with
      | [] => closeArray text [] (.error (.problem .endInList [] .ahead))
      | ']' :: rest => closeArray text [] (.ok rest)
      | rest =>
        let (items, final) := readItems fuel rest
        closeArray text items final
    | '\x7b' :: rest =>
      match skipBlank rest with
      | [] => closeObject text [] (.error (.problem .endInObject [] .ahead))
      | '\x7d' :: rest => closeObject text [] (.ok rest)
      | rest =>
        let (members, final) := readMembers fuel rest
        closeObject text members final
    | c :: _ =>
      if c = '-' ∨ c.isDigit then readNumber text
      else brokenBy text (.problem .expectedValue text .ahead)

/-- Reads the items of a list up to its closing bracket; there is at least one. -/
def readItems : Nat → List Char → List Reading × Next
  | 0, text => ([], .error (.problem .endInList text .past))
  | fuel + 1, text =>
    match readValue fuel text with
    | (item, .error problem) => ([item], .error problem)
    | (item, .ok rest) =>
      match skipBlank rest with
      | [] => ([item], .error (.problem .endInList [] .ahead))
      | ']' :: rest => ([item], .ok rest)
      | ',' :: rest =>
        match skipBlank rest with
        | [] => ([item], .error (.problem .endInValue [] .ahead))
        | ']' :: rest => ([item], .error (listAfterComma (']' :: rest)))
        | rest =>
          let (items, final) := readItems fuel rest
          (item :: items, final)
      | rest => ([item], .error (.problem .expectedListCommaOrEnd rest .ahead))

/-- Reads the members of an object up to its closing brace; there is at least one. -/
def readMembers : Nat → List Char → List Member × Next
  | 0, text => ([], .error (.problem .endInObject text .past))
  | fuel + 1, text =>
    match text with
    | '"' :: rest =>
      match scanString rest with
      | .error problem => ([], .error problem)
      | .ok (key, keyEnd) =>
        match readColon keyEnd with
        | .error problem => ([.mk key keyEnd (.broken [] problem)], .error problem)
        | .ok rest =>
          let (value, next) := readValue fuel rest
          let member : Member := .mk key keyEnd value
          match next with
          | .error problem => ([member], .error problem)
          | .ok rest =>
            match skipBlank rest with
            | [] => ([member], .error (.problem .endInObject [] .ahead))
            | '\x7d' :: rest => ([member], .ok rest)
            | ',' :: rest =>
              match skipBlank rest with
              | [] => ([member], .error endAfterComma)
              | '\x7d' :: rest => ([member], .error (objectAfterComma ('\x7d' :: rest)))
              | rest =>
                let (members, final) := readMembers fuel rest
                (member :: members, final)
            | rest => ([member], .error (.problem .expectedObjectCommaOrEnd rest .ahead))
    | text => ([], .error (.problem .keyMustBeString text .ahead))

end

/-- The first value of a text, as far as it goes, and the text after it or the problem that ends
it. -/
def Reading.ofText (text : List Char) : Reading × Next :=
  readValue (text.length + 1) text

/-- The fault of text after a value that is not blank. -/
def endFault? (rest : List Char) : Option Fault :=
  match skipBlank rest with
  | [] => none
  | rest => some (.problem .trailingCharacters rest .ahead)

/-- The value that the bytes of a text write. -/
def Value.ofBytes? (bytes : List UInt8) : Option Value :=
  match Reading.ofText (Text.Utf8.wide bytes) with
  | (reading, .ok rest) => if (endFault? rest).isNone then reading.toValue? else none
  | (_, .error _) => none

end CodeView.Json
