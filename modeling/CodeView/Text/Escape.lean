/-!
# Escapes in string literals

The body of a string literal has a backslash in front of quotes and backslashes, and writes tabs and
line ends as letters after a backslash. All other characters stand for themselves.
-/

namespace CodeView.Text

/-- How a character is written in a string literal. -/
def escapeChar : Char → List Char
  | '\\' => ['\\', '\\']
  | '"' => ['\\', '"']
  | '\t' => ['\\', 't']
  | '\r' => ['\\', 'r']
  | '\n' => ['\\', 'n']
  | c => [c]

/-- The characters of a text as the body of a string literal. -/
def escapeChars (text : List Char) : List Char :=
  text.flatMap escapeChar

/-- A text as the body of a string literal. -/
def escape (text : String) : String :=
  String.ofList (escapeChars text.toList)

/-- A text as a string literal. -/
def quoted (text : String) : String :=
  "\"" ++ escape text ++ "\""

end CodeView.Text
