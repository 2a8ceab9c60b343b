/-!
# Characters that mean something in markup

`encodeText` writes `&`, `<` and `>` as entities, so that a text is shown as it is. A quoted
attribute value needs the double quote as well: `encodeAttribute` encodes the text first and its
quotes after that.
-/

namespace CodeView.Html

/-- How a character is written in running text. -/
def entity : Char → List Char
  | '&' => ['&', 'a', 'm', 'p', ';']
  | '<' => ['&', 'l', 't', ';']
  | '>' => ['&', 'g', 't', ';']
  | c => [c]

/-- How a quote is written in an attribute; all else stands for itself. -/
def quoteEntity : Char → List Char
  | '"' => ['&', 'q', 'u', 'o', 't', ';']
  | c => [c]

/-- The characters of a running text. -/
def encodeChars (text : List Char) : List Char :=
  text.flatMap entity

/-- The characters of an attribute value in double quotes. -/
def encodeAttributeChars (text : List Char) : List Char :=
  (encodeChars text).flatMap quoteEntity

/-- A text as running text of a page. -/
def encodeText (text : String) : String :=
  String.ofList (encodeChars text.toList)

/-- A text as an attribute value in double quotes. -/
def encodeAttribute (text : String) : String :=
  String.ofList (encodeAttributeChars text.toList)

end CodeView.Html
