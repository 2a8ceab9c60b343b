/-!
# Names of types

The full name of a type has segments, separated by `.`, `+` or `/`, and each may end in a backtick
and the number of its type parameters. The simple name is the last segment without that number.
-/

namespace CodeView.Package

/-- Whether a character separates segments of a full name. -/
def isSeparator (c : Char) : Bool :=
  c == '.' || c == '+' || c == '/'

/-- The mark in front of the number of type parameters. -/
def arityMark : Char := '\x60'

/-- The characters after the last separator. -/
def lastSegment (fullName : List Char) : List Char :=
  (fullName.reverse.takeWhile fun c => !isSeparator c).reverse

/-- The characters of the simple name. -/
def simpleNameChars (fullName : List Char) : List Char :=
  (lastSegment fullName).takeWhile (· != arityMark)

/-- The simple name of a type. -/
def simpleName (fullName : String) : String :=
  String.ofList (simpleNameChars fullName.toList)

/-- The name under which the documentation of a type is filed. -/
def documentationId (fullName : String) : String :=
  "T:" ++ fullName

end CodeView.Package
