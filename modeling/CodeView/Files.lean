import CodeView.Frame.Header
import CodeView.Text.Utf8

/-!
# Files

What the program sees of files: `Files` tells what stands at a path, and nothing else is asked. A
file may be kept in compressed form; then its content is what it unpacks to.

`Files.read` gives the bytes of a file as they are stored, `Files.readText` its text.
-/

namespace CodeView

/-- What stands at a path. -/
inductive FileEntry where
  | directory
  | file (content : List UInt8) (compressed : Bool)
  deriving DecidableEq, Repr

/-- Why a file cannot be read. -/
inductive FileError where
  | notFound
  | notDirectory
  | isDirectory
  | nameTooLong
  | notText
  | refused (words : String)
  deriving DecidableEq, Repr

/-- The wording of an error. -/
def FileError.message : FileError → String
  | .notFound => "No such file or directory (os error 2)"
  | .notDirectory => "Not a directory (os error 20)"
  | .isDirectory => "Is a directory (os error 21)"
  | .nameTooLong => "File name too long (os error 36)"
  | .notText => "stream did not contain valid UTF-8"
  | .refused words => words

/-- The bytes of a file as they are stored. Of a compressed file only the first ones are known. -/
def storedBytes (content : List UInt8) (compressed : Bool) : List UInt8 :=
  if compressed then Frame.magic else content

/-- The files that can be looked at, by path. -/
structure Files where
  find : String → Except FileError FileEntry

namespace Files

/-- Whether a path is that of a directory. -/
def isDirectory (f : Files) (path : String) : Bool :=
  match f.find path with
  | .ok .directory => true
  | _ => false

/-- Whether a path is that of a file. -/
def isFile (f : Files) (path : String) : Bool :=
  match f.find path with
  | .ok (.file _ _) => true
  | _ => false

/-- The bytes of a file, as they are stored. -/
def read (f : Files) (path : String) : Except FileError (List UInt8) := do
  match ← f.find path with
  | .directory => throw .isDirectory
  | .file content compressed => return storedBytes content compressed

/-- The text of a file. -/
def readText (f : Files) (path : String) : Except FileError String := do
  match Text.Utf8.decode? (← f.read path) with
  | some text => return text
  | none => throw .notText

end Files

end CodeView
