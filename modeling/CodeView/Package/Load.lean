import CodeView.Files
import CodeView.Json.Decode
import CodeView.Report

/-!
# Tables from files

Settings, link tables and documentation are JSON files. They are loaded the same way; only the words
for what went wrong differ.
-/

namespace CodeView.Package

/-- Why a table could not be loaded. -/
inductive LoadError where
  | read (path : String) (cause : FileError)
  | parse (path : String) (cause : Json.ReadError)
  deriving DecidableEq, Repr

/-- The words in front of the path when a table could not be read, and when it made no sense. -/
structure Wording where
  read : String
  parse : String

/-- The report of an error. -/
def LoadError.report (w : Wording) : LoadError → Report
  | .read path cause => ⟨w.read ++ path, [cause.message]⟩
  | .parse path cause => ⟨w.parse ++ path, [cause.message]⟩

/-- Loads a table. -/
def load (files : Files) (path : String) (decode : Json.Decoder α) : Except LoadError α :=
  match files.readText path with
  | .error cause => .error (.read path cause)
  | .ok text => (Json.decodeInput decode (.text (Text.Utf8.bytes text))).mapError (.parse path)

end CodeView.Package
