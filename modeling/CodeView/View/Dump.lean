import CodeView.Files
import CodeView.Frame.Unpack
import CodeView.Report
import CodeView.Syntax.Build
import CodeView.Text.Shown

/-!
# Syntax dumps

A directory of dumps has a file for each type: `Name.json`, or `Name.json.zst` in compressed form.
`readDump` finds and reads the dump of a type. A `Source` is anything that gives the tree of a type
or says why it cannot. It may also panic, which `readDump` does not.
-/

namespace CodeView.View

open CodeView.Syntax

/-- Why there is no tree of a type. -/
inductive DumpError where
  | notFound (name : String)
  | unsupported (name : String)
  | unreadable (path cause : String)
  | malformed (name : String) (cause : TreeError)
  deriving DecidableEq, Repr

namespace DumpError

/-- The wording of the error itself. -/
def message : DumpError → String
  | .notFound name => "type `" ++ name ++ "` not found"
  | .unsupported name => "unsupported type name `" ++ name ++ "`"
  | .unreadable path _ => "failed to read " ++ path
  | .malformed name _ => "malformed syntax dump for `" ++ name ++ "`"

/-- The wording of what caused it, outermost first. -/
def causes : DumpError → List String
  | .unreadable _ cause => [cause]
  | .malformed _ cause => cause.message :: cause.causes
  | _ => []

/-- The error with its causes. -/
def report (e : DumpError) : Report :=
  ⟨e.message, e.causes⟩

end DumpError

/-- The end of a task in a panic. -/
structure Panic where
  message : String
  deriving DecidableEq, Repr

/-- The wording of a panic. Every task has a number of its own. -/
def Panic.wording (p : Panic) (task : String) : String :=
  "task " ++ task ++ " panicked with message " ++ Text.shown p.message

/-- How a source fails. -/
inductive Failure where
  | error (e : DumpError)
  | panic (p : Panic)
  deriving DecidableEq, Repr

/-- Gives the tree of a type, by full name. -/
abbrev Source := Files → String → Except Failure Tree

/-- Whether a name could lead out of the directory of dumps. -/
def isUnsupported (name : String) : Bool :=
  name.isEmpty || name.contains '/' || name.contains '\\' || (name.splitOn "..").length != 1

/-- What unpacking the bytes of a file gives to read. -/
def unpacked (bytes : List UInt8) : Json.Input :=
  let (content, fault) := Frame.unpack bytes
  ⟨.stream, content, fault.map Frame.Fault.message⟩

/-- The tree of a compressed dump. -/
def treeOfFrame (content : List UInt8) (compressed : Bool) : Except TreeError Tree :=
  Tree.ofInput (if compressed then .stream content else unpacked content)

/-- The path of the plain dump of a type. -/
def plainPath (directory name : String) : String :=
  directory ++ "/" ++ name ++ ".json"

/-- The path of the compressed dump of a type. -/
def compressedPath (directory name : String) : String :=
  directory ++ "/" ++ name ++ ".json.zst"

/-- The paths at which the dump of a type may stand. -/
def dumpPaths (directory name : String) : List String :=
  if isUnsupported name then [] else [plainPath directory name, compressedPath directory name]

/-- The tree of a type from a directory of dumps. A plain file is taken before a compressed one. -/
def readDump (directory : String) (files : Files) (name : String) : Except DumpError Tree :=
  if isUnsupported name then .error (.unsupported name)
  else
    match files.find (plainPath directory name) with
    | .ok (.file content compressed) =>
      (Tree.ofInput (.stream (storedBytes content compressed))).mapError (.malformed name)
    | _ =>
      match files.find (compressedPath directory name) with
      | .ok (.file content compressed) =>
        (treeOfFrame content compressed).mapError (.malformed name)
      | _ => .error (.notFound name)

/-- A directory of dumps as a source. -/
def dumpOf (directory : String) : Source := fun files name =>
  (readDump directory files name).mapError .error

end CodeView.View
