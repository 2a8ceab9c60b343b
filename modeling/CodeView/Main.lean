import CodeView.Command

/-!
# The program

Looks at the files that the command line names, and leaves the rest to `Command.run`.
-/

namespace CodeView.Program

/-- How to call the program. -/
def usage : String :=
  "Usage: codeview [--interface] [--summary] [--config FILE] [--links FILE] [--docs FILE] " ++
    "<dumps> <type>"

/-- The wording of a failure of the system. -/
def refusal (e : IO.Error) : FileError :=
  match e with
  | .noFileOrDirectory _ _ _ => .notFound
  | .inappropriateType _ _ _ => .isDirectory
  | _ => .refused (toString e)

/-- Whether a path leads to a directory. -/
def leadsToDirectory (path : String) : IO Bool := do
  try
    let _ ← IO.FS.Handle.mk (path ++ "/.") .read
    return true
  catch _ => return false

/-- What stands at a path. -/
def look (path : String) : IO (Except FileError FileEntry) := do
  if ← leadsToDirectory path then
    return .ok .directory
  try
    let bytes ← IO.FS.readBinFile path
    return .ok (.file bytes.toList false)
  catch e => return .error (refusal e)

/-- The files at the given paths, as they are now. -/
def filesAt (paths : List String) : IO Files := do
  let found ← paths.mapM fun path => return (path, ← look path)
  return ⟨fun path =>
    match found.find? fun entry => entry.1 == path with
    | some entry => entry.2
    | none => .error .notFound⟩

/-- The directory for settings below the user's home. -/
def homeSettings : IO (Option String) := do
  return (← IO.getEnv "HOME").map (· ++ "/.config")

/-- The user's directory for settings. A name that is not absolute does not count. -/
def settingsDirectory : IO (Option String) := do
  match ← IO.getEnv "XDG_CONFIG_HOME" with
  | some path => if path.startsWith "/" then return some path else homeSettings
  | none => homeSettings

end CodeView.Program

open CodeView CodeView.Program in
/-- Runs the program. -/
def main (words : List String) : IO UInt32 := do
  match Command.Arguments.parse words with
  | none =>
    IO.eprintln usage
    return 2
  | some arguments =>
    let directory ← settingsDirectory
    let outcome := Command.run (← filesAt (arguments.paths directory)) directory arguments
    IO.print outcome.stdout
    IO.eprint outcome.stderr
    return UInt32.ofNat outcome.code
