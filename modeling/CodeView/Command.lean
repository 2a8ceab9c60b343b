import CodeView.Package.LinkTable
import CodeView.Package.Summaries
import CodeView.View.Render

/-!
# The command line

`Arguments.parse` reads the words after the program's name, `run` does the work on the files of a
working directory and gives what is printed and the exit code.

* two words are needed: the directory of dumps and the full name of a type;
* `--interface` and `--summary` are flags, `--config`, `--links` and `--docs` take a path; each may
  be given once, in any place; `--` ends the options;
* settings, link table and documentation are loaded in this order, and the first error ends the run.
-/

namespace CodeView.Command

/-- What the words of the command line ask for. -/
structure Arguments where
  dumps : String
  type : String
  interface : Bool
  summary : Bool
  config : Option String
  links : Option String
  docs : Option String
  deriving DecidableEq, Repr

/-- The words taken so far; the plain ones are last first. -/
structure Words where
  plain : List String
  flags : List String
  values : List (String × String)

/-- The flags. -/
def flagNames : List String := ["interface", "summary"]

/-- The options that take a path. -/
def valueNames : List String := ["config", "links", "docs"]

/-- Whether a word looks like an option. -/
def looksLikeOption (word : String) : Bool :=
  match word.toList with
  | '-' :: _ :: _ => true
  | _ => false

/-- An option's name, and the value attached to it by an equals sign. -/
def splitOption (word : String) : String × Option String :=
  let chars := word.toList
  let name := String.ofList (chars.takeWhile (· != '='))
  match chars.dropWhile (· != '=') with
  | [] => (name, none)
  | _ :: value => (name, some (String.ofList value))

/-- Takes a value for an option, which must not have one already and must not be empty. -/
def Words.setValue (w : Words) (name value : String) : Option Words :=
  if value.isEmpty || w.values.any (·.1 == name) then none
  else some { w with values := (name, value) :: w.values }

/-- Takes the words in order. -/
def Words.take (w : Words) : List String → Option Words
  | [] => some w
  | "--" :: rest => some { w with plain := rest.reverse ++ w.plain }
  | word :: rest =>
    if looksLikeOption word then
      match word.toList with
      | '-' :: '-' :: option =>
        match splitOption (String.ofList option) with
        | (name, none) =>
          if flagNames.contains name && !w.flags.contains name then
            Words.take { w with flags := name :: w.flags } rest
          else if valueNames.contains name then
            match rest with
            | [] => none
            | value :: rest =>
              if looksLikeOption value then none
              else
                match w.setValue name value with
                | none => none
                | some w => Words.take w rest
          else none
        | (name, some value) =>
          if valueNames.contains name then
            match w.setValue name value with
            | none => none
            | some w => Words.take w rest
          else none
      | _ => none
    else Words.take { w with plain := word :: w.plain } rest

/-- Reads the words of the command line; nothing if they are not as they should be. -/
def Arguments.parse (words : List String) : Option Arguments := do
  let w ← Words.take ⟨[], [], []⟩ words
  let value (name : String) : Option String := (w.values.find? (·.1 == name)).map (·.2)
  match w.plain.reverse with
  | [dumps, type] =>
    if dumps.isEmpty then none
    else
      some {
        dumps, type
        interface := w.flags.contains "interface"
        summary := w.flags.contains "summary"
        config := value "config"
        links := value "links"
        docs := value "docs" }
  | _ => none

/-- How a run ended: what it printed, and its exit code. -/
structure Outcome where
  code : Nat
  stdout : String
  stderr : String
  deriving DecidableEq, Repr

/-- The path of the user's settings below the directory for settings. -/
def userSettings (directory : String) : String :=
  directory ++ "/typeview/config.json"

/-- The paths that a run looks at. -/
def Arguments.paths (a : Arguments) (directory : Option String) : List String :=
  [a.config, a.links, a.docs, directory.map userSettings].filterMap id ++
    a.dumps :: View.dumpPaths a.dumps a.type

/-- Loads the settings: from the given file, else from the user's file if there is one. -/
def loadSettings (files : Files) (config directory : Option String) :
    Except Package.LoadError Package.Settings :=
  match config with
  | some path => Package.load files path Package.Settings.decode
  | none =>
    match directory with
    | none => .ok .usual
    | some directory =>
      if files.isFile (userSettings directory) then
        Package.load files (userSettings directory) Package.Settings.decode
      else .ok .usual

/-- Loads the links of types; without a table no type has one. -/
def loadLinks (files : Files) : Option String → Except Package.LoadError Html.Links
  | none => .ok Html.noLinks
  | some path => (Package.load files path Package.LinkTable.decode).map Package.LinkTable.url?

/-- Loads the documentation; without a table it is empty. -/
def loadSummaries (files : Files) : Option String → Except Package.LoadError Package.Summaries
  | none => .ok .empty
  | some path => Package.load files path Package.Summaries.decode

/-- Loads what a run needs. -/
def prepare (files : Files) (directory : Option String) (a : Arguments) :
    Except Report (View.Services × Package.Summaries) := do
  let settings ← (loadSettings files a.config directory).mapError fun e =>
    (e.report Package.Settings.wording).context "Failed to load config"
  let links ← (loadLinks files a.links).mapError (·.report Package.LinkTable.wording)
  let summaries ← (loadSummaries files a.docs).mapError (·.report Package.Summaries.wording)
  return (⟨links, settings⟩, summaries)

/-- The line with the summary of a type, if it is asked for and there is one. -/
def summaryLine (a : Arguments) (summaries : Package.Summaries) : String :=
  let text := summaries.summary a.type
  if a.summary && !text.isEmpty then
    "<p class=\"summary\">" ++ Html.encodeText text ++ "</p>\n"
  else ""

/-- The view that is asked for. Reading a dump does not panic, so that the number of the task that
makes it is never shown. -/
def view (files : Files) (a : Arguments) (services : View.Services) : String :=
  let slots := View.Slots.apart (.dumps "full" a.dumps) (.dumps "interface" a.dumps)
  let render := if a.interface then View.renderInterface else View.renderFull
  let ((view, _), _) := (render services slots files "1" a.type).run []
  view

/-- Does what the arguments ask for; `directory` is the user's directory for settings. -/
def run (files : Files) (directory : Option String) (a : Arguments) : Outcome :=
  match prepare files directory a with
  | .error report => ⟨1, "", "Error: " ++ report.text ++ "\n"⟩
  | .ok (services, summaries) =>
    ⟨0, summaryLine a summaries ++ view files a services ++ "\n", ""⟩

end CodeView.Command
