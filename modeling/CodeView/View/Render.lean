import CodeView.Html.Comment
import CodeView.Html.Page
import CodeView.Interface.Prune
import CodeView.Package.Settings
import CodeView.Package.TypeName
import CodeView.View.Slot

/-!
# Views of a type

A type is shown in full, or cut down to its interface. A view never fails: an error becomes a
comment on the page, the lack of a source a line of text. The interface view tells all causes of an
error, the full view only the error itself. Each view is made in a task of its own, so that a panic
ends the task and becomes a comment too.
-/

namespace CodeView.View

/-- What is shown if there is no source of trees. -/
def noSource : String := "// No decompiler available"

/-- What views are made with. -/
structure Services where
  links : Html.Links
  settings : Package.Settings

/-- The full view of a type from a source. -/
def showFull (s : Services) (source : Option Source) (files : Files) (name : String) :
    Except Panic String :=
  match source with
  | none => .ok noSource
  | some source =>
    match source files name with
    | .error (.panic p) => .error p
    | .error (.error e) => .ok (Html.commentOf e.message)
    | .ok tree => .ok (Html.render s.links s.settings.layout tree)

/-- The interface view of a type from a source. -/
def showInterface (s : Services) (source : Option Source) (files : Files) (name : String) :
    Except Panic String :=
  match source with
  | none => .ok noSource
  | some source =>
    match source files name with
    | .error (.panic p) => .error p
    | .error (.error e) => .ok (Html.commentOf e.report.text)
    | .ok tree =>
      let policy := s.settings.policy (Package.simpleName name)
      .ok (Html.render s.links s.settings.layout (Interface.prune policy tree).1)

/-- What a task leaves to be shown. -/
def shownBy (task : String) : Except Panic String → String
  | .ok view => view
  | .error p => Html.commentOf (p.wording task)

/-- Shows a type in full, and the slots after that. -/
def renderFull (s : Services) (slots : Slots) (files : Files) (task name : String) :
    Journal (String × Slots) := do
  let (source, slots) ← slots.getFull files
  return (shownBy task (showFull s source files name), slots)

/-- Shows the interface of a type, and the slots after that. -/
def renderInterface (s : Services) (slots : Slots) (files : Files) (task name : String) :
    Journal (String × Slots) := do
  let (source, slots) ← slots.getInterface files
  return (shownBy task (showInterface s source files name), slots)

end CodeView.View
