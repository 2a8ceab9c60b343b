import CodeView.Package.Load
import CodeView.Package.TypeName
import CodeView.Text.Blank

/-!
# Summaries of types

Documentation is a table of texts by documentation name. A summary is shown without white space at
its ends; the text that tools put in place of a missing summary counts as none.
-/

namespace CodeView.Package

open CodeView.Json

/-- Texts by documentation name; of repeated names the last counts. -/
structure Summaries where
  entries : List (String × String)
  deriving DecidableEq, Repr

namespace Summaries

/-- A table without texts. -/
def empty : Summaries := ⟨[]⟩

/-- Reads a documentation table. -/
def decode : Decoder Summaries := fun ctx r =>
  (table string ctx r).map .mk

/-- The words for a table that could not be loaded. -/
def wording : Wording :=
  ⟨"Failed to read documentation ", "Failed to parse documentation "⟩

/-- The text of a type, as the table has it. -/
def find? (s : Summaries) (fullName : String) : Option String :=
  lastOf (documentationId fullName) s.entries

/-- The text that stands for a missing summary. -/
def placeholder : String := "To be added."

/-- A summary as it is shown. -/
def tidy : Option String → String
  | none => ""
  | some text =>
    let trimmed := Text.trim text
    if trimmed = placeholder then "" else trimmed

/-- The summary of a type, as it is shown. -/
def summary (s : Summaries) (fullName : String) : String :=
  tidy (s.find? fullName)

end Summaries

end CodeView.Package
