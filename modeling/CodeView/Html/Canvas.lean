/-!
# Text with pending indentation

A `Canvas` is the text written so far, the depth of indentation, and whether the current line still
lacks its indentation. Indentation is written only when something visible follows on the line, so
that empty lines stay empty.
-/

namespace CodeView.Html

/-- Spaces for each level of indentation. -/
def indentWidth : Nat := 4

/-- A text in the making. -/
structure Canvas where
  depth : Nat
  needsIndent : Bool
  output : String
  deriving DecidableEq, Repr

namespace Canvas

/-- Nothing written, at the start of a line. -/
def blank : Canvas := ⟨0, true, ""⟩

/-- The indentation of the current depth. -/
def indentation (c : Canvas) : String :=
  String.ofList (List.replicate (c.depth * indentWidth) ' ')

/-- Writes a text as it is. -/
def put (c : Canvas) (text : String) : Canvas :=
  { c with output := c.output ++ text }

/-- Writes the indentation if the line still lacks it. -/
def startLine (c : Canvas) : Canvas :=
  if c.needsIndent then { c.put c.indentation with needsIndent := false } else c

/-- Writes visible text: the line's indentation comes first. -/
def write (c : Canvas) (text : String) : Canvas :=
  c.startLine.put text

/-- Ends the line. -/
def newLine (c : Canvas) : Canvas :=
  { c.put "\n" with needsIndent := true }

/-- One level deeper. -/
def deepen (c : Canvas) : Canvas :=
  { c with depth := c.depth + 1 }

/-- One level up; at the outermost level nothing changes. -/
def rise (c : Canvas) : Canvas :=
  { c with depth := c.depth - 1 }

end Canvas

end CodeView.Html
