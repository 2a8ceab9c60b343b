import CodeView.Syntax.Tree

/-!
# Layout events

Writing a tree is a list of events: where nodes start and finish, what is written, and how lines
are broken and indented. What becomes of an event is up to the canvas that takes the list. An
`EventOf ι` refers to nodes by values of the type `ι`, an `Event` by their numbers.
-/

namespace CodeView.Layout

open CodeView.Syntax

/-- One step of writing a tree, with references to nodes. -/
inductive EventOf (ι : Type) where
  | start (id : ι)
  | finish (id : ι)
  | indent
  | unindent
  | space
  | newLine
  | comment (form : CommentForm) (content : String)
  | directive (word : String) (argument : Option String)
  | keyword (word : String)
  | identifier (id : ι) (name : String)
  | primitiveType (word : String)
  | value (literal : Literal)
  | token (text : String)
  deriving DecidableEq, Repr

/-- One step of writing a tree. -/
abbrev Event := EventOf NodeId

end CodeView.Layout
