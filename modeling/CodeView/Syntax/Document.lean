import CodeView.Syntax.Kind

/-!
# Documents

A `Document` is a syntax node as a dump writes it: its label (role, kind and annotations) and its
children in order. Documents have no identities; `Tree.ofDocument` gives them.
-/

namespace CodeView.Syntax

/-- What a node says of itself. -/
structure Label where
  role : Role
  kind : Kind
  annotations : List Annotation
  deriving DecidableEq, Repr

/-- A syntax node with everything below it. -/
inductive Document where
  | node (label : Label) (children : List Document)
  deriving Repr

namespace Document

/-- The label of the top node. -/
def label : Document → Label
  | .node label _ => label

/-- The children of the top node. -/
def children : Document → List Document
  | .node _ children => children

end Document

end CodeView.Syntax
