import CodeView.Syntax.Format
import CodeView.Syntax.Tree

/-!
# Trees from documents

`Tree.ofDocument` numbers the nodes of a document in pre-order. A document whose top is the root of
a tree becomes that root; any other becomes the one child of a fresh root. A root anywhere below
the top is an error.

`Tree.ofInput` and `Tree.ofValue` read a document first, from a text and from a value in memory.
-/

namespace CodeView.Syntax

open CodeView.Json

/-- Why no tree could be made. -/
inductive TreeError where
  | unreadable (error : ReadError)
  | nestedRoot
  deriving DecidableEq, Repr

namespace TreeError

/-- The wording of the error itself. -/
def message : TreeError → String
  | .unreadable _ => "invalid node document"
  | .nestedRoot => "`syntax_tree` node found below the root"

/-- The wording of what caused it. -/
def causes : TreeError → List String
  | .unreadable error => [error.message]
  | .nestedRoot => []

end TreeError

namespace Tree

/-- Adds annotations to a node, in order. -/
def annotateAll (t : Tree) (id : NodeId) (annotations : List Annotation) : Tree :=
  annotations.foldl (fun t a => t.annotate id a) t

mutual

/-- Adds a document as the last child of `parent`. -/
def add (t : Tree) (parent : NodeId) : Document → Except TreeError Tree
  | .node label children =>
    if label.kind = .syntaxTree then .error .nestedRoot
    else
      let id := t.size
      ((t.append parent label.role label.kind).annotateAll id label.annotations).addAll id children

/-- Adds documents as the last children of `parent`, in order. -/
def addAll (t : Tree) (parent : NodeId) : List Document → Except TreeError Tree
  | [] => .ok t
  | d :: rest =>
    match t.add parent d with
    | .error e => .error e
    | .ok t => t.addAll parent rest

end

/-- The tree of a document. -/
def ofDocument (d : Document) : Except TreeError Tree :=
  if d.label.kind = .syntaxTree then
    (empty.annotateAll root d.label.annotations).addAll root d.children
  else empty.add root d

/-- The tree that a text writes. -/
def ofInput (input : Input) : Except TreeError Tree :=
  match decodeInput Format.document input with
  | .error e => .error (.unreadable e)
  | .ok d => ofDocument d

/-- The tree that a value in memory describes. -/
def ofValue (value : Value) : Except TreeError Tree :=
  match decodeValue Format.document value with
  | .error e => .error (.unreadable e)
  | .ok d => ofDocument d

end Tree

end CodeView.Syntax
