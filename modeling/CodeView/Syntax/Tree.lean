import CodeView.Syntax.Document

/-!
# Syntax trees

A `Tree` is a store of numbered nodes: each has its label, its parent and its children in order. The
root has number 0; nodes are only ever added, at the next free number, and never renumbered. A node
can be detached from its parent: it keeps its own children and stays in the store, but the root no
longer reaches it.

* `append` (`appendIdentifier` for a leaf with a text), `annotate` and `detach` are the only ways in
  which a tree changes;
* `lineage` is a node followed by its ancestors, innermost first; `isAttached` and
  `nearestAnnotated` are read off it;
* `branch` is the nested reading of the tree below a node, and `descendants` are the numbers of that
  part of the tree, found by a walk that keeps the nodes still to be visited.
-/

namespace CodeView.Syntax

/-- The number of a node in its tree. -/
abbrev NodeId := Nat

/-- A node in the store. -/
structure Entry where
  label : Label
  parent : Option NodeId
  children : List NodeId
  deriving DecidableEq, Repr

/-- A numbered store of syntax nodes. -/
structure Tree where
  entries : Array Entry
  deriving DecidableEq, Repr

/-- A part of a tree, nested: a node's number and label, and the branches below it. -/
inductive Branch where
  | node (id : NodeId) (label : Label) (children : List Branch)
  deriving Repr

namespace Branch

/-- The number of the top node. -/
def id : Branch → NodeId
  | .node id _ _ => id

/-- The label of the top node. -/
def label : Branch → Label
  | .node _ label _ => label

/-- The branches below the top node. -/
def children : Branch → List Branch
  | .node _ _ children => children

/-- The role of the top node. -/
def role (b : Branch) : Role := b.label.role

/-- The kind of the top node. -/
def kind (b : Branch) : Kind := b.label.kind

/-- The branches below the top node that have a role. -/
def withRole (b : Branch) (role : Role) : List Branch :=
  b.children.filter fun c => c.role == role

/-- The first branch below the top node that has a role. -/
def first? (b : Branch) (role : Role) : Option Branch :=
  b.children.find? fun c => c.role == role

/-- The name of a declaration or type: the text of its first child in the name role. -/
def name? (b : Branch) : Option String :=
  (b.first? .name).bind fun c => c.kind.identifierText?

mutual

/-- The numbers of a branch in pre-order. -/
def ids : Branch → List NodeId
  | .node id _ children => id :: idsAll children

/-- The numbers of several branches, one after the other. -/
def idsAll : List Branch → List NodeId
  | [] => []
  | b :: rest => ids b ++ idsAll rest

end

mutual

/-- The document of a branch: its labels, without numbers. -/
def toDocument : Branch → Document
  | .node _ label children => .node label (toDocuments children)

/-- The documents of several branches. -/
def toDocuments : List Branch → List Document
  | [] => []
  | b :: rest => toDocument b :: toDocuments rest

end

end Branch

namespace Tree

/-- The number of the root. -/
abbrev root : NodeId := 0

/-- The tree of a root alone. -/
def empty : Tree :=
  ⟨#[⟨⟨.root, .syntaxTree, []⟩, none, []⟩]⟩

instance : Inhabited Tree := ⟨empty⟩

/-- How many nodes the store holds, detached ones included. -/
def size (t : Tree) : Nat :=
  t.entries.size

/-- Whether a number is that of a node. -/
def has (t : Tree) (id : NodeId) : Bool :=
  id < t.size

/-! ## Looking at nodes -/

/-- The label of a node; that of a bare root for a number that is none. -/
def label (t : Tree) (id : NodeId) : Label :=
  match t.entries[id]? with
  | some e => e.label
  | none => ⟨.root, .syntaxTree, []⟩

/-- The kind of a node. -/
def kind (t : Tree) (id : NodeId) : Kind := (t.label id).kind

/-- The role of a node. -/
def role (t : Tree) (id : NodeId) : Role := (t.label id).role

/-- The annotations of a node, in order. -/
def annotations (t : Tree) (id : NodeId) : List Annotation := (t.label id).annotations

/-- The parent of a node. -/
def parent? (t : Tree) (id : NodeId) : Option NodeId :=
  t.entries[id]?.bind Entry.parent

/-- The children of a node, in order. -/
def children (t : Tree) (id : NodeId) : List NodeId :=
  match t.entries[id]? with
  | some e => e.children
  | none => []

/-- The children of a node that have a role. -/
def childrenWithRole (t : Tree) (id : NodeId) (role : Role) : List NodeId :=
  (t.children id).filter fun c => t.role c == role

/-- The first child of a node that has a role. -/
def childWithRole? (t : Tree) (id : NodeId) (role : Role) : Option NodeId :=
  (t.children id).find? fun c => t.role c == role

/-- The text of an identifier. -/
def identifierText? (t : Tree) (id : NodeId) : Option String :=
  (t.kind id).identifierText?

/-- The name of a declaration or type: the text of its first child in the name role. -/
def name? (t : Tree) (id : NodeId) : Option String :=
  (t.childWithRole? id .name).bind t.identifierText?

/-! ## Changing trees -/

/-- Adds a node as the last child of `parent`. Its number is the size of the tree before. -/
def append (t : Tree) (parent : NodeId) (role : Role) (kind : Kind) : Tree :=
  let id := t.size
  ⟨(t.entries.modify parent fun e => { e with children := e.children ++ [id] }).push
    ⟨⟨role, kind, []⟩, some parent, []⟩⟩

/-- Adds an identifier as the last child of `parent`. -/
def appendIdentifier (t : Tree) (parent : NodeId) (role : Role) (name : String) : Tree :=
  t.append parent role (.identifier name)

/-- Adds an annotation to a node, after those it has. -/
def annotate (t : Tree) (id : NodeId) (note : Annotation) : Tree :=
  ⟨t.entries.modify id fun e =>
    { e with label := { e.label with annotations := e.label.annotations ++ [note] } }⟩

/-- Takes a node, with everything below it, from its parent. Nothing happens to the root or to a
node that is detached already. -/
def detach (t : Tree) (id : NodeId) : Tree :=
  match t.parent? id with
  | none => t
  | some parent =>
    ⟨(t.entries.modify id fun e => { e with parent := none }).modify parent fun e =>
      { e with children := e.children.filter (· != id) }⟩

/-! ## Up and down -/

/-- A node and at most `steps` of its ancestors, innermost first. -/
def climb (t : Tree) : Nat → NodeId → List NodeId
  | 0, id => [id]
  | steps + 1, id =>
    match t.parent? id with
    | none => [id]
    | some parent => id :: t.climb steps parent

/-- A node and its ancestors, innermost first. No path is longer than the store. -/
def lineage (t : Tree) (id : NodeId) : List NodeId :=
  t.climb t.size id

/-- Whether the root reaches a node. -/
def isAttached (t : Tree) (id : NodeId) : Bool :=
  (t.lineage id).contains root

/-- The innermost node with an annotation, from a node itself towards the root. -/
def nearestAnnotated? (t : Tree) (id : NodeId) : Option NodeId :=
  (t.lineage id).find? fun n => !(t.annotations n).isEmpty

/-- The branch below a node, cut off after `levels` levels. -/
def grow (t : Tree) : Nat → NodeId → Branch
  | 0, id => .node id (t.label id) []
  | levels + 1, id => .node id (t.label id) ((t.children id).map (t.grow levels))

/-- The branch below a node. No path is longer than the store. -/
def branch (t : Tree) (id : NodeId) : Branch :=
  t.grow t.size id

/-- Visits the first of the nodes that are waiting, puts its children in front of the others and
goes on, for at most `steps` nodes. Those in `seen` have been visited, last first. -/
def walk (t : Tree) : Nat → List NodeId → List NodeId → List NodeId
  | steps + 1, id :: waiting, seen => t.walk steps (t.children id ++ waiting) (id :: seen)
  | _, _, seen => seen.reverse

/-- A node and the nodes below it, in pre-order. There are no more of them than the store holds. -/
def descendants (t : Tree) (id : NodeId) : List NodeId :=
  t.walk t.size [id] []

/-- The attached nodes, in pre-order. -/
def attached (t : Tree) : List NodeId :=
  t.descendants root

/-- The document of the attached part of a tree. -/
def toDocument (t : Tree) : Document :=
  (t.branch root).toDocument

end Tree

end CodeView.Syntax
