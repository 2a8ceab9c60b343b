import CodeView.Html.Canvas
import CodeView.Html.Entity
import CodeView.Html.Highlight
import CodeView.Layout.Write

/-!
# Code as HTML

Layout events become text on a canvas: keywords, identifiers, types and literals as elements with
the class of their highlight, tokens as running text. Nodes, comments and directives leave no trace.

`render` is a whole tree in its container.
-/

namespace CodeView.Html

open CodeView.Syntax CodeView.Layout

/-- An element of a class. -/
def span (h : Highlight) (text : String) : String :=
  "<span class=\"" ++ h.cssClass ++ "\">" ++ encodeText text ++ "</span>"

/-- An element of a class that leads to a page. -/
def anchor (h : Highlight) (href text : String) : String :=
  "<a class=\"" ++ h.cssClass ++ "\" href=\"" ++ encodeAttribute href ++ "\">" ++
    encodeText text ++ "</a>"

/-- The element of an identifier. -/
def identifierElement (mark : Highlight × Option String) (name : String) : String :=
  match mark.2 with
  | some href => anchor mark.1 href name
  | none => span mark.1 name

/-- The element of a literal. -/
def literalElement (literal : Literal) : String :=
  let (h, text) := displayLiteral literal
  span h text

variable {ι : Type}

/-- What one event does to a canvas, where `marks` are the highlights of identifiers. -/
def drawEvent (marks : ι → Highlight × Option String) (c : Canvas) : EventOf ι → Canvas
  | .start _ | .finish _ | .comment _ _ | .directive _ _ => c
  | .indent => c.deepen
  | .unindent => c.rise
  | .space => c.write " "
  | .newLine => c.newLine
  | .keyword word => c.write (span .keyword word)
  | .identifier id name => c.write (identifierElement (marks id) name)
  | .primitiveType word => c.write (span .typeReference word)
  | .value literal => c.write (literalElement literal)
  | .token text => c.write (encodeText text)

/-- What events do to a canvas, one after the other. -/
def draw (marks : ι → Highlight × Option String) (c : Canvas) (events : List (EventOf ι)) :
    Canvas :=
  events.foldl (drawEvent marks) c

/-- The highlights of the identifiers of a tree. -/
def marksOf (links : Links) (t : Tree) (id : NodeId) : Highlight × Option String :=
  classify links t (some id)

/-- The canvas after a node of a tree has been drawn on it. -/
def drawNode (links : Links) (o : Options) (t : Tree) (id : NodeId) (c : Canvas) : Canvas :=
  draw (marksOf links t) c (events o (t.branch id))

/-- A tree as HTML, in its container. -/
def render (links : Links) (o : Options) (t : Tree) : String :=
  ((drawNode links o t Tree.root (Canvas.blank.put "<div class=\"code\">")).put "</div>").output

end CodeView.Html
