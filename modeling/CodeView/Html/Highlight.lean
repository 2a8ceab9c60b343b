import CodeView.Binary64.Numeral
import CodeView.Syntax.Tree
import CodeView.Text.Escape

/-!
# Highlighting

What a piece of code is to its reader. Keywords and literals know it; an identifier is told by the
annotations of the nearest annotated node around it, which are asked in a fixed order of priority
whatever order they stand in. Only a reference to a type has a link.

* `Highlight.cssClass` is the class of a piece on a page;
* `displayLiteral` is a literal as it is shown, and its highlight;
* `classify` is the highlight of an identifier and its link.
-/

namespace CodeView.Html

open CodeView.Syntax

/-- What a piece of code is. -/
inductive Highlight where
  | unknown
  | typeDeclaration
  | typeReference
  | namespaceReference
  | methodDeclaration
  | methodReference
  | fieldDeclaration
  | fieldReference
  | constructorDeclaration
  | constructorReference
  | propertyDeclaration
  | propertyReference
  | argumentReference
  | keyword
  | nullLiteral
  | stringLiteral
  | numberLiteral
  deriving DecidableEq, Repr

/-- The class of a highlight on a page. -/
def Highlight.cssClass : Highlight → String
  | .unknown => "c-uk"
  | .typeDeclaration => "c-td"
  | .typeReference => "c-tr"
  | .namespaceReference => "c-nr"
  | .methodDeclaration => "c-md"
  | .methodReference => "c-mr"
  | .fieldDeclaration => "c-fd"
  | .fieldReference => "c-fr"
  | .constructorDeclaration => "c-cd"
  | .constructorReference => "c-cr"
  | .propertyDeclaration => "c-pd"
  | .propertyReference => "c-pr"
  | .argumentReference => "c-ar"
  | .keyword => "c-kw"
  | .nullLiteral => "c-nl"
  | .stringLiteral => "c-st"
  | .numberLiteral => "c-nu"

/-! ## Literals -/

/-- A float as it is shown: the shortest digits that read back, in positional notation if the
exponent of the first digit is at least -4 and below 15. -/
def displayFloat (x : Binary64) : String :=
  let sign := if x.isNegative then "-" else ""
  if x.isNaN then "NaN"
  else if x.isInfinite then sign ++ "Infinity"
  else if x.isZero then sign ++ "0"
  else
    let d := x.shortest
    let e := d.leadingExponent
    sign ++ (if e < -4 ∨ 15 ≤ e then d.scientific else d.positional)

/-- A literal as it is shown, and what it is. -/
def displayLiteral : Literal → Highlight × String
  | .null => (.nullLiteral, "null")
  | .bool b => (.nullLiteral, if b then "true" else "false")
  | .string s => (.stringLiteral, Text.quoted s)
  | .char c => (.numberLiteral, String.singleton c)
  | .int n => (.numberLiteral, toString n.toInt)
  | .uint n => (.numberLiteral, toString n.toNat)
  | .float x => (.numberLiteral, displayFloat x)

/-! ## Identifiers -/

/-- Finds the page of a type by its full name. -/
abbrev Links := String → Option String

/-- No type has a page. -/
def noLinks : Links := fun _ => none

/-- The full name of the first type that annotations name. -/
def typeName? : List Annotation → Option String
  | [] => none
  | .type fullName :: _ => some fullName
  | _ :: rest => typeName? rest

/-- The kind of the first member that annotations name. -/
def memberKind? : List Annotation → Option SymbolKind
  | [] => none
  | .member symbol _ :: _ => some symbol
  | _ :: rest => memberKind? rest

/-- The kind of the first variable that annotations name. -/
def variableKind? : List Annotation → Option VariableKind
  | [] => none
  | .localName _ kind :: _ => some kind
  | _ :: rest => variableKind? rest

/-- Whether annotations name a namespace in scope. -/
def namesScope (notes : List Annotation) : Bool :=
  notes.any fun
    | .usingScope _ => true
    | _ => false

/-- Whether annotations name a group of methods. -/
def namesMethodGroup (notes : List Annotation) : Bool :=
  notes.any fun
    | .methodGroup _ => true
    | _ => false

/-- Whether annotations hold a constant. -/
def holdsConstant (notes : List Annotation) : Bool :=
  notes.any fun
    | .constant _ => true
    | _ => false

/-- The highlight of a member on a node of a kind: its declaration, or a reference to it. Events
look like properties. -/
def memberHighlight (symbol : SymbolKind) (kind : Kind) : Highlight :=
  match symbol, kind with
  | .method, .methodDecl _ => .methodDeclaration
  | .method, _ => .methodReference
  | .field, .fieldDecl _ => .fieldDeclaration
  | .field, _ => .fieldReference
  | .constructor, .constructorDecl _ => .constructorDeclaration
  | .constructor, _ => .constructorReference
  | .property, .propertyDecl _ | .event, .propertyDecl _ => .propertyDeclaration
  | .property, _ | .event, _ => .propertyReference

/-- Whether a kind is that of a type declaration. -/
def isTypeDecl : Kind → Bool
  | .typeDecl _ _ => true
  | _ => false

/-- The highlight and the link that the annotations of a node of a kind give. -/
def highlightOf (links : Links) (kind : Kind) (notes : List Annotation) :
    Highlight × Option String :=
  match typeName? notes with
  | some fullName =>
    if isTypeDecl kind then (.typeDeclaration, none) else (.typeReference, links fullName)
  | none =>
    if namesScope notes then (.namespaceReference, none)
    else match memberKind? notes with
      | some symbol => (memberHighlight symbol kind, none)
      | none =>
        if namesMethodGroup notes then (.methodReference, none)
        else match variableKind? notes with
          | some .parameter => (.argumentReference, none)
          | some _ => (.unknown, none)
          | none => if holdsConstant notes then (.fieldReference, none) else (.unknown, none)

/-- The highlight and the link of a node, if there is one. -/
def classify (links : Links) (t : Tree) (node : Option NodeId) : Highlight × Option String :=
  match node.bind t.nearestAnnotated? with
  | none => (.unknown, none)
  | some annotated => highlightOf links (t.kind annotated) (t.annotations annotated)

end CodeView.Html
