import CodeView.Layout.Event
import CodeView.Layout.Options

/-!
# Writing trees

What a node writes is a list of parts: events of its own, and children in their places. `content` is
that list for every kind of node. A child may stand there by its own rules, or as the block of the
construct, which then decides where the brace goes. A node knows of its children no more than a
`Child` says, and puts in their places whatever stands for them.

`Layout.write` turns a branch into a `Written`, which puts the events of the branch in front of
those that follow. A child is written only where its parent has a part for it, however much it would
write.

`Layout.events` are the events of a whole branch.
-/

namespace CodeView.Layout

open CodeView.Syntax

/-- A child as its parent sees it: what it is, and what stands for it in the text. -/
structure Child (α : Type) where
  role : Role
  kind : Kind
  /-- It has neither body nor attributes. -/
  isSimple : Bool
  text : α

/-- A part of what a node writes: an event, or a child by its own rules or as the block of the
construct. -/
inductive Part (ι α : Type) where
  | event (e : EventOf ι)
  | node (text : α)
  | block (text : α) (style : BraceStyle)

variable {ι α : Type}

namespace Part

/-- Text that is neither name nor keyword. -/
abbrev token (text : String) : Part ι α := .event (.token text)

/-- A keyword. -/
abbrev keyword (word : String) : Part ι α := .event (.keyword word)

/-- A space. -/
abbrev space : Part ι α := .event .space

/-- The end of a line. -/
abbrev newLine : Part ι α := .event .newLine

/-- One level deeper from here on. -/
abbrev indent : Part ι α := .event .indent

/-- One level less deep from here on. -/
abbrev unindent : Part ι α := .event .unindent

end Part

/-! ## Finding children -/

/-- The children that have a role. -/
def withRole (role : Role) (kids : List (Child α)) : List (Child α) :=
  kids.filter fun k => k.role == role

/-- The first child that has a role. -/
def first? (role : Role) (kids : List (Child α)) : Option (Child α) :=
  kids.find? fun k => k.role == role

/-- The first child that has a role, if there is one. -/
def child (role : Role) (kids : List (Child α)) : List (Part ι α) :=
  match first? role kids with
  | some k => [.node k.text]
  | none => []

/-! ## Pieces -/

/-- A space, if the option asks for one. -/
def spaceIf (wanted : Bool) : List (Part ι α) :=
  if wanted then [.space] else []

/-- Nodes with parts between them. -/
def separated (between : List (Part ι α)) : List (Child α) → List (Part ι α)
  | [] => []
  | [k] => [.node k.text]
  | k :: rest => .node k.text :: between ++ separated between rest

/-- Nodes with commas between them. -/
def commaSeparated (o : Options) (kids : List (Child α)) : List (Part ι α) :=
  separated (.token "," :: spaceIf o.spaceAfterComma) kids

/-- Nodes with points between them. -/
def dotted (kids : List (Child α)) : List (Part ι α) :=
  separated [.token "."] kids

/-- Nodes with commas between them, in parentheses. -/
def inParentheses (o : Options) (kids : List (Child α)) : List (Part ι α) :=
  .token "(" :: commaSeparated o kids ++ [.token ")"]

/-- Nodes with commas between them, in angle brackets; nothing if there are none. -/
def inAngles (o : Options) (kids : List (Child α)) : List (Part ι α) :=
  if kids.isEmpty then [] else .token "<" :: commaSeparated o kids ++ [.token ">"]

/-- An operator, with spaces around it if the options ask for them. -/
def operator (o : Options) (text : String) : List (Part ι α) :=
  spaceIf o.spaceAroundOperators ++ .token text :: spaceIf o.spaceAroundOperators

/-- An opening brace and the line break after it. -/
def openBrace (style : Option BraceStyle) : List (Part ι α) :=
  let lead : List (Part ι α) := match style with
    | some .endOfLine => [.space]
    | some .nextLine => [.newLine]
    | none => []
  lead ++ [.token "\x7b", .indent, .newLine]

/-- A closing brace. -/
def closeBrace : List (Part ι α) :=
  [.unindent, .token "\x7d"]

/-- Parts between braces. -/
def braced (style : Option BraceStyle) (inside : List (Part ι α)) : List (Part ι α) :=
  openBrace style ++ inside ++ closeBrace

/-- Modifier keywords, each with a space after it. -/
def modifierWords (m : Modifiers) : List (Part ι α) :=
  m.keywords.flatMap fun word => [.keyword word, .space]

/-- Attribute sections, each on a line of its own. -/
def attributeLines (kids : List (Child α)) : List (Part ι α) :=
  (withRole .attributes kids).flatMap fun k => [.node k.text, .newLine]

/-- The name of a node. -/
def nameOf (kids : List (Child α)) : List (Part ι α) :=
  child .name kids

/-- Type arguments of a name, if there are any. -/
def typeArguments (o : Options) (kids : List (Child α)) : List (Part ι α) :=
  inAngles o (withRole .typeArgument kids)

/-- A value after an equals sign, if there is one. -/
def initializer (o : Options) (kids : List (Child α)) : List (Part ι α) :=
  match first? .initializer kids with
  | some k => operator o "=" ++ [.node k.text]
  | none => []

/-- The interface of an explicitly implemented member, if it is one. -/
def implementedInterface (kids : List (Child α)) : List (Part ι α) :=
  match first? .privateImplementationType kids with
  | some k => [.node k.text, .token "."]
  | none => []

/-- The declared variables. -/
def variableList (o : Options) (kids : List (Child α)) : List (Part ι α) :=
  commaSeparated o (withRole .variables kids)

/-- The body of a member, or a semicolon if it has none. -/
def bodyOrEnd (style : BraceStyle) (kids : List (Child α)) : List (Part ι α) :=
  match first? .body kids with
  | some k => [.block k.text style]
  | none => [.token ";"]

/-! ## Lists of members -/

/-- The nodes below a root: blank lines between them, except between two using declarations.
Comments and directives stand where they are and are not counted. -/
def rootMembers (before : Option Kind) : List (Child α) → List (Part ι α)
  | [] => []
  | k :: rest =>
    if k.kind.isTrivia then .node k.text :: rootMembers before rest
    else
      let lead : List (Part ι α) := match before with
        | none => []
        | some kind => if kind = .usingDecl ∧ k.kind = .usingDecl then [] else [.newLine]
      lead ++ .node k.text :: rootMembers (some k.kind) rest

/-- The members of a type or namespace, with blank lines between them. -/
def members (o : Options) (first : Bool) : List (Child α) → List (Part ι α)
  | [] => []
  | k :: rest =>
    match k.role with
    | .comment => .node k.text :: members o first rest
    | .member =>
      let lead := if first then [] else List.replicate o.blankLinesBetweenMembers .newLine
      lead ++ .node k.text :: members o false rest
    | _ => members o first rest

/-- The members of an enumeration: one a line, with commas between them. -/
def enumMembers : List (Child α) → List (Part ι α)
  | [] => []
  | [k] => [.node k.text, .newLine]
  | k :: rest => [.node k.text, .token ",", .newLine] ++ enumMembers rest

/-- The accessors of a property, on one line if they are simple and the options allow it. -/
def accessors (o : Options) (kids : List (Child α)) : List (Part ι α) :=
  let list := kids.filter fun k => k.role == .getter || k.role == .setter
  if o.accessorsOnOneLine && list.all Child.isSimple then
    [.space, .token "\x7b"] ++ list.flatMap (fun k => [.space, .node k.text]) ++
      [.space, .token "\x7d"]
  else
    braced (some o.propertyBraces) (list.flatMap fun k => [.node k.text, .newLine])

/-- The accessors of an event, each on a line of its own. -/
def eventAccessors (kids : List (Child α)) : List (Part ι α) :=
  [Role.addAccessor, Role.removeAccessor].flatMap fun role =>
    match first? role kids with
    | some k => [.node k.text, .newLine]
    | none => []

/-- The statements and comments of a block, between braces. -/
def blockContent (kids : List (Child α)) (style : Option BraceStyle) : List (Part ι α) :=
  braced style
    ((kids.filter fun k => k.role == .statement || k.role == .comment).map fun k => .node k.text)

/-! ## Statements -/

/-- A keyword, a value if there is one, and a semicolon. -/
def leavingStatement (word : String) (kids : List (Child α)) : List (Part ι α) :=
  let value := match first? .expression kids with
    | some k => [.space, .node k.text]
    | none => []
  .keyword word :: value ++ [.token ";", .newLine]

/-- A branch of an `if`: a block after the construct, or a statement on a line of its own. After a
block the line is still open. -/
def embedded (o : Options) (k : Child α) : List (Part ι α) :=
  if k.kind = .block then [.block k.text o.statementBraces]
  else [.newLine, .indent, .node k.text, .unindent]

/-- The part of an `if` after its condition, up to the `else`: its parts, and whether they leave
the line open. -/
def trueBranch (o : Options) (kids : List (Child α)) : List (Part ι α) × Bool :=
  match first? .trueStatement kids with
  | some k => (embedded o k, k.kind = .block)
  | none => ([.token ";", .newLine], false)

/-- The part of an `if` from its `else` on. An `if` after an `else` stays on the line. -/
def falseBranch (o : Options) (kids : List (Child α)) (lineOpen : Bool) : List (Part ι α) :=
  match first? .falseStatement kids with
  | none => if lineOpen then [.newLine] else []
  | some k =>
    let tail :=
      if k.kind = .ifElse then [.space, .node k.text]
      else embedded o k ++ (if k.kind = .block then [.newLine] else [])
    spaceIf lineOpen ++ .keyword "else" :: tail

/-- An `if` statement. -/
def ifElse (o : Options) (kids : List (Child α)) : List (Part ι α) :=
  let (taken, lineOpen) := trueBranch o kids
  .keyword "if" :: spaceIf o.spaceBeforeCondition ++ .token "(" :: child .condition kids ++
    .token ")" :: taken ++ falseBranch o kids lineOpen

/-! ## Nodes -/

/-- The header of a member up to its type: attributes, modifiers and type. -/
def typedHeader (m : Modifiers) (kids : List (Child α)) : List (Part ι α) :=
  attributeLines kids ++ modifierWords m ++ child .type kids ++ [.space]

/-- The header of an event up to its type. -/
def eventHeader (m : Modifiers) (kids : List (Child α)) : List (Part ι α) :=
  attributeLines kids ++ modifierWords m ++ [.keyword "event", .space] ++ child .type kids ++
    [.space]

/-- What a node writes between its start and its finish. -/
def content (o : Options) (id : ι) (kids : List (Child α)) : Kind → List (Part ι α)
  | .syntaxTree => rootMembers none kids
  | .usingDecl =>
    [.keyword "using", .space] ++ dotted (withRole .name kids) ++ [.token ";", .newLine]
  | .namespaceDecl =>
    [.keyword "namespace", .space] ++ dotted (withRole .name kids) ++
      braced (some o.typeBraces) (members o true kids) ++ [.newLine]
  | .typeDecl form m =>
    let bases := withRole .baseType kids
    attributeLines kids ++ modifierWords m ++ [.keyword form.keyword, .space] ++ nameOf kids ++
      inAngles o (withRole .typeParameter kids) ++
      (if bases.isEmpty then []
        else [.space, .token ":", .space] ++ commaSeparated o bases) ++
      braced (some o.typeBraces)
        (if form = .enumType then enumMembers (withRole .member kids) else members o true kids) ++
      [.newLine]
  | .enumMember => attributeLines kids ++ nameOf kids ++ initializer o kids
  | .methodDecl m =>
    typedHeader m kids ++ implementedInterface kids ++ nameOf kids ++
      inAngles o (withRole .typeParameter kids) ++ spaceIf o.spaceBeforeMethodParameters ++
      inParentheses o (withRole .parameter kids) ++ bodyOrEnd o.methodBraces kids ++ [.newLine]
  | .constructorDecl m =>
    attributeLines kids ++ modifierWords m ++ nameOf kids ++
      spaceIf o.spaceBeforeConstructorParameters ++ inParentheses o (withRole .parameter kids) ++
      bodyOrEnd o.methodBraces kids ++ [.newLine]
  | .fieldDecl m => typedHeader m kids ++ variableList o kids ++ [.token ";", .newLine]
  | .propertyDecl m =>
    typedHeader m kids ++ implementedInterface kids ++ nameOf kids ++ accessors o kids ++
      [.newLine]
  | .accessor kind m =>
    attributeLines kids ++ modifierWords m ++ .keyword kind.keyword ::
      bodyOrEnd o.accessorBraces kids
  | .eventDecl m => eventHeader m kids ++ variableList o kids ++ [.token ";", .newLine]
  | .customEventDecl m =>
    eventHeader m kids ++ nameOf kids ++ braced (some o.propertyBraces) (eventAccessors kids) ++
      [.newLine]
  | .attributeSection target =>
    let lead : List (Part ι α) := match target with
      | some word => [.keyword word, .token ":", .space]
      | none => []
    .token "[" :: lead ++ commaSeparated o (withRole .attributes kids) ++ [.token "]"]
  | .attributeUse =>
    let arguments := withRole .argument kids
    child .type kids ++ (if arguments.isEmpty then [] else inParentheses o arguments)
  | .parameterDecl passing =>
    let lead : List (Part ι α) := match passing with
      | some p => [.keyword p.keyword, .space]
      | none => []
    (withRole .attributes kids).flatMap (fun k => [.node k.text, .space]) ++ lead ++
      child .type kids ++ [.space] ++ nameOf kids ++ initializer o kids
  | .typeParameterDecl => nameOf kids
  | .variableInitializer => nameOf kids ++ initializer o kids
  | .simpleType => nameOf kids ++ typeArguments o kids
  | .memberType => child .target kids ++ .token "." :: nameOf kids ++ typeArguments o kids
  | .primitiveType word => [.event (.primitiveType word)]
  | .composedType nullable rank =>
    child .type kids ++ (if nullable then [.token "?"] else []) ++
      (List.replicate rank [Part.token "[", Part.token "]"]).flatten
  | .block => blockContent kids none ++ [.newLine]
  | .expressionStmt => child .expression kids ++ [.token ";", .newLine]
  | .returnStmt => leavingStatement "return" kids
  | .throwStmt => leavingStatement "throw" kids
  | .variableDeclStmt =>
    child .type kids ++ [.space] ++ variableList o kids ++ [.token ";", .newLine]
  | .ifElse => ifElse o kids
  | .identifierExpr => nameOf kids ++ typeArguments o kids
  | .memberRef => child .target kids ++ .token "." :: nameOf kids ++ typeArguments o kids
  | .invocation =>
    child .target kids ++ spaceIf o.spaceBeforeCall ++ inParentheses o (withRole .argument kids)
  | .objectCreate =>
    [.keyword "new", .space] ++ child .type kids ++ inParentheses o (withRole .argument kids)
  | .assignment op | .binaryOp op =>
    child .left kids ++ operator o op ++ child .right kids
  | .unaryOp op trailing =>
    if trailing then child .expression kids ++ [.token op]
    else .token op :: child .expression kids
  | .primitiveExpr literal => [.event (.value literal)]
  | .thisRef => [.keyword "this"]
  | .baseRef => [.keyword "base"]
  | .typeRef => child .type kids
  | .parenthesized => .token "(" :: child .expression kids ++ [.token ")"]
  | .cast => .token "(" :: child .type kids ++ .token ")" :: child .expression kids
  | .typeOf => [.keyword "typeof", .token "("] ++ child .type kids ++ [.token ")"]
  | .identifier name => [.event (.identifier id name)]
  | .comment form text => [.event (.comment form text)]
  | .directive word argument => [.event (.directive word argument)]

/-! ## Branches -/

/-- What can be put in front of the events that follow: a node by its own rules, or as the block of
the construct it belongs to. -/
structure Written where
  own : List Event → List Event
  asBlock : BraceStyle → List Event → List Event

/-- The events of a part, in front of those that follow. -/
def Part.write : Part NodeId Written → List Event → List Event
  | .event e, rest => e :: rest
  | .node w, rest => w.own rest
  | .block w style, rest => w.asBlock style rest

/-- The events of parts one after the other, in front of those that follow. -/
def Part.writeAll (parts : List (Part NodeId Written)) (rest : List Event) : List Event :=
  parts.foldr Part.write rest

/-- What a node writes by its own rules, in front of the events that follow. -/
def writeNode (o : Options) (id : NodeId) (kids : List (Child Written)) (kind : Kind)
    (rest : List Event) : List Event :=
  .start id :: Part.writeAll (content o id kids kind) (.finish id :: rest)

/-- What a node writes as the block of a construct, in front of the events that follow. -/
def writeBlock (id : NodeId) (kids : List (Child Written)) (style : BraceStyle)
    (rest : List Event) : List Event :=
  .start id :: Part.writeAll (blockContent kids (some style)) (.finish id :: rest)

/-- Whether a branch has neither body nor attributes. -/
def isSimple (b : Branch) : Bool :=
  (b.first? .body).isNone && (b.first? .attributes).isNone

mutual

/-- Writes a branch. -/
def write (o : Options) : Branch → Child Written
  | .node id label children =>
    let kids := writeAll o children
    { role := label.role
      kind := label.kind
      isSimple := isSimple (.node id label children)
      text := ⟨writeNode o id kids label.kind, writeBlock id kids⟩ }

/-- Writes branches one after the other. -/
def writeAll (o : Options) : List Branch → List (Child Written)
  | [] => []
  | b :: rest => write o b :: writeAll o rest

end

/-- The events of a branch. -/
def events (o : Options) (b : Branch) : List Event :=
  (write o b).text.own []

end CodeView.Layout
