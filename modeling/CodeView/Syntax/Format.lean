import CodeView.Json.Decode
import CodeView.Syntax.Document

/-!
# The dump format

How documents are written in JSON. A node is an object; its members `role`, `annotations` and
`children` are read as they are met, all others are held back until the object ends. Among the held
ones `kind` names the kind, and the fields that this kind has are read from the rest.

* `Format.document` reads a node with everything below it;
* `Format.kind` reads a kind that stands alone, `Format.note` an annotation and
  `Format.literal` a literal value;
* a kind in a node may also be given by its position in the list of kinds.
-/

namespace CodeView.Syntax.Format

open CodeView.Json

/-! ## Vocabularies -/

/-- Reads a role. -/
def role : Decoder Role :=
  name (Role.all.map fun r => (r.label, r))

/-- Reads the form of a type declaration. -/
def typeForm : Decoder TypeForm :=
  name (TypeForm.all.map fun f => (f.keyword, f))

/-- Reads an accessor kind. -/
def accessorKind : Decoder AccessorKind :=
  name (AccessorKind.all.map fun k => (k.keyword, k))

/-- Reads a way of passing. -/
def passing : Decoder Passing :=
  name (Passing.all.map fun p => (p.keyword, p))

/-- Reads a comment form. -/
def commentForm : Decoder CommentForm :=
  name (CommentForm.all.map fun f => (f.label, f))

/-- Reads a symbol kind. -/
def symbolKind : Decoder SymbolKind :=
  name (SymbolKind.all.map fun k => (k.label, k))

/-- Reads a variable kind. -/
def variableKind : Decoder VariableKind :=
  name (VariableKind.all.map fun k => (k.label, k))

/-- Reads a list of modifier keywords. All are read before the first is looked up. -/
def modifiers : Decoder Modifiers := fun ctx r => do
  let words ← list string ctx r
  match Modifiers.ofKeywords words with
  | .ok m => return m
  | .error word => throw (.unplaced (.rejected ("unknown modifier " ++ ticked word)))

/-- Reads a literal value. -/
def literal : Decoder Literal :=
  variant
    [("null", .unit .null),
      ("bool", .value fun ctx r => (bool ctx r).map .bool),
      ("string", .value fun ctx r => (string ctx r).map .string),
      ("char", .value fun ctx r => (char ctx r).map .char),
      ("int", .value fun ctx r => (int64 ctx r).map .int),
      ("uint", .value fun ctx r => (uint64 ctx r).map .uint),
      ("float", .value fun ctx r => (binary64 ctx r).map .float)]

/-- Reads an annotation. -/
def note : Decoder Annotation :=
  variant
    [("type", .record "struct variant Annotation::Type"
        (.type <$> .required "full_name" string)),
      ("using_scope", .record "struct variant Annotation::UsingScope"
        (.usingScope <$> .required "namespace" string)),
      ("member", .record "struct variant Annotation::Member"
        (.member <$> .required "symbol_kind" symbolKind <*> .required "full_name" string)),
      ("method_group", .record "struct variant Annotation::MethodGroup"
        (.methodGroup <$> .required "name" string)),
      ("variable", .record "struct variant Annotation::Variable"
        (.localName <$> .required "name" string <*> .required "kind" variableKind)),
      ("constant", .record "struct variant Annotation::Constant"
        (.constant <$> .required "value" literal))]

/-! ## Kinds -/

/-- The modifiers of a declaration, none if they are absent. -/
def modifiersField : Fields Modifiers :=
  .optional "modifiers" modifiers ∅

/-- The kinds in order, with the fields of each. -/
def kinds : List (String × Fields Kind) :=
  [("syntax_tree", .pure .syntaxTree),
    ("using_declaration", .pure .usingDecl),
    ("namespace_declaration", .pure .namespaceDecl),
    ("type_declaration",
      .typeDecl <$> .optional "class_kind" typeForm .classType <*> modifiersField),
    ("enum_member_declaration", .pure .enumMember),
    ("method_declaration", .methodDecl <$> modifiersField),
    ("constructor_declaration", .constructorDecl <$> modifiersField),
    ("field_declaration", .fieldDecl <$> modifiersField),
    ("property_declaration", .propertyDecl <$> modifiersField),
    ("accessor", .accessor <$> .required "accessor_kind" accessorKind <*> modifiersField),
    ("event_declaration", .eventDecl <$> modifiersField),
    ("custom_event_declaration", .customEventDecl <$> modifiersField),
    ("attribute_section", .attributeSection <$> .optional "target" (nullable string) none),
    ("attribute", .pure .attributeUse),
    ("parameter_declaration", .parameterDecl <$> .optional "modifier" (nullable passing) none),
    ("type_parameter_declaration", .pure .typeParameterDecl),
    ("variable_initializer", .pure .variableInitializer),
    ("simple_type", .pure .simpleType),
    ("member_type", .pure .memberType),
    ("primitive_type", .primitiveType <$> .required "keyword" string),
    ("composed_type",
      .composedType <$> .optional "nullable" bool false
        <*> .optional "array_rank" (natBelow (Nat.pow 2 32) "u32") 0),
    ("block_statement", .pure .block),
    ("expression_statement", .pure .expressionStmt),
    ("return_statement", .pure .returnStmt),
    ("variable_declaration_statement", .pure .variableDeclStmt),
    ("if_else_statement", .pure .ifElse),
    ("throw_statement", .pure .throwStmt),
    ("identifier_expression", .pure .identifierExpr),
    ("member_reference_expression", .pure .memberRef),
    ("invocation_expression", .pure .invocation),
    ("object_create_expression", .pure .objectCreate),
    ("assignment_expression", .assignment <$> .required "operator" string),
    ("binary_operator_expression", .binaryOp <$> .required "operator" string),
    ("unary_operator_expression",
      .unaryOp <$> .required "operator" string <*> .optional "postfix" bool false),
    ("primitive_expression", .primitiveExpr <$> .required "value" literal),
    ("this_reference_expression", .pure .thisRef),
    ("base_reference_expression", .pure .baseRef),
    ("type_reference_expression", .pure .typeRef),
    ("parenthesized_expression", .pure .parenthesized),
    ("cast_expression", .pure .cast),
    ("type_of_expression", .pure .typeOf),
    ("identifier", .identifier <$> .required "name" string),
    ("comment",
      .comment <$> .optional "comment_kind" commentForm .singleLine
        <*> .required "content" string),
    ("pre_processor_directive",
      .directive <$> .required "directive" string
        <*> .optional "argument" (nullable string) none)]

/-- The fields of the kind with a name. -/
def kindNamed (name : String) : Except Fault (Fields Kind) :=
  match kinds.find? fun k => k.1 == name with
  | some k => .ok k.2
  | none => .error (.unplaced (.unknownVariant name (kinds.map (·.1))))

/-- The fields of the kind that a tag names. In a node the position of the kind will do. -/
def kindTagged (positions : Bool) : Reading → Except Fault (Fields Kind)
  | .scalar _ (.string name) => kindNamed name
  | .scalar _ (.number (.natural n)) =>
    match positions, kinds[n.toNat]? with
    | true, some k => .ok k.2
    | _, _ =>
      .error (.unplaced (.invalidValue ("integer " ++ ticked (toString n.toNat))
        "variant index 0 <= i < 44"))
  | r => .error (mismatch Context.held "variant identifier" r)

/-- What the held members of a node say of its kind: the fields that the tag asks for, and the other
members, last first. -/
structure HeldKind where
  fields : Option (Fields Kind)
  others : List Member

/-- Takes the held members in order and looks for the tag. -/
def findTag (positions : Bool) : List Member → HeldKind → Except Fault HeldKind
  | [], found => .ok found
  | m :: rest, found =>
    if m.isNamed "kind" then
      match found.fields with
      | some _ => .error (.unplaced (.duplicateField "kind"))
      | none => do
        let fields ← kindTagged positions m.value
        findTag positions rest { found with fields := some fields }
    else findTag positions rest { found with others := m :: found.others }

/-- Reads the kind from the held members of a node. -/
def kindOfMembers (positions : Bool) (members : List Member) : Except Fault Kind := do
  let found ← findTag positions members ⟨none, []⟩
  match found.fields with
  | none => throw (.unplaced (.missingField "kind"))
  | some fields => fields.ofMembers Context.held found.others.reverse none

/-- Reads a kind that stands alone, in memory: an object, or an array of the tag and the fields. -/
def kind : Decoder Kind := fun ctx r =>
  match r with
  | .object _ members _ => kindOfMembers false members
  | .array _ [] _ => .error (.unplaced (.missingField "kind"))
  | .array _ (tag :: items) _ => do
    let fields ← kindTagged false tag
    fields.ofItems "a kind" Context.held [] items none
  | _ => .error (mismatch ctx "a kind" r)

/-! ## Nodes -/

/-- What has been read of a node; the held members are last first. -/
structure Draft where
  role : Option Role
  annotations : Option (List Annotation)
  children : Option (List Document)
  held : List Member

/-- A node of which nothing has been read. -/
def Draft.empty : Draft := ⟨none, none, none, []⟩

/-- The node of a draft, once its object has ended. -/
def Draft.finish (draft : Draft) : Except Fault Document := do
  let kind ← kindOfMembers true draft.held.reverse
  return .node ⟨draft.role.getD .member, kind, draft.annotations.getD []⟩ (draft.children.getD [])

/-- The fault of a member that was there before. -/
def repeated (ctx : Context) (key : String) (keyEnd : List Char) : Fault :=
  ctx.fault (.duplicateField key) keyEnd .adrift

mutual

/-- Reads a node with everything below it. -/
def document (ctx : Context) : Reading → Except Fault Document
  | .object span members cut => do
    let inner ← ctx.enter span.before
    let draft ← (nodeMembers inner .empty members).mapError (·.settled leaveObject)
    raiseCut cut
    draft.finish.mapError (·.placedAt ⟨span.after, .past⟩)
  | r => .error (mismatch ctx "struct NodeDocument" r)

/-- Takes the members of a node in order. -/
def nodeMembers (ctx : Context) (draft : Draft) : List Member → Except Fault Draft
  | [] => .ok draft
  | .mk (.error flaw) _ _ :: _ => .error flaw
  | .mk (.ok key) keyEnd value :: rest =>
    match key with
    | "role" =>
      match draft.role with
      | some _ => .error (repeated ctx key keyEnd)
      | none => do
        let r ← role ctx value
        nodeMembers ctx { draft with role := some r } rest
    | "annotations" =>
      match draft.annotations with
      | some _ => .error (repeated ctx key keyEnd)
      | none => do
        let notes ← list note ctx value
        nodeMembers ctx { draft with annotations := some notes } rest
    | "children" =>
      match draft.children with
      | some _ => .error (repeated ctx key keyEnd)
      | none => do
        let nodes ← nodeList ctx value
        nodeMembers ctx { draft with children := some nodes } rest
    | _ => do
      ctx.hold value
      nodeMembers ctx { draft with held := .mk (.ok key) keyEnd value :: draft.held } rest

/-- Reads the children of a node. -/
def nodeList (ctx : Context) : Reading → Except Fault (List Document)
  | .array span items cut => do
    let inner ← ctx.enter span.before
    let nodes ← nodeItems inner items
    raiseCut cut
    return nodes
  | r => .error (mismatch ctx "a sequence" r)

/-- Reads nodes one after the other. -/
def nodeItems (ctx : Context) : List Reading → Except Fault (List Document)
  | [] => .ok []
  | r :: rest => do
    let node ← document ctx r
    let nodes ← nodeItems ctx rest
    return node :: nodes

end

end CodeView.Syntax.Format
