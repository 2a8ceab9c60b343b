import CodeView.Binary64.Basic
import CodeView.Syntax.Modifier

/-!
# Roles and kinds of nodes

A node of a syntax tree has a `Kind`, which says what it is and carries its own data, and a `Role`,
which says what it is to its parent. Literal values and annotations, which tie a node to a symbol of
the program, are here too.

Every enumeration has a `label` or a `keyword` for each alternative, by which dumps refer to it, and
a list `all` of its alternatives in the order in which a message lists them.
-/

namespace CodeView.Syntax

/-! ## Roles -/

/-- What a node is to its parent. -/
inductive Role where
  | root
  | member
  | attributes
  | type
  | name
  | typeParameter
  | typeArgument
  | baseType
  | privateImplementationType
  | parameter
  | body
  | getter
  | setter
  | addAccessor
  | removeAccessor
  | variables
  | initializer
  | statement
  | expression
  | target
  | argument
  | left
  | right
  | condition
  | trueStatement
  | falseStatement
  | comment
  deriving DecidableEq, Repr

namespace Role

/-- The roles in order. -/
def all : List Role :=
  [.root, .member, .attributes, .type, .name, .typeParameter, .typeArgument, .baseType,
    .privateImplementationType, .parameter, .body, .getter, .setter, .addAccessor, .removeAccessor,
    .variables, .initializer, .statement, .expression, .target, .argument, .left, .right,
    .condition, .trueStatement, .falseStatement, .comment]

/-- The name of a role. -/
def label : Role → String
  | .root => "root"
  | .member => "member"
  | .attributes => "attribute"
  | .type => "type"
  | .name => "name"
  | .typeParameter => "type_parameter"
  | .typeArgument => "type_argument"
  | .baseType => "base_type"
  | .privateImplementationType => "private_implementation_type"
  | .parameter => "parameter"
  | .body => "body"
  | .getter => "getter"
  | .setter => "setter"
  | .addAccessor => "add_accessor"
  | .removeAccessor => "remove_accessor"
  | .variables => "variable"
  | .initializer => "initializer"
  | .statement => "statement"
  | .expression => "expression"
  | .target => "target"
  | .argument => "argument"
  | .left => "left"
  | .right => "right"
  | .condition => "condition"
  | .trueStatement => "true_statement"
  | .falseStatement => "false_statement"
  | .comment => "comment"

end Role

/-! ## Small vocabularies of kinds -/

/-- The form of a type declaration. -/
inductive TypeForm where
  | classType
  | structType
  | interfaceType
  | enumType
  deriving DecidableEq, Repr

namespace TypeForm

/-- The forms in order. -/
def all : List TypeForm := [.classType, .structType, .interfaceType, .enumType]

/-- The keyword of a form, which is also its name. -/
def keyword : TypeForm → String
  | .classType => "class"
  | .structType => "struct"
  | .interfaceType => "interface"
  | .enumType => "enum"

end TypeForm

/-- What an accessor does. -/
inductive AccessorKind where
  | getter
  | setter
  | adder
  | remover
  deriving DecidableEq, Repr

namespace AccessorKind

/-- The accessor kinds in order. -/
def all : List AccessorKind := [.getter, .setter, .adder, .remover]

/-- The keyword of an accessor, which is also its name. -/
def keyword : AccessorKind → String
  | .getter => "get"
  | .setter => "set"
  | .adder => "add"
  | .remover => "remove"

end AccessorKind

/-- How an argument is handed to a parameter. -/
inductive Passing where
  | reference
  | output
  | input
  | variadic
  | receiver
  deriving DecidableEq, Repr

namespace Passing

/-- The ways of passing in order. -/
def all : List Passing := [.reference, .output, .input, .variadic, .receiver]

/-- The keyword of a way of passing, which is also its name. -/
def keyword : Passing → String
  | .reference => "ref"
  | .output => "out"
  | .input => "in"
  | .variadic => "params"
  | .receiver => "this"

end Passing

/-- The form of a comment. -/
inductive CommentForm where
  | singleLine
  | multiLine
  | documentation
  deriving DecidableEq, Repr

namespace CommentForm

/-- The comment forms in order. -/
def all : List CommentForm := [.singleLine, .multiLine, .documentation]

/-- The name of a comment form. -/
def label : CommentForm → String
  | .singleLine => "single_line"
  | .multiLine => "multi_line"
  | .documentation => "documentation"

end CommentForm

/-! ## Literals and annotations -/

/-- A literal value. -/
inductive Literal where
  | null
  | bool (b : Bool)
  | string (s : String)
  | char (c : Char)
  | int (n : Int64)
  | uint (n : UInt64)
  | float (x : Binary64)
  deriving DecidableEq, Repr

/-- The kind of a member that an annotation names. -/
inductive SymbolKind where
  | method
  | field
  | constructor
  | property
  | event
  deriving DecidableEq, Repr

namespace SymbolKind

/-- The symbol kinds in order. -/
def all : List SymbolKind := [.method, .field, .constructor, .property, .event]

/-- The name of a symbol kind. -/
def label : SymbolKind → String
  | .method => "method"
  | .field => "field"
  | .constructor => "constructor"
  | .property => "property"
  | .event => "event"

end SymbolKind

/-- The kind of a variable that an annotation names. -/
inductive VariableKind where
  | localVariable
  | parameter
  | exceptionLocal
  | foreachLocal
  | usingLocal
  deriving DecidableEq, Repr

namespace VariableKind

/-- The variable kinds in order. -/
def all : List VariableKind :=
  [.localVariable, .parameter, .exceptionLocal, .foreachLocal, .usingLocal]

/-- The name of a variable kind. -/
def label : VariableKind → String
  | .localVariable => "local"
  | .parameter => "parameter"
  | .exceptionLocal => "exception_local"
  | .foreachLocal => "foreach_local"
  | .usingLocal => "using_local"

end VariableKind

/-- What a node refers to. -/
inductive Annotation where
  | type (fullName : String)
  | usingScope (scope : String)
  | member (symbol : SymbolKind) (fullName : String)
  | methodGroup (name : String)
  | localName (name : String) (kind : VariableKind)
  | constant (value : Literal)
  deriving DecidableEq, Repr

/-! ## Kinds -/

/-- What a node is, with its own data. -/
inductive Kind where
  | syntaxTree
  | usingDecl
  | namespaceDecl
  | typeDecl (form : TypeForm) (modifiers : Modifiers)
  | enumMember
  | methodDecl (modifiers : Modifiers)
  | constructorDecl (modifiers : Modifiers)
  | fieldDecl (modifiers : Modifiers)
  | propertyDecl (modifiers : Modifiers)
  | accessor (kind : AccessorKind) (modifiers : Modifiers)
  | eventDecl (modifiers : Modifiers)
  | customEventDecl (modifiers : Modifiers)
  | attributeSection (target : Option String)
  | attributeUse
  | parameterDecl (passing : Option Passing)
  | typeParameterDecl
  | variableInitializer
  | simpleType
  | memberType
  | primitiveType (keyword : String)
  | composedType (nullable : Bool) (arrayRank : Nat)
  | block
  | expressionStmt
  | returnStmt
  | variableDeclStmt
  | ifElse
  | throwStmt
  | identifierExpr
  | memberRef
  | invocation
  | objectCreate
  | assignment (operator : String)
  | binaryOp (operator : String)
  | unaryOp (operator : String) (trailing : Bool)
  | primitiveExpr (value : Literal)
  | thisRef
  | baseRef
  | typeRef
  | parenthesized
  | cast
  | typeOf
  | identifier (name : String)
  | comment (form : CommentForm) (content : String)
  | directive (word : String) (argument : Option String)
  deriving DecidableEq, Repr

namespace Kind

/-- The name of a kind. -/
def label : Kind → String
  | .syntaxTree => "syntax_tree"
  | .usingDecl => "using_declaration"
  | .namespaceDecl => "namespace_declaration"
  | .typeDecl _ _ => "type_declaration"
  | .enumMember => "enum_member_declaration"
  | .methodDecl _ => "method_declaration"
  | .constructorDecl _ => "constructor_declaration"
  | .fieldDecl _ => "field_declaration"
  | .propertyDecl _ => "property_declaration"
  | .accessor _ _ => "accessor"
  | .eventDecl _ => "event_declaration"
  | .customEventDecl _ => "custom_event_declaration"
  | .attributeSection _ => "attribute_section"
  | .attributeUse => "attribute"
  | .parameterDecl _ => "parameter_declaration"
  | .typeParameterDecl => "type_parameter_declaration"
  | .variableInitializer => "variable_initializer"
  | .simpleType => "simple_type"
  | .memberType => "member_type"
  | .primitiveType _ => "primitive_type"
  | .composedType _ _ => "composed_type"
  | .block => "block_statement"
  | .expressionStmt => "expression_statement"
  | .returnStmt => "return_statement"
  | .variableDeclStmt => "variable_declaration_statement"
  | .ifElse => "if_else_statement"
  | .throwStmt => "throw_statement"
  | .identifierExpr => "identifier_expression"
  | .memberRef => "member_reference_expression"
  | .invocation => "invocation_expression"
  | .objectCreate => "object_create_expression"
  | .assignment _ => "assignment_expression"
  | .binaryOp _ => "binary_operator_expression"
  | .unaryOp _ _ => "unary_operator_expression"
  | .primitiveExpr _ => "primitive_expression"
  | .thisRef => "this_reference_expression"
  | .baseRef => "base_reference_expression"
  | .typeRef => "type_reference_expression"
  | .parenthesized => "parenthesized_expression"
  | .cast => "cast_expression"
  | .typeOf => "type_of_expression"
  | .identifier _ => "identifier"
  | .comment _ _ => "comment"
  | .directive _ _ => "pre_processor_directive"

/-- The modifiers of a kind that has them. -/
def modifiers? : Kind → Option Modifiers
  | .typeDecl _ m | .methodDecl m | .constructorDecl m | .fieldDecl m | .propertyDecl m
  | .accessor _ m | .eventDecl m | .customEventDecl m => some m
  | _ => none

/-- The modifiers of a kind, none if it has no place for them. -/
def modifiers (k : Kind) : Modifiers :=
  k.modifiers?.getD ∅

/-- The text of an identifier. -/
def identifierText? : Kind → Option String
  | .identifier name => some name
  | _ => none

/-- A comment or a directive: text for the reader of the source, not part of the program. -/
def isTrivia : Kind → Bool
  | .comment _ _ | .directive _ _ => true
  | _ => false

end Kind

end CodeView.Syntax
