import CodeView.Json.Decode

/-!
# Formatting options

Where braces go, and where spaces and blank lines stand. `Options.fields` is how a settings file
writes them: every option may be absent and then has its usual value.
-/

namespace CodeView.Layout

/-- Where an opening brace goes. -/
inductive BraceStyle where
  | endOfLine
  | nextLine
  deriving DecidableEq, Repr

namespace BraceStyle

/-- The styles in order. -/
def all : List BraceStyle := [.endOfLine, .nextLine]

/-- The name of a style. -/
def label : BraceStyle → String
  | .endOfLine => "end_of_line"
  | .nextLine => "next_line"

/-- Reads a style. -/
def decode : Json.Decoder BraceStyle :=
  Json.name (all.map fun s => (s.label, s))

end BraceStyle

/-- How code is laid out. -/
structure Options where
  typeBraces : BraceStyle := .nextLine
  methodBraces : BraceStyle := .nextLine
  propertyBraces : BraceStyle := .endOfLine
  accessorBraces : BraceStyle := .endOfLine
  statementBraces : BraceStyle := .endOfLine
  spaceBeforeCall : Bool := false
  spaceBeforeMethodParameters : Bool := false
  spaceBeforeConstructorParameters : Bool := false
  spaceBeforeCondition : Bool := true
  spaceAfterComma : Bool := true
  spaceAroundOperators : Bool := true
  blankLinesBetweenMembers : Nat := 1
  accessorsOnOneLine : Bool := true
  deriving DecidableEq, Repr, Inhabited

namespace Options

open Json

/-- The usual options. -/
def usual : Options := {}

/-- The options as fields of a settings file. -/
def fields : Fields Options :=
  .mk <$> .optional "type_brace_style" BraceStyle.decode usual.typeBraces
    <*> .optional "method_brace_style" BraceStyle.decode usual.methodBraces
    <*> .optional "property_brace_style" BraceStyle.decode usual.propertyBraces
    <*> .optional "accessor_brace_style" BraceStyle.decode usual.accessorBraces
    <*> .optional "statement_brace_style" BraceStyle.decode usual.statementBraces
    <*> .optional "space_before_method_call_parentheses" bool usual.spaceBeforeCall
    <*> .optional "space_before_method_declaration_parentheses" bool
      usual.spaceBeforeMethodParameters
    <*> .optional "space_before_constructor_declaration_parentheses" bool
      usual.spaceBeforeConstructorParameters
    <*> .optional "space_before_if_parentheses" bool usual.spaceBeforeCondition
    <*> .optional "space_after_comma" bool usual.spaceAfterComma
    <*> .optional "space_around_operators" bool usual.spaceAroundOperators
    <*> .optional "blank_lines_between_members" (natBelow (Nat.pow 2 64) "usize")
      usual.blankLinesBetweenMembers
    <*> .optional "simple_accessors_on_one_line" bool usual.accessorsOnOneLine

/-- Reads formatting options. -/
def decode : Decoder Options :=
  fields.decode "struct FormattingOptions"

end Options

end CodeView.Layout
