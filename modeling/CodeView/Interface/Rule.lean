import CodeView.Syntax.Tree

/-!
# What the interface view leaves out

A `RemovalRule` says when a declaration is not visible from outside its type; `removalRule` gives
the rule of each kind that has one. A `Policy` fixes the type that is shown and the attributes that
are noise.
-/

namespace CodeView.Interface

open CodeView.Syntax

/-- When a declaration is left out. -/
structure RemovalRule where
  /-- One of these modifiers removes the declaration. -/
  removing : Modifiers
  /-- The explicit implementation of an interface member is removed. -/
  removesExplicit : Bool := false
  /-- A declaration with the name of the shown type is kept. -/
  exemptsTarget : Bool := false
  deriving DecidableEq, Repr

/-- Whether a rule removes a declaration with the given modifiers. -/
def RemovalRule.removes (rule : RemovalRule) (modifiers : Modifiers) (explicit target : Bool) :
    Bool :=
  !(rule.exemptsTarget && target) &&
    (modifiers.meets rule.removing || rule.removesExplicit && explicit)

/-- The modifiers that hide a member from other assemblies. -/
def hidden : Modifiers :=
  .ofList [.privateAccess, .internalAccess]

/-- The rule for accessors of a property, which only their property applies. -/
def accessorRule : RemovalRule := { removing := hidden }

/-- The rule of a kind of declaration. -/
def removalRule : Kind → Option RemovalRule
  | .methodDecl _ => some { removing := hidden ∪ .single .overriding, removesExplicit := true }
  | .constructorDecl _ => some { removing := hidden ∪ .single .staticMember }
  | .fieldDecl _ => some { removing := hidden }
  | .propertyDecl _ => some { removing := hidden, removesExplicit := true }
  | .eventDecl _ | .customEventDecl _ => some { removing := hidden }
  | .typeDecl _ _ => some { removing := .single .privateAccess, exemptsTarget := true }
  | _ => none

/-- Whether a kind of member shows a semicolon in place of its body. -/
def losesBody : Kind → Bool
  | .methodDecl _ | .constructorDecl _ | .accessor _ _ => true
  | _ => false

/-- The attributes that are noise unless settings say otherwise. -/
def usualNoise : List String :=
  ["CLSCompliant", "CompilerGenerated", "EditorBrowsable", "DebuggerDisplay"]

/-- What an interface view is made for: the simple name of the shown type, and the names of the
attributes to leave out. -/
structure Policy where
  target : String
  noise : List String := usualNoise
  deriving DecidableEq, Repr

/-- Whether an attribute of a name is left out. -/
def Policy.isNoise (p : Policy) (name : String) : Bool :=
  p.noise.contains name

end CodeView.Interface
