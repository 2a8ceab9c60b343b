import CodeView.Interface.Rule

/-!
# Cutting a tree down to its interface

`prune` goes through a tree once, from the root down, and cuts nodes off on the way. It looks at the
tree as the cuts so far have left it, and never at what stands below a cut node.

* a declaration goes by the removal rule of its kind;
* the first getter and setter of a property go by the accessor rule;
* the first body of a method, constructor or accessor goes;
* of a node whose attributes are filtered, noise attributes go, and so do sections left without any
  attribute. Filtered are the declarations that have a removal rule, the first getter and setter of
  a property, and the first adder and remover of an event.

A `Pass` is the tree under way together with the cuts made in it.
-/

namespace CodeView.Interface

open CodeView.Syntax

/-- Why a node is cut off. -/
inductive Reason where
  | declaration
  | accessor
  | noiseAttribute
  | spentSection
  | body
  deriving DecidableEq, Repr

/-- A node that is cut off. -/
structure Cut where
  reason : Reason
  node : NodeId
  deriving DecidableEq, Repr

/-! ## Single decisions -/

/-- The simple name of an attribute: that of its type, of which the last segment counts. -/
def attributeName? (t : Tree) (a : NodeId) : Option String :=
  match t.childWithRole? a .type with
  | none => none
  | some type =>
    match t.kind type with
    | .simpleType | .memberType => t.name? type
    | _ => none

/-- Whether an attribute is left out. -/
def isNoise (p : Policy) (t : Tree) (a : NodeId) : Bool :=
  match attributeName? t a with
  | some name => p.isNoise name
  | none => false

/-- Whether the removal rule of its kind removes a declaration. -/
def isRemoved (p : Policy) (t : Tree) (node : NodeId) : Bool :=
  match removalRule (t.kind node) with
  | none => false
  | some rule =>
    rule.removes (t.kind node).modifiers (t.childWithRole? node .privateImplementationType).isSome
      (t.name? node == some p.target)

/-- Whether the accessor rule removes a getter or setter. -/
def isHidden (t : Tree) (accessor : NodeId) : Bool :=
  accessorRule.removes (t.kind accessor).modifiers false false

/-- Whether a kind is that of a property. -/
def isProperty : Kind → Bool
  | .propertyDecl _ => true
  | _ => false

/-- Whether a kind is that of an event with accessors. -/
def isCustomEvent : Kind → Bool
  | .customEventDecl _ => true
  | _ => false

/-! ## The pass -/

/-- A tree that is being cut down, and the cuts made so far, the latest first. -/
structure Pass where
  tree : Tree
  cuts : List Cut

namespace Pass

/-- Cuts a node off. -/
def cut (s : Pass) (reason : Reason) (node : NodeId) : Pass :=
  ⟨s.tree.detach node, ⟨reason, node⟩ :: s.cuts⟩

/-- Drops an attribute if it is noise. -/
def dropNoise (p : Policy) (s : Pass) (a : NodeId) : Pass :=
  if isNoise p s.tree a then s.cut .noiseAttribute a else s

/-- Drops a section that has no attribute. -/
def dropSpent (s : Pass) (attributeSection : NodeId) : Pass :=
  if (s.tree.childWithRole? attributeSection .attributes).isNone then
    s.cut .spentSection attributeSection
  else s

/-- Drops the noise of a section, and the section if nothing is left of it. -/
def filterSection (p : Policy) (s : Pass) (attributeSection : NodeId) : Pass :=
  ((s.tree.childrenWithRole attributeSection .attributes).foldl (dropNoise p) s).dropSpent
    attributeSection

/-- Filters the attributes of a node, section by section. -/
def filterAttributes (p : Policy) (s : Pass) (node : NodeId) : Pass :=
  (s.tree.childrenWithRole node .attributes).foldl (filterSection p) s

/-- Drops the first accessor of a property that has a role, or filters its attributes. -/
def filterGetSet (p : Policy) (property : NodeId) (s : Pass) (role : Role) : Pass :=
  match s.tree.childWithRole? property role with
  | none => s
  | some accessor =>
    if isHidden s.tree accessor then s.cut .accessor accessor else s.filterAttributes p accessor

/-- Filters the attributes of the first accessor of an event that has a role. -/
def filterAddRemove (p : Policy) (event : NodeId) (s : Pass) (role : Role) : Pass :=
  match s.tree.childWithRole? event role with
  | none => s
  | some accessor => s.filterAttributes p accessor

/-- Filters the accessors of a property or event. -/
def filterAccessors (p : Policy) (s : Pass) (node : NodeId) : Pass :=
  if isProperty (s.tree.kind node) then [Role.getter, Role.setter].foldl (filterGetSet p node) s
  else if isCustomEvent (s.tree.kind node) then
    [Role.addAccessor, Role.removeAccessor].foldl (filterAddRemove p node) s
  else s

/-- Filters the attributes and accessors of a node that has a removal rule. -/
def filterDeclaration (p : Policy) (s : Pass) (node : NodeId) : Pass :=
  if (removalRule (s.tree.kind node)).isSome then
    (s.filterAttributes p node).filterAccessors p node
  else s

/-- Drops the first body of a member that shows none. -/
def dropBody (s : Pass) (node : NodeId) : Pass :=
  if losesBody (s.tree.kind node) then
    match s.tree.childWithRole? node .body with
    | none => s
    | some body => s.cut .body body
  else s

/-- What a node that stays loses of its own. -/
def trim (p : Policy) (s : Pass) (node : NodeId) : Pass :=
  (s.filterDeclaration p node).dropBody node

/-- Cuts a node off, or trims it and goes on with its children, for at most `levels` levels. -/
def visit (p : Policy) : Nat → Pass → NodeId → Pass
  | 0, s, _ => s
  | levels + 1, s, node =>
    if isRemoved p s.tree node then s.cut .declaration node
    else
      let s := s.trim p node
      (s.tree.children node).foldl (visit p levels) s

/-- A pass before the first cut. -/
def start (t : Tree) : Pass := ⟨t, []⟩

/-- The whole pass through a tree. No path is longer than the store. -/
def run (p : Policy) (t : Tree) : Pass :=
  (start t).visit p t.size Tree.root

end Pass

/-! ## The interface of a tree -/

/-- How many nodes were cut off, by reason. -/
structure Summary where
  declarations : Nat
  accessors : Nat
  attributes : Nat
  attributeSections : Nat
  bodies : Nat
  deriving DecidableEq, Repr

namespace Summary

/-- The number of cuts of each reason. -/
def ofCuts (list : List Cut) : Summary :=
  let count (r : Reason) := list.countP fun c => c.reason == r
  { declarations := count .declaration
    accessors := count .accessor
    attributes := count .noiseAttribute
    attributeSections := count .spentSection
    bodies := count .body }

/-- Whether nothing was cut off. -/
def isEmpty (s : Summary) : Bool :=
  s == ⟨0, 0, 0, 0, 0⟩

end Summary

/-- Cuts a tree down to its interface. -/
def prune (p : Policy) (t : Tree) : Tree × Summary :=
  let s := Pass.run p t
  (s.tree, .ofCuts s.cuts)

end CodeView.Interface
