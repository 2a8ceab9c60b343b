import CodeView.Layout.Write

/-!
# What a node puts in the places of its children

The parts of a node are decided by the roles and kinds of its children and by which of them are
simple; the reference to the node and whatever stands for a child are only put in their places.

* `map_content`: other references and something else that stands for the children change the parts
  in the same way.
* `Printed`: the events of a node, as lists. `print` prints a branch in terms of what its children
  print, and `write` puts just that in front of whatever follows (`write_eq`, `events_eq`).
* `print_map`: a print with other references is made of the children's prints with other references.
-/

namespace CodeView.Layout

open CodeView.Syntax

variable {ι κ α β : Type}

/-- Something else that stands for the same child. -/
def Child.map (f : α → β) (k : Child α) : Child β :=
  ⟨k.role, k.kind, k.isSimple, f k.text⟩

/-- The same event, with other references to nodes. -/
@[simp] def EventOf.map (r : ι → κ) : EventOf ι → EventOf κ
  | .start id => .start (r id)
  | .finish id => .finish (r id)
  | .indent => .indent
  | .unindent => .unindent
  | .space => .space
  | .newLine => .newLine
  | .comment form content => .comment form content
  | .directive word argument => .directive word argument
  | .keyword word => .keyword word
  | .identifier id name => .identifier (r id) name
  | .primitiveType word => .primitiveType word
  | .value literal => .value literal
  | .token text => .token text

/-- The same part, with other references to nodes and something else that stands for the child. -/
def Part.map (r : ι → κ) (f : α → β) : Part ι α → Part κ β
  | .event e => .event (e.map r)
  | .node text => .node (f text)
  | .block text style => .block (f text) style

section Map

variable (r : ι → κ) (f : α → β)

@[simp] theorem Child.role_map (k : Child α) : (k.map f).role = k.role := rfl

@[simp] theorem Child.kind_map (k : Child α) : (k.map f).kind = k.kind := rfl

@[simp] theorem Child.isSimple_map (k : Child α) : (k.map f).isSimple = k.isSimple := rfl

@[simp] theorem Child.text_map (k : Child α) : (k.map f).text = f k.text := rfl

@[simp] theorem Part.map_event (e : EventOf ι) : (Part.event e).map r f = .event (e.map r) := rfl

@[simp] theorem Part.map_node (text : α) : (Part.node text).map r f = .node (f text) := rfl

@[simp] theorem Part.map_block (text : α) (style : BraceStyle) :
    (Part.block text style).map r f = .block (f text) style := rfl

/-! ## Helpers that write no child -/

@[simp] theorem map_spaceIf (wanted : Bool) :
    (spaceIf wanted).map (Part.map r f) = spaceIf wanted := by
  unfold spaceIf
  split <;> rfl

@[simp] theorem map_operator (o : Options) (text : String) :
    (operator o text).map (Part.map r f) = operator o text := by
  simp [operator]

@[simp] theorem map_openBrace (style : Option BraceStyle) :
    (openBrace style).map (Part.map r f) = openBrace style := by
  rcases style with _ | _ | _ <;> rfl

@[simp] theorem map_closeBrace : closeBrace.map (Part.map r f) = closeBrace := rfl

@[simp] theorem map_braced (style : Option BraceStyle) (inside : List (Part ι α)) :
    (braced style inside).map (Part.map r f) = braced style (inside.map (Part.map r f)) := by
  simp [braced]

@[simp] theorem map_modifierWords (m : Modifiers) :
    (modifierWords m).map (Part.map r f) = modifierWords m := by
  simp [modifierWords, List.map_flatMap]

/-! ## Helpers that write children -/

variable (kids : List (Child α))

@[simp] theorem withRole_map (role : Role) :
    withRole role (kids.map (Child.map f)) = (withRole role kids).map (Child.map f) := by
  unfold withRole
  rw [List.filter_map]
  rfl

@[simp] theorem first?_map (role : Role) :
    first? role (kids.map (Child.map f)) = (first? role kids).map (Child.map f) := by
  unfold first?
  rw [List.find?_map]
  rfl

@[simp] theorem map_child (role : Role) :
    (child role kids).map (Part.map r f) = child role (kids.map (Child.map f)) := by
  unfold child
  rw [first?_map]
  cases first? role kids <;> rfl

theorem map_separated (between : List (Part ι α)) :
    (separated between kids).map (Part.map r f) =
      separated (between.map (Part.map r f)) (kids.map (Child.map f)) := by
  fun_induction separated between kids with
  | case1 => rfl
  | case2 k => rfl
  | case3 k rest hne ih =>
    obtain ⟨d, rest, rfl⟩ := List.exists_cons_of_ne_nil hne
    rw [List.map_append, ih, List.map_cons, List.map_cons (l := d :: rest), separated]
    · rfl
    · simp

@[simp] theorem map_commaSeparated (o : Options) :
    (commaSeparated o kids).map (Part.map r f) = commaSeparated o (kids.map (Child.map f)) := by
  unfold commaSeparated
  rw [map_separated]
  simp

@[simp] theorem map_dotted :
    (dotted kids).map (Part.map r f) = dotted (kids.map (Child.map f)) := by
  unfold dotted
  rw [map_separated]
  simp

@[simp] theorem map_inParentheses (o : Options) :
    (inParentheses o kids).map (Part.map r f) = inParentheses o (kids.map (Child.map f)) := by
  simp [inParentheses]

@[simp] theorem map_inAngles (o : Options) :
    (inAngles o kids).map (Part.map r f) = inAngles o (kids.map (Child.map f)) := by
  unfold inAngles
  rw [List.isEmpty_map]
  split <;> simp

@[simp] theorem map_attributeLines :
    (attributeLines kids).map (Part.map r f) = attributeLines (kids.map (Child.map f)) := by
  simp [attributeLines, List.map_flatMap, List.flatMap_map]

@[simp] theorem map_nameOf :
    (nameOf kids).map (Part.map r f) = nameOf (kids.map (Child.map f)) := by
  simp [nameOf]

@[simp] theorem map_typeArguments (o : Options) :
    (typeArguments o kids).map (Part.map r f) = typeArguments o (kids.map (Child.map f)) := by
  simp [typeArguments]

@[simp] theorem map_initializer (o : Options) :
    (initializer o kids).map (Part.map r f) = initializer o (kids.map (Child.map f)) := by
  unfold initializer
  rw [first?_map]
  cases first? .initializer kids <;> simp

@[simp] theorem map_implementedInterface :
    (implementedInterface kids).map (Part.map r f) =
      implementedInterface (kids.map (Child.map f)) := by
  unfold implementedInterface
  rw [first?_map]
  cases first? .privateImplementationType kids <;> rfl

@[simp] theorem map_variableList (o : Options) :
    (variableList o kids).map (Part.map r f) = variableList o (kids.map (Child.map f)) := by
  simp [variableList]

@[simp] theorem map_bodyOrEnd (style : BraceStyle) :
    (bodyOrEnd style kids).map (Part.map r f) = bodyOrEnd style (kids.map (Child.map f)) := by
  unfold bodyOrEnd
  rw [first?_map]
  cases first? .body kids <;> rfl

/-! ## Lists of members and statements -/

@[simp] theorem map_rootMembers (before : Option Kind) :
    (rootMembers before kids).map (Part.map r f) =
      rootMembers before (kids.map (Child.map f)) := by
  induction kids generalizing before with
  | nil => rfl
  | cons k kids ih =>
    simp only [List.map_cons, rootMembers, ← ih, Child.kind_map, Child.text_map]
    by_cases hk : k.kind.isTrivia = true
    · simp [hk]
    · cases before with
      | none => simp [hk]
      | some kind => by_cases hu : kind = .usingDecl ∧ k.kind = .usingDecl <;> simp [hk, hu]

@[simp] theorem map_members (o : Options) (first : Bool) :
    (members o first kids).map (Part.map r f) = members o first (kids.map (Child.map f)) := by
  induction kids generalizing first with
  | nil => rfl
  | cons k kids ih =>
    rw [List.map_cons, members, members, Child.role_map]
    split
    · simp [ih]
    · cases first <;> simp [ih]
    · exact ih first

@[simp] theorem map_enumMembers :
    (enumMembers kids).map (Part.map r f) = enumMembers (kids.map (Child.map f)) := by
  fun_induction enumMembers kids with
  | case1 => rfl
  | case2 k => rfl
  | case3 k rest hne ih =>
    obtain ⟨d, rest, rfl⟩ := List.exists_cons_of_ne_nil hne
    rw [List.map_append, ih, List.map_cons (l := d :: rest), enumMembers]
    · rfl
    · simp

@[simp] theorem map_accessors (o : Options) :
    (accessors o kids).map (Part.map r f) = accessors o (kids.map (Child.map f)) := by
  have hlist : (kids.map (Child.map f)).filter (fun k => k.role == .getter || k.role == .setter) =
      (kids.filter fun k => k.role == .getter || k.role == .setter).map (Child.map f) := by
    rw [List.filter_map]
    rfl
  have hall : ∀ list : List (Child α),
      (list.map (Child.map f)).all Child.isSimple = list.all Child.isSimple := by
    intro list
    rw [List.all_map]
    rfl
  simp only [accessors, hlist, hall]
  split <;> simp [List.map_flatMap, List.flatMap_map]

@[simp] theorem map_eventAccessors :
    (eventAccessors kids).map (Part.map r f) = eventAccessors (kids.map (Child.map f)) := by
  unfold eventAccessors
  rw [List.map_flatMap]
  congr 1
  funext role
  rw [first?_map]
  cases first? role kids <;> rfl

@[simp] theorem map_blockContent (style : Option BraceStyle) :
    (blockContent kids style).map (Part.map r f) = blockContent (kids.map (Child.map f)) style := by
  unfold blockContent
  rw [map_braced, List.filter_map, List.map_map, List.map_map]
  rfl

@[simp] theorem map_leavingStatement (word : String) :
    (leavingStatement word kids).map (Part.map r f) =
      leavingStatement word (kids.map (Child.map f)) := by
  unfold leavingStatement
  rw [first?_map]
  cases first? .expression kids <;> rfl

theorem map_embedded (o : Options) (k : Child α) :
    (embedded o k).map (Part.map r f) = embedded o (k.map f) := by
  unfold embedded
  rw [Child.kind_map]
  split <;> rfl

theorem map_trueBranch (o : Options) :
    (trueBranch o kids).map (List.map (Part.map r f)) id =
      trueBranch o (kids.map (Child.map f)) := by
  unfold trueBranch
  rw [first?_map]
  cases first? .trueStatement kids with
  | none => rfl
  | some k => exact Prod.ext (map_embedded r f o k) rfl

theorem map_falseBranch (o : Options) (lineOpen : Bool) :
    (falseBranch o kids lineOpen).map (Part.map r f) =
      falseBranch o (kids.map (Child.map f)) lineOpen := by
  unfold falseBranch
  rw [first?_map]
  cases first? .falseStatement kids with
  | none => cases lineOpen <;> rfl
  | some k =>
    by_cases h1 : k.kind = .ifElse
    · simp [h1]
    · by_cases h2 : k.kind = .block <;> simp [h1, h2, map_embedded]

@[simp] theorem map_ifElse (o : Options) :
    (ifElse o kids).map (Part.map r f) = ifElse o (kids.map (Child.map f)) := by
  unfold ifElse
  rw [← map_trueBranch r]
  simp [map_falseBranch]

@[simp] theorem map_typedHeader (m : Modifiers) :
    (typedHeader m kids).map (Part.map r f) = typedHeader m (kids.map (Child.map f)) := by
  simp [typedHeader]

@[simp] theorem map_eventHeader (m : Modifiers) :
    (eventHeader m kids).map (Part.map r f) = eventHeader m (kids.map (Child.map f)) := by
  simp [eventHeader]

/-- **Naturality.** The parts of a node follow the reference to it and whatever stands for its
children. -/
theorem map_content (o : Options) (id : ι) (kind : Kind) :
    (content o id kids kind).map (Part.map r f) =
      content o (r id) (kids.map (Child.map f)) kind := by
  cases kind with
  | typeDecl form m =>
    simp only [content, withRole_map, List.isEmpty_map]
    split <;> split <;> simp
  | attributeSection target => cases target <;> simp [content]
  | attributeUse =>
    simp only [content, withRole_map, List.isEmpty_map]
    split <;> simp
  | parameterDecl passing =>
    cases passing <;> simp [content, List.map_flatMap, List.flatMap_map]
  | composedType nullable rank => cases nullable <;> simp [content, List.map_flatten]
  | unaryOp op trailing => cases trailing <;> simp [content]
  | _ => simp [content]

end Map

/-! ## Events as lists -/

/-- The events of a node, by its own rules and as the block of a construct. -/
structure Printed (ι : Type) where
  own : List (EventOf ι)
  asBlock : BraceStyle → List (EventOf ι)

/-- The events of a part. -/
def Part.events : Part ι (Printed ι) → List (EventOf ι)
  | .event e => [e]
  | .node p => p.own
  | .block p style => p.asBlock style

namespace Printed

/-- The print of a node whose children have been printed. -/
def node (o : Options) (id : ι) (kids : List (Child (Printed ι))) (kind : Kind) : Printed ι where
  own := .start id :: (content o id kids kind).flatMap Part.events ++ [.finish id]
  asBlock style :=
    .start id :: (blockContent kids (some style)).flatMap Part.events ++ [.finish id]

/-- The same print, with other references to nodes. -/
def map (r : ι → κ) (p : Printed ι) : Printed κ :=
  ⟨p.own.map (EventOf.map r), fun style => (p.asBlock style).map (EventOf.map r)⟩

theorem map_events (r : ι → κ) (part : Part ι (Printed ι)) :
    part.events.map (EventOf.map r) = (part.map r (Printed.map r)).events := by
  cases part <;> rfl

theorem map_flatMap_events (r : ι → κ) (parts : List (Part ι (Printed ι))) :
    (parts.flatMap Part.events).map (EventOf.map r) =
      (parts.map (Part.map r (Printed.map r))).flatMap Part.events := by
  rw [List.map_flatMap, List.flatMap_map]
  congr 1
  funext part
  exact map_events r part

/-- The print of a node follows the references. -/
theorem map_node (r : ι → κ) (o : Options) (id : ι) (kids : List (Child (Printed ι)))
    (kind : Kind) :
    (node o id kids kind).map r = node o (r id) (kids.map (Child.map (Printed.map r))) kind := by
  have hown : (node o id kids kind).own.map (EventOf.map r) =
      (node o (r id) (kids.map (Child.map (Printed.map r))) kind).own := by
    simp [node, map_flatMap_events, map_content]
  have hblock : ∀ style, ((node o id kids kind).asBlock style).map (EventOf.map r) =
      (node o (r id) (kids.map (Child.map (Printed.map r))) kind).asBlock style := by
    intro style
    simp [node, map_flatMap_events]
  exact congr (congrArg Printed.mk hown) (funext hblock)

/-- A print, put in front of the events that follow. -/
def before (p : Printed NodeId) : Written :=
  ⟨fun rest => p.own ++ rest, fun style rest => p.asBlock style ++ rest⟩

theorem writeAll_before (parts : List (Part NodeId (Printed NodeId))) (rest : List Event) :
    Part.writeAll (parts.map (Part.map id before)) rest = parts.flatMap Part.events ++ rest := by
  unfold Part.writeAll
  induction parts with
  | nil => rfl
  | cons part parts ih =>
    rw [List.map_cons, List.foldr_cons, ih, List.flatMap_cons, List.append_assoc]
    cases part with
    | event e => cases e <;> rfl
    | node p => rfl
    | block p style => rfl

theorem writeNode_before (o : Options) (n : NodeId) (kids : List (Child (Printed NodeId)))
    (kind : Kind) (rest : List Event) :
    writeNode o n (kids.map (Child.map before)) kind rest = (node o n kids kind).own ++ rest := by
  have hc := map_content id before kids o n kind
  rw [id_eq] at hc
  unfold writeNode node
  rw [← hc, writeAll_before]
  simp

theorem writeBlock_before (o : Options) (n : NodeId) (kids : List (Child (Printed NodeId)))
    (kind : Kind) (style : BraceStyle) (rest : List Event) :
    writeBlock n (kids.map (Child.map before)) style rest =
      (node o n kids kind).asBlock style ++ rest := by
  unfold writeBlock node
  rw [← map_blockContent id before, writeAll_before]
  simp

end Printed

mutual

/-- Prints a branch. -/
def print (o : Options) : Branch → Child (Printed NodeId)
  | .node id label children =>
    ⟨label.role, label.kind, isSimple (.node id label children),
      .node o id (printAll o children) label.kind⟩

/-- Prints branches one after the other. -/
def printAll (o : Options) : List Branch → List (Child (Printed NodeId))
  | [] => []
  | b :: rest => print o b :: printAll o rest

end

theorem printAll_eq (o : Options) (list : List Branch) : printAll o list = list.map (print o) := by
  induction list with
  | nil => rfl
  | cons b list ih => rw [printAll, ih, List.map_cons]

mutual

/-- Writing a branch is putting its print in front of what follows. -/
theorem write_eq (o : Options) : ∀ b : Branch, write o b = (print o b).map Printed.before
  | .node id label children => by
    have hown := Printed.writeNode_before o id (printAll o children) label.kind
    have hblock := Printed.writeBlock_before o id (printAll o children) label.kind
    rw [write, print, writeAll_eq o children]
    exact congrArg _ (congr (congrArg Written.mk (funext hown)) (funext fun s => funext (hblock s)))

theorem writeAll_eq (o : Options) :
    ∀ list : List Branch, writeAll o list = (printAll o list).map (Child.map Printed.before)
  | [] => rfl
  | b :: rest => by rw [writeAll, printAll, List.map_cons, write_eq o b, writeAll_eq o rest]

end

theorem events_eq (o : Options) (b : Branch) : events o b = (print o b).text.own := by
  unfold events
  rw [write_eq]
  exact List.append_nil _

/-- A print with other references is made of the children's prints with other references. -/
theorem print_map (r : NodeId → κ) (o : Options) (id : NodeId) (label : Label)
    (children : List Branch) :
    (print o (.node id label children)).map (Printed.map r) =
      ⟨label.role, label.kind, isSimple (.node id label children),
        .node o (r id) (children.map fun b => (print o b).map (Printed.map r)) label.kind⟩ := by
  rw [print, printAll_eq]
  unfold Child.map
  rw [Printed.map_node, List.map_map]
  rfl

end CodeView.Layout
