import Mathlib.Data.List.Flatten
import Mathlib.Data.List.Forall2
import CodeView.Proofs.Layout.Natural

/-!
# What a node shows, apart from spacing and punctuation

The parts of a node are words of its own and children in their places, with spacing and punctuation
around them. Which words and which children these are, and their order, depends on the kind of the
node alone: this is its `outline`. The options and the other children decide only on what stands in
between.

* `Reading`: a way to read events and children that passes over spacing and punctuation.
* `parts_content`: in every such reading, the parts of a node are its outline.
* `content_sublist`: a node with fewer children, each of which shows less, shows less, provided that
  it has no second child where the outline has room for one.
-/

namespace CodeView.Layout

open CodeView.Syntax

/-! ## Outlines -/

/-- A place in what a node shows. -/
inductive Slot where
  /-- A word of its own. -/
  | word (e : EventOf Unit)
  /-- All children with a role that is wanted. -/
  | each (wanted : Role → Bool)
  /-- The first child with a role, if there is one, and words in front of it. It stands there as a
  block where a brace style is given. -/
  | first (role : Role) (lead : List (EventOf Unit)) (style? : Options → Kind → Option BraceStyle)

namespace Slot

/-- The role of which there is room for one child. -/
def role? : Slot → Option Role
  | .first role _ _ => some role
  | _ => none

/-- A keyword. -/
def keyword (text : String) : Slot := .word (.keyword text)

/-- All children with a role. -/
def all (role : Role) : Slot := .each (· == role)

/-- The attributes and modifiers of a declaration. -/
def header (m : Modifiers) : List Slot := all .attributes :: m.keywords.map keyword

/-- The members and comments of a type or namespace. -/
def members : Slot := .each fun role => role == .comment || role == .member

/-- The first child with a role. -/
def child (role : Role) : Slot := .first role [] fun _ _ => none

/-- The body of a member. -/
def body (style : Options → BraceStyle) : Slot := .first .body [] fun o _ => some (style o)

/-- A branch of an `if`. -/
def branch (role : Role) (lead : List (EventOf Unit)) : Slot :=
  .first role lead fun o kind => if kind = .block then some o.statementBraces else none

end Slot

/-- What a node of a kind shows, in order. -/
def outline : Kind → List Slot
  | .syntaxTree => [.each fun _ => true]
  | .usingDecl => [.keyword "using", .all .name]
  | .namespaceDecl => [.keyword "namespace", .all .name, .members]
  | .typeDecl form m =>
    Slot.header m ++ [.keyword form.keyword, .child .name, .all .typeParameter,
      .all .baseType, if form = .enumType then .all .member else .members]
  | .enumMember => [.all .attributes, .child .name, .child .initializer]
  | .methodDecl m =>
    Slot.header m ++ [.child .type, .child .privateImplementationType, .child .name,
      .all .typeParameter, .all .parameter, .body Options.methodBraces]
  | .constructorDecl m =>
    Slot.header m ++ [.child .name, .all .parameter, .body Options.methodBraces]
  | .fieldDecl m => Slot.header m ++ [.child .type, .all .variables]
  | .propertyDecl m =>
    Slot.header m ++ [.child .type, .child .privateImplementationType, .child .name,
      .each fun role => role == .getter || role == .setter]
  | .accessor kind m =>
    Slot.header m ++ [.keyword kind.keyword, .body Options.accessorBraces]
  | .eventDecl m =>
    Slot.header m ++ [.keyword "event", .child .type, .all .variables]
  | .customEventDecl m =>
    Slot.header m ++ [.keyword "event", .child .type, .child .name,
      .child .addAccessor, .child .removeAccessor]
  | .attributeSection target => target.toList.map .keyword ++ [.all .attributes]
  | .attributeUse => [.child .type, .all .argument]
  | .parameterDecl passing =>
    .all .attributes :: passing.toList.map (fun p => .keyword p.keyword) ++
      [.child .type, .child .name, .child .initializer]
  | .typeParameterDecl => [.child .name]
  | .variableInitializer => [.child .name, .child .initializer]
  | .simpleType | .identifierExpr => [.child .name, .all .typeArgument]
  | .memberType | .memberRef => [.child .target, .child .name, .all .typeArgument]
  | .primitiveType word => [.word (.primitiveType word)]
  | .composedType _ _ | .typeRef => [.child .type]
  | .block => [.each fun role => role == .statement || role == .comment]
  | .expressionStmt | .unaryOp _ _ | .parenthesized => [.child .expression]
  | .returnStmt => [.keyword "return", .child .expression]
  | .throwStmt => [.keyword "throw", .child .expression]
  | .variableDeclStmt => [.child .type, .all .variables]
  | .ifElse =>
    [.keyword "if", .child .condition, .branch .trueStatement [],
      .branch .falseStatement [.keyword "else"]]
  | .invocation => [.child .target, .all .argument]
  | .objectCreate => [.keyword "new", .child .type, .all .argument]
  | .assignment _ | .binaryOp _ => [.child .left, .child .right]
  | .primitiveExpr literal => [.word (.value literal)]
  | .thisRef => [.keyword "this"]
  | .baseRef => [.keyword "base"]
  | .cast => [.child .type, .child .expression]
  | .typeOf => [.keyword "typeof", .child .type]
  | .identifier name => [.word (.identifier () name)]
  | .comment form text => [.word (.comment form text)]
  | .directive word argument => [.word (.directive word argument)]

/-- The roles of which a node of a kind shows one child only, the first. -/
def singleRoles (kind : Kind) : List Role :=
  (outline kind).filterMap Slot.role?

/-! ## Readings -/

variable {ι α β : Type}

/-- Events that only arrange what others say. -/
def EventOf.arranges : EventOf ι → Bool
  | .indent | .unindent | .space | .newLine | .token _ => true
  | _ => false

/-- A way to read events, and what stands for children, that passes over spacing and punctuation. -/
structure Reading (ι α β : Type) where
  event : EventOf ι → List β
  own : α → List β
  block : α → BraceStyle → List β
  silent : ∀ e : EventOf ι, e.arranges = true → event e = []

namespace Reading

variable (r : Reading ι α β)

/-- A part, read. -/
def part : Part ι α → List β
  | .event e => r.event e
  | .node text => r.own text
  | .block text style => r.block text style

/-- Parts, read one after the other. -/
def parts (list : List (Part ι α)) : List β := list.flatMap r.part

/-- Children by their own rules, read one after the other. -/
def nodes (kids : List (Child α)) : List β := kids.flatMap fun k => r.own k.text

/-- A child in its place. -/
def place (k : Child α) : Option BraceStyle → List β
  | none => r.own k.text
  | some style => r.block k.text style

/-- A slot of a node, read. -/
def slot (o : Options) (id : ι) (kids : List (Child α)) : Slot → List β
  | .word e => r.event (e.map fun _ => id)
  | .each wanted => r.nodes (kids.filter fun k => wanted k.role)
  | .first role lead style? => (first? role kids).elim [] fun k =>
    lead.flatMap (fun e => r.event (e.map fun _ => id)) ++ r.place k (style? o k.kind)

/-! ### Parts -/

@[simp] theorem parts_nil : r.parts [] = [] := rfl

@[simp] theorem parts_cons (part : Part ι α) (list : List (Part ι α)) :
    r.parts (part :: list) = r.part part ++ r.parts list :=
  List.flatMap_cons

@[simp] theorem parts_append (a b : List (Part ι α)) :
    r.parts (a ++ b) = r.parts a ++ r.parts b :=
  List.flatMap_append

@[simp] theorem event_token (text : String) : r.event (.token text) = [] := r.silent _ rfl

@[simp] theorem event_space : r.event .space = [] := r.silent _ rfl

@[simp] theorem event_newLine : r.event .newLine = [] := r.silent _ rfl

@[simp] theorem event_indent : r.event .indent = [] := r.silent _ rfl

@[simp] theorem event_unindent : r.event .unindent = [] := r.silent _ rfl

@[simp] theorem part_event (e : EventOf ι) : r.part (.event e) = r.event e := rfl

@[simp] theorem part_node (text : α) : r.part (.node text) = r.own text := rfl

@[simp] theorem part_block (text : α) (style : BraceStyle) :
    r.part (.block text style) = r.block text style := rfl

@[simp] theorem nodes_nil : r.nodes [] = [] := rfl

@[simp] theorem nodes_cons (k : Child α) (kids : List (Child α)) :
    r.nodes (k :: kids) = r.own k.text ++ r.nodes kids :=
  List.flatMap_cons

variable {r} (o : Options) (kids : List (Child α))

/-- Children that are written one after the other, each with parts that say nothing. -/
theorem parts_flatMap {f : Child α → List (Part ι α)} (hf : ∀ k, r.parts (f k) = r.own k.text) :
    r.parts (kids.flatMap f) = r.nodes kids := by
  unfold parts nodes
  rw [List.flatMap_assoc]
  congr 1
  funext k
  exact hf k

@[simp] theorem parts_spaceIf (wanted : Bool) : r.parts (spaceIf wanted) = [] := by
  cases wanted <;> simp [spaceIf]

theorem parts_separated {between : List (Part ι α)} (hb : r.parts between = []) :
    r.parts (separated between kids) = r.nodes kids := by
  fun_induction separated between kids with
  | case1 => rfl
  | case2 k => simp
  | case3 k rest _ ih => simp [hb, ih]

@[simp] theorem parts_commaSeparated : r.parts (commaSeparated o kids) = r.nodes kids :=
  parts_separated kids (by simp)

@[simp] theorem parts_dotted : r.parts (dotted kids) = r.nodes kids :=
  parts_separated kids (by simp)

@[simp] theorem parts_inParentheses : r.parts (inParentheses o kids) = r.nodes kids := by
  simp [inParentheses]

@[simp] theorem parts_inAngles : r.parts (inAngles o kids) = r.nodes kids := by
  cases kids <;> simp [inAngles]

/-- What is written of children only if there are any. -/
theorem parts_unlessEmpty [Decidable (kids = [])] {list : List (Part ι α)}
    (h : r.parts list = r.nodes kids) :
    r.parts (if kids = [] then [] else list) = r.nodes kids := by
  split
  · next he => simp [he]
  · exact h

@[simp] theorem parts_brackets (rank : Nat) :
    r.parts (List.replicate rank [.token "[", .token "]"]).flatten = [] := by
  induction rank with
  | zero => rfl
  | succ rank ih => simp [List.replicate_succ, ih]

@[simp] theorem parts_operator (text : String) : r.parts (operator o text) = [] := by
  simp [operator]

@[simp] theorem parts_braced (style : Option BraceStyle) (inside : List (Part ι α)) :
    r.parts (braced style inside) = r.parts inside := by
  unfold braced openBrace closeBrace
  rcases style with _ | _ | _ <;> simp

/-! ### Children in their places -/

@[simp] theorem parts_child (role : Role) :
    r.parts (child role kids) = (first? role kids).elim [] fun k => r.own k.text := by
  unfold child
  cases first? role kids <;> simp

@[simp] theorem parts_nameOf :
    r.parts (nameOf kids) = (first? .name kids).elim [] fun k => r.own k.text :=
  parts_child kids .name

@[simp] theorem parts_initializer :
    r.parts (initializer o kids) = (first? .initializer kids).elim [] fun k => r.own k.text := by
  unfold initializer
  cases first? .initializer kids <;> simp

@[simp] theorem parts_implementedInterface :
    r.parts (implementedInterface kids) =
      (first? .privateImplementationType kids).elim [] fun k => r.own k.text := by
  unfold implementedInterface
  cases first? .privateImplementationType kids <;> simp

@[simp] theorem parts_bodyOrEnd (style : BraceStyle) :
    r.parts (bodyOrEnd style kids) = (first? .body kids).elim [] fun k => r.block k.text style := by
  unfold bodyOrEnd
  cases first? .body kids <;> simp

@[simp] theorem parts_modifierWords (m : Modifiers) :
    r.parts (modifierWords m) = m.keywords.flatMap fun word => r.event (.keyword word) := by
  unfold modifierWords parts
  simp [List.flatMap_assoc]

@[simp] theorem parts_attributeLines :
    r.parts (attributeLines kids) = r.nodes (withRole .attributes kids) :=
  parts_flatMap _ fun _ => by simp

@[simp] theorem parts_rootMembers (before : Option Kind) :
    r.parts (rootMembers before kids) = r.nodes kids := by
  induction kids generalizing before with
  | nil => rfl
  | cons k kids ih =>
    simp only [rootMembers]
    by_cases hk : k.kind.isTrivia = true
    · simp [hk, ih]
    · cases before with
      | none => simp [hk, ih]
      | some kind =>
        by_cases hu : kind = .usingDecl ∧ k.kind = .usingDecl <;> simp [hk, hu, ih]

@[simp] theorem parts_replicate_newLine (count : Nat) :
    r.parts (List.replicate count .newLine) = [] := by
  induction count with
  | zero => rfl
  | succ count ih => simp [List.replicate_succ, ih]

@[simp] theorem parts_members (first : Bool) :
    r.parts (members o first kids) =
      r.nodes (kids.filter fun k => k.role == .comment || k.role == .member) := by
  induction kids generalizing first with
  | nil => rfl
  | cons k kids ih =>
    rw [members]
    split
    · next h => simp [h, ih]
    · next h => cases first <;> simp [h, ih]
    · next h₁ h₂ =>
      rw [List.filter_cons_of_neg (by simpa using ⟨h₁, h₂⟩), ih]

@[simp] theorem parts_enumMembers : r.parts (enumMembers kids) = r.nodes kids := by
  fun_induction enumMembers kids with
  | case1 => rfl
  | case2 k => simp
  | case3 k rest _ ih => simp [ih]

@[simp] theorem parts_accessors :
    r.parts (accessors o kids) =
      r.nodes (kids.filter fun k => k.role == .getter || k.role == .setter) := by
  unfold accessors
  simp only
  split
  · simp [parts_flatMap]
  · rw [parts_braced, parts_flatMap]
    simp

@[simp] theorem parts_eventAccessors :
    r.parts (eventAccessors kids) =
      ((first? .addAccessor kids).elim [] fun k => r.own k.text) ++
        (first? .removeAccessor kids).elim [] fun k => r.own k.text := by
  simp only [eventAccessors, List.flatMap_cons, List.flatMap_nil, List.append_nil]
  cases first? .addAccessor kids <;> cases first? .removeAccessor kids <;> simp

@[simp] theorem parts_blockContent (style : Option BraceStyle) :
    r.parts (blockContent kids style) =
      r.nodes (kids.filter fun k => k.role == .statement || k.role == .comment) := by
  unfold blockContent
  rw [parts_braced, parts, List.flatMap_map]
  rfl

@[simp] theorem parts_leavingStatement (word : String) :
    r.parts (leavingStatement word kids) =
      r.event (.keyword word) ++ (first? .expression kids).elim [] fun k => r.own k.text := by
  unfold leavingStatement
  cases first? .expression kids <;> simp

theorem parts_embedded (k : Child α) :
    r.parts (embedded o k) =
      r.place k (if k.kind = .block then some o.statementBraces else none) := by
  unfold embedded
  split <;> simp [place]

theorem parts_trueBranch :
    r.parts (trueBranch o kids).1 = (first? .trueStatement kids).elim [] fun k =>
      r.place k (if k.kind = .block then some o.statementBraces else none) := by
  unfold trueBranch
  cases first? .trueStatement kids with
  | none => simp
  | some k => exact parts_embedded o k

theorem parts_falseBranch (lineOpen : Bool) :
    r.parts (falseBranch o kids lineOpen) = (first? .falseStatement kids).elim [] fun k =>
      r.event (.keyword "else") ++
        r.place k (if k.kind = .block then some o.statementBraces else none) := by
  unfold falseBranch
  cases first? .falseStatement kids with
  | none => cases lineOpen <;> simp
  | some k =>
    by_cases hi : k.kind = .ifElse
    · simp [hi, place]
    · by_cases hb : k.kind = .block <;> simp [hi, hb, parts_embedded]

/-! ### Slots -/

section Slots

variable (id : ι)

@[simp] theorem slot_word (e : EventOf Unit) :
    r.slot o id kids (.word e) = r.event (e.map fun _ => id) := rfl

@[simp] theorem slot_keyword (text : String) :
    r.slot o id kids (.keyword text) = r.event (.keyword text) := rfl

@[simp] theorem slot_each (wanted : Role → Bool) :
    r.slot o id kids (.each wanted) = r.nodes (kids.filter fun k => wanted k.role) := rfl

@[simp] theorem slot_all (role : Role) :
    r.slot o id kids (.all role) = r.nodes (withRole role kids) := rfl

@[simp] theorem slot_members :
    r.slot o id kids .members =
      r.nodes (kids.filter fun k => k.role == .comment || k.role == .member) := rfl

@[simp] theorem slot_child (role : Role) :
    r.slot o id kids (.child role) = (first? role kids).elim [] fun k => r.own k.text := rfl

@[simp] theorem slot_body (style : Options → BraceStyle) :
    r.slot o id kids (.body style) =
      (first? .body kids).elim [] fun k => r.block k.text (style o) := rfl

@[simp] theorem slot_branch (role : Role) (lead : List (EventOf Unit)) :
    r.slot o id kids (.branch role lead) = (first? role kids).elim [] fun k =>
      lead.flatMap (fun e => r.event (e.map fun _ => id)) ++
        r.place k (if k.kind = .block then some o.statementBraces else none) := rfl

@[simp] theorem slot_header (m : Modifiers) :
    (Slot.header m).flatMap (r.slot o id kids) =
      r.nodes (withRole .attributes kids) ++
        m.keywords.flatMap fun word => r.event (.keyword word) := by
  simp [Slot.header, List.flatMap_map]

end Slots

/-! ### The outline of a node -/

/-- **Outlines.** Whatever the options and the children are, the parts of a node are its outline
with spacing and punctuation. -/
theorem parts_content (id : ι) (kind : Kind) :
    r.parts (content o id kids kind) = (outline kind).flatMap (r.slot o id kids) := by
  cases kind with
  | typeDecl form m =>
    by_cases hf : form = .enumType <;> simp [content, outline, hf, parts_unlessEmpty]
  | attributeSection target => cases target <;> simp [content, outline]
  | attributeUse => simp [content, outline, parts_unlessEmpty]
  | parameterDecl passing =>
    cases passing <;> simp [content, outline, parts_flatMap]
  | composedType nullable rank => cases nullable <;> simp [content, outline]
  | unaryOp op trailing => cases trailing <;> simp [content, outline]
  | ifElse => simp [content, outline, ifElse, parts_trueBranch, parts_falseBranch]
  | _ => simp [content, outline, typedHeader, eventHeader, variableList, typeArguments]

/-! ### Showing less -/

variable (r) in
/-- A child shows no more than another one would in its place. -/
structure Within (k' k : Child α) : Prop where
  role : k'.role = k.role
  kind : k'.kind = k.kind
  own : (r.own k'.text).Sublist (r.own k.text)
  block : ∀ style, (r.block k'.text style).Sublist (r.block k.text style)

variable {o kids} {kids' : List (Child α)} {id : ι}

theorem Within.place {k k' : Child α} (h : r.Within k' k) (style? : Option BraceStyle) :
    (r.place k' style?).Sublist (r.place k style?) := by
  cases style? with
  | none => exact h.own
  | some style => exact h.block style

theorem nodes_sublist (h : List.SublistForall₂ r.Within kids' kids) (wanted : Role → Bool) :
    (r.nodes (kids'.filter fun k => wanted k.role)).Sublist
      (r.nodes (kids.filter fun k => wanted k.role)) := by
  induction h with
  | nil => exact List.nil_sublist _
  | @cons k' k _ _ hk _ ih =>
    rw [List.filter_cons, List.filter_cons, hk.role]
    split
    · exact hk.own.append ih
    · exact ih
  | @cons_right k _ _ _ ih =>
    rw [List.filter_cons]
    split
    · exact ih.trans (List.sublist_append_right _ _)
    · exact ih

theorem first?_eq_none (h : List.SublistForall₂ r.Within kids' kids) {role : Role}
    (hnone : ∀ k ∈ kids, (k.role == role) = false) : first? role kids' = none := by
  induction h with
  | nil => rfl
  | @cons k' k _ _ hk _ ih =>
    have hne : (k'.role == role) = false := by
      rw [hk.role]
      exact hnone k (by simp)
    unfold first? at ih ⊢
    rw [List.find?_cons, hne]
    exact ih fun c hc => hnone c (by simp [hc])
  | cons_right _ ih => exact ih fun c hc => hnone c (by simp [hc])

/-- Where there is room for one child and there is only one, there is no other to take its place. -/
theorem first_sublist (h : List.SublistForall₂ r.Within kids' kids) {role : Role}
    (hone : (withRole role kids).length ≤ 1) {f : Child α → List β}
    (hf : ∀ {k' k}, r.Within k' k → (f k').Sublist (f k)) :
    ((first? role kids').elim [] f).Sublist ((first? role kids).elim [] f) := by
  induction h with
  | nil => exact List.nil_sublist _
  | @cons k' k kids' kids hk h ih =>
    unfold first? at ih ⊢
    rw [List.find?_cons, List.find?_cons, hk.role]
    split
    · exact hf hk
    · next hne => exact ih (by simpa [withRole, hne] using hone)
  | @cons_right k kids' kids h ih =>
    cases he : k.role == role with
    | true =>
      -- The child is gone, and no other one has its role.
      have hnone : ∀ c ∈ kids, (c.role == role) = false := by
        simpa [withRole, he] using hone
      rw [first?_eq_none h hnone]
      exact List.nil_sublist _
    | false =>
      unfold first? at ih ⊢
      rw [List.find?_cons, he]
      exact ih (by simpa [withRole, he] using hone)

theorem slot_sublist (h : List.SublistForall₂ r.Within kids' kids) (s : Slot)
    (hone : ∀ role, s.role? = some role → (withRole role kids).length ≤ 1) :
    (r.slot o id kids' s).Sublist (r.slot o id kids s) := by
  cases s with
  | word e => exact List.Sublist.refl _
  | each wanted => exact nodes_sublist h wanted
  | first role lead style? =>
    refine first_sublist h (hone role rfl) fun {k' k} hk => ?_
    rw [hk.kind]
    exact (hk.place _).append_left _

/-- A node with fewer children, which show less, shows less. -/
theorem content_sublist (h : List.SublistForall₂ r.Within kids' kids) {kind : Kind}
    (hone : ∀ role ∈ singleRoles kind, (withRole role kids).length ≤ 1) :
    (r.parts (content o id kids' kind)).Sublist (r.parts (content o id kids kind)) := by
  rw [parts_content, parts_content]
  refine List.Sublist.flatMap_right _ fun s hs => slot_sublist h s fun role hrole => ?_
  exact hone role (List.mem_filterMap.mpr ⟨s, hs, hrole⟩)

/-- So does a node that stands as the block of a construct. -/
theorem blockContent_sublist (h : List.SublistForall₂ r.Within kids' kids)
    (style : Option BraceStyle) :
    (r.parts (blockContent kids' style)).Sublist (r.parts (blockContent kids style)) := by
  rw [parts_blockContent, parts_blockContent]
  exact nodes_sublist h fun role => role == .statement || role == .comment

end Reading

end CodeView.Layout
