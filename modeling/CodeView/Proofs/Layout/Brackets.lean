import CodeView.Proofs.Layout.Natural

/-!
# What opens and closes in the events of a node

Nodes start and finish, levels of indentation begin and end, and braces, parentheses and square
brackets are written in pairs.

* `Nested`: words in which every bracket is closed, and before those around it. `Mark.read` reads a
  word with a stack of open brackets; a word after which the stack is as before is nested
  (`nested_of_read`).
* `mark?`: the bracket that an event opens or closes. Tokens count only where they are asked for.
* `BalancedPrint`: a print that leaves every stack as it is. Around children with such prints, the
  parts of a node leave every stack as it is (`readParts_content`).
* `balanced_print`: so does every branch, if no operator in it is a bracket or tokens do not count.
-/

namespace CodeView.Layout

open CodeView.Syntax

variable {ι β : Type}

/-! ## Nested words -/

/-- A bracket where it is opened or where it is closed. -/
inductive Mark (β : Type) where
  | opening (b : β)
  | closing (b : β)
  deriving DecidableEq, Repr

/-- The words in which brackets are properly nested. -/
inductive Nested : List (Mark β) → Prop where
  | nil : Nested []
  | pair (b : β) {inside after : List (Mark β)} (hi : Nested inside) (ha : Nested after) :
    Nested (.opening b :: inside ++ .closing b :: after)

theorem Nested.append {u v : List (Mark β)} (hu : Nested u) (hv : Nested v) : Nested (u ++ v) := by
  induction hu with
  | nil => exact hv
  | pair b hi _ _ iha =>
    rw [List.append_assoc, List.cons_append]
    exact .pair b hi iha

/-- Reads a word with a stack of open brackets, the innermost first. A bracket can only be closed
if it is the innermost one. -/
def Mark.read [DecidableEq β] : List β → List (Mark β) → Option (List β)
  | stack, [] => some stack
  | stack, .opening b :: word => read (b :: stack) word
  | top :: stack, .closing b :: word => if top = b then read stack word else none
  | [], .closing _ :: _ => none

/-- What stands before and between the brackets that close a stack is nested. -/
inductive Unwinds : List β → List (Mark β) → Prop where
  | nil {u : List (Mark β)} (hu : Nested u) : Unwinds [] u
  | cons {b : β} {stack : List β} {u v : List (Mark β)} (hu : Nested u) (hv : Unwinds stack v) :
    Unwinds (b :: stack) (u ++ .closing b :: v)

theorem Unwinds.after_nested {stack : List β} {u v : List (Mark β)} (hu : Nested u)
    (hv : Unwinds stack v) : Unwinds stack (u ++ v) := by
  cases hv with
  | nil hv => exact .nil (hu.append hv)
  | cons hw hv =>
    rw [← List.append_assoc]
    exact .cons (hu.append hw) hv

section Read

variable [DecidableEq β]

theorem Mark.read_append (stack : List β) (u v : List (Mark β)) :
    read stack (u ++ v) = (read stack u).bind fun s => read s v := by
  fun_induction read stack u with
  | case1 stack => rfl
  | case2 stack b word ih =>
    rw [List.cons_append, read]
    exact ih
  | case3 stack b word ih =>
    rw [List.cons_append, read, if_pos rfl]
    exact ih
  | case4 top stack b word hne =>
    rw [List.cons_append, read, if_neg hne]
    rfl
  | case5 b word => rfl

theorem unwinds_of_read {stack : List β} {word : List (Mark β)}
    (h : Mark.read stack word = some []) : Unwinds stack word := by
  fun_induction Mark.read stack word with
  | case1 stack =>
    cases h
    exact .nil .nil
  | case2 stack b word ih =>
    cases ih h with
    | @cons _ _ u v hu hv =>
      have hpair : .opening b :: (u ++ .closing b :: v) =
          (.opening b :: u ++ [.closing b]) ++ v := by simp
      rw [hpair]
      exact hv.after_nested (.pair b hu .nil)
  | case3 stack b word ih => exact .cons .nil (ih h)
  | case4 => cases h
  | case5 => cases h

/-- A word after which nothing is left open is nested. -/
theorem nested_of_read {word : List (Mark β)} (h : Mark.read [] word = some []) : Nested word := by
  cases unwinds_of_read h with
  | nil hu => exact hu

end Read

/-! ## The brackets of events -/

/-- What is opened and closed again: a node, a level of indentation, or a pair of tokens. -/
inductive Bracket (ι : Type) where
  | node (id : ι)
  | level
  | brace
  | parenthesis
  | square
  deriving DecidableEq, Repr

/-- The tokens that are brackets. -/
def bracketTokens : List String := ["\x7b", "\x7d", "(", ")", "[", "]"]

/-- The bracket that a token opens or closes. -/
def tokenMark? (text : String) : Option (Mark (Bracket ι)) :=
  if text = "\x7b" then some (.opening .brace)
  else if text = "\x7d" then some (.closing .brace)
  else if text = "(" then some (.opening .parenthesis)
  else if text = ")" then some (.closing .parenthesis)
  else if text = "[" then some (.opening .square)
  else if text = "]" then some (.closing .square)
  else none

/-- The bracket that an event opens or closes. Tokens count if `tokens` is set. -/
def mark? (tokens : Bool) : EventOf ι → Option (Mark (Bracket ι))
  | .start id => some (.opening (.node id))
  | .finish id => some (.closing (.node id))
  | .indent => some (.opening .level)
  | .unindent => some (.closing .level)
  | .token text => if tokens then tokenMark? text else none
  | _ => none

/-- The word of brackets of events. -/
def word (tokens : Bool) (events : List (EventOf ι)) : List (Mark (Bracket ι)) :=
  events.filterMap (mark? tokens)

@[simp] theorem mark?_token {tokens : Bool} {text : String} (h : text ∉ bracketTokens) :
    mark? (ι := ι) tokens (.token text) = none := by
  simp only [bracketTokens, List.mem_cons, List.not_mem_nil, or_false, not_or] at h
  simp [mark?, tokenMark?, h]

/-! ## Parts that leave the stack as it is -/

variable [DecidableEq ι]

/-- Events after which the same brackets are open as before. -/
def Balanced (tokens : Bool) (events : List (EventOf ι)) : Prop :=
  ∀ stack, Mark.read stack (word tokens events) = some stack

/-- A print that is balanced, by its own rules and as a block. -/
structure BalancedPrint (tokens : Bool) (ι : Type) [DecidableEq ι] where
  print : Printed ι
  own : Balanced tokens print.own
  asBlock : ∀ style, Balanced tokens (print.asBlock style)

variable {tokens : Bool}

/-- The word of a part. -/
def Part.word : Part ι (BalancedPrint tokens ι) → List (Mark (Bracket ι))
  | .event e => (mark? tokens e).toList
  | .node p => Layout.word tokens p.print.own
  | .block p style => Layout.word tokens (p.print.asBlock style)

/-- Reads parts, one after the other. -/
def readParts (stack : List (Bracket ι)) (parts : List (Part ι (BalancedPrint tokens ι))) :
    Option (List (Bracket ι)) :=
  Mark.read stack (parts.flatMap Part.word)

/-- The stack after a bracket of tokens has been opened. -/
def openToken (tokens : Bool) (b : Bracket ι) (stack : List (Bracket ι)) : List (Bracket ι) :=
  if tokens then b :: stack else stack

section ReadParts

variable (stack : List (Bracket ι)) (rest : List (Part ι (BalancedPrint tokens ι)))

@[simp] theorem readParts_nil :
    readParts stack ([] : List (Part ι (BalancedPrint tokens ι))) = some stack := rfl

@[simp] theorem readParts_append (a b : List (Part ι (BalancedPrint tokens ι))) :
    readParts stack (a ++ b) = (readParts stack a).bind fun s => readParts s b := by
  unfold readParts
  rw [List.flatMap_append, Mark.read_append]

theorem readParts_cons (part : Part ι (BalancedPrint tokens ι)) :
    readParts stack (part :: rest) =
      (Mark.read stack part.word).bind fun s => readParts s rest := by
  unfold readParts
  rw [List.flatMap_cons, Mark.read_append]

@[simp] theorem readParts_node (p : BalancedPrint tokens ι) :
    readParts stack (.node p :: rest) = readParts stack rest := by
  rw [readParts_cons]
  exact congrArg (·.bind fun s => readParts s rest) (p.own stack)

@[simp] theorem readParts_block (p : BalancedPrint tokens ι) (style : BraceStyle) :
    readParts stack (.block p style :: rest) = readParts stack rest := by
  rw [readParts_cons]
  exact congrArg (·.bind fun s => readParts s rest) (p.asBlock style stack)

/-- Events that open and close nothing. -/
theorem readParts_neutral {e : EventOf ι} (he : mark? tokens e = none) :
    readParts stack (.event e :: rest) = readParts stack rest := by
  have hw : (Part.event e : Part ι (BalancedPrint tokens ι)).word = [] := by
    rw [Part.word, he]
    rfl
  rw [readParts_cons, hw]
  rfl

@[simp] theorem readParts_space :
    readParts stack (.event .space :: rest) = readParts stack rest :=
  readParts_neutral stack rest rfl

@[simp] theorem readParts_newLine :
    readParts stack (.event .newLine :: rest) = readParts stack rest :=
  readParts_neutral stack rest rfl

@[simp] theorem readParts_keyword (text : String) :
    readParts stack (.event (.keyword text) :: rest) = readParts stack rest :=
  readParts_neutral stack rest rfl

@[simp] theorem readParts_token {text : String} (h : mark? (ι := ι) tokens (.token text) = none) :
    readParts stack (.event (.token text) :: rest) = readParts stack rest :=
  readParts_neutral stack rest h

@[simp] theorem readParts_indent :
    readParts stack (.event .indent :: rest) = readParts (.level :: stack) rest := by
  rw [readParts_cons]
  rfl

@[simp] theorem readParts_unindent :
    readParts (.level :: stack) (.event .unindent :: rest) = readParts stack rest := by
  rw [readParts_cons]
  rfl

@[simp] theorem readParts_openBrace :
    readParts stack (.event (.token "\x7b") :: rest) =
      readParts (openToken tokens .brace stack) rest := by
  rw [readParts_cons]
  cases tokens <;> rfl

@[simp] theorem readParts_closeBrace :
    readParts (openToken tokens .brace stack) (.event (.token "\x7d") :: rest) =
      readParts stack rest := by
  rw [readParts_cons]
  cases tokens <;> rfl

@[simp] theorem readParts_openParenthesis :
    readParts stack (.event (.token "(") :: rest) =
      readParts (openToken tokens .parenthesis stack) rest := by
  rw [readParts_cons]
  cases tokens <;> rfl

@[simp] theorem readParts_closeParenthesis :
    readParts (openToken tokens .parenthesis stack) (.event (.token ")") :: rest) =
      readParts stack rest := by
  rw [readParts_cons]
  cases tokens <;> rfl

@[simp] theorem readParts_openSquare :
    readParts stack (.event (.token "[") :: rest) =
      readParts (openToken tokens .square stack) rest := by
  rw [readParts_cons]
  cases tokens <;> rfl

@[simp] theorem readParts_closeSquare :
    readParts (openToken tokens .square stack) (.event (.token "]") :: rest) =
      readParts stack rest := by
  rw [readParts_cons]
  cases tokens <;> rfl

end ReadParts

/-! ## Helpers -/

section Helpers

variable (stack : List (Bracket ι)) (o : Options) (kids : List (Child (BalancedPrint tokens ι)))

/-- Parts that leave the stack as it is, one group for each element. -/
theorem readParts_flatMap {γ : Type} {f : γ → List (Part ι (BalancedPrint tokens ι))} {l : List γ}
    (hf : ∀ a ∈ l, readParts stack (f a) = some stack) :
    readParts stack (l.flatMap f) = some stack := by
  induction l with
  | nil => rfl
  | cons a l ih =>
    rw [List.flatMap_cons, readParts_append, hf a (by simp)]
    exact ih fun b hb => hf b (by simp [hb])

@[simp] theorem readParts_spaceIf (wanted : Bool) :
    readParts stack (spaceIf wanted : List (Part ι (BalancedPrint tokens ι))) = some stack := by
  cases wanted <;> simp [spaceIf]

theorem readParts_separated {between : List (Part ι (BalancedPrint tokens ι))}
    (hb : readParts stack between = some stack) :
    readParts stack (separated between kids) = some stack := by
  fun_induction separated between kids with
  | case1 => rfl
  | case2 k => simp
  | case3 k kids _ ih => simp [hb, ih]

@[simp] theorem readParts_commaSeparated :
    readParts stack (commaSeparated o kids) = some stack :=
  readParts_separated stack kids (by simp [bracketTokens])

@[simp] theorem readParts_dotted : readParts stack (dotted kids) = some stack :=
  readParts_separated stack kids (by simp [bracketTokens])

@[simp] theorem readParts_inParentheses :
    readParts stack (inParentheses o kids) = some stack := by
  simp [inParentheses]

@[simp] theorem readParts_inAngles : readParts stack (inAngles o kids) = some stack := by
  unfold inAngles
  split <;> simp [bracketTokens]

@[simp] theorem readParts_ranks (rank : Nat) :
    readParts stack ((List.replicate rank [.token "[", .token "]"]).flatten :
      List (Part ι (BalancedPrint tokens ι))) = some stack := by
  induction rank with
  | zero => rfl
  | succ rank ih => simp [List.replicate_succ, ih]

/-- An operator that is no bracket. -/
theorem readParts_operator {text : String} (h : mark? (ι := ι) tokens (.token text) = none) :
    readParts stack (operator o text : List (Part ι (BalancedPrint tokens ι))) = some stack := by
  simp [operator, h]

@[simp] theorem readParts_braced (style : Option BraceStyle)
    {inside : List (Part ι (BalancedPrint tokens ι))}
    (h : ∀ stack, readParts stack inside = some stack) :
    readParts stack (braced style inside) = some stack := by
  unfold braced openBrace closeBrace
  rcases style with _ | _ | _ <;> simp [h]

@[simp] theorem readParts_modifierWords (m : Modifiers) :
    readParts stack (modifierWords m : List (Part ι (BalancedPrint tokens ι))) = some stack :=
  readParts_flatMap stack fun _ _ => by simp

@[simp] theorem readParts_attributeLines : readParts stack (attributeLines kids) = some stack :=
  readParts_flatMap stack fun _ _ => by simp

@[simp] theorem readParts_child (role : Role) : readParts stack (child role kids) = some stack := by
  unfold child
  split <;> simp

@[simp] theorem readParts_nameOf : readParts stack (nameOf kids) = some stack :=
  readParts_child stack kids .name

@[simp] theorem readParts_initializer : readParts stack (initializer o kids) = some stack := by
  unfold initializer
  split
  · rw [readParts_append, readParts_operator stack o (mark?_token (by decide))]
    simp
  · rfl

@[simp] theorem readParts_implementedInterface :
    readParts stack (implementedInterface kids) = some stack := by
  unfold implementedInterface
  split <;> simp [bracketTokens]

@[simp] theorem readParts_bodyOrEnd (style : BraceStyle) :
    readParts stack (bodyOrEnd style kids) = some stack := by
  unfold bodyOrEnd
  split <;> simp [bracketTokens]

@[simp] theorem readParts_rootMembers (before : Option Kind) :
    readParts stack (rootMembers before kids) = some stack := by
  induction kids generalizing before with
  | nil => rfl
  | cons k kids ih =>
    simp only [rootMembers]
    by_cases hk : k.kind.isTrivia = true
    · simp [hk, ih]
    · cases before with
      | none => simp [hk, ih]
      | some kind =>
        by_cases hu : kind = .usingDecl ∧ k.kind = .usingDecl <;> simp [hk, hu, ih]

@[simp] theorem readParts_members (first : Bool) :
    readParts stack (members o first kids) = some stack := by
  have hblank : ∀ count : Nat, readParts stack
      (List.replicate count .newLine : List (Part ι (BalancedPrint tokens ι))) = some stack := by
    intro count
    induction count with
    | zero => rfl
    | succ count ih => rw [List.replicate_succ, readParts_newLine, ih]
  induction kids generalizing first with
  | nil => rfl
  | cons k kids ih =>
    rw [members]
    split
    · rw [readParts_node, ih]
    · cases first <;> simp [hblank, ih]
    · exact ih first

@[simp] theorem readParts_enumMembers : readParts stack (enumMembers kids) = some stack := by
  fun_induction enumMembers kids with
  | case1 => rfl
  | case2 k => simp
  | case3 k kids _ ih => simp [bracketTokens, ih]

@[simp] theorem readParts_accessors : readParts stack (accessors o kids) = some stack := by
  have hline : ∀ (list : List (Child (BalancedPrint tokens ι))) (stack : List (Bracket ι)),
      readParts stack (list.flatMap fun k => [.space, .node k.text]) = some stack :=
    fun list stack => readParts_flatMap stack fun _ _ => by simp
  have hlines : ∀ (list : List (Child (BalancedPrint tokens ι))) (stack : List (Bracket ι)),
      readParts stack (list.flatMap fun k => [.node k.text, .newLine]) = some stack :=
    fun list stack => readParts_flatMap stack fun _ _ => by simp
  unfold accessors
  simp only
  split
  · simp [hline]
  · exact readParts_braced stack _ (hlines _)

@[simp] theorem readParts_eventAccessors : readParts stack (eventAccessors kids) = some stack := by
  refine readParts_flatMap stack fun role _ => ?_
  split <;> simp

@[simp] theorem readParts_blockContent (style : Option BraceStyle) :
    readParts stack (blockContent kids style) = some stack := by
  refine readParts_braced stack style fun stack => ?_
  rw [List.map_eq_flatMap]
  exact readParts_flatMap stack fun _ _ => by simp

@[simp] theorem readParts_leavingStatement (text : String) :
    readParts stack (leavingStatement text kids) = some stack := by
  unfold leavingStatement
  split <;> simp [bracketTokens]

theorem readParts_embedded (k : Child (BalancedPrint tokens ι)) :
    readParts stack (embedded o k) = some stack := by
  unfold embedded
  split <;> simp

theorem readParts_trueBranch : readParts stack (trueBranch o kids).1 = some stack := by
  unfold trueBranch
  split
  · exact readParts_embedded stack o _
  · simp [bracketTokens]

theorem readParts_falseBranch (lineOpen : Bool) :
    readParts stack (falseBranch o kids lineOpen) = some stack := by
  unfold falseBranch
  split
  · split <;> simp
  · simp only
    split
    · simp
    · split <;> simp [readParts_embedded]

@[simp] theorem readParts_ifElse : readParts stack (ifElse o kids) = some stack := by
  unfold ifElse
  simp [readParts_trueBranch, readParts_falseBranch]

@[simp] theorem readParts_typedHeader (m : Modifiers) :
    readParts stack (typedHeader m kids) = some stack := by
  simp [typedHeader]

@[simp] theorem readParts_eventHeader (m : Modifiers) :
    readParts stack (eventHeader m kids) = some stack := by
  simp [eventHeader]

end Helpers

/-! ## Nodes and branches -/

/-- The operator of a kind that writes one. -/
def operator? : Kind → Option String
  | .assignment op | .binaryOp op | .unaryOp op _ => some op
  | _ => none

/-- The parts of a node leave every stack as it is, if its operator is no bracket. -/
theorem readParts_content (stack : List (Bracket ι)) (o : Options) (id : ι)
    (kids : List (Child (BalancedPrint tokens ι))) {kind : Kind}
    (hop : ∀ op, operator? kind = some op → mark? (ι := ι) tokens (.token op) = none) :
    readParts stack (content o id kids kind) = some stack := by
  cases kind with
  | typeDecl form m =>
    by_cases hf : form = .enumType <;> by_cases hb : (withRole .baseType kids).isEmpty = true <;>
      simp [content, hf, hb, bracketTokens]
  | attributeSection target => cases target <;> simp [content, bracketTokens]
  | attributeUse =>
    by_cases ha : (withRole .argument kids).isEmpty = true <;> simp [content, ha]
  | parameterDecl passing =>
    have hsections := readParts_flatMap (l := withRole .attributes kids)
      (f := fun k => [Part.node k.text, Part.space]) stack fun _ _ => by simp
    cases passing <;> simp [content, hsections]
  | composedType nullable rank => cases nullable <;> simp [content, bracketTokens]
  | assignment op =>
    simp [content, readParts_operator stack o (hop op rfl)]
  | binaryOp op =>
    simp [content, readParts_operator stack o (hop op rfl)]
  | unaryOp op trailing =>
    cases trailing <;> simp [content, hop op rfl]
  | primitiveType text => exact readParts_neutral stack [] rfl
  | primitiveExpr literal => exact readParts_neutral stack [] rfl
  | identifier name => exact readParts_neutral stack [] rfl
  | comment form text => exact readParts_neutral stack [] rfl
  | directive text argument => exact readParts_neutral stack [] rfl
  | _ => simp [content, variableList, typeArguments, bracketTokens]

/-- The start and the finish of a node go around balanced events. -/
theorem Balanced.node {events : List (EventOf ι)} (h : Balanced tokens events) (id : ι) :
    Balanced tokens (.start id :: events ++ [.finish id]) := by
  intro stack
  have hw : word tokens (.start id :: events ++ [.finish id]) =
      .opening (.node id) :: (word tokens events ++ [.closing (.node id)]) := by
    simp [word, mark?]
  rw [hw, Mark.read, Mark.read_append, h, Option.bind_some, Mark.read, if_pos rfl, Mark.read]

/-- So do the beginning and the end of a level. -/
theorem Balanced.level {events : List (EventOf ι)} (h : Balanced tokens events) :
    Balanced tokens (.indent :: events ++ [.unindent]) := by
  intro stack
  have hw : word tokens (.indent :: events ++ [.unindent]) =
      .opening .level :: (word tokens events ++ [.closing .level]) := by
    simp [word, mark?]
  rw [hw, Mark.read, Mark.read_append, h, Option.bind_some, Mark.read, if_pos rfl, Mark.read]

theorem Balanced.append {a b : List (EventOf ι)} (ha : Balanced tokens a) (hb : Balanced tokens b) :
    Balanced tokens (a ++ b) := by
  intro stack
  have hw : word tokens (a ++ b) = word tokens a ++ word tokens b := List.filterMap_append
  rw [hw, Mark.read_append, ha, Option.bind_some, hb]

theorem balanced_parts {parts : List (Part ι (BalancedPrint tokens ι))}
    (h : ∀ stack, readParts stack parts = some stack) :
    Balanced tokens ((parts.map (Part.map id BalancedPrint.print)).flatMap Part.events) := by
  have hpart : ∀ part : Part ι (BalancedPrint tokens ι),
      (part.map id BalancedPrint.print).events.filterMap (mark? tokens) = part.word := by
    intro part
    cases part with
    | event e => cases e <;> simp [Part.events, Part.word, List.filterMap_cons] <;> rfl
    | node p => rfl
    | block p style => rfl
  intro stack
  unfold word
  rw [List.flatMap_map, List.filterMap_flatMap]
  simp only [hpart]
  exact h stack

/-- A node whose children print balanced events does so itself, by its own rules and as a block. -/
theorem balanced_node (o : Options) (n : ι) (kids : List (Child (BalancedPrint tokens ι)))
    {kind : Kind}
    (hop : ∀ op, operator? kind = some op → mark? (ι := ι) tokens (.token op) = none) :
    ∃ b : BalancedPrint tokens ι,
      b.print = .node o n (kids.map (Child.map BalancedPrint.print)) kind := by
  have hown := balanced_parts fun stack => readParts_content stack o n kids hop
  have hblock := fun style =>
    balanced_parts fun stack => readParts_blockContent stack kids (some style)
  simp only [map_content, map_blockContent, id_eq] at hown hblock
  exact ⟨⟨_, hown.node n, fun style => (hblock style).node n⟩, rfl⟩

/-- Children that print balanced events are children with balanced prints. -/
theorem exists_balanced_kids {kids : List (Child (Printed ι))}
    (h : ∀ k ∈ kids, ∃ b : BalancedPrint tokens ι, b.print = k.text) :
    ∃ balanced : List (Child (BalancedPrint tokens ι)),
      balanced.map (Child.map BalancedPrint.print) = kids := by
  induction kids with
  | nil => exact ⟨[], rfl⟩
  | cons k kids ih =>
    obtain ⟨b, hb⟩ := h k (by simp)
    obtain ⟨balanced, rfl⟩ := ih fun d hd => h d (by simp [hd])
    refine ⟨⟨k.role, k.kind, k.isSimple, b⟩ :: balanced, ?_⟩
    rw [List.map_cons, Child.map, hb]

/-- **Balance.** What opens in the events of a branch is closed in them, whatever is open around. -/
theorem balanced_print (o : Options) (t : Tree)
    (hop : ∀ m op, operator? (t.kind m) = some op →
      mark? (ι := NodeId) tokens (.token op) = none) (levels : Nat) (n : NodeId) :
    ∃ b : BalancedPrint tokens NodeId, b.print = (print o (t.grow levels n)).text := by
  have hnode : ∀ (n : NodeId) (children : List Branch),
      (∀ c ∈ children, ∃ b : BalancedPrint tokens NodeId, b.print = (print o c).text) →
      ∃ b : BalancedPrint tokens NodeId,
        b.print = (print o (.node n (t.label n) children)).text := by
    intro n children hc
    have htexts : ∀ k ∈ children.map (print o),
        ∃ b : BalancedPrint tokens NodeId, b.print = k.text := List.forall_mem_map.mpr hc
    obtain ⟨kids, hkids⟩ := exists_balanced_kids htexts
    rw [print, printAll_eq, ← hkids]
    exact balanced_node o n kids (hop n)
  induction levels generalizing n with
  | zero => exact hnode n [] (List.forall_mem_nil _)
  | succ levels ih =>
    refine hnode n _ fun c hc => ?_
    obtain ⟨m, -, rfl⟩ := List.mem_map.mp hc
    exact ih m

/-- The events of a branch are balanced, with tokens if no operator is a bracket. -/
theorem balanced_events (o : Options) (t : Tree) (n : NodeId)
    (hop : ∀ m op, operator? (t.kind m) = some op →
      mark? (ι := NodeId) tokens (.token op) = none) :
    Balanced tokens (events o (t.branch n)) := by
  obtain ⟨b, hb⟩ := balanced_print o t hop t.size n
  rw [events_eq]
  exact hb ▸ b.own

end CodeView.Layout
