import CodeView.Proofs.Layout.Brackets

/-!
# How the parts of a node are arranged

A node puts its parts one after the other in a line, and between braces it puts whole lines: parts
with a line break behind them, and children that end their lines themselves. `Arranged` is the
grammar of such parts. Which events and children may stand where is left to `Rules`, so that
whatever is kept by putting parts together need only be shown for the forms of the grammar.

* `Rules.Fit`: the rules allow plain events, and children where their roles put them.
* `arranged_content`: the parts of every node but a root and an `if` are arranged so.
* `arranged_rootMembers`, `arranged_condition`: the same for what a root writes, and for the
  condition of an `if`. Its branches are no lines of the `if`, so they are left to the reader of the
  parts (`ifElse_eq`).
-/

namespace CodeView.Layout

open CodeView.Syntax

variable {ι α : Type}

/-! ## The grammar -/

/-- How parts stand: somewhere in a line, or as lines of their own. -/
inductive Mode where
  | inline
  | lines

/-- Which events may stand in a line, and which children: in a line, as a block, and as lines of
their own. -/
structure Rules (ι α : Type) where
  event : EventOf ι → Prop
  inLine : Child α → Prop
  asBlock : Child α → Prop
  ownLine : Child α → Prop

/-- Parts that are put together by rules. -/
inductive Arranged (g : Rules ι α) : Mode → List (Part ι α) → Prop where
  | nil (m : Mode) : Arranged g m []
  | append {m : Mode} {a b : List (Part ι α)} (ha : Arranged g m a) (hb : Arranged g m b) :
    Arranged g m (a ++ b)
  | event {e : EventOf ι} (he : g.event e) : Arranged g .inline [.event e]
  | node {k : Child α} (hk : g.inLine k) : Arranged g .inline [.node k.text]
  | block {k : Child α} (hk : g.asBlock k) (style : BraceStyle) :
    Arranged g .inline [.block k.text style]
  | braced (style : Option BraceStyle) {inside : List (Part ι α)}
    (hi : Arranged g .lines inside) : Arranged g .inline (braced style inside)
  | pair {inside : List (Part ι α)} (hi : Arranged g .inline inside) :
    Arranged g .inline (.token "\x7b" :: inside ++ [.token "\x7d"])
  | line {a : List (Part ι α)} (ha : Arranged g .inline a) : Arranged g .lines (a ++ [.newLine])
  | own {k : Child α} (hk : g.ownLine k) : Arranged g .lines [.node k.text]

variable {g : Rules ι α} {m : Mode}

theorem Arranged.cons {p : Part ι α} {rest : List (Part ι α)} (hp : Arranged g m [p])
    (hr : Arranged g m rest) : Arranged g m (p :: rest) :=
  hp.append hr

theorem Arranged.flatMap {γ : Type} {list : List γ} {f : γ → List (Part ι α)}
    (h : ∀ a ∈ list, Arranged g m (f a)) : Arranged g m (list.flatMap f) := by
  induction list with
  | nil => exact .nil m
  | cons a list ih =>
    rw [List.flatMap_cons]
    exact (h a (by simp)).append (ih fun b hb => h b (by simp [hb]))

/-- An empty line. -/
theorem Arranged.blank : Arranged g .lines [.newLine] := .line (.nil _)

theorem Arranged.separated {between : List (Part ι α)} {list : List (Child α)}
    (hb : Arranged g .inline between) (hl : ∀ k ∈ list, g.inLine k) :
    Arranged g .inline (separated between list) := by
  fun_induction Layout.separated between list with
  | case1 => exact .nil _
  | case2 k => exact .node (hl k (by simp))
  | case3 k rest _ ih =>
    exact (Arranged.cons (.node (hl k (by simp))) hb).append (ih fun d hd => hl d (by simp [hd]))

/-- Children with a line break behind each. -/
theorem Arranged.nodeLines {list : List (Child α)} (hl : ∀ k ∈ list, g.inLine k) :
    Arranged g .lines (list.flatMap fun k => [.node k.text, .newLine]) :=
  .flatMap fun k hk => .line (.node (hl k hk))

theorem events_braced (style : Option BraceStyle) (inside : List (Part ι (Printed ι))) :
    (braced style inside).flatMap Part.events =
      (match style with
        | some .endOfLine => [.space]
        | some .nextLine => [.newLine]
        | none => []) ++
      (.token "\x7b" :: .indent :: .newLine :: inside.flatMap Part.events ++
        [.unindent, .token "\x7d"]) := by
  unfold braced openBrace closeBrace
  rcases style with _ | _ | _ <;> simp [Part.events]

/-! ## Rules that allow what nodes write -/

/-- Events that start and finish no node, move no margin, and are neither a brace nor a word of an
`if`. -/
def EventOf.isPlain : EventOf ι → Bool
  | .start _ | .finish _ | .indent | .unindent => false
  | .keyword word => word != "if" && word != "else"
  | .token text => text != "\x7b" && text != "\x7d"
  | _ => true

/-- A part that is a plain event. -/
def Part.isPlain : Part ι α → Bool
  | .event e => e.isPlain
  | _ => false

/-- The roles of statements. -/
def isStatementRole (role : Role) : Bool :=
  role == .statement || role == .trueStatement || role == .falseStatement

/-- The kinds of statements. -/
def isStatementKind : Kind → Bool
  | .block | .expressionStmt | .returnStmt | .throwStmt | .variableDeclStmt | .ifElse => true
  | _ => false

/-- The rules allow plain events, children that are no statements in a line, and bodies as
blocks. -/
structure Rules.Fit (g : Rules ι α) (kids : List (Child α)) : Prop where
  plain : ∀ e : EventOf ι, e.isPlain = true → g.event e
  inLine : ∀ k ∈ kids, isStatementRole k.role = false → g.inLine k
  asBlock : ∀ k ∈ kids, k.role = .body → g.asBlock k

namespace Rules.Fit

variable {kids : List (Child α)} (h : g.Fit kids) (o : Options)
include h

theorem words {list : List (Part ι α)} (hl : list.all Part.isPlain = true) :
    Arranged g .inline list := by
  induction list with
  | nil => exact .nil _
  | cons p list ih =>
    rw [List.all_cons, Bool.and_eq_true] at hl
    cases p with
    | event e => exact (Arranged.event (h.plain e hl.1)).cons (ih hl.2)
    | node text => cases hl.1
    | block text style => cases hl.1

theorem spaceIf (wanted : Bool) : Arranged g .inline (spaceIf wanted) := by
  cases wanted with
  | false => exact .nil _
  | true => exact h.words rfl

theorem inLine_withRole {role : Role} (hr : isStatementRole role = false) :
    ∀ k ∈ withRole role kids, g.inLine k := by
  intro k hk
  obtain ⟨hmem, hrole⟩ := List.mem_filter.mp hk
  rw [beq_iff_eq] at hrole
  exact h.inLine k hmem (hrole ▸ hr)

theorem inLine_first {role : Role} (hr : isStatementRole role = false) {k : Child α}
    (hk : first? role kids = some k) : g.inLine k := by
  have hrole : k.role = role := by simpa using List.find?_some hk
  exact h.inLine k (List.mem_of_find?_eq_some hk) (hrole ▸ hr)

theorem child {role : Role} (hr : isStatementRole role = false) :
    Arranged g .inline (child role kids) := by
  unfold Layout.child
  split
  · next k hk => exact .node (h.inLine_first hr hk)
  · exact .nil _

theorem commaSeparated {role : Role} (hr : isStatementRole role = false) :
    Arranged g .inline (commaSeparated o (withRole role kids)) := by
  have hcomma : Arranged g .inline [.token ","] := h.words rfl
  exact .separated (hcomma.cons (h.spaceIf _)) (h.inLine_withRole hr)

theorem dotted {role : Role} (hr : isStatementRole role = false) :
    Arranged g .inline (dotted (withRole role kids)) :=
  .separated (h.words rfl) (h.inLine_withRole hr)

theorem inParentheses {role : Role} (hr : isStatementRole role = false) :
    Arranged g .inline (inParentheses o (withRole role kids)) := by
  have hopen : Arranged g .inline [.token "("] := h.words rfl
  exact (hopen.cons (h.commaSeparated o hr)).append (h.words rfl)

theorem inAngles {role : Role} (hr : isStatementRole role = false) :
    Arranged g .inline (inAngles o (withRole role kids)) := by
  have hopen : Arranged g .inline [.token "<"] := h.words rfl
  unfold Layout.inAngles
  split
  · exact .nil _
  · exact (hopen.cons (h.commaSeparated o hr)).append (h.words rfl)

theorem ranks (rank : Nat) :
    Arranged g .inline (List.replicate rank [.token "[", .token "]"]).flatten := by
  induction rank with
  | zero => exact .nil _
  | succ rank ih =>
    have hpair : Arranged g .inline [.token "[", .token "]"] := h.words rfl
    exact hpair.append ih

theorem operator {text : String} (ht : g.event (.token text)) :
    Arranged g .inline (operator o text) :=
  (h.spaceIf _).append ((Arranged.event ht).cons (h.spaceIf _))

theorem initializer : Arranged g .inline (initializer o kids) := by
  unfold Layout.initializer
  split
  · next k hk => exact (h.operator o (h.plain _ rfl)).append (.node (h.inLine_first rfl hk))
  · exact .nil _

theorem implementedInterface : Arranged g .inline (implementedInterface kids) := by
  unfold Layout.implementedInterface
  split
  · next k hk => exact (Arranged.node (h.inLine_first rfl hk)).cons (h.words rfl)
  · exact .nil _

theorem bodyOrEnd (style : BraceStyle) : Arranged g .inline (bodyOrEnd style kids) := by
  unfold Layout.bodyOrEnd
  split
  · next k hk =>
    have hrole : k.role = .body := by simpa using List.find?_some hk
    exact .block (h.asBlock k (List.mem_of_find?_eq_some hk) hrole) style
  · exact h.words rfl

/-! ### Headers -/

theorem modifierWords (mods : Modifiers) : Arranged g .inline (modifierWords mods) := by
  refine .flatMap fun word hw => ?_
  obtain ⟨modifier, -, rfl⟩ := List.mem_map.mp hw
  cases modifier <;> exact h.words rfl

theorem attributeLines : Arranged g .inline (attributeLines kids) :=
  .flatMap fun k hk => (Arranged.node (h.inLine_withRole rfl k hk)).cons (h.words rfl)

/-- What every declaration starts with. -/
theorem lead (mods : Modifiers) :
    Arranged g .inline (Layout.attributeLines kids ++ Layout.modifierWords mods) :=
  h.attributeLines.append (h.modifierWords mods)

theorem name : Arranged g .inline (nameOf kids) := h.child rfl

theorem type : Arranged g .inline (Layout.child .type kids) := h.child rfl

theorem space : Arranged g .inline [.space] := h.words rfl

theorem lineEnd : Arranged g .inline [.newLine] := h.words rfl

theorem statementEnd : Arranged g .inline [.token ";", .newLine] := h.words rfl

theorem typedHeader (mods : Modifiers) : Arranged g .inline (typedHeader mods kids) := by
  have htype := (h.lead mods).append h.type
  exact htype.append h.space

theorem eventHeader (mods : Modifiers) : Arranged g .inline (eventHeader mods kids) := by
  have hword : Arranged g .inline [.keyword "event", .space] := h.words rfl
  have htype := ((h.lead mods).append hword).append h.type
  exact htype.append h.space

/-! ### Lines between braces -/

theorem enumMembers : Arranged g .lines (enumMembers (withRole .member kids)) := by
  have hl : ∀ k ∈ withRole .member kids, g.inLine k := h.inLine_withRole rfl
  generalize withRole .member kids = list at hl
  have hnode : ∀ k ∈ list, Arranged g .inline [.node k.text] := fun k hk => .node (hl k hk)
  fun_induction Layout.enumMembers list with
  | case1 => exact .nil _
  | case2 k => exact .line (hnode k (by simp))
  | case3 k rest _ ih =>
    have hcomma : Arranged g .inline [.token ","] := h.words rfl
    have hline := Arranged.line ((hnode k (by simp)).cons hcomma)
    exact hline.append (ih (fun d hd => hl d (by simp [hd])) fun d hd => hnode d (by simp [hd]))

theorem accessors : Arranged g .inline (accessors o kids) := by
  have hl : ∀ k ∈ kids.filter fun k => k.role == .getter || k.role == .setter, g.inLine k := by
    intro k hk
    obtain ⟨hmem, hrole⟩ := List.mem_filter.mp hk
    rw [Bool.or_eq_true, beq_iff_eq, beq_iff_eq] at hrole
    refine h.inLine k hmem ?_
    rcases hrole with hr | hr <;> rw [hr] <;> rfl
  unfold Layout.accessors
  simp only
  split
  · have hinside := Arranged.flatMap fun k hk => h.space.append (.node (hl k hk))
    simpa using h.space.append (.pair (hinside.append h.space))
  · exact .braced _ (.nodeLines hl)

theorem eventAccessors : Arranged g .lines (eventAccessors kids) := by
  refine .flatMap fun role hr => ?_
  have hrole : isStatementRole role = false := by
    rcases List.mem_cons.mp hr with rfl | hr
    · rfl
    · rw [List.mem_singleton.mp hr]
      rfl
  split
  · next k hk => exact .line (.node (h.inLine_first hrole hk))
  · exact .nil _

end Rules.Fit

/-! ## Lists of children -/

section Lists

variable {kids : List (Child α)}

/-- What a root writes, as far as its children may stand so. -/
theorem arranged_rootMembers (hk : ∀ k ∈ kids, Arranged g m [.node k.text])
    (hn : Arranged g m [.newLine]) (before : Option Kind) :
    Arranged g m (rootMembers before kids) := by
  induction kids generalizing before with
  | nil => exact .nil m
  | cons k kids ih =>
    have hrest := fun before => ih (fun d hd => hk d (by simp [hd])) before
    have hnode := hk k (by simp)
    simp only [rootMembers]
    split
    · exact hnode.cons (hrest before)
    · refine Arranged.append ?_ (hnode.cons (hrest (some k.kind)))
      split
      · exact .nil m
      · split
        · exact .nil m
        · exact hn

theorem arranged_members (hk : ∀ k ∈ kids, k.role = .member ∨ k.role = .comment → g.ownLine k)
    (o : Options) (first : Bool) : Arranged g .lines (members o first kids) := by
  have hblank : ∀ count : Nat, Arranged g .lines (List.replicate count .newLine) := by
    intro count
    induction count with
    | zero => exact .nil _
    | succ count ih => exact Arranged.blank.cons ih
  induction kids generalizing first with
  | nil => exact .nil _
  | cons k kids ih =>
    have hrest := fun first => ih (fun d hd => hk d (by simp [hd])) first
    have hnode := hk k (by simp)
    rw [members]
    split
    · next hr => exact (Arranged.own (hnode (.inr hr))).cons (hrest first)
    · next hr =>
      refine Arranged.append ?_ ((Arranged.own (hnode (.inl hr))).cons (hrest false))
      cases first with
      | true => exact .nil _
      | false => exact hblank o.blankLinesBetweenMembers
    · exact hrest first

theorem arranged_blockContent
    (hk : ∀ k ∈ kids, k.role = .statement ∨ k.role = .comment → g.ownLine k)
    (style : Option BraceStyle) : Arranged g .inline (blockContent kids style) := by
  unfold blockContent
  rw [List.map_eq_flatMap]
  refine .braced style (.flatMap fun k hmem => ?_)
  obtain ⟨hmem, hrole⟩ := List.mem_filter.mp hmem
  rw [Bool.or_eq_true, beq_iff_eq, beq_iff_eq] at hrole
  exact .own (hk k hmem hrole)

end Lists

/-! ## Nodes -/

/-- Whether a node of a kind gives children of a role lines of their own. -/
def takesLines : Kind → Role → Bool
  | .block, role => role == .statement || role == .comment
  | .namespaceDecl, role => role == .member || role == .comment
  | .typeDecl form _, role => form != .enumType && (role == .member || role == .comment)
  | _, _ => false

/-- What an attribute section is said to be about. -/
def target? : Kind → Option String
  | .attributeSection target => target
  | _ => none

/-- The parts of a node that is neither a root nor an `if`. -/
theorem arranged_content {kids : List (Child α)} (h : g.Fit kids) {kind : Kind}
    (hop : ∀ op, operator? kind = some op → g.event (.token op))
    (htarget : ∀ word, target? kind = some word → g.event (.keyword word))
    (hown : ∀ k ∈ kids, takesLines kind k.role = true → g.ownLine k)
    (hroot : kind ≠ .syntaxTree) (hif : kind ≠ .ifElse) (o : Options) (id : ι) :
    Arranged g .inline (content o id kids kind) := by
  have typeParameters : Arranged g .inline (inAngles o (withRole .typeParameter kids)) :=
    h.inAngles o rfl
  have parameters : Arranged g .inline (inParentheses o (withRole .parameter kids)) :=
    h.inParentheses o rfl
  have declared : Arranged g .inline (variableList o kids) := h.commaSeparated o rfl
  have typeArguments : Arranged g .inline (typeArguments o kids) := h.inAngles o rfl
  have qualified : Arranged g .inline
      (child .target kids ++ .token "." :: nameOf kids ++ Layout.typeArguments o kids) := by
    have hdot : Arranged g .inline [.token "."] := h.words rfl
    exact ((h.child rfl).append (hdot.cons h.name)).append typeArguments
  have leaving : ∀ word, g.event (.keyword word) →
      Arranged g .inline (leavingStatement word kids) := by
    intro word hw
    refine Arranged.append ((Arranged.event hw).cons ?_) h.statementEnd
    split
    · next k hk => exact h.space.cons (.node (h.inLine_first rfl hk))
    · exact .nil _
  cases kind with
  | syntaxTree => exact absurd rfl hroot
  | ifElse => exact absurd rfl hif
  | usingDecl => exact ((h.words rfl).append (h.dotted rfl)).append h.statementEnd
  | namespaceDecl =>
    have hmembers := arranged_members (fun k hk hr => hown k hk (by simpa [takesLines] using hr)) o
    have hword : Arranged g .inline [.keyword "namespace", .space] := h.words rfl
    have hname : Arranged g .inline (dotted (withRole .name kids)) := h.dotted rfl
    have hheader := hword.append hname
    exact (hheader.append (.braced _ (hmembers true))).append h.lineEnd
  | typeDecl form mods =>
    have hkeyword : Arranged g .inline [.keyword form.keyword, .space] := by
      cases form <;> exact h.words rfl
    have hbases : Arranged g .inline (if (withRole .baseType kids).isEmpty then []
        else [.space, .token ":", .space] ++ commaSeparated o (withRole .baseType kids)) := by
      split
      · exact .nil _
      · exact (h.words rfl).append (h.commaSeparated o rfl)
    have hinside : Arranged g .lines (if form = .enumType then enumMembers (withRole .member kids)
        else members o true kids) := by
      split
      · exact h.enumMembers
      · next hf =>
        exact arranged_members (fun k hk hr => hown k hk (by simpa [takesLines, hf] using hr)) o _
    have hname := ((h.lead mods).append hkeyword).append h.name
    have hheader := (hname.append typeParameters).append hbases
    exact (hheader.append (.braced _ hinside)).append h.lineEnd
  | enumMember => exact (h.attributeLines.append h.name).append (h.initializer o)
  | methodDecl mods =>
    have hname := ((h.typedHeader mods).append h.implementedInterface).append h.name
    have hspaced := (hname.append typeParameters).append (h.spaceIf o.spaceBeforeMethodParameters)
    have hheader := hspaced.append parameters
    exact (hheader.append (h.bodyOrEnd _)).append h.lineEnd
  | constructorDecl mods =>
    have hname := (h.lead mods).append h.name
    have hspaced := hname.append (h.spaceIf o.spaceBeforeConstructorParameters)
    have hheader := hspaced.append parameters
    exact (hheader.append (h.bodyOrEnd _)).append h.lineEnd
  | fieldDecl mods => exact ((h.typedHeader mods).append declared).append h.statementEnd
  | propertyDecl mods =>
    have hname := ((h.typedHeader mods).append h.implementedInterface).append h.name
    exact (hname.append (h.accessors o)).append h.lineEnd
  | accessor form mods =>
    have hkeyword : Arranged g .inline [.keyword form.keyword] := by
      cases form <;> exact h.words rfl
    exact (h.lead mods).append (hkeyword.cons (h.bodyOrEnd _))
  | eventDecl mods => exact ((h.eventHeader mods).append declared).append h.statementEnd
  | customEventDecl mods =>
    have hname := (h.eventHeader mods).append h.name
    exact (hname.append (.braced _ h.eventAccessors)).append h.lineEnd
  | attributeSection target =>
    have hopen : Arranged g .inline [.token "["] := h.words rfl
    have hlist : Arranged g .inline (commaSeparated o (withRole .attributes kids)) :=
      h.commaSeparated o rfl
    cases target with
    | none => exact (hopen.cons hlist).append (h.words rfl)
    | some word =>
      have hword := Arranged.event (htarget word rfl)
      have hcolon : Arranged g .inline [.token ":", .space] := h.words rfl
      have hinside := (hword.cons hcolon).append hlist
      exact (hopen.cons hinside).append (h.words rfl)
  | attributeUse =>
    refine h.type.append ?_
    split
    · exact .nil _
    · exact h.inParentheses o rfl
  | parameterDecl passing =>
    have hl : ∀ k ∈ withRole .attributes kids, g.inLine k := h.inLine_withRole rfl
    have hsections := Arranged.flatMap fun k hk => (Arranged.node (hl k hk)).cons h.space
    refine Arranged.append ?_ (h.initializer o)
    refine Arranged.append (Arranged.append ?_ h.space) h.name
    refine Arranged.append (hsections.append ?_) h.type
    cases passing with
    | none => exact .nil _
    | some way => cases way <;> exact h.words rfl
  | typeParameterDecl => exact h.name
  | variableInitializer => exact h.name.append (h.initializer o)
  | simpleType | identifierExpr => exact h.name.append typeArguments
  | memberType | memberRef => exact qualified
  | primitiveType word => exact .event (h.plain _ rfl)
  | composedType nullable rank =>
    have hmark : Arranged g .inline (if nullable then [.token "?"] else []) := by
      cases nullable with
      | false => exact .nil _
      | true => exact h.words rfl
    exact (h.type.append hmark).append (h.ranks rank)
  | block =>
    have hown' := fun k hk hr => hown k hk (by simpa [takesLines] using hr)
    exact (arranged_blockContent hown' none).append h.lineEnd
  | expressionStmt => exact (h.child rfl).append h.statementEnd
  | returnStmt => exact leaving "return" (h.plain _ rfl)
  | throwStmt => exact leaving "throw" (h.plain _ rfl)
  | variableDeclStmt =>
    have hlist := (h.type.append h.space).append declared
    exact hlist.append h.statementEnd
  | invocation => exact ((h.child rfl).append (h.spaceIf _)).append (h.inParentheses o rfl)
  | objectCreate => exact ((h.words rfl).append h.type).append (h.inParentheses o rfl)
  | assignment op | binaryOp op =>
    exact ((h.child rfl).append (h.operator o (hop op rfl))).append (h.child rfl)
  | unaryOp op trailing =>
    cases trailing with
    | false => exact (Arranged.event (hop op rfl)).cons (h.child rfl)
    | true => exact (h.child rfl).append (.event (hop op rfl))
  | primitiveExpr literal => exact .event (h.plain _ rfl)
  | thisRef | baseRef => exact h.words rfl
  | typeRef => exact h.type
  | parenthesized =>
    have hopen : Arranged g .inline [.token "("] := h.words rfl
    exact (hopen.cons (h.child rfl)).append (h.words rfl)
  | cast =>
    have hopen : Arranged g .inline [.token "("] := h.words rfl
    have hclose : Arranged g .inline [.token ")"] := h.words rfl
    exact (hopen.cons h.type).append (hclose.cons (h.child rfl))
  | typeOf => exact ((h.words rfl).append h.type).append (h.words rfl)
  | identifier name => exact .event (h.plain _ rfl)
  | comment form text => exact .event (h.plain _ rfl)
  | directive word argument => exact .event (h.plain _ rfl)

/-! ## Conditions -/

/-- What stands between the keyword of an `if` and its first branch. -/
def conditionParts (o : Options) (kids : List (Child α)) : List (Part ι α) :=
  spaceIf o.spaceBeforeCondition ++ .token "(" :: child .condition kids ++ [.token ")"]

theorem ifElse_eq (o : Options) (kids : List (Child α)) :
    (ifElse o kids : List (Part ι α)) =
      .keyword "if" :: conditionParts o kids ++ (trueBranch o kids).1 ++
        falseBranch o kids (trueBranch (ι := ι) o kids).2 := by
  simp [ifElse, conditionParts]

theorem arranged_condition {kids : List (Child α)} (h : g.Fit kids) (o : Options) :
    Arranged g .inline (conditionParts o kids) := by
  have hopen : Arranged g .inline [.token "("] := h.words rfl
  exact ((h.spaceIf _).append (hopen.cons (h.child rfl))).append (h.words rfl)

end CodeView.Layout
