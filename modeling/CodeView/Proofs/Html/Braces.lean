import CodeView.Proofs.Html.Depth
import CodeView.Proofs.Html.Lines
import CodeView.Proofs.Layout.Arrangement
import CodeView.Proofs.Layout.Coverage

/-!
# Closing braces stand at the start of a line

A brace that ends a level of indentation is the first thing on its line, at the depth of the brace
that it closes. Some nodes end their last line themselves and some leave that to the node around
them; the grammar of parts (`Arranged`) says who does it.

* `freshAfter`: whether events leave the line empty. It is what the canvas says
  (`needsIndent_draw`).
* `Tidy`: before every brace that ends a level there is the brace that began it, and what stands
  between the two is balanced and leaves the line empty. Stretches of events can be joined
  (`Tidy.append`) unless a brace would come to stand behind an end of level that is not its own.
* `Laid`, `laid_arranged`: parts that are put together by the grammar are tidy.
* `settled_print`: so are the nodes of a tree in which statements, members and comments are
  `InPlace`, and who ends a line does so in every combination.
* `closing_braces_fresh`: what follows for a page.
-/

namespace CodeView.Html

open CodeView.Syntax CodeView.Layout

variable {ι : Type}

/-! ## Empty lines -/

/-- Whether the line is empty after an event. -/
def freshStep (fresh : Bool) (event : EventOf ι) : Bool :=
  isBreak event || (fresh && !isVisible event)

/-- Whether the line is empty after events. -/
def freshAfter (fresh : Bool) (events : List (EventOf ι)) : Bool := events.foldl freshStep fresh

section Fresh

variable (fresh : Bool)

@[simp] theorem freshAfter_nil : freshAfter fresh ([] : List (EventOf ι)) = fresh := rfl

@[simp] theorem freshAfter_cons (event : EventOf ι) (events : List (EventOf ι)) :
    freshAfter fresh (event :: events) = freshAfter (freshStep fresh event) events := rfl

@[simp] theorem freshAfter_append (a b : List (EventOf ι)) :
    freshAfter fresh (a ++ b) = freshAfter (freshAfter fresh a) b :=
  List.foldl_append

@[simp] theorem freshStep_newLine : freshStep fresh (.newLine : EventOf ι) = true := rfl

@[simp] theorem freshStep_space : freshStep fresh (.space : EventOf ι) = false := by
  cases fresh <;> rfl

@[simp] theorem freshStep_keyword (word : String) :
    freshStep fresh (.keyword word : EventOf ι) = false := by
  cases fresh <;> rfl

@[simp] theorem freshStep_token (text : String) :
    freshStep fresh (.token text : EventOf ι) = false := by
  cases fresh <;> rfl

@[simp] theorem freshStep_indent : freshStep fresh (.indent : EventOf ι) = fresh := by
  cases fresh <;> rfl

@[simp] theorem freshStep_unindent : freshStep fresh (.unindent : EventOf ι) = fresh := by
  cases fresh <;> rfl

@[simp] theorem freshStep_start (n : ι) : freshStep fresh (.start n) = fresh := by
  cases fresh <;> rfl

@[simp] theorem freshStep_finish (n : ι) : freshStep fresh (.finish n) = fresh := by
  cases fresh <;> rfl

end Fresh

/-- A canvas lacks indentation where the line is empty. -/
theorem needsIndent_draw (marks : ι → Highlight × Option String) (c : Canvas)
    (events : List (EventOf ι)) :
    (draw marks c events).needsIndent = freshAfter c.needsIndent events := by
  induction events generalizing c with
  | nil => rfl
  | cons event events ih =>
    have hstep : (drawEvent marks c event).needsIndent = freshStep c.needsIndent event := by
      cases event with
      | space | keyword _ | identifier _ _ | primitiveType _ | value _ | token _ =>
        simp [drawEvent, needsIndent_write, freshStep, isBreak, isVisible]
      | newLine => rfl
      | _ => simp [drawEvent, Canvas.deepen, Canvas.rise, freshStep, isBreak, isVisible]
    rw [freshAfter_cons, ← hstep]
    exact ih (drawEvent marks c event)

/-! ## Braces around levels -/

variable [DecidableEq ι] {a b : List (EventOf ι)}

/-- Every brace that ends a level follows, on an empty line, the brace that began the level. -/
def Tidy (events : List (EventOf ι)) : Prop :=
  ∀ before after, events = before ++ .unindent :: .token "\x7d" :: after →
    ∃ outside inside, before = outside ++ .token "\x7b" :: .indent :: inside ∧
      Balanced false inside ∧ freshAfter false inside = true

/-- Two stretches may be joined if no brace comes to stand behind an end of level. -/
def Joins (a b : List (EventOf ι)) : Prop :=
  a.getLast? ≠ some .unindent ∨ b.head? ≠ some (.token "\x7d")

omit [DecidableEq ι] in
/-- A brace behind an end of level in joined stretches is so in one of them. -/
theorem Joins.cases (h : Joins a b) {before after : List (EventOf ι)}
    (he : a ++ b = before ++ .unindent :: .token "\x7d" :: after) :
    (∃ rest, a = before ++ .unindent :: .token "\x7d" :: rest) ∨
      ∃ front, before = a ++ front ∧ b = front ++ .unindent :: .token "\x7d" :: after := by
  rcases List.append_eq_append_iff.mp he with ⟨front, hf, hb⟩ | ⟨back, ha, hb⟩
  · exact .inr ⟨front, hf, hb⟩
  · match back, hb with
    | [], hb => exact .inr ⟨[], by rw [ha, List.append_nil, List.append_nil], hb.symm⟩
    | [e], hb =>
      obtain ⟨rfl, rfl⟩ := List.cons.inj hb
      rcases h with h | h
      · exact absurd (by rw [ha, List.getLast?_concat]) h
      · exact absurd rfl h
    | e :: f :: rest, hb =>
      obtain ⟨rfl, htail⟩ := List.cons.inj hb
      obtain ⟨rfl, -⟩ := List.cons.inj htail
      exact .inl ⟨rest, ha⟩

theorem Tidy.append (ha : Tidy a) (hb : Tidy b) (h : Joins a b) : Tidy (a ++ b) := by
  intro before after he
  rcases h.cases he with ⟨rest, ha'⟩ | ⟨front, rfl, hb'⟩
  · exact ha before rest ha'
  · obtain ⟨outside, inside, rfl, hin⟩ := hb front after hb'
    exact ⟨a ++ outside, inside, by rw [List.append_assoc], hin⟩

/-- One event closes no brace at the end of a level. -/
theorem tidy_single (e : EventOf ι) : Tidy [e] := by
  intro before after he
  have hlen := congrArg List.length he
  simp only [List.length_append, List.length_cons, List.length_nil] at hlen
  omega

/-- A brace may close a level where its own brace stands and the line is empty. -/
theorem Tidy.close {outside inside : List (EventOf ι)}
    (ht : Tidy (outside ++ .token "\x7b" :: .indent :: inside)) (hb : Balanced false inside)
    (hf : freshAfter false inside = true) :
    Tidy ((outside ++ .token "\x7b" :: .indent :: inside) ++ [.unindent, .token "\x7d"]) := by
  intro before after he
  rcases List.append_eq_append_iff.mp he with ⟨front, hfront, hrest⟩ | ⟨back, ha, hrest⟩
  · -- The brace is the last event.
    match front, hrest with
    | [], _ => exact ⟨outside, inside, by rw [hfront, List.append_nil], hb, hf⟩
    | [e], hrest => exact absurd (congrArg List.length hrest) (by simp)
    | e :: f :: front, hrest => exact absurd (congrArg List.length hrest) (by simp)
  · match back, hrest with
    | [], _ => exact ⟨outside, inside, by rw [ha, List.append_nil], hb, hf⟩
    | [e], hrest =>
      obtain ⟨-, htail⟩ := List.cons.inj hrest
      obtain ⟨hne, -⟩ := List.cons.inj htail
      cases hne
    | e :: f :: rest, hrest =>
      obtain ⟨rfl, htail⟩ := List.cons.inj hrest
      obtain ⟨rfl, -⟩ := List.cons.inj htail
      exact ht before rest ha

/-! ## Stretches that are laid out -/

/-- Events that are tidy and leave nothing open. -/
structure Laid (events : List (EventOf ι)) : Prop where
  tidy : Tidy events
  balanced : Balanced false events

theorem Laid.append (ha : Laid a) (hb : Laid b) (h : Joins a b) : Laid (a ++ b) :=
  ⟨ha.tidy.append hb.tidy h, ha.balanced.append hb.balanced⟩

/-- An event that opens and closes nothing. -/
theorem laid_single {e : EventOf ι} (he : mark? false e = none) : Laid [e] := by
  refine ⟨tidy_single e, fun stack => ?_⟩
  rw [word, List.filterMap_cons_none he]
  rfl

theorem laid_nil : Laid ([] : List (EventOf ι)) := by
  refine ⟨fun before after he => ?_, fun _ => rfl⟩
  simp at he

theorem Laid.cons {e : EventOf ι} (he : mark? false e = none) (ha : Laid a) : Laid (e :: a) := by
  refine (laid_single he).append ha (.inl ?_)
  rw [List.getLast?_singleton]
  rintro ⟨⟩
  cases he

/-- One level deeper. -/
theorem Laid.level (ha : Laid a) : Laid (.indent :: a ++ [.unindent]) := by
  have hopen : Tidy ([.indent] ++ a) := (tidy_single _).append ha.tidy (.inl (by simp))
  exact ⟨hopen.append (tidy_single _) (.inr (by simp)), ha.balanced.level⟩

/-- Between braces that begin and end a level there may be whatever leaves the line empty. -/
theorem Laid.braced (ha : Laid a) (hf : freshAfter true a = true) :
    Laid (.token "\x7b" :: .indent :: .newLine :: a ++ [.unindent, .token "\x7d"]) := by
  have hline : Laid (.newLine :: a) := ha.cons rfl
  have htidy : Tidy ([] ++ .token "\x7b" :: .indent :: .newLine :: a) := by
    have hopen : Tidy ([.token "\x7b"] ++ [.indent] : List (EventOf ι)) :=
      (tidy_single _).append (tidy_single _) (.inl (by simp))
    exact hopen.append hline.tidy (.inl (by simp))
  have hbalanced := (laid_single (e := .token "\x7b") rfl).balanced.append
    (hline.balanced.level.append (laid_single (e := .token "\x7d") rfl).balanced)
  exact ⟨htidy.close hline.balanced hf, by simpa using hbalanced⟩

/-- A node goes around what it writes. -/
theorem Laid.node (ha : Laid a) (n : ι) : Laid (.start n :: a ++ [.finish n]) := by
  have hstart : Tidy ([.start n] ++ a) := (tidy_single _).append ha.tidy (.inl (by simp))
  exact ⟨hstart.append (tidy_single _) (.inr (by simp)), ha.balanced.node n⟩

/-- The last event is no end of a level. -/
def Rests (events : List (EventOf ι)) : Prop := events.getLast? ≠ some .unindent

omit [DecidableEq ι] in
theorem Rests.append (ha : Rests a) (hb : Rests b) : Rests (a ++ b) := by
  unfold Rests at ha hb ⊢
  rw [List.getLast?_append]
  cases h : b.getLast? with
  | none => simpa using ha
  | some e => simpa [h] using hb

omit [DecidableEq ι] in
/-- Only the last event counts. -/
theorem rests_concat (a : List (EventOf ι)) {e : EventOf ι} (he : e ≠ .unindent) :
    Rests (a ++ [e]) := by
  unfold Rests
  rw [List.getLast?_concat, ne_eq, Option.some.injEq]
  exact he

/-! ## Parts that are laid out -/

/-- What may stand where: whatever is laid out, and as lines whatever leaves the line empty. -/
def laidRules : Rules ι (Printed ι) where
  event e := mark? false e = none
  inLine k := Laid k.text.own ∧ Rests k.text.own
  asBlock k := ∀ style, Laid (k.text.asBlock style) ∧ Rests (k.text.asBlock style)
  ownLine k := Laid k.text.own ∧ Rests k.text.own ∧ freshAfter true k.text.own = true

/-- Parts that the grammar puts together are laid out, and as lines they leave the line empty. -/
theorem laid_arranged {m : Mode} {parts : List (Part ι (Printed ι))}
    (h : Arranged laidRules m parts) :
    Laid (parts.flatMap Part.events) ∧ Rests (parts.flatMap Part.events) ∧
      (m = .lines → freshAfter true (parts.flatMap Part.events) = true) := by
  induction h with
  | nil m => exact ⟨laid_nil, by simp [Rests], fun _ => rfl⟩
  | append ha hb iha ihb =>
    rw [List.flatMap_append]
    refine ⟨iha.1.append ihb.1 (.inl iha.2.1), iha.2.1.append ihb.2.1, fun hm => ?_⟩
    rw [freshAfter_append, iha.2.2 hm, ihb.2.2 hm]
  | @event e he =>
    refine ⟨laid_single he, ?_, fun hm => by cases hm⟩
    rintro ⟨⟩
    cases he
  | node hk => exact ⟨by simpa [Part.events] using hk.1, by simpa [Part.events] using hk.2,
      fun hm => by cases hm⟩
  | block hk style => exact ⟨by simpa [Part.events] using (hk style).1,
      by simpa [Part.events] using (hk style).2, fun hm => by cases hm⟩
  | @braced style inside hi ih =>
    have hpair := Laid.braced ih.1 (ih.2.2 rfl)
    have hlaid : Laid ((Layout.braced style inside).flatMap Part.events) := by
      rw [events_braced]
      rcases style with _ | _ | _
      · exact hpair
      · exact hpair.cons rfl
      · exact hpair.cons rfl
    refine ⟨hlaid, ?_, fun hm => by cases hm⟩
    rw [Layout.braced, closeBrace, List.append_cons, List.flatMap_append]
    exact rests_concat _ (by simp)
  | pair hi ih =>
    have hopen := ih.1.cons (e := .token "\x7b") rfl
    have hrests : Rests (.token "\x7b" :: List.flatMap Part.events _) :=
      Rests.append (a := [.token "\x7b"]) (by simp [Rests]) ih.2.1
    have hpair := hopen.append (laid_single (e := .token "\x7d") rfl) (.inl hrests)
    rw [List.flatMap_append]
    exact ⟨hpair, rests_concat _ (by simp), fun hm => by cases hm⟩
  | line ha iha =>
    rw [List.flatMap_append]
    have hbreak := laid_single (e := (.newLine : EventOf ι)) rfl
    refine ⟨iha.1.append hbreak (.inl iha.2.1), ?_, fun _ => ?_⟩
    · exact iha.2.1.append (by simp [Rests, Part.events])
    · rw [freshAfter_append]
      rfl
  | own hk => exact ⟨by simpa [Part.events] using hk.1, by simpa [Part.events] using hk.2.1,
      fun _ => by simpa [Part.events] using hk.2.2⟩

/-! ## Conditionals -/

section IfElse

variable (o : Options) {kids : List (Child (Printed ι))}

omit [DecidableEq ι] in
/-- A branch that is no block is a line of its own, one level deeper. -/
theorem events_embedded {k : Child (Printed ι)} (hk : k.kind ≠ .block) :
    (embedded o k : List (Part ι (Printed ι))).flatMap Part.events =
      .newLine :: (.indent :: k.text.own ++ [.unindent]) := by
  rw [embedded, if_neg hk]
  simp [Part.events]

theorem laid_embedded {k : Child (Printed ι)} (hown : laidRules.inLine k)
    (hblock : laidRules.asBlock k) :
    Laid ((embedded o k : List (Part ι (Printed ι))).flatMap Part.events) := by
  by_cases hk : k.kind = .block
  · rw [embedded, if_pos hk, List.flatMap_singleton]
    exact (hblock o.statementBraces).1
  · rw [events_embedded o hk]
    exact hown.1.level.cons rfl

/-- The second branch begins with no brace, so it may stand behind the end of a level. -/
theorem laid_falseBranch (hk : ∀ k ∈ kids, laidRules.inLine k ∧ laidRules.asBlock k)
    (lineOpen : Bool) :
    Laid ((falseBranch o kids lineOpen).flatMap Part.events) ∧
      ((falseBranch o kids lineOpen).flatMap Part.events).head? ≠ some (.token "\x7d") := by
  unfold falseBranch
  cases hf : first? .falseStatement kids with
  | none =>
    cases lineOpen with
    | true => exact ⟨laid_single rfl, by simp [Part.events]⟩
    | false => exact ⟨laid_nil, by simp⟩
  | some k =>
    obtain ⟨hown, hblock⟩ := hk k (List.mem_of_find?_eq_some hf)
    have hlead : ∀ tail : List (Part ι (Printed ι)), Laid (tail.flatMap Part.events) →
        Laid ((spaceIf lineOpen ++ Part.keyword "else" :: tail).flatMap Part.events) ∧
          ((spaceIf lineOpen ++ Part.keyword "else" :: tail).flatMap Part.events).head? ≠
            some (.token "\x7d") := by
      intro tail ht
      have helse := ht.cons (e := .keyword "else") rfl
      cases lineOpen with
      | true => exact ⟨helse.cons (e := .space) rfl, by simp [spaceIf, Part.events]⟩
      | false => exact ⟨helse, by simp [spaceIf, Part.events]⟩
    refine hlead _ ?_
    by_cases hif : k.kind = .ifElse
    · rw [if_pos hif]
      simpa [Part.events] using hown.1.cons (e := .space) rfl
    · rw [if_neg hif]
      by_cases hb : k.kind = .block
      · rw [embedded, if_pos hb, if_pos hb]
        obtain ⟨hlaid, hrests⟩ := hblock o.statementBraces
        simpa [Part.events] using hlaid.append (laid_single (e := .newLine) rfl) (.inl hrests)
      · rw [if_neg hb, List.append_nil]
        exact laid_embedded o hown hblock

theorem laid_ifElse (hfit : laidRules.Fit kids)
    (hk : ∀ k ∈ kids, laidRules.inLine k ∧ laidRules.asBlock k) :
    Laid ((ifElse o kids).flatMap Part.events) := by
  obtain ⟨hcond, hrests, -⟩ :=
    laid_arranged ((Arranged.event (e := .keyword "if") rfl).cons (arranged_condition hfit o))
  have htrue : Laid ((trueBranch o kids).1.flatMap Part.events) := by
    unfold trueBranch
    cases hf : first? .trueStatement kids with
    | none => exact (laid_single (e := .newLine) rfl).cons (e := .token ";") rfl
    | some k =>
      obtain ⟨hown, hblock⟩ := hk k (List.mem_of_find?_eq_some hf)
      exact laid_embedded o hown hblock
  obtain ⟨hfalse, hhead⟩ := laid_falseBranch o hk (trueBranch (ι := ι) o kids).2
  rw [ifElse_eq, List.flatMap_append, List.flatMap_append]
  exact (hcond.append htrue (.inl hrests)).append hfalse (.inr hhead)

omit [DecidableEq ι] in
/-- After an `if` whose branches end their lines the line is empty, in all combinations of blocks
and other statements. -/
theorem fresh_ifElse
    (hk : ∀ k ∈ kids, isStatementRole k.role = true →
      ∀ fresh, freshAfter fresh k.text.own = true) (fresh : Bool) :
    freshAfter fresh ((ifElse o kids).flatMap Part.events) = true := by
  have hbranch : ∀ {role k}, isStatementRole role = true → first? role kids = some k →
      ∀ fresh, freshAfter fresh k.text.own = true := by
    intro role k hr hf
    have hrole : k.role = role := by simpa using List.find?_some hf
    exact hk k (List.mem_of_find?_eq_some hf) (hrole ▸ hr)
  have hembedded : ∀ {role k}, isStatementRole role = true → first? role kids = some k →
      k.kind ≠ .block → ∀ fresh, freshAfter fresh
        ((embedded o k : List (Part ι (Printed ι))).flatMap Part.events) = true := by
    intro role k hr hf hb fresh
    rw [events_embedded o hb]
    simp [hbranch hr hf]
  -- What the first branch leaves open is ended in front of the second or with it.
  have htrue : (trueBranch (ι := ι) o kids).2 = false →
      ∀ fresh, freshAfter fresh ((trueBranch o kids).1.flatMap Part.events) = true := by
    unfold trueBranch
    cases hf : first? .trueStatement kids with
    | none => exact fun _ fresh => rfl
    | some k => exact fun hb => hembedded rfl hf (of_decide_eq_false hb)
  rw [ifElse_eq, List.flatMap_append, freshAfter_append, List.flatMap_append, freshAfter_append]
  generalize freshAfter fresh _ = fresh
  unfold falseBranch
  cases hf : first? .falseStatement kids with
  | none =>
    cases hopen : (trueBranch (ι := ι) o kids).2 with
    | true => rfl
    | false => exact htrue hopen fresh
  | some k =>
    simp only [List.flatMap_append, List.flatMap_cons, freshAfter_append]
    generalize freshAfter _ (Part.events _) = fresh
    by_cases hif : k.kind = .ifElse
    · rw [if_pos hif]
      simp [Part.events, hbranch rfl hf]
    · rw [if_neg hif]
      by_cases hb : k.kind = .block
      · rw [if_pos hb]
        simp [Part.events]
      · rw [if_neg hb, List.append_nil]
        exact hembedded rfl hf hb fresh

end IfElse

/-! ## Nodes that are laid out -/

/-- The kinds of members. -/
def isMemberKind : Kind → Bool
  | .namespaceDecl | .usingDecl | .typeDecl _ _ | .methodDecl _ | .constructorDecl _
  | .fieldDecl _ | .propertyDecl _ | .eventDecl _ | .customEventDecl _ => true
  | _ => false

/-- Whether a child of a role may be of a kind: statements are statements, comments are comments or
directives, and members of namespaces and of types that are no enumerations are members. -/
def inPlace (parent : Kind) (role : Role) (kind : Kind) : Bool :=
  if isStatementRole role then isStatementKind kind
  else if role = .comment then kind.isTrivia
  else if role = .member && takesLines parent .member then isMemberKind kind
  else true

/-- A child that is laid out. If it is a statement or a member it leaves the line empty, and if it
is a comment or a directive it leaves an empty line as it is. -/
structure Settled (k : Child (Printed ι)) : Prop where
  inLine : laidRules.inLine k
  asBlock : laidRules.asBlock k
  ends : (isStatementKind k.kind || isMemberKind k.kind) = true →
    ∀ fresh, freshAfter fresh k.text.own = true
  silent : k.kind.isTrivia = true → freshAfter true k.text.own = true

/-- In place, it may stand on its own line where its role lets it. -/
theorem Settled.ownLine {k : Child (Printed ι)} (hk : Settled k) {parent : Kind}
    (hplace : inPlace parent k.role k.kind = true)
    (hr : k.role = .statement ∨ k.role = .comment ∨
      k.role = .member ∧ takesLines parent .member = true) : laidRules.ownLine k := by
  refine ⟨hk.inLine.1, hk.inLine.2, ?_⟩
  rcases hr with hr | hr | ⟨hr, ht⟩
  · have hkind : isStatementKind k.kind = true := by
      simpa [inPlace, hr, isStatementRole] using hplace
    exact hk.ends (by rw [hkind]; rfl) true
  · exact hk.silent (by simpa [inPlace, hr, isStatementRole] using hplace)
  · have hkind : isMemberKind k.kind = true := by
      simpa [inPlace, hr, isStatementRole, ht] using hplace
    exact hk.ends (by rw [hkind, Bool.or_true]) true

/-- Only statements, comments and members get lines of their own. -/
theorem takesLines_cases {parent : Kind} {role : Role} (h : takesLines parent role = true) :
    role = .statement ∨ role = .comment ∨ role = .member ∧ takesLines parent .member = true := by
  cases parent with
  | block | namespaceDecl | typeDecl _ _ => cases role <;> simp_all [takesLines]
  | _ => cases h

omit [DecidableEq ι] in
/-- Statements and members other than `if` end with a line break. -/
theorem exists_content_eq {α : Type} (o : Options) (id : ι) (kids : List (Child α)) {kind : Kind}
    (hkind : (isStatementKind kind || isMemberKind kind) = true) (hif : kind ≠ .ifElse) :
    ∃ front, content o id kids kind = front ++ [.newLine] := by
  cases kind with
  | ifElse => exact absurd rfl hif
  | namespaceDecl | typeDecl _ _ | methodDecl _ | constructorDecl _ | propertyDecl _
  | customEventDecl _ | block => exact ⟨_, rfl⟩
  | usingDecl | fieldDecl _ | eventDecl _ | expressionStmt | returnStmt | throwStmt
  | variableDeclStmt => exact ⟨_, List.append_cons ..⟩
  | _ => cases hkind

section Node

variable (o : Options) (id : ι) {kids : List (Child (Printed ι))} {kind : Kind}

/-- A node of children that are laid out and in place is laid out, by its own rules and as a
block. -/
theorem laid_node (hk : ∀ k ∈ kids, Settled k)
    (hplace : ∀ k ∈ kids, inPlace kind k.role k.kind = true) :
    Laid (Printed.node o id kids kind).own ∧
      ∀ style, Laid ((Printed.node o id kids kind).asBlock style) := by
  have hown := fun k hmem => (hk k hmem).ownLine (hplace k hmem)
  have hplain : ∀ e : EventOf ι, e.isPlain = true → mark? false e = none := by
    intro e he
    cases e <;> first | rfl | cases he
  have hfit : laidRules.Fit kids :=
    ⟨hplain, fun k hmem _ => (hk k hmem).inLine, fun k hmem _ => (hk k hmem).asBlock⟩
  constructor
  · suffices hcontent : Laid ((content o id kids kind).flatMap Part.events) from hcontent.node id
    by_cases hif : kind = .ifElse
    · rw [hif]
      exact laid_ifElse o hfit fun k hmem => ⟨(hk k hmem).inLine, (hk k hmem).asBlock⟩
    · by_cases hroot : kind = .syntaxTree
      · rw [hroot]
        exact (laid_arranged (arranged_rootMembers (fun k hmem => .node (hk k hmem).inLine)
          (.event rfl) none)).1
      · have hlines := fun k hmem ht => hown k hmem (takesLines_cases ht)
        exact (laid_arranged (arranged_content hfit (fun _ _ => rfl) (fun _ _ => rfl) hlines
          hroot hif o id)).1
  · intro style
    have hlines : ∀ k ∈ kids, k.role = .statement ∨ k.role = .comment → laidRules.ownLine k :=
      fun k hmem hr => hown k hmem (hr.imp_right .inl)
    exact (laid_arranged (arranged_blockContent hlines (some style))).1.node id

/-- A statement or member leaves the line empty, if its own statements do. -/
theorem fresh_node (hk : ∀ k ∈ kids, Settled k)
    (hplace : ∀ k ∈ kids, inPlace kind k.role k.kind = true)
    (hkind : (isStatementKind kind || isMemberKind kind) = true) (fresh : Bool) :
    freshAfter fresh (Printed.node o id kids kind).own = true := by
  suffices hcontent : ∀ fresh,
      freshAfter fresh ((content o id kids kind).flatMap Part.events) = true by
    simp [Printed.node, hcontent]
  intro fresh
  by_cases hif : kind = .ifElse
  · rw [hif]
    refine fresh_ifElse o (fun k hmem hr => (hk k hmem).ends ?_) fresh
    have hp := hplace k hmem
    rw [inPlace, if_pos hr] at hp
    rw [hp]
    rfl
  · obtain ⟨front, hfront⟩ := exists_content_eq o id kids hkind hif
    rw [hfront, List.flatMap_append, freshAfter_append]
    rfl

theorem settled_node (role : Role) (simple : Bool) (hk : ∀ k ∈ kids, Settled k)
    (hplace : ∀ k ∈ kids, inPlace kind k.role k.kind = true) :
    Settled ⟨role, kind, simple, .node o id kids kind⟩ := by
  obtain ⟨hown, hblock⟩ := laid_node o id hk hplace
  refine ⟨⟨hown, rests_concat _ (by simp)⟩, fun style => ⟨hblock style, rests_concat _ (by simp)⟩,
    fresh_node o id hk hplace, fun ht => ?_⟩
  cases kind with
  | comment _ _ | directive _ _ => rfl
  | _ => cases ht

end Node

/-- The children of a node are of kinds that their roles allow. -/
def InPlace (t : Tree) (n : NodeId) : Prop :=
  ∀ c ∈ t.children n, inPlace (t.kind n) (t.role c) (t.kind c) = true

instance (t : Tree) (n : NodeId) : Decidable (InPlace t n) :=
  inferInstanceAs (Decidable (∀ c ∈ t.children n, _))

/-- What a branch prints is laid out, if the children in it are in place. -/
theorem settled_print {t : Tree} (h : t.WellFormed) (o : Options) {n : NodeId}
    (hn : ∀ m ∈ (t.branch n).ids, InPlace t m) : Settled (print o (t.branch n)) := by
  induction n using h.induction_down with
  | step n ih =>
    rw [h.ids_branch] at hn
    have hkids : ∀ k ∈ (t.children n).map (fun c => print o (t.branch c)), Settled k := by
      refine List.forall_mem_map.mpr fun c hc => ih c hc fun m hm => ?_
      exact hn m (List.mem_cons_of_mem _ (List.mem_flatMap.mpr ⟨c, hc, hm⟩))
    have hplace : ∀ k ∈ (t.children n).map (fun c => print o (t.branch c)),
        inPlace (t.kind n) k.role k.kind = true := by
      refine List.forall_mem_map.mpr fun c hc => ?_
      rw [role_print h, kind_print h]
      exact hn n List.mem_cons_self c hc
    have hnode := settled_node o n (print o (t.branch n)).role (print o (t.branch n)).isSimple
      hkids hplace
    rwa [← text_print h, ← kind_print h o] at hnode

/-! ## Pages -/

/-- **Closing braces.** Let the statements, members and comments at and below a node be in place.
Where a brace ends a level in the events of the node, there stands before it the brace that began
the level, nodes and levels are nested between the two, and the canvas is at the start of a line and
as deep as it was before the first of them. After every statement and every member at or below the
node the canvas is at the start of a line. -/
theorem closing_braces_fresh {t : Tree} (ht : Interface.Reached t) (o : Options) (links : Links)
    {n : NodeId} (hn : ∀ m ∈ t.descendants n, InPlace t m) :
    (∀ c before after, events o (t.branch n) = before ++ .unindent :: .token "\x7d" :: after →
      ∃ outside inside, before = outside ++ .token "\x7b" :: .indent :: inside ∧
        Nested (word false inside) ∧
        (draw (marksOf links t) c (before ++ [.unindent])).needsIndent = true ∧
        (draw (marksOf links t) c (before ++ [.unindent])).depth =
          (draw (marksOf links t) c outside).depth) ∧
    ∀ m ∈ t.descendants n, (isStatementKind (t.kind m) || isMemberKind (t.kind m)) = true →
      ∀ c, (drawNode links o t m c).needsIndent = true := by
  have h := ht.wellFormed
  rw [h.descendants_eq] at hn ⊢
  constructor
  · intro c before after he
    have hlaid := (settled_print h o hn).inLine.1
    rw [← events_eq] at hlaid
    obtain ⟨outside, inside, rfl, hbalanced, hfresh⟩ := hlaid.tidy before after he
    refine ⟨outside, inside, rfl, nested_of_read (hbalanced []), ?_, ?_⟩
    · rw [needsIndent_draw]
      simp [hfresh]
    · have hlevel : Balanced false ([.token "\x7b"] ++ (.indent :: inside ++ [.unindent])) :=
        (laid_single rfl).balanced.append hbalanced.level
      have hdraw : draw (marksOf links t) c
          ((outside ++ .token "\x7b" :: .indent :: inside) ++ [.unindent]) =
          draw (marksOf links t) (draw (marksOf links t) c outside)
            ([.token "\x7b"] ++ (.indent :: inside ++ [.unindent])) := by
        simp [draw, List.foldl_append]
      rw [hdraw]
      exact depth_draw _ (hlevel []) (Nat.zero_le _)
  · intro m hm hkind c
    have hbelow : ∀ x ∈ (t.branch m).ids, x ∈ (t.branch n).ids := by
      intro x hx
      rw [h.mem_ids_branch] at hm hx ⊢
      exact h.mem_lineage_trans hm hx
    have hsettled := settled_print h o fun x hx => hn x (hbelow x hx)
    unfold drawNode
    rw [needsIndent_draw, events_eq]
    exact hsettled.ends (by rwa [kind_print h]) _

/-- A method whose body ends in an `else` without braces and a comment. -/
def tailSample : Document :=
  .node ⟨.member, .methodDecl (.single .publicAccess), []⟩
    [.node ⟨.body, .block, []⟩
      [.node ⟨.statement, .ifElse, []⟩
        [.node ⟨.trueStatement, .block, []⟩ [.node ⟨.statement, .returnStmt, []⟩ []],
          .node ⟨.falseStatement, .ifElse, []⟩ [.node ⟨.trueStatement, .throwStmt, []⟩ []]],
        .node ⟨.comment, .comment .singleLine "done", []⟩ []]]

/-- The tree of the method. -/
def tailTree : Tree := (Tree.ofDocument tailSample).toOption.getD .empty

/-- The brace of the body is the first thing on its line, at the depth of the method. -/
theorem closing_braces_fresh_tailTree :
    (∀ m ∈ tailTree.descendants 1, InPlace tailTree m) ∧
      events .usual (tailTree.branch 1) =
        (events .usual (tailTree.branch 1)).take 50 ++ .unindent :: .token "\x7d" ::
          (events .usual (tailTree.branch 1)).drop 52 ∧
      (draw (marksOf noLinks tailTree) Canvas.blank
        ((events .usual (tailTree.branch 1)).take 50 ++ [.unindent])).needsIndent = true ∧
      3 ∈ tailTree.descendants 1 ∧
      (drawNode noLinks .usual tailTree 3 Canvas.blank).needsIndent = true := by
  have hdoc : Tree.ofDocument tailSample = .ok tailTree := by rfl
  have hplace : ∀ m ∈ tailTree.descendants 1, InPlace tailTree m := by decide +kernel
  have hbrace : events .usual (tailTree.branch 1) =
      (events .usual (tailTree.branch 1)).take 50 ++ .unindent :: .token "\x7d" ::
        (events .usual (tailTree.branch 1)).drop 52 := by decide +kernel
  have hmem : 3 ∈ tailTree.descendants 1 := by decide +kernel
  obtain ⟨hclose, hend⟩ := closing_braces_fresh (.ofDocument hdoc) .usual noLinks hplace
  obtain ⟨_, _, _, _, hfresh, _⟩ := hclose Canvas.blank _ _ hbrace
  exact ⟨hplace, hbrace, hfresh, hmem, hend 3 hmem (by decide +kernel) Canvas.blank⟩

end CodeView.Html
