import CodeView.Proofs.Html.Fidelity
import CodeView.Proofs.Layout.Brackets

/-!
# How deep a node is drawn

The depth of a canvas follows the levels of indentation that are open. In the events of a node no
level is closed that they have not opened, and all are closed in the end.

* `read_event`: what one event does to the open brackets. From it, over any events: levels are
  indents less unindents (`count_level_read`), and the depth of the canvas changes with the levels
  (`depth_draw`).
* `events_nested`: the brackets of a node are nested, no prefix closes more levels than it opens,
  and drawing a node leaves the depth as it was and never rises from the outermost level.
-/

namespace CodeView.Html

open CodeView.Syntax CodeView.Layout

variable {ι : Type} [DecidableEq ι] {stack stack' : List (Bracket ι)} {stream : List (EventOf ι)}

/-- An event opens a level, closes the innermost bracket, which is one, or keeps the number of
levels. -/
theorem read_event {e : EventOf ι} (h : Mark.read stack (word false [e]) = some stack') :
    (e = .indent ∧ stack' = .level :: stack) ∨ (e = .unindent ∧ stack = .level :: stack') ∨
      (e ≠ .indent ∧ e ≠ .unindent ∧ stack'.count .level = stack.count .level) := by
  cases e with
  | indent =>
    cases h
    exact .inl ⟨rfl, rfl⟩
  | unindent =>
    cases stack with
    | nil => cases h
    | cons top stack =>
      have hread : (if top = .level then some stack else none) = some stack' := h
      split at hread
      · next ht =>
        cases hread
        exact .inr (.inl ⟨rfl, by rw [ht]⟩)
      · cases hread
  | start id =>
    cases h
    exact .inr (.inr ⟨by simp, by simp, List.count_cons_of_ne (by simp)⟩)
  | finish id =>
    cases stack with
    | nil => cases h
    | cons top stack =>
      have hread : (if top = .node id then some stack else none) = some stack' := h
      split at hread
      · next ht =>
        cases hread
        refine .inr (.inr ⟨by simp, by simp, ?_⟩)
        rw [ht, List.count_cons_of_ne (by simp)]
      · cases hread
  | _ =>
    cases h
    exact .inr (.inr ⟨by simp, by simp, rfl⟩)

/-- Reading events is reading the first and then the others. -/
theorem read_cons {e : EventOf ι} (h : Mark.read stack (word false (e :: stream)) = some stack') :
    ∃ s, Mark.read stack (word false [e]) = some s ∧
      Mark.read s (word false stream) = some stack' := by
  have hw : word false (e :: stream) = word false [e] ++ word false stream :=
    List.filterMap_append (l := [e])
  rw [hw, Mark.read_append] at h
  exact Option.bind_eq_some_iff.mp h

/-- The open levels are the indents less the unindents. -/
theorem count_level_read (h : Mark.read stack (word false stream) = some stack') :
    stack'.count .level + stream.count .unindent = stack.count .level + stream.count .indent := by
  induction stream generalizing stack with
  | nil =>
    cases h
    rfl
  | cons e stream ih =>
    obtain ⟨s, he, hrest⟩ := read_cons h
    have hih := ih hrest
    rcases read_event he with ⟨rfl, rfl⟩ | ⟨rfl, rfl⟩ | ⟨hi, hu, hs⟩
    · rw [List.count_cons_self] at hih ⊢
      rw [List.count_cons_of_ne (by simp)]
      omega
    · rw [List.count_cons_self, List.count_cons_self, List.count_cons_of_ne (by simp)]
      omega
    · rw [List.count_cons_of_ne hu, List.count_cons_of_ne hi]
      omega

/-- The depth of a canvas changes with the open levels. -/
theorem depth_draw (marks : ι → Highlight × Option String) {c : Canvas}
    (h : Mark.read stack (word false stream) = some stack') (hc : stack.count .level ≤ c.depth) :
    (draw marks c stream).depth + stack.count .level = c.depth + stack'.count .level := by
  induction stream generalizing stack c with
  | nil =>
    cases h
    rfl
  | cons e stream ih =>
    obtain ⟨s, he, hrest⟩ := read_cons h
    have hd : draw marks c (e :: stream) = draw marks (drawEvent marks c e) stream := rfl
    rw [hd]
    rcases read_event he with ⟨rfl, rfl⟩ | ⟨rfl, rfl⟩ | ⟨hi, hu, hs⟩
    · have hdepth : (drawEvent marks c .indent).depth = c.depth + 1 := rfl
      have hih := ih hrest (c := drawEvent marks c .indent)
      rw [List.count_cons_self, hdepth] at hih
      have := hih (by omega)
      omega
    · have hdepth : (drawEvent marks c .unindent).depth = c.depth - 1 := rfl
      rw [List.count_cons_self] at hc ⊢
      have hih := ih hrest (c := drawEvent marks c .unindent) (by omega)
      omega
    · have hdepth : (drawEvent marks c e).depth = c.depth := by
        cases e <;> first | rfl | exact depth_write _ _ | contradiction
      have hih := ih hrest (c := drawEvent marks c e) (by omega)
      omega

/-- In balanced events, a prefix can be read from no open bracket, and the others close what it
leaves open. -/
theorem exists_read_prefix {before after : List (EventOf ι)}
    (h : Balanced false (before ++ after)) :
    ∃ s, Mark.read [] (word false before) = some s ∧ Mark.read s (word false after) = some [] := by
  have hread := h []
  rw [word, List.filterMap_append, Mark.read_append] at hread
  exact Option.bind_eq_some_iff.mp hread

/-- A prefix of balanced events has no more unindents than indents. -/
theorem count_unindent_le (h : Balanced false stream) {before : List (EventOf ι)}
    (hp : before <+: stream) : before.count .unindent ≤ before.count .indent := by
  obtain ⟨after, rfl⟩ := hp
  obtain ⟨s, hs, -⟩ := exists_read_prefix h
  have hcount := count_level_read hs
  rw [List.count_nil] at hcount
  omega

/-- Where balanced events unindent, the canvas is not at its outermost level. -/
theorem depth_pos_of_unindent (marks : ι → Highlight × Option String) (c : Canvas)
    {before after : List (EventOf ι)} (h : Balanced false (before ++ .unindent :: after)) :
    0 < (draw marks c before).depth := by
  obtain ⟨s, hs, hrest⟩ := exists_read_prefix h
  obtain ⟨s', hu, -⟩ := read_cons hrest
  rcases read_event hu with ⟨he, -⟩ | ⟨-, rfl⟩ | ⟨-, hne, -⟩
  · cases he
  · have hdepth := depth_draw marks (c := c) hs (Nat.zero_le _)
    rw [List.count_cons_self, List.count_nil] at hdepth
    omega
  · exact absurd rfl hne

/-- **Nesting.** In the events of a node, starts and finishes of nodes and levels of indentation are
nested together. So no prefix closes more levels than it opens, drawing the node leaves the depth of
the canvas as it was, and the canvas never rises from its outermost level. If no operator in the
tree is a bracket, braces, parentheses and square brackets are nested too, together with nodes and
levels. -/
theorem events_nested (o : Options) (t : Tree) (n : NodeId) :
    Nested (word false (events o (t.branch n))) ∧
    (∀ before, before <+: events o (t.branch n) →
      before.count .unindent ≤ before.count .indent) ∧
    (∀ links c, (drawNode links o t n c).depth = c.depth) ∧
    (∀ links c before after, events o (t.branch n) = before ++ .unindent :: after →
      0 < (draw (marksOf links t) c before).depth) ∧
    ((∀ m op, operator? (t.kind m) = some op → op ∉ bracketTokens) →
      Nested (word true (events o (t.branch n)))) := by
  have hlevels : Balanced false (events o (t.branch n)) := balanced_events o t n fun _ _ _ => rfl
  refine ⟨nested_of_read (hlevels []), fun _ hp => count_unindent_le hlevels hp, ?_, ?_, ?_⟩
  · intro links c
    exact depth_draw _ (hlevels []) (Nat.zero_le _)
  · intro links c before after he
    rw [he] at hlevels
    exact depth_pos_of_unindent _ c hlevels
  · intro hop
    have htokens : Balanced true (events o (t.branch n)) :=
      balanced_events o t n fun m op hm => mark?_token (hop m op hm)
    exact nested_of_read (htokens [])

/-- A method that returns a sum. -/
def sumSample : Tree :=
  (((((Tree.empty.append 0 .member (.methodDecl (.single .publicAccess))).append 1 .body
    .block).append 2 .statement .returnStmt).append 3 .expression (.binaryOp "+")).append 4 .left
    (.identifier "a")).append 4 .right (.identifier "b")

/-- Its parentheses, its braces and the level between them are nested with its nodes. -/
theorem events_nested_sumSample :
    (∀ m op, operator? (sumSample.kind m) = some op → op ∉ bracketTokens) ∧
      (word true (events .usual (sumSample.branch 1))).take 6 =
        [.opening (.node 1), .opening .parenthesis, .closing .parenthesis, .opening (.node 2),
          .opening .brace, .opening .level] ∧
      Nested (word true (events .usual (sumSample.branch 1))) := by
  have hop : ∀ m op, operator? (sumSample.kind m) = some op → op ∉ bracketTokens := by
    intro m op hm
    by_cases hlt : m < sumSample.size
    · have hin : ∀ m < sumSample.size, ∀ op ∈ operator? (sumSample.kind m), op ∉ bracketTokens := by
        decide +kernel
      exact hin m hlt op hm
    · have hnone : sumSample.entries[m]? = none := Array.getElem?_eq_none (Nat.not_lt.mp hlt)
      rw [Tree.kind, Tree.label, hnone] at hm
      cases hm
  obtain ⟨-, -, -, -, htokens⟩ := events_nested .usual sumSample 1
  exact ⟨hop, by decide +kernel, htokens hop⟩

end CodeView.Html
