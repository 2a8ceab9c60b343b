import CodeView.Proofs.Html.Fidelity

/-!
# String literals that read back

A string literal is shown between quotes with some of its characters escaped, and what is shown is
encoded for the page. Both can be undone.

* `closingQuote?` finds the end of a literal: a backslash takes the next character along.
  `unescape?` reads the escapes; `readLiteral?` is a whole literal read by both.
* `closingQuote?_escape`, `unescape?_escape`: whatever the text holds, its escaped form reaches up
  to the closing quote and reads back, so a literal does (`readLiteral?_quoted`).
* `elements_stringLiteral`: the literal is the one element that is written, encoded.
-/

namespace CodeView.Text

/-! ## Readers -/

/-- The place of the first quote that ends a literal, where a backslash takes the next character
along. -/
def closingQuote? : List Char → Option Nat
  | [] => none
  | '"' :: _ => some 0
  | '\\' :: _ :: rest => (closingQuote? rest).map (· + 2)
  | _ :: rest => (closingQuote? rest).map (· + 1)

/-- Reads the escapes of the body of a literal. A backslash before any other character is an
error. -/
def unescape? : List Char → Option (List Char)
  | [] => some []
  | '\\' :: '\\' :: rest => (unescape? rest).map ('\\' :: ·)
  | '\\' :: '"' :: rest => (unescape? rest).map ('"' :: ·)
  | '\\' :: 't' :: rest => (unescape? rest).map ('\t' :: ·)
  | '\\' :: 'r' :: rest => (unescape? rest).map ('\r' :: ·)
  | '\\' :: 'n' :: rest => (unescape? rest).map ('\n' :: ·)
  | c :: rest => if c = '\\' then none else (unescape? rest).map (c :: ·)

/-- Reads a text that is one literal: it starts with a quote, and the quote that ends the literal is
its last character. -/
def readLiteral? : List Char → Option (List Char)
  | '"' :: rest =>
    match closingQuote? rest with
    | some last => if last + 1 = rest.length then unescape? (rest.take last) else none
    | none => none
  | _ => none

/-! ## Escaped texts -/

theorem escapeChars_cons (c : Char) (cs : List Char) :
    escapeChars (c :: cs) = escapeChar c ++ escapeChars cs :=
  List.flatMap_cons

theorem closingQuote?_escapeChar (c : Char) (rest : List Char) :
    closingQuote? (escapeChar c ++ rest) =
      (closingQuote? rest).map (· + (escapeChar c).length) := by
  unfold escapeChar
  split
  · rfl
  · rfl
  · rfl
  · rfl
  · rfl
  · next hb hq _ _ _ =>
    rw [List.singleton_append]
    rw [closingQuote?]
    · rfl
    · exact hq
    · intro d rest' h
      exact absurd h hb

/-- The escaped form of a text has no quote that would end a literal. -/
theorem closingQuote?_escape (cs rest : List Char) :
    closingQuote? (escapeChars cs ++ '"' :: rest) = some (escapeChars cs).length := by
  induction cs with
  | nil => rfl
  | cons c cs ih =>
    rw [escapeChars_cons, List.append_assoc, closingQuote?_escapeChar, ih, Option.map_some,
      List.length_append, Nat.add_comm]

theorem unescape?_escapeChar (c : Char) (rest : List Char) :
    unescape? (escapeChar c ++ rest) = (unescape? rest).map (c :: ·) := by
  unfold escapeChar
  split
  · rfl
  · rfl
  · rfl
  · rfl
  · rfl
  · next hb _ _ _ _ =>
    rw [List.singleton_append]
    rw [unescape?, if_neg hb] <;> intro rest' h <;> exact absurd h hb

theorem unescape?_escape (cs : List Char) : unescape? (escapeChars cs) = some cs := by
  induction cs with
  | nil => rfl
  | cons c cs ih => rw [escapeChars_cons, unescape?_escapeChar, ih, Option.map_some]

/-- Tabs and line ends are escaped. -/
theorem not_mem_escapeChar (c : Char) :
    '\t' ∉ escapeChar c ∧ '\r' ∉ escapeChar c ∧ '\n' ∉ escapeChar c := by
  unfold escapeChar
  split
  · decide
  · decide
  · decide
  · decide
  · decide
  · next _ _ ht hr hn =>
    simp only [List.mem_singleton]
    exact ⟨fun e => ht e.symm, fun e => hr e.symm, fun e => hn e.symm⟩

theorem not_mem_escapeChars (cs : List Char) :
    '\t' ∉ escapeChars cs ∧ '\r' ∉ escapeChars cs ∧ '\n' ∉ escapeChars cs := by
  induction cs with
  | nil => simp [escapeChars]
  | cons c cs ih => simp [escapeChars_cons, not_mem_escapeChar c, ih]

/-! ## Literals -/

theorem toList_quoted (text : String) :
    (quoted text).toList = '"' :: (escapeChars text.toList ++ ['"']) := by
  unfold quoted escape
  rw [String.toList_append, String.toList_append, String.toList_ofList (l := escapeChars _)]
  rfl

theorem not_mem_quoted (text : String) :
    '\t' ∉ (quoted text).toList ∧ '\r' ∉ (quoted text).toList ∧ '\n' ∉ (quoted text).toList := by
  simp [toList_quoted, not_mem_escapeChars]

/-- A literal ends with its last character and reads back. -/
theorem readLiteral?_quoted (text : String) :
    readLiteral? (quoted text).toList = some text.toList := by
  rw [toList_quoted, readLiteral?, closingQuote?_escape]
  have hlength : (escapeChars text.toList).length + 1 =
      (escapeChars text.toList ++ ['"']).length := by
    rw [List.length_append, List.length_singleton]
  simp only
  rw [if_pos hlength, List.take_left, unescape?_escape]

end CodeView.Text

namespace CodeView.Html

open CodeView.Syntax CodeView.Layout

variable {ι : Type}

/-- A literal is written as one element, in the class of string literals. -/
theorem elements_stringLiteral (s : String) :
    elements (literalElement (.string s)).toList =
      [⟨"c-st".toList, none, encodeChars (Text.quoted s).toList⟩] := by
  have hwritten : (literalElement (.string s)).toList =
      (spanPiece .stringLiteral (Text.quoted s)).chars := toList_span _ _
  have hsafe : (spanPiece .stringLiteral (Text.quoted s)).Safe := ⟨⟨_, rfl⟩, safeText_encode _⟩
  have h := Piece.elements_chars hsafe []
  rw [List.append_nil] at h
  rw [hwritten, h]
  rfl

/-- The content of the element is a literal of the text. -/
theorem readLiteral?_element (s : String) :
    (elements (literalElement (.string s)).toList).map
      (fun e => Text.readLiteral? (decodeEntities e.inner)) = [some s.toList] := by
  rw [elements_stringLiteral, List.map_singleton, decodeEntities_encode, Text.readLiteral?_quoted]

theorem literalElement_inj {s s' : String}
    (h : literalElement (.string s) = literalElement (.string s')) : s = s' := by
  have hread := readLiteral?_element s
  rw [h, readLiteral?_element, List.cons.injEq, Option.some.injEq] at hread
  exact (String.toList_inj.mp hread.1).symm

theorem output_drawEvent_value (marks : ι → Highlight × Option String) (c : Canvas)
    (literal : Literal) :
    (drawEvent marks c (.value literal)).output.toList =
      c.output.toList ++ pad c.depth c.needsIndent ++ (literalElement literal).toList :=
  output_write c _

/-- **String literals read back.** A string is shown as its escaped form between quotes, in which
the first quote that ends a literal is the last character and which has no raw tabs and line ends;
without its escapes it is the string. On the page it is the text of the one element that is written
for it, so the string can be read from there, and different strings look different. -/
theorem stringLiteral_reads_back (marks : ι → Highlight × Option String) (c : Canvas)
    (s : String) :
    displayLiteral (.string s) = (.stringLiteral, "\"" ++ Text.escape s ++ "\"") ∧
    (displayLiteral (.string s)).2.toList = '"' :: ((Text.escape s).toList ++ ['"']) ∧
    Text.closingQuote? ((Text.escape s).toList ++ ['"']) = some (Text.escape s).toList.length ∧
    ('\t' ∉ (displayLiteral (.string s)).2.toList ∧ '\r' ∉ (displayLiteral (.string s)).2.toList ∧
      '\n' ∉ (displayLiteral (.string s)).2.toList) ∧
    Text.unescape? (Text.escape s).toList = some s.toList ∧
    (drawEvent marks c (.value (.string s))).output.toList =
      c.output.toList ++ pad c.depth c.needsIndent ++ (literalElement (.string s)).toList ∧
    (elements (literalElement (.string s)).toList).map
      (fun e => Text.readLiteral? (decodeEntities e.inner)) = [some s.toList] ∧
    ∀ s', (drawEvent marks c (.value (.string s))).output =
      (drawEvent marks c (.value (.string s'))).output ↔ s = s' := by
  have hescape : (Text.escape s).toList = Text.escapeChars s.toList := String.toList_ofList
  rw [hescape]
  refine ⟨rfl, Text.toList_quoted s, Text.closingQuote?_escape _ _, Text.not_mem_quoted s,
    Text.unescape?_escape _, output_drawEvent_value marks c _, readLiteral?_element s,
    fun s' => ⟨fun h => ?_, fun h => h ▸ rfl⟩⟩
  rw [← String.toList_inj, output_drawEvent_value, output_drawEvent_value,
    List.append_cancel_left_eq, String.toList_inj] at h
  exact literalElement_inj h

end CodeView.Html
