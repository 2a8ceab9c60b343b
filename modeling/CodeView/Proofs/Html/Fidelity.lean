import CodeView.Html.Page
import CodeView.Proofs.Html.Markup

/-!
# What a page says

Drawing events is writing a row of safe pieces, whose texts say what the events say.

* `plainText`: the text that events stand for, with the indentation that is pending at each point.
* `pieces`: the row of pieces that drawing writes (`output_draw`). They are safe (`safe_pieces`),
  and their texts are the plain text, encoded (`body_pieces`).
* `render_eq`: a page is the container around such a row.
-/

namespace CodeView.Html

open CodeView.Syntax CodeView.Layout

/-! ## The text of events -/

variable {ι : Type}

/-- What an event shows on its line; nothing if it only moves, or is for readers of the source. -/
def shown? : EventOf ι → Option String
  | .space => some " "
  | .keyword word => some word
  | .identifier _ name => some name
  | .primitiveType word => some word
  | .value literal => some (displayLiteral literal).2
  | .token text => some text
  | _ => none

/-- The spaces in front of the first thing on a line. -/
def pad (depth : Nat) (pending : Bool) : List Char :=
  if pending then List.replicate (depth * indentWidth) ' ' else []

/-- The text of events at a depth of indentation, where `pending` says that the line still lacks its
indentation. -/
def plainText : Nat → Bool → List (EventOf ι) → List Char
  | _, _, [] => []
  | depth, pending, .indent :: events => plainText (depth + 1) pending events
  | depth, pending, .unindent :: events => plainText (depth - 1) pending events
  | depth, _, .newLine :: events => '\n' :: plainText depth true events
  | depth, pending, event :: events =>
    match shown? event with
    | some text => pad depth pending ++ text.toList ++ plainText depth false events
    | none => plainText depth pending events

/-! ## The pieces of events -/

/-- The piece of an element without a link. -/
def spanPiece (h : Highlight) (text : String) : Piece :=
  .span h.cssClass.toList (encodeChars text.toList)

/-- The piece of an identifier. -/
def identifierPiece (mark : Highlight × Option String) (name : String) : Piece :=
  match mark.2 with
  | some href =>
    .anchor mark.1.cssClass.toList (encodeAttributeChars href.toList) (encodeChars name.toList)
  | none => spanPiece mark.1 name

/-- The piece that an event writes on its line. -/
def piece? (marks : ι → Highlight × Option String) : EventOf ι → Option Piece
  | .space => some (.text [' '])
  | .keyword word => some (spanPiece .keyword word)
  | .identifier id name => some (identifierPiece (marks id) name)
  | .primitiveType word => some (spanPiece .typeReference word)
  | .value literal => some (spanPiece (displayLiteral literal).1 (displayLiteral literal).2)
  | .token text => some (.text (encodeChars text.toList))
  | _ => none

/-- The row of pieces that events write. -/
def pieces (marks : ι → Highlight × Option String) : Nat → Bool → List (EventOf ι) → List Piece
  | _, _, [] => []
  | depth, pending, .indent :: events => pieces marks (depth + 1) pending events
  | depth, pending, .unindent :: events => pieces marks (depth - 1) pending events
  | depth, _, .newLine :: events => .text ['\n'] :: pieces marks depth true events
  | depth, pending, event :: events =>
    match piece? marks event with
    | some piece => .text (pad depth pending) :: piece :: pieces marks depth false events
    | none => pieces marks depth pending events

variable {marks : ι → Highlight × Option String}

theorem safeText_of_plain {cs : List Char} (h : ∀ c ∈ cs, c ∉ ['&', '<', '>']) : SafeText cs := by
  rw [← encodeChars_eq_self h]
  exact safeText_encode cs

theorem mem_pad {depth : Nat} {pending : Bool} {c : Char} (h : c ∈ pad depth pending) :
    c = ' ' := by
  unfold pad at h
  split at h
  · exact List.eq_of_mem_replicate h
  · simp at h

theorem plain_pad (depth : Nat) (pending : Bool) :
    ∀ c ∈ pad depth pending, c ∉ ['&', '<', '>'] := by
  intro c hc
  rw [mem_pad hc]
  decide

theorem safe_identifierPiece (mark : Highlight × Option String) (name : String) :
    (identifierPiece mark name).Safe := by
  unfold identifierPiece spanPiece
  split
  · exact ⟨⟨_, rfl⟩, safeAttribute_encode _, safeText_encode _⟩
  · exact ⟨⟨_, rfl⟩, safeText_encode _⟩

theorem safe_piece? {event : EventOf ι} {piece : Piece} (h : piece? marks event = some piece) :
    piece.Safe := by
  cases event <;> simp only [piece?, Option.some.injEq, reduceCtorEq] at h <;> subst h
  case space => exact safeText_of_plain (by simp)
  case keyword word => exact ⟨⟨_, rfl⟩, safeText_encode _⟩
  case identifier id name => exact safe_identifierPiece _ _
  case primitiveType word => exact ⟨⟨_, rfl⟩, safeText_encode _⟩
  case value literal => exact ⟨⟨_, rfl⟩, safeText_encode _⟩
  case token text => exact safeText_encode _

/-- Whatever events say, their pieces are safe. -/
theorem safe_pieces (marks : ι → Highlight × Option String) (depth : Nat) (pending : Bool)
    (events : List (EventOf ι)) : ∀ piece ∈ pieces marks depth pending events, piece.Safe := by
  fun_induction pieces marks depth pending events with
  | case1 => simp
  | case2 _ _ _ ih => exact ih
  | case3 _ _ _ ih => exact ih
  | case4 _ _ _ ih =>
    intro piece hp
    rcases List.mem_cons.mp hp with rfl | hp
    · exact safeText_of_plain (by simp)
    · exact ih piece hp
  | case5 depth pending event events _ _ _ first he ih =>
    intro piece hp
    rcases List.mem_cons.mp hp with rfl | hp
    · exact safeText_of_plain (plain_pad depth pending)
    · rcases List.mem_cons.mp hp with rfl | hp
      · exact safe_piece? he
      · exact ih piece hp
  | case6 _ _ _ _ _ _ _ _ ih => exact ih

/-! ## Their texts -/

theorem encodeChars_append (a b : List Char) :
    encodeChars (a ++ b) = encodeChars a ++ encodeChars b := by
  unfold encodeChars
  rw [List.flatMap_append]

theorem body_identifierPiece (mark : Highlight × Option String) (name : String) :
    (identifierPiece mark name).body = encodeChars name.toList := by
  unfold identifierPiece
  split <;> rfl

/-- An event writes a piece if it shows something, and the piece has that text. -/
theorem body_piece? (marks : ι → Highlight × Option String) (event : EventOf ι) :
    (piece? marks event).map Piece.body =
      (shown? event).map fun text => encodeChars text.toList := by
  cases event with
  | identifier id name => exact congrArg some (body_identifierPiece _ _)
  | space => rfl
  | keyword word => rfl
  | primitiveType word => rfl
  | value literal => rfl
  | token text => rfl
  | _ => rfl

theorem plainText_cons {event : EventOf ι} (h1 : event ≠ .indent) (h2 : event ≠ .unindent)
    (h3 : event ≠ .newLine) (depth : Nat) (pending : Bool) (events : List (EventOf ι)) :
    plainText depth pending (event :: events) =
      match shown? event with
      | some text => pad depth pending ++ text.toList ++ plainText depth false events
      | none => plainText depth pending events := by
  rw [plainText] <;> assumption

theorem body_pieces (marks : ι → Highlight × Option String) (depth : Nat) (pending : Bool)
    (events : List (EventOf ι)) :
    (pieces marks depth pending events).flatMap Piece.body =
      encodeChars (plainText depth pending events) := by
  fun_induction pieces marks depth pending events with
  | case1 => rfl
  | case2 _ _ _ ih => rw [ih, plainText]
  | case3 _ _ _ ih => rw [ih, plainText]
  | case4 _ _ _ ih =>
    rw [List.flatMap_cons, ih, plainText]
    rfl
  | case5 depth pending event events h1 h2 h3 piece he ih =>
    have hb := body_piece? marks event
    rw [he] at hb
    cases hs : shown? event with
    | none =>
      rw [hs] at hb
      cases hb
    | some text =>
      rw [hs] at hb
      have hp : piece.body = encodeChars text.toList := Option.some.inj hb
      rw [plainText_cons h1 h2 h3, hs]
      rw [List.flatMap_cons, List.flatMap_cons, ih, hp, encodeChars_append, encodeChars_append,
        encodeChars_eq_self (plain_pad depth pending), List.append_assoc]
      rfl
  | case6 depth pending event events h1 h2 h3 he ih =>
    have hb := body_piece? marks event
    rw [he] at hb
    cases hs : shown? event with
    | some text =>
      rw [hs] at hb
      cases hb
    | none => rw [ih, plainText_cons h1 h2 h3, hs]

/-! ## Drawing -/

theorem output_put (c : Canvas) (text : String) :
    (c.put text).output.toList = c.output.toList ++ text.toList :=
  String.toList_append

theorem output_write (c : Canvas) (text : String) :
    (c.write text).output.toList =
      c.output.toList ++ pad c.depth c.needsIndent ++ text.toList := by
  unfold Canvas.write Canvas.startLine pad
  split <;> simp [Canvas.put, Canvas.indentation]

theorem depth_write (c : Canvas) (text : String) : (c.write text).depth = c.depth := by
  unfold Canvas.write Canvas.startLine
  split <;> rfl

theorem needsIndent_write (c : Canvas) (text : String) :
    (c.write text).needsIndent = false := by
  unfold Canvas.write Canvas.startLine
  split
  · rfl
  · next h => simpa [Canvas.put] using h

theorem toList_encodeText (text : String) :
    (encodeText text).toList = encodeChars text.toList :=
  String.toList_ofList

theorem toList_encodeAttribute (text : String) :
    (encodeAttribute text).toList = encodeAttributeChars text.toList :=
  String.toList_ofList

theorem toList_span (h : Highlight) (text : String) :
    (span h text).toList = (spanPiece h text).chars := by
  unfold span
  rw [String.toList_append, String.toList_append, String.toList_append, String.toList_append,
    toList_encodeText]
  rfl

theorem toList_anchor (h : Highlight) (href text : String) :
    (anchor h href text).toList =
      (Piece.anchor h.cssClass.toList (encodeAttributeChars href.toList)
        (encodeChars text.toList)).chars := by
  unfold anchor
  rw [String.toList_append, String.toList_append, String.toList_append, String.toList_append,
    String.toList_append, String.toList_append, toList_encodeText, toList_encodeAttribute]
  rfl

theorem toList_identifierElement (mark : Highlight × Option String) (name : String) :
    (identifierElement mark name).toList = (identifierPiece mark name).chars := by
  unfold identifierElement identifierPiece
  cases mark.2 with
  | none => exact toList_span _ _
  | some href => exact toList_anchor _ _ _

/-- An event that writes a piece writes it on the line. -/
theorem drawEvent_of_piece (c : Canvas) {event : EventOf ι} {piece : Piece}
    (h : piece? marks event = some piece) :
    ∃ text : String, drawEvent marks c event = c.write text ∧ text.toList = piece.chars := by
  cases event <;> simp only [piece?, Option.some.injEq, reduceCtorEq] at h <;> subst h
  case space => exact ⟨_, rfl, rfl⟩
  case keyword word => exact ⟨_, rfl, toList_span _ _⟩
  case identifier id name => exact ⟨_, rfl, toList_identifierElement _ _⟩
  case primitiveType word => exact ⟨_, rfl, toList_span _ _⟩
  case value literal => exact ⟨_, rfl, toList_span _ _⟩
  case token text => exact ⟨_, rfl, toList_encodeText _⟩

/-- Drawing writes the pieces of the events. -/
theorem output_draw (c : Canvas) (events : List (EventOf ι)) :
    (draw marks c events).output.toList =
      c.output.toList ++ (pieces marks c.depth c.needsIndent events).flatMap Piece.chars := by
  unfold draw
  induction events generalizing c with
  | nil => simp [pieces]
  | cons event events ih =>
    rw [List.foldl_cons, ih]
    cases hp : piece? marks event with
    | some piece =>
      obtain ⟨text, hd, ht⟩ := drawEvent_of_piece c hp
      have hcons : pieces marks c.depth c.needsIndent (event :: events) =
          .text (pad c.depth c.needsIndent) :: piece :: pieces marks c.depth false events := by
        cases event <;> simp_all [piece?, pieces]
      rw [hd, hcons, output_write, depth_write, needsIndent_write, ht, List.flatMap_cons,
        List.flatMap_cons, List.append_assoc, List.append_assoc]
      rfl
    | none =>
      -- A line break is written as it is, without the indentation of its line.
      cases event <;> simp [piece?] at hp
      case newLine =>
        have ho : c.newLine.output.toList = c.output.toList ++ ['\n'] := output_put c "\n"
        rw [drawEvent, ho, pieces, List.flatMap_cons, List.append_assoc]
        rfl
      all_goals simp [drawEvent, Canvas.deepen, Canvas.rise, pieces, piece?]

/-- A page is the container around the pieces of the layout of the tree. -/
theorem render_eq (links : Links) (o : Options) (t : Tree) :
    (render links o t).toList =
      "<div class=\"code\">".toList ++
        (pieces (marksOf links t) 0 true (events o (t.branch Tree.root))).flatMap Piece.chars ++
        "</div>".toList := by
  unfold render drawNode
  rw [output_put, output_draw, output_put]
  rfl

/-- **Safety and fidelity.** A page is a container around a row of safe pieces; without tags and
entities it is the plain text of the layout of the tree. -/
theorem render_safe_faithful (links : Links) (o : Options) (t : Tree) :
    ∃ row : List Piece, (∀ piece ∈ row, piece.Safe) ∧
      (render links o t).toList =
        "<div class=\"code\">".toList ++ row.flatMap Piece.chars ++ "</div>".toList ∧
      decodeEntities (stripTags false (row.flatMap Piece.chars)) =
        plainText 0 true (events o (t.branch Tree.root)) := by
  refine ⟨_, safe_pieces _ 0 true _, render_eq links o t, ?_⟩
  have hs := stripTags_pieces (safe_pieces (marksOf links t) 0 true
    (events o (t.branch Tree.root))) []
  rw [List.append_nil] at hs
  rw [hs, stripTags, List.append_nil, body_pieces, decodeEntities_encode]

end CodeView.Html
