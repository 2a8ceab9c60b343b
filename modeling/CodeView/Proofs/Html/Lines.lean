import Mathlib.Data.List.Flatten
import CodeView.Proofs.Html.Fidelity

/-!
# A page, line by line

The indentation of a line is written late, by the first event that shows something on it, and at the
depth of that moment. Here a page is read without a flag: the events are split into lines, and each
line is told by its own events and the depth at which it begins.

* `lineChars`: the text of one line. A line on which nothing is shown is empty.
* `pageLines`: the texts of lines, where each begins at the depth at which the one before ends.
* `output_eq_lines`: what is drawn on a blank canvas is these lines with line breaks between them,
  in whatever order events come.
-/

namespace CodeView.Html

open CodeView.Syntax CodeView.Layout

variable {ι : Type}

/-! ## Lines -/

/-- Whether an event ends the line. -/
def isBreak : EventOf ι → Bool
  | .newLine => true
  | _ => false

/-- Whether an event shows something on its line. -/
def isVisible : EventOf ι → Bool
  | .space | .keyword _ | .identifier _ _ | .primitiveType _ | .value _ | .token _ => true
  | _ => false

/-- The depth after an event. There is none below the outermost level. -/
def depthStep (depth : Nat) : EventOf ι → Nat
  | .indent => depth + 1
  | .unindent => depth - 1
  | _ => depth

/-- The depth after events. -/
def depthAfter (depth : Nat) (events : List (EventOf ι)) : Nat := events.foldl depthStep depth

/-- What an event writes of its own on its line. -/
def eventChars (marks : ι → Highlight × Option String) (event : EventOf ι) : List Char :=
  (piece? marks event).elim [] Piece.chars

/-- The text of a line that begins at a depth. -/
def lineChars (marks : ι → Highlight × Option String) (depth : Nat) (line : List (EventOf ι)) :
    List Char :=
  if line.any isVisible then
    List.replicate (4 * depthAfter depth (line.takeWhile fun e => !isVisible e)) ' ' ++
      line.flatMap (eventChars marks)
  else []

/-- The texts of lines of which the first begins at a depth. -/
def pageLines (marks : ι → Highlight × Option String) :
    Nat → List (List (EventOf ι)) → List (List Char)
  | _, [] => []
  | depth, line :: rest =>
    lineChars marks depth line :: pageLines marks (depthAfter depth line) rest

/-! ## Events at the head of a line -/

variable {marks : ι → Highlight × Option String}

theorem isVisible_eq (marks : ι → Highlight × Option String) (event : EventOf ι) :
    isVisible event = (piece? marks event).isSome := by
  cases event <;> rfl

/-- The text of the rest of a line: all of it if the indentation is pending, else what its events
write of their own. -/
def restOfLine (marks : ι → Highlight × Option String) (depth : Nat) (pending : Bool)
    (line : List (EventOf ι)) : List Char :=
  if pending then lineChars marks depth line else line.flatMap (eventChars marks)

/-- An event that shows something writes the pending indentation first. -/
theorem restOfLine_visible {event : EventOf ι} {piece : Piece}
    (he : piece? marks event = some piece) (depth : Nat) (pending : Bool)
    (line : List (EventOf ι)) :
    restOfLine marks depth pending (event :: line) =
      pad depth pending ++ piece.chars ++ restOfLine marks depth false line := by
  have hv : isVisible event = true := by rw [isVisible_eq marks, he]; rfl
  have hc : eventChars marks event = piece.chars := by rw [eventChars, he]; rfl
  cases pending with
  | false => simp [restOfLine, pad, hc]
  | true =>
    simp [restOfLine, lineChars, pad, hv, hc, depthAfter, indentWidth, Nat.mul_comm]

/-- Any other event only moves the depth at which the line goes on. -/
theorem restOfLine_hidden {event : EventOf ι} (he : piece? marks event = none) (depth : Nat)
    (pending : Bool) (line : List (EventOf ι)) :
    restOfLine marks depth pending (event :: line) =
      restOfLine marks (depthStep depth event) pending line := by
  have hv : isVisible event = false := by rw [isVisible_eq marks, he]; rfl
  have hc : eventChars marks event = [] := by rw [eventChars, he]; rfl
  cases pending with
  | false => simp [restOfLine, hc]
  | true => simp [restOfLine, lineChars, hv, hc, depthAfter]

/-! ## Pages -/

/-- The texts of lines of which the first has been begun, if its indentation is not pending. -/
def linesFrom (marks : ι → Highlight × Option String) (depth : Nat) (pending : Bool) :
    List (List (EventOf ι)) → List (List Char)
  | [] => []
  | line :: rest =>
    restOfLine marks depth pending line :: pageLines marks (depthAfter depth line) rest

theorem linesFrom_true (depth : Nat) (lines : List (List (EventOf ι))) :
    linesFrom marks depth true lines = pageLines marks depth lines := by
  cases lines <;> rfl

/-- Text at the head of the first line stands in front of everything. -/
theorem intercalate_append (separator a line : List Char) (rest : List (List Char)) :
    separator.intercalate ((a ++ line) :: rest) = a ++ separator.intercalate (line :: rest) := by
  cases rest with
  | nil => rw [List.intercalate_singleton, List.intercalate_singleton]
  | cons next rest =>
    rw [List.intercalate_cons_cons, List.intercalate_cons_cons, List.append_assoc a,
      List.append_assoc a]

section Split

variable {event : EventOf ι} (events : List (EventOf ι)) (depth : Nat) (pending : Bool)

/-- A line break ends the first line, whether or not anything is on it. -/
theorem lines_break :
    ['\n'].intercalate (linesFrom marks depth pending
        ((.newLine :: events).splitOnP isBreak)) =
      '\n' :: ['\n'].intercalate (linesFrom marks depth true (events.splitOnP isBreak)) := by
  obtain ⟨line, rest, hs⟩ := List.exists_cons_of_ne_nil (List.splitOnP_ne_nil isBreak events)
  have hb : isBreak (.newLine : EventOf ι) = true := rfl
  have hnil : restOfLine marks depth pending [] = [] := by cases pending <;> rfl
  rw [List.splitOnP_cons_eq_if_modifyHead, if_pos hb, hs, linesFrom, hnil, linesFrom_true]
  exact List.intercalate_cons_cons

theorem lines_visible {piece : Piece} (he : piece? marks event = some piece) :
    ['\n'].intercalate (linesFrom marks depth pending ((event :: events).splitOnP isBreak)) =
      pad depth pending ++ piece.chars ++
        ['\n'].intercalate (linesFrom marks depth false (events.splitOnP isBreak)) := by
  obtain ⟨line, rest, hs⟩ := List.exists_cons_of_ne_nil (List.splitOnP_ne_nil isBreak events)
  have hb : isBreak event = false := by cases event <;> first | rfl | cases he
  have hd : depthAfter depth (event :: line) = depthAfter depth line := by
    cases event <;> first | rfl | cases he
  rw [List.splitOnP_cons_eq_if_modifyHead, hb, if_neg Bool.false_ne_true, hs,
    List.modifyHead_cons, linesFrom, linesFrom, restOfLine_visible he, hd, intercalate_append]

theorem lines_hidden (he : piece? marks event = none) (hb : isBreak event = false) :
    ['\n'].intercalate (linesFrom marks depth pending ((event :: events).splitOnP isBreak)) =
      ['\n'].intercalate
        (linesFrom marks (depthStep depth event) pending (events.splitOnP isBreak)) := by
  obtain ⟨line, rest, hs⟩ := List.exists_cons_of_ne_nil (List.splitOnP_ne_nil isBreak events)
  rw [List.splitOnP_cons_eq_if_modifyHead, hb, if_neg Bool.false_ne_true, hs,
    List.modifyHead_cons, linesFrom, linesFrom, restOfLine_hidden he]
  rfl

end Split

/-- The pieces that events write are their lines, with line breaks between them. -/
theorem pieces_eq_lines (marks : ι → Highlight × Option String) (depth : Nat) (pending : Bool)
    (events : List (EventOf ι)) :
    (pieces marks depth pending events).flatMap Piece.chars =
      ['\n'].intercalate (linesFrom marks depth pending (events.splitOnP isBreak)) := by
  fun_induction pieces marks depth pending events with
  | case1 depth pending => cases pending <;> rfl
  | case2 depth pending events ih => rw [lines_hidden events depth pending rfl rfl, ih]; rfl
  | case3 depth pending events ih => rw [lines_hidden events depth pending rfl rfl, ih]; rfl
  | case4 depth pending events ih => rw [lines_break, ← ih]; rfl
  | case5 depth pending event events h1 h2 h3 piece he ih =>
    rw [lines_visible events depth pending he, ← ih, List.flatMap_cons, List.flatMap_cons,
      List.append_assoc]
    rfl
  | case6 depth pending event events h1 h2 h3 he ih =>
    have hb : isBreak event = false := by cases event <;> first | rfl | contradiction
    have hd : depthStep depth event = depth := by cases event <;> first | rfl | contradiction
    rw [lines_hidden events depth pending he hb, hd, ih]

/-- **Line by line.** What events draw on a blank canvas is the texts of their lines, with one line
break for each that they ask for. A line on which nothing is shown is empty; any other begins with
four spaces for each level at its first visible event, and goes on with what its events show. Events
that are neither visible nor line breaks write nothing at all. -/
theorem output_eq_lines (marks : ι → Highlight × Option String) (events : List (EventOf ι)) :
    (draw marks Canvas.blank events).output.toList =
      ['\n'].intercalate (pageLines marks 0 (events.splitOnP isBreak)) ∧
    ∀ c event, isVisible event = false → isBreak event = false →
      (drawEvent marks c event).output = c.output := by
  constructor
  · rw [output_draw, pieces_eq_lines, Canvas.blank, linesFrom_true]
    rfl
  · intro c event hv hb
    cases event with
    | newLine => cases hb
    | start _ | finish _ | comment _ _ | directive _ _ | indent | unindent => rfl
    | _ => cases hv

/-- Two tokens at depth 2, an empty line, and a token at depth 1. -/
def steppedEvents : List (EventOf Unit) :=
  [.indent, .indent, .token "a", .token "b", .newLine, .newLine, .unindent, .token "c"]

/-- The second token of a line and the empty line get no spaces. -/
theorem output_eq_lines_stepped :
    (draw (fun _ => (.unknown, none)) Canvas.blank steppedEvents).output.toList =
        "        ab\n\n    c".toList ∧
      isVisible (.unindent : EventOf Unit) = false ∧
      isBreak (.unindent : EventOf Unit) = false ∧
      (drawEvent (fun _ : Unit => (.unknown, none)) (Canvas.blank.put "x") .unindent).output =
        "x" := by
  obtain ⟨hlines, hsilent⟩ := output_eq_lines (fun _ => (.unknown, none)) steppedEvents
  exact ⟨hlines.trans rfl, rfl, rfl, hsilent (Canvas.blank.put "x") .unindent rfl rfl⟩

end CodeView.Html
