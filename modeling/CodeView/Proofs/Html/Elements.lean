import CodeView.Proofs.Html.Congruence
import CodeView.Proofs.Html.Fidelity
import CodeView.Proofs.Layout.Outline

/-!
# The elements of a page

The elements of a page are those of its events, in order: spacing, punctuation and comments make
none. So they can be told from the outlines of the nodes.

* `elements_render`: the elements of a page are those of the print of the root.
* `elementReading`: how to read the elements of prints, with `own_node` and `block_node` for the
  print of a node.
-/

namespace CodeView.Html

open CodeView.Syntax CodeView.Layout

variable {ι : Type}

/-- The element that an event makes. -/
def element? (marks : ι → Highlight × Option String) (e : EventOf ι) : Option Element :=
  (piece? marks e).bind Piece.element?

theorem filterMap_pieces (marks : ι → Highlight × Option String) (depth : Nat) (pending : Bool)
    (events : List (EventOf ι)) :
    (pieces marks depth pending events).filterMap Piece.element? =
      events.filterMap (element? marks) := by
  fun_induction pieces marks depth pending events with
  | case1 => rfl
  | case2 _ _ _ ih => exact ih
  | case3 _ _ _ ih => exact ih
  | case4 _ _ _ ih => exact ih
  | case5 _ _ event _ _ _ _ piece he ih =>
    have hp : element? marks event = piece.element? := by
      rw [element?, he, Option.bind_some]
    rw [List.filterMap_cons_none rfl, List.filterMap_cons, List.filterMap_cons, hp, ih]
  | case6 _ _ event _ _ _ _ he ih =>
    have hp : element? marks event = none := by
      rw [element?, he, Option.bind_none]
    rw [List.filterMap_cons_none hp, ih]

/-- The container around a page is no element. -/
theorem elements_container {row : List Piece} (hs : ∀ piece ∈ row, piece.Safe) :
    elements ("<div class=\"code\">".toList ++ row.flatMap Piece.chars ++ "</div>".toList) =
      row.filterMap Piece.element? := by
  have hopen : "<div class=\"code\">".toList = '<' :: "div class=\"code\"".toList ++ ['>'] := by
    decide
  rw [hopen, List.append_assoc, List.append_assoc, List.singleton_append,
    elements_closing (by decide) (by decide) (by decide), elements_pieces hs]
  have hclose : elements "</div>".toList = [] := by decide
  rw [hclose, List.append_nil]

theorem elements_render (links : Links) (o : Options) (t : Tree) :
    elements (render links o t).toList =
      (events o (t.branch Tree.root)).filterMap (element? (marksOf links t)) := by
  rw [render_eq, elements_container (safe_pieces _ _ _ _), filterMap_pieces]

/-! ## Reading prints -/

theorem element?_of_arranges {marks : ι → Highlight × Option String} {e : EventOf ι}
    (he : e.arranges = true) : element? marks e = none := by
  cases e with
  | indent | unindent | space | newLine | token _ => rfl
  | _ => cases he

/-- How to read the elements of prints in which highlights stand for nodes. -/
def elementReading :
    Reading (Highlight × Option String) (Printed (Highlight × Option String)) Element where
  event e := (element? id e).toList
  own print := print.own.flatMap fun e => (element? id e).toList
  block print style := (print.asBlock style).flatMap fun e => (element? id e).toList
  silent e he := by rw [element?_of_arranges he, Option.toList_none]

section

variable (mark : Highlight × Option String)
  (kids : List (Child (Printed (Highlight × Option String))))

theorem flatMap_events (parts : List (Part (Highlight × Option String) (Printed _))) :
    (parts.flatMap Part.events).flatMap (fun e => (element? id e).toList) =
      elementReading.parts parts := by
  unfold Reading.parts
  rw [List.flatMap_assoc]
  congr 1
  funext part
  cases part with
  | event e => exact List.flatMap_singleton _ e
  | node print => rfl
  | block print style => rfl

theorem own_node (o : Options) (kind : Kind) :
    elementReading.own (Printed.node o mark kids kind) =
      elementReading.parts (content o mark kids kind) := by
  rw [← flatMap_events]
  simp [elementReading, Printed.node, element?, piece?]

theorem block_node (o : Options) (kind : Kind) (style : BraceStyle) :
    elementReading.block (Printed.node o mark kids kind) style =
      elementReading.parts (blockContent kids (some style)) := by
  rw [← flatMap_events]
  simp [elementReading, Printed.node, element?, piece?]

end

/-- The elements of a page are those of the print of the root. -/
theorem elements_render_eq_own (links : Links) (o : Options) (t : Tree) :
    elements (render links o t).toList =
      elementReading.own (shownPrint links o t Tree.root).text := by
  have hmap : ∀ e : Event,
      element? (marksOf links t) e = element? id (e.map (marksOf links t)) := by
    intro e
    cases e <;> rfl
  rw [elements_render, events_eq, List.filterMap_eq_flatMap_toList]
  change _ = ((print o (t.branch Tree.root)).text.own.map (EventOf.map (marksOf links t))).flatMap _
  rw [List.flatMap_map]
  simp only [hmap]

end CodeView.Html
