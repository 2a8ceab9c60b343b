import CodeView.Html.Page
import CodeView.Proofs.Layout.Natural
import CodeView.Proofs.Syntax.Build

/-!
# A page depends on the document alone

Two trees that hold the same document give the same page, however their nodes are numbered and
whatever else is in their stores.

* `marksOf_eq`: the highlight of a node is decided by its own label, or is that of its parent.
* `print_congr`: nodes with the same document and the same highlight print the same, once the
  numbers of nodes are replaced by highlights.
* `render_congr`: trees with the same document have the same page.
-/

namespace CodeView.Html

open CodeView.Syntax CodeView.Layout

variable {ι κ : Type}

/-! ## Drawing with highlights in place of numbers -/

theorem drawEvent_map (r : ι → κ) (marks : κ → Highlight × Option String) (c : Canvas)
    (e : EventOf ι) : drawEvent marks c (e.map r) = drawEvent (fun i => marks (r i)) c e := by
  cases e <;> rfl

theorem draw_map (r : ι → κ) (marks : κ → Highlight × Option String) (c : Canvas)
    (events : List (EventOf ι)) :
    draw marks c (events.map (EventOf.map r)) = draw (fun i => marks (r i)) c events := by
  unfold draw
  rw [List.foldl_map]
  congr 1
  funext c e
  exact drawEvent_map r marks c e

/-- A page is drawn from the print of the root with highlights in place of numbers. -/
theorem render_eq_draw (links : Links) (o : Options) (t : Tree) :
    render links o t =
      ((draw id (Canvas.blank.put "<div class=\"code\">")
        ((print o (t.branch Tree.root)).map (Printed.map (marksOf links t))).text.own).put
          "</div>").output := by
  have hd := draw_map (marksOf links t) id (Canvas.blank.put "<div class=\"code\">")
    (events o (t.branch Tree.root))
  unfold render drawNode
  rw [events_eq] at hd ⊢
  exact congrArg (fun c : Canvas => (c.put "</div>").output) hd.symm

/-! ## Highlights -/

theorem marksOf_eq {t : Tree} (h : t.WellFormed) (links : Links) (n : NodeId) :
    marksOf links t n =
      if (t.annotations n).isEmpty then
        match t.parent? n with
        | none => (.unknown, none)
        | some q => marksOf links t q
      else highlightOf links (t.kind n) (t.annotations n) := by
  unfold marksOf classify
  rw [Option.bind_some, h.nearestAnnotated?_eq]
  by_cases hn : (t.annotations n).isEmpty = true
  · rw [if_pos hn, if_pos hn]
    cases t.parent? n <;> rfl
  · rw [if_neg hn, if_neg hn]

/-- The highlights of two children agree if their labels do and the highlights of their parents. -/
theorem marksOf_child {t₁ t₂ : Tree} (h₁ : t₁.WellFormed) (h₂ : t₂.WellFormed) {links : Links}
    {n₁ n₂ c₁ c₂ : NodeId} (hp₁ : t₁.parent? c₁ = some n₁) (hp₂ : t₂.parent? c₂ = some n₂)
    (hl : t₁.label c₁ = t₂.label c₂) (hm : marksOf links t₁ n₁ = marksOf links t₂ n₂) :
    marksOf links t₁ c₁ = marksOf links t₂ c₂ := by
  rw [marksOf_eq h₁, marksOf_eq h₂, hp₁, hp₂]
  unfold Tree.annotations Tree.kind
  simp only [hl, hm]

theorem marksOf_root {t₁ t₂ : Tree} (h₁ : t₁.WellFormed) (h₂ : t₂.WellFormed) (links : Links)
    (hl : t₁.label Tree.root = t₂.label Tree.root) :
    marksOf links t₁ Tree.root = marksOf links t₂ Tree.root := by
  rw [marksOf_eq h₁, marksOf_eq h₂, h₁.root_parent, h₂.root_parent]
  unfold Tree.annotations Tree.kind
  rw [hl]

/-! ## Prints -/

theorem isSimple_eq (b : Branch) :
    isSimple b = (b.children.map Branch.role).all fun r => r != .body && r != .attributes := by
  have hnone : ∀ role, (b.first? role).isNone = (b.children.map Branch.role).all (· != role) := by
    intro role
    unfold Branch.first?
    rw [List.all_map, Bool.eq_iff_iff, Option.isNone_iff_eq_none, List.find?_eq_none,
      List.all_eq_true]
    simp
  unfold isSimple
  rw [hnone, hnone]
  induction b.children.map Branch.role with
  | nil => rfl
  | cons r list ih =>
    simp only [List.all_cons, ← ih]
    cases r != .body <;> cases r != .attributes <;> simp

theorem isSimple_branch {t : Tree} (h : t.WellFormed) (n : NodeId) :
    isSimple (t.branch n) =
      ((t.children n).map t.role).all fun r => r != .body && r != .attributes := by
  have hroles : ((t.children n).map t.branch).map Branch.role = (t.children n).map t.role := by
    rw [List.map_map]
    refine List.map_congr_left fun c _ => ?_
    rw [Function.comp_apply, h.branch_eq]
    rfl
  rw [isSimple_eq, h.branch_eq, ← hroles]
  rfl

/-- Lists with the same image under one pair of functions have the same image under another, if the
second pair respects the first. -/
theorem map_eq_map_of {α β γ δ : Type} {f : α → γ} {g : β → γ} {f' : α → δ} {g' : β → δ} :
    ∀ {l₁ : List α} {l₂ : List β}, l₁.map f = l₂.map g →
      (∀ a ∈ l₁, ∀ b ∈ l₂, f a = g b → f' a = g' b) → l₁.map f' = l₂.map g'
  | [], [], _, _ => rfl
  | [], _ :: _, h, _ => by simp at h
  | _ :: _, [], h, _ => by simp at h
  | a :: l₁, b :: l₂, h, hfg => by
    rw [List.map_cons, List.map_cons, List.cons.injEq] at h
    rw [List.map_cons, List.map_cons, hfg a (by simp) b (by simp) h.1,
      map_eq_map_of h.2 fun x hx y hy => hfg x (by simp [hx]) y (by simp [hy])]

/-- What a node of a tree prints, with highlights in place of numbers. -/
def shownPrint (links : Links) (o : Options) (t : Tree) (n : NodeId) :
    Child (Printed (Highlight × Option String)) :=
  (print o (t.branch n)).map (Printed.map (marksOf links t))

theorem shownPrint_eq {t : Tree} (h : t.WellFormed) (links : Links) (o : Options) (n : NodeId) :
    shownPrint links o t n =
      ⟨t.role n, t.kind n, isSimple (t.branch n),
        .node o (marksOf links t n) ((t.children n).map (shownPrint links o t)) (t.kind n)⟩ := by
  unfold shownPrint
  rw [h.branch_eq, print_map, List.map_map]
  rfl

/-- Nodes with the same document and the same highlight print the same. -/
theorem print_congr {t₁ t₂ : Tree} (h₁ : t₁.WellFormed) (h₂ : t₂.WellFormed) (links : Links)
    (o : Options) {n₁ n₂ : NodeId} (hd : t₁.documentAt n₁ = t₂.documentAt n₂)
    (hm : marksOf links t₁ n₁ = marksOf links t₂ n₂) :
    shownPrint links o t₁ n₁ = shownPrint links o t₂ n₂ := by
  induction n₁ using h₁.induction_down generalizing n₂ with
  | step n₁ ih =>
    rw [h₁.documentAt_eq, h₂.documentAt_eq, Document.node.injEq] at hd
    obtain ⟨hl, hd⟩ := hd
    have label_eq : ∀ {c₁ c₂}, t₁.documentAt c₁ = t₂.documentAt c₂ → t₁.label c₁ = t₂.label c₂ := by
      intro c₁ c₂ e
      rw [h₁.documentAt_eq, h₂.documentAt_eq] at e
      exact congrArg Document.label e
    -- Children in the same place hold the same document, whatever their numbers are.
    have hkids : (t₁.children n₁).map (shownPrint links o t₁) =
        (t₂.children n₂).map (shownPrint links o t₂) := by
      refine map_eq_map_of hd fun c₁ hc₁ c₂ hc₂ e => ih c₁ hc₁ e ?_
      exact marksOf_child h₁ h₂ (h₁.mem_children.mp hc₁) (h₂.mem_children.mp hc₂) (label_eq e) hm
    have hsimple : isSimple (t₁.branch n₁) = isSimple (t₂.branch n₂) := by
      rw [isSimple_branch h₁, isSimple_branch h₂]
      have hroles : (t₁.children n₁).map t₁.role = (t₂.children n₂).map t₂.role :=
        map_eq_map_of hd fun c₁ _ c₂ _ e => congrArg Label.role (label_eq e)
      rw [hroles]
    rw [shownPrint_eq h₁, shownPrint_eq h₂, hkids, hsimple, hm]
    unfold Tree.role Tree.kind
    rw [hl]

/-- Trees that hold the same document have the same page. -/
theorem render_congr {t₁ t₂ : Tree} (h₁ : t₁.WellFormed) (h₂ : t₂.WellFormed) (links : Links)
    (o : Options) (hd : t₁.documentAt Tree.root = t₂.documentAt Tree.root) :
    render links o t₁ = render links o t₂ := by
  have hl : t₁.label Tree.root = t₂.label Tree.root := by
    rw [h₁.documentAt_eq, h₂.documentAt_eq] at hd
    exact congrArg Document.label hd
  have hp := print_congr h₁ h₂ links o hd (marksOf_root h₁ h₂ links hl)
  unfold shownPrint at hp
  rw [render_eq_draw, render_eq_draw, hp]

end CodeView.Html
