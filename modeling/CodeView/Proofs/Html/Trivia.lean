import CodeView.Proofs.Html.Congruence
import CodeView.Proofs.Interface.Detaching

/-!
# Comments and directives leave no trace

A page shows neither comments nor directives, and no line, space or blank line stands where it does
because of one. So they may be detached without a change to the page.

* `Thinned`: children without some of them. `content_thinned`: a node writes the same without
  children that write nothing, if they are comments or directives in the role of comments, or stand
  below a root.
* `quiet`: a print without the events that leave no trace. It draws the same (`draw_filter`), and it
  is made of the quiet prints of the children (`quiet_node`).
* `render_detach_trivia`: what follows for a page.
-/

namespace CodeView.Layout

open CodeView.Syntax

variable {ι α : Type}

/-! ## Children that are left out -/

/-- The same children in the same order, without some that have a property. -/
inductive Thinned (drop : Child α → Prop) : List (Child α) → List (Child α) → Prop where
  | nil : Thinned drop [] []
  | keep (k : Child α) {a b : List (Child α)} (h : Thinned drop a b) :
    Thinned drop (k :: a) (k :: b)
  | drop {k : Child α} (hk : drop k) {a b : List (Child α)} (h : Thinned drop a b) :
    Thinned drop a (k :: b)

section Thinned

variable {drop : Child α → Prop} {a b : List (Child α)}

/-- What is filtered out is left out where it comes from. -/
theorem thinned_filter {β : Type} {f : β → Child α} {p : β → Bool} {list : List β}
    (hp : ∀ x ∈ list, p x = false → drop (f x)) :
    Thinned drop ((list.filter p).map f) (list.map f) := by
  induction list with
  | nil => exact .nil
  | cons x list ih =>
    have hrest := ih fun y hy => hp y (by simp [hy])
    rw [List.filter_cons]
    cases hx : p x with
    | true => exact .keep (f x) hrest
    | false => exact .drop (hp x (by simp) hx) hrest

/-- A filter that passes over the children left out gives the same for both lists. -/
theorem Thinned.filter_eq (h : Thinned drop a b) {p : Child α → Bool}
    (hp : ∀ k, drop k → p k = false) : a.filter p = b.filter p := by
  induction h with
  | nil => rfl
  | keep k _ ih => rw [List.filter_cons, List.filter_cons, ih]
  | drop hk _ ih => rw [List.filter_cons, hp _ hk, ih]; rfl

theorem Thinned.find?_eq (h : Thinned drop a b) {p : Child α → Bool}
    (hp : ∀ k, drop k → p k = false) : a.find? p = b.find? p := by
  rw [← List.head?_filter, ← List.head?_filter, h.filter_eq hp]

end Thinned

/-! ## Nodes without silent children -/

/-- A comment or directive of a node of a kind, that writes nothing and is written for its role or
its kind alone. -/
structure Silent (parent : Kind) (k : Child (Printed ι)) : Prop where
  own : k.text.own = []
  isTrivia : k.kind.isTrivia = true
  place : k.role = .comment ∨ parent = .syntaxTree

section Silent

variable {a b : List (Child (Printed ι))} {parent : Kind}

theorem rootMembers_thinned (h : Thinned (Silent parent) a b) (before : Option Kind) :
    (rootMembers before a).flatMap Part.events = (rootMembers before b).flatMap Part.events := by
  induction h generalizing before with
  | nil => rfl
  | keep k _ ih =>
    simp only [rootMembers]
    split
    · simp [ih]
    · simp [ih]
  | drop hk _ ih => simp [rootMembers, hk.isTrivia, Part.events, hk.own, ih]

theorem members_thinned (h : Thinned (Silent parent) a b) (hparent : parent ≠ .syntaxTree)
    (o : Options) (first : Bool) :
    (members o first a).flatMap Part.events = (members o first b).flatMap Part.events := by
  induction h generalizing first with
  | nil => rfl
  | keep k _ ih =>
    rw [members, members]
    split
    · simp [ih]
    · simp [ih]
    · exact ih first
  | drop hk _ ih =>
    have hrole := hk.place.resolve_right hparent
    rw [members, hrole, List.flatMap_cons, ← ih, Part.events, hk.own, List.nil_append]

theorem blockContent_thinned (h : Thinned (Silent parent) a b) (style : Option BraceStyle) :
    (blockContent a style).flatMap Part.events = (blockContent b style).flatMap Part.events := by
  have hinside : ∀ p : Child (Printed ι) → Bool,
      ((a.filter p).map fun k => (.node k.text : Part ι (Printed ι))).flatMap Part.events =
        ((b.filter p).map fun k => (.node k.text : Part ι (Printed ι))).flatMap Part.events := by
    intro p
    induction h with
    | nil => rfl
    | keep k _ ih =>
      rw [List.filter_cons, List.filter_cons]
      split
      · rw [List.map_cons, List.map_cons, List.flatMap_cons, List.flatMap_cons, ih]
      · exact ih
    | drop hk _ ih =>
      rw [List.filter_cons, ih]
      split
      · rw [List.map_cons, List.flatMap_cons, Part.events, hk.own, List.nil_append]
      · rfl
  unfold blockContent braced
  rw [List.flatMap_append, List.flatMap_append, List.flatMap_append, List.flatMap_append, hinside]

/-- The parts of a node of a kind do not depend on silent children. -/
theorem content_thinned (h : Thinned (Silent parent) a b) (o : Options) (id : ι) :
    (content o id a parent).flatMap Part.events = (content o id b parent).flatMap Part.events := by
  by_cases hroot : parent = .syntaxTree
  · rw [hroot]
    exact rootMembers_thinned h none
  · have hpass : ∀ {p : Child (Printed ι) → Bool}, (∀ k, k.role = .comment → p k = false) →
        ∀ k, Silent parent k → p k = false := fun hp k hk => hp k (hk.place.resolve_right hroot)
    have hw : ∀ role : Role, role ≠ .comment → withRole role a = withRole role b := by
      intro role hr
      exact h.filter_eq (hpass fun k hk => by simp [hk, hr.symm])
    have hf : ∀ role : Role, role ≠ .comment → first? role a = first? role b := by
      intro role hr
      exact h.find?_eq (hpass fun k hk => by simp [hk, hr.symm])
    have ha : (a.filter fun k => k.role == .getter || k.role == .setter) =
        b.filter fun k => k.role == .getter || k.role == .setter :=
      h.filter_eq (hpass fun k hk => by simp [hk])
    cases parent with
    | syntaxTree => exact absurd rfl hroot
    | block =>
      simp only [content, List.flatMap_append, blockContent_thinned h]
    | namespaceDecl =>
      simp (disch := decide) only [content, braced, List.flatMap_append, hw,
        members_thinned h hroot o true]
    | typeDecl form m =>
      have hinside : (if form = .enumType then enumMembers (withRole .member a)
          else members o true a).flatMap Part.events =
          (if form = .enumType then enumMembers (withRole .member b)
            else members o true b).flatMap Part.events := by
        split
        · rw [hw _ (by decide)]
        · exact members_thinned h hroot o true
      simp (disch := decide) only [content, attributeLines, nameOf, child, braced,
        List.flatMap_append, hinside]
      simp (disch := decide) only [hw, hf]
    | ifElse =>
      have htrue : trueBranch (ι := ι) o a = trueBranch o b := by
        rw [trueBranch, trueBranch, hf _ (by decide)]
      have hfalse : ∀ lineOpen, falseBranch (ι := ι) o a lineOpen = falseBranch o b lineOpen := by
        intro lineOpen
        rw [falseBranch, falseBranch, hf _ (by decide)]
      have hcond : child (ι := ι) .condition a = child .condition b := by
        rw [child, child, hf _ (by decide)]
      simp only [content, ifElse, htrue, hfalse, hcond]
    | _ =>
      simp (disch := decide) only [content, attributeLines, nameOf, child, typeArguments,
        initializer, implementedInterface, variableList, bodyOrEnd, accessors, eventAccessors,
        leavingStatement, typedHeader, eventHeader, List.flatMap_cons, List.flatMap_nil, hw, hf, ha]

/-- A node prints the same without silent children. -/
theorem node_thinned (h : Thinned (Silent parent) a b) (o : Options) (id : ι) :
    Printed.node o id a parent = Printed.node o id b parent := by
  unfold Printed.node
  rw [content_thinned h]
  simp only [blockContent_thinned h]

end Silent

end CodeView.Layout

namespace CodeView.Html

open CodeView.Syntax CodeView.Layout

variable {ι : Type}

/-! ## Events that leave no trace -/

/-- Whether an event does something to a canvas. -/
def leavesTrace : EventOf ι → Bool
  | .start _ | .finish _ | .comment _ _ | .directive _ _ => false
  | _ => true

theorem draw_filter (marks : ι → Highlight × Option String) (c : Canvas)
    (events : List (EventOf ι)) :
    draw marks c (events.filter leavesTrace) = draw marks c events := by
  unfold draw
  induction events generalizing c with
  | nil => rfl
  | cons e events ih =>
    rw [List.filter_cons, List.foldl_cons]
    split
    · exact ih (drawEvent marks c e)
    · next he =>
      have hsame : drawEvent marks c e = c := by
        cases e with
        | start _ | finish _ | comment _ _ | directive _ _ => rfl
        | _ => exact absurd rfl he
      rw [hsame]
      exact ih c

/-- A print without the events that leave no trace. -/
def quiet (p : Printed ι) : Printed ι :=
  ⟨p.own.filter leavesTrace, fun style => (p.asBlock style).filter leavesTrace⟩

/-- The traces of parts are those of parts with quiet children. -/
theorem filter_parts (parts : List (Part ι (Printed ι))) :
    (parts.flatMap Part.events).filter leavesTrace =
      ((parts.map (Layout.Part.map id quiet)).flatMap Part.events).filter leavesTrace := by
  induction parts with
  | nil => rfl
  | cons part parts ih =>
    have hpart : part.events.filter leavesTrace =
        (part.map id quiet).events.filter leavesTrace := by
      cases part with
      | event e => cases e <;> rfl
      | node p => simp [Part.events, quiet]
      | block p style => simp [Part.events, quiet]
    rw [List.flatMap_cons, List.filter_append, List.map_cons, List.flatMap_cons,
      List.filter_append, hpart, ih]

/-- The traces of a node are made of the traces of its children. -/
theorem quiet_node (o : Options) (n : ι) (kids : List (Child (Printed ι))) (kind : Kind) :
    quiet (.node o n kids kind) = quiet (.node o n (kids.map (Child.map quiet)) kind) := by
  have hframe : ∀ events : List (EventOf ι),
      (EventOf.start n :: events ++ [EventOf.finish n]).filter leavesTrace =
        events.filter leavesTrace := by
    intro events
    simp [leavesTrace]
  have hown : (Printed.node o n kids kind).own.filter leavesTrace =
      (Printed.node o n (kids.map (Child.map quiet)) kind).own.filter leavesTrace := by
    unfold Printed.node
    rw [hframe, hframe, filter_parts, map_content, id_eq]
  have hblock : ∀ style, ((Printed.node o n kids kind).asBlock style).filter leavesTrace =
      ((Printed.node o n (kids.map (Child.map quiet)) kind).asBlock style).filter leavesTrace := by
    intro style
    unfold Printed.node
    rw [hframe, hframe, filter_parts, map_blockContent]
  rw [quiet, quiet, hown, funext hblock]

/-! ## Trees -/

section Trees

variable {t : Tree} {ids : List NodeId} {n : NodeId} (links : Links) (o : Options)

/-- The traces of a node of a tree. -/
def quietPrint (t : Tree) (n : NodeId) : Child (Printed (Highlight × Option String)) :=
  (shownPrint links o t n).map quiet

/-- A page is drawn from the traces of the root. -/
theorem render_eq_quiet (t : Tree) :
    render links o t = ((draw id (Canvas.blank.put "<div class=\"code\">")
      (quietPrint links o t Tree.root).text.own).put "</div>").output := by
  rw [render_eq_draw, ← draw_filter]
  rfl

theorem quietPrint_eq (h : t.WellFormed) (n : NodeId) :
    quietPrint links o t n =
      ⟨t.role n, t.kind n, isSimple (t.branch n), (quietPrint links o t n).text⟩ := by
  unfold quietPrint
  rw [shownPrint_eq h]
  rfl

theorem text_quietPrint (h : t.WellFormed) (n : NodeId) :
    (quietPrint links o t n).text = quiet (.node o (marksOf links t n)
      ((t.children n).map (quietPrint links o t)) (t.kind n)) := by
  unfold quietPrint
  rw [shownPrint_eq h, Child.text_map, quiet_node, List.map_map]
  rfl

/-- Comments and directives leave none. -/
theorem own_quietPrint (h : t.WellFormed) (hn : (t.kind n).isTrivia = true) :
    (quietPrint links o t n).text.own = [] := by
  rw [text_quietPrint links o h]
  cases hk : t.kind n with
  | comment _ _ | directive _ _ => rfl
  | _ =>
    rw [hk] at hn
    cases hn

/-- Nodes that may go without a trace: comments and directives in the role of comments, or right
below the root. -/
def Traceless (t : Tree) (n : NodeId) : Prop :=
  (t.kind n).isTrivia = true ∧ (t.role n = .comment ∨ t.parent? n = some Tree.root)

instance (t : Tree) (n : NodeId) : Decidable (Traceless t n) :=
  inferInstanceAs (Decidable (_ ∧ _))

/-- A node other than the root is as simple without comments as with them. -/
theorem isSimple_detachAll (h : t.WellFormed) (hids : ∀ id ∈ ids, Traceless t id)
    (hn : n ≠ Tree.root) : isSimple ((t.detachAll ids).branch n) = isSimple (t.branch n) := by
  rw [isSimple_branch (h.detachAll ids), isSimple_branch h, h.children_detachAll, List.all_map,
    List.all_map, Bool.eq_iff_iff, List.all_eq_true, List.all_eq_true]
  constructor
  · intro hall c hc
    by_cases hm : c ∈ ids
    · have hrole : t.role c = .comment := by
        refine (hids c hm).2.resolve_right fun hroot => hn ?_
        rw [h.mem_children.mp hc] at hroot
        exact Option.some.inj hroot
      simp [hrole]
    · simpa using hall c (List.mem_filter.mpr ⟨hc, by simpa using hm⟩)
  · intro hall c hc
    simpa using hall c (List.mem_filter.mp hc).1

/-- Attached nodes leave the traces that they left before comments and directives were detached. -/
theorem text_quietPrint_detachAll (h : t.WellFormed) (hids : ∀ id ∈ ids, Traceless t id)
    (hn : (t.detachAll ids).isAttached n = true) :
    (quietPrint links o (t.detachAll ids) n).text = (quietPrint links o t n).text := by
  have h' := h.detachAll ids
  induction n using h'.induction_down with
  | step n ih =>
    have hmarks : marksOf links (t.detachAll ids) n = marksOf links t n :=
      h.classify_of_attached links hn
    have hkids : ((t.detachAll ids).children n).map (quietPrint links o (t.detachAll ids)) =
        ((t.detachAll ids).children n).map (quietPrint links o t) := by
      refine List.map_congr_left fun c hc => ?_
      have hparent := h'.mem_children.mp hc
      have hattached : (t.detachAll ids).isAttached c = true := by
        rw [Tree.isAttached_iff] at hn ⊢
        exact h'.mem_lineage_of_parent hparent hn
      have hroot : c ≠ Tree.root := by
        rintro rfl
        rw [h'.root_parent] at hparent
        cases hparent
      rw [quietPrint_eq links o h', quietPrint_eq links o h, ih c hc hattached,
        isSimple_detachAll h hids hroot, Tree.role_detachAll, Tree.kind_detachAll]
    have hthin : Thinned (Silent (t.kind n))
        (((t.children n).filter (· ∉ ids)).map (quietPrint links o t))
        ((t.children n).map (quietPrint links o t)) := by
      refine thinned_filter fun c hc hm => ?_
      have hc' : Traceless t c := hids c (by simpa using hm)
      refine ⟨own_quietPrint links o h hc'.1, ?_, ?_⟩
      · rw [quietPrint_eq links o h]
        exact hc'.1
      · rw [quietPrint_eq links o h]
        refine hc'.2.imp_right fun hroot => ?_
        rw [h.mem_children.mp hc] at hroot
        rw [Option.some.inj hroot]
        exact h.root_kind
    rw [text_quietPrint links o h', text_quietPrint links o h, hkids, h.children_detachAll,
      Tree.kind_detachAll, node_thinned hthin, hmarks]

/-- **Comments and directives are invisible.** A page stays the same if comments and directives are
detached, in any order, that have the role of comments or stand right below the root. -/
theorem render_detach_trivia (ht : Interface.Reached t) (hids : ∀ id ∈ ids, Traceless t id) :
    render links o (ids.foldl Tree.detach t) = render links o t := by
  have h := ht.wellFormed
  have hroot : (t.detachAll ids.reverse).isAttached Tree.root = true := by
    rw [Tree.isAttached_iff]
    exact (h.detachAll _).self_mem_lineage _
  have hids' : ∀ id ∈ ids.reverse, Traceless t id := fun id hid => hids id (by simpa using hid)
  rw [Tree.foldl_detach_eq, render_eq_quiet, render_eq_quiet,
    text_quietPrint_detachAll links o h hids' hroot]

end Trees

/-- Two using declarations with a comment between them, and a class whose first member is a
directive and whose second, behind a method, is a comment. -/
def remarkSample : Document :=
  .node ⟨.root, .syntaxTree, []⟩
    [.node ⟨.member, .usingDecl, []⟩ [.node ⟨.name, .identifier "System", []⟩ []],
      .node ⟨.member, .comment .multiLine "between", []⟩ [],
      .node ⟨.member, .usingDecl, []⟩ [.node ⟨.name, .identifier "Widgets", []⟩ []],
      .node ⟨.member, .typeDecl .classType .empty, []⟩
        [.node ⟨.comment, .directive "region" (some "Fields"), []⟩ [],
          .node ⟨.member, .methodDecl .empty, []⟩ [],
          .node ⟨.comment, .comment .singleLine "behind", []⟩ [],
          .node ⟨.member, .methodDecl .empty, []⟩ []]]

/-- The tree of the declarations. -/
def remarkTree : Tree := (Tree.ofDocument remarkSample).toOption.getD .empty

/-- The blank lines are where they were, without the three. -/
theorem render_detach_trivia_remarkTree :
    (∀ id ∈ [9, 3, 7], Traceless remarkTree id) ∧
      ¬([9, 3, 7].foldl Tree.detach remarkTree).isAttached 9 = true ∧
      render noLinks .usual ([9, 3, 7].foldl Tree.detach remarkTree) =
        render noLinks .usual remarkTree := by
  have hdoc : Tree.ofDocument remarkSample = .ok remarkTree := by rfl
  have hids : ∀ id ∈ [9, 3, 7], Traceless remarkTree id := by decide +kernel
  exact ⟨hids, by decide +kernel, render_detach_trivia noLinks .usual (.ofDocument hdoc) hids⟩

end CodeView.Html
