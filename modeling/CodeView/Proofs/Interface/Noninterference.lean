import Mathlib.Data.List.Forall2
import CodeView.Proofs.Html.Congruence
import CodeView.Proofs.Interface.View

/-!
# What the interface view does not tell

Two documents may differ inside the bodies and the removed declarations that the interface view
leaves out. The view does not tell them apart.

* `Alike p d d'`: `d` and `d'` differ only there, at any number of places.
* `Alike.drops`: every decision of the view is the same for documents that are alike.
* `view_alike`: what stays of such documents is the same, by recursion over them.
* `render_prune_eq`: so are the pages of the pruned trees.
-/

namespace CodeView.Interface

open CodeView.Syntax CodeView.Html CodeView.Layout

/-- The roles of the children that decide whether a declaration is removed. -/
def decidesRemoval (role : Role) : Bool :=
  role == .name || role == .privateImplementationType

/-- Documents that differ only in first bodies of members that show none, and in declarations that
are removed, other than attributes: in their annotations, and in their children except for names and
implemented interfaces. -/
inductive Alike (p : Policy) : Document → Document → Prop where
  | node {label : Label} {kids kids' : List Document} (hk : List.Forall₂ (Alike p) kids kids') :
    Alike p (.node label kids) (.node label kids')
  | body {label : Label} {before before' after after' : List Document} {b b' : Document}
    (loses : losesBody label.kind = true) (hb : List.Forall₂ (Alike p) before before')
    (first : ∀ d ∈ before, d.role ≠ .body) (role : b.role = .body) (role' : b'.role = .body)
    (ha : List.Forall₂ (Alike p) after after') :
    Alike p (.node label (before ++ b :: after)) (.node label (before' ++ b' :: after'))
  | removed {label : Label} {notes : List Annotation} {kids kids' : List Document}
    (role : label.role ≠ .attributes) (removed : isRemovedDocument p (.node label kids) = true)
    (hk : List.Forall₂ (Alike p) (kids.filter fun d => decidesRemoval d.role)
      (kids'.filter fun d => decidesRemoval d.role)) :
    Alike p (.node label kids) (.node { label with annotations := notes } kids')

variable {p : Policy} {d d' : Document}

/-! ## The top of alike documents -/

theorem Alike.role_eq (h : Alike p d d') : d'.role = d.role := by
  cases h <;> rfl

theorem Alike.kind_eq (h : Alike p d d') : d'.kind = d.kind := by
  cases h <;> rfl

/-- Alike, or both bodies. -/
def Loose (p : Policy) (d d' : Document) : Prop :=
  Alike p d d' ∨ (d.role = .body ∧ d'.role = .body)

theorem Loose.role_eq (h : Loose p d d') : d'.role = d.role := by
  rcases h with h | ⟨h, h'⟩
  · exact h.role_eq
  · rw [h, h']

theorem Loose.alike (h : Loose p d d') (hr : d.role ≠ .body) : Alike p d d' :=
  h.resolve_right fun e => hr e.1

theorem loosen {l l' : List Document} (h : List.Forall₂ (Alike p) l l') :
    List.Forall₂ (Loose p) l l' :=
  h.imp fun _ _ => .inl

theorem loosen_body {before before' after after' : List Document} {b b' : Document}
    (hbefore : List.Forall₂ (Alike p) before before') (hb : b.role = .body) (hb' : b'.role = .body)
    (hafter : List.Forall₂ (Alike p) after after') :
    List.Forall₂ (Loose p) (before ++ b :: after) (before' ++ b' :: after') :=
  List.rel_append (loosen hbefore) (.cons (.inr ⟨hb, hb'⟩) (loosen hafter))

/-- Below documents that are alike the children correspond, unless they are removed. -/
theorem Alike.cases_children (h : Alike p d d') :
    (d'.label = d.label ∧ List.Forall₂ (Loose p) d.children d'.children) ∨
      (d.role ≠ .attributes ∧ isRemovedDocument p d = true) := by
  cases h with
  | node hk => exact .inl ⟨rfl, loosen hk⟩
  | body _ hb _ hr hr' ha => exact .inl ⟨rfl, loosen_body hb hr hr' ha⟩
  | removed hr hrem _ => exact .inr ⟨hr, hrem⟩

/-! ## First children -/

/-- The first children of a role correspond, if it is not that of bodies. -/
theorem rel_find? {role : Role} (hr : role ≠ .body) {l l' : List Document}
    (h : List.Forall₂ (Loose p) l l') :
    Option.Rel (Alike p) (l.find? fun c => c.role == role) (l'.find? fun c => c.role == role) := by
  induction h with
  | nil => exact .none
  | cons hc _ ih =>
    rw [List.find?_cons, List.find?_cons, hc.role_eq]
    split
    · next e => exact .some (hc.alike (eq_of_beq e ▸ hr))
    · exact ih

theorem find?_filter_decides {role : Role} (hr : decidesRemoval role = true) (l : List Document) :
    (l.filter fun d => decidesRemoval d.role).find? (fun c => c.role == role) =
      l.find? fun c => c.role == role := by
  rw [List.find?_filter]
  congr 1
  funext c
  by_cases hc : c.role = role
  · simp [hc, hr]
  · simp [hc]

theorem Alike.first? (h : Alike p d d') {role : Role} (hr : decidesRemoval role = true) :
    Option.Rel (Alike p) (d.first? role) (d'.first? role) := by
  have hb : role ≠ .body := by
    rintro rfl
    cases hr
  cases h with
  | node hk => exact rel_find? hb (loosen hk)
  | body _ hk _ hbr hbr' ha =>
    exact rel_find? hb (loosen_body hk hbr hbr' ha)
  | removed _ _ hk =>
    have := rel_find? hb (loosen hk)
    rwa [find?_filter_decides hr, find?_filter_decides hr] at this

theorem Alike.name? (h : Alike p d d') : d'.name? = d.name? := by
  have hf := h.first? (show decidesRemoval .name = true from rfl)
  unfold Document.name?
  generalize d.first? .name = a at hf ⊢
  generalize d'.first? .name = b at hf ⊢
  cases hf with
  | some hc => exact congrArg Kind.identifierText? hc.kind_eq
  | none => rfl

theorem Alike.isRemoved (h : Alike p d d') : isRemovedDocument p d' = isRemovedDocument p d := by
  have hf := h.first? (show decidesRemoval .privateImplementationType = true from rfl)
  have hsome : (d'.first? .privateImplementationType).isSome =
      (d.first? .privateImplementationType).isSome := by
    generalize d.first? .privateImplementationType = a at hf ⊢
    generalize d'.first? .privateImplementationType = b at hf ⊢
    cases hf <;> rfl
  unfold isRemovedDocument
  rw [h.kind_eq, h.name?, hsome]

/-! ## Attributes -/

theorem isNoise_congr (h : List.Forall₂ (Loose p) d.children d'.children) :
    isNoiseDocument p d' = isNoiseDocument p d := by
  have hf : Option.Rel (Alike p) (d.first? .type) (d'.first? .type) := rel_find? (by decide) h
  unfold isNoiseDocument
  generalize d.first? .type = a at hf ⊢
  generalize d'.first? .type = b at hf ⊢
  cases hf with
  | some hc => simp only [hc.kind_eq, hc.name?]
  | none => rfl

theorem Alike.isNoise (h : Alike p d d') (hr : d.role = .attributes) :
    isNoiseDocument p d' = isNoiseDocument p d := by
  rcases h.cases_children with ⟨-, hk⟩ | ⟨hne, -⟩
  · exact isNoise_congr hk
  · exact absurd hr hne

theorem Alike.isSpent (h : Alike p d d') (hr : d.role = .attributes) :
    isSpentDocument p d' = isSpentDocument p d := by
  have hall : ∀ {l l'}, List.Forall₂ (Loose p) l l' →
      (l'.all fun a => a.role != .attributes || isNoiseDocument p a) =
        l.all fun a => a.role != .attributes || isNoiseDocument p a := by
    intro l l' hl
    induction hl with
    | nil => rfl
    | @cons a a' _ _ ha _ ih =>
      rw [List.all_cons, List.all_cons, ih, ha.role_eq]
      by_cases hattr : a.role = .attributes
      · rw [(ha.alike (by rw [hattr]; decide)).isNoise hattr]
      · have hne : (a.role != .attributes) = true := by simpa using hattr
        rw [hne, Bool.true_or, Bool.true_or]
  rcases h.cases_children with ⟨-, hk⟩ | ⟨hne, -⟩
  · exact hall hk
  · exact absurd hr hne

/-- A site drops both of two alike documents, or neither. -/
theorem Alike.drops (h : Alike p d d') (s : Site) (first : Bool) :
    s.drops p first d' = s.drops p first d := by
  unfold Site.drops
  rw [h.role_eq, h.kind_eq, h.isRemoved]
  by_cases hr : d.role = .attributes
  · rw [h.isSpent hr, h.isNoise hr]
  · have hne : (d.role == .attributes) = false := by simpa using hr
    simp only [hne, Bool.and_false, Bool.false_and]

/-! ## The view -/

/-- What the view makes of documents that stay. -/
def ViewsAlike (p : Policy) (d : Document) : Prop :=
  ∀ d', Alike p d d' → isRemovedDocument p d = false →
    ∀ accessor inSection, view p accessor inSection d' = view p accessor inSection d

theorem drops_of_isRemoved {s : Site} {first : Bool} (h : isRemovedDocument p d = true) :
    s.drops p first d = true := by
  unfold Site.drops
  simp only [h, Bool.true_or]

/-- Children that are alike, in front of others that are seen alike wherever `Q` holds of the roles
before them. -/
theorem viewAll_append {s : Site} {l l' : List Document} (hl : List.Forall₂ (Alike p) l l')
    (ih : ∀ d ∈ l, ViewsAlike p d) {Q : List Role → Prop}
    (hQ : ∀ d ∈ l, ∀ seen, Q seen → Q (d.role :: seen)) {rest rest' : List Document}
    (hrest : ∀ seen, Q seen → viewAll p s seen rest' = viewAll p s seen rest) {seen : List Role}
    (hseen : Q seen) : viewAll p s seen (l' ++ rest') = viewAll p s seen (l ++ rest) := by
  -- A child that goes may differ from its counterpart in any way; only one that stays is looked at.
  induction hl generalizing seen with
  | nil => exact hrest seen hseen
  | @cons d d' l l' hd _ ih' =>
    have htail := ih' (fun e he => ih e (by simp [he])) (fun e he => hQ e (by simp [he]))
      (hQ d (by simp) seen hseen)
    rw [List.cons_append, List.cons_append, viewAll, viewAll, hd.role_eq, hd.drops, htail]
    split
    · rfl
    · next hdrop =>
      have hrem : isRemovedDocument p d = false := by
        rw [← Bool.not_eq_true]
        exact fun e => hdrop (drops_of_isRemoved e)
      rw [ih d (by simp) d' hd hrem]

theorem viewAll_alike {s : Site} {l l' : List Document} (hl : List.Forall₂ (Alike p) l l')
    (ih : ∀ d ∈ l, ViewsAlike p d) (seen : List Role) :
    viewAll p s seen l' = viewAll p s seen l := by
  have h : viewAll p s seen (l' ++ []) = viewAll p s seen (l ++ []) :=
    viewAll_append (Q := fun _ => True) hl ih (fun _ _ _ _ => trivial) (fun _ _ => rfl) trivial
  rwa [List.append_nil, List.append_nil] at h

/-- The first body of a member that shows none does not matter. -/
theorem viewAll_body {s : Site} (hs : losesBody s.kind = true) {b b' : Document}
    (hb : b.role = .body) (hb' : b'.role = .body) {after after' : List Document}
    (hafter : ∀ seen, viewAll p s seen after' = viewAll p s seen after) {seen : List Role}
    (hseen : Role.body ∉ seen) :
    viewAll p s seen (b' :: after') = viewAll p s seen (b :: after) := by
  have hdrop : ∀ d : Document, d.role = .body → s.drops p (!seen.contains d.role) d = true := by
    intro d hd
    unfold Site.drops
    simp [hd, hs, hseen]
  rw [viewAll, viewAll, if_pos (hdrop b hb), if_pos (hdrop b' hb'), hb, hb', hafter]

/-- What stays of documents that are alike is the same. -/
theorem view_alike : ∀ d : Document, ViewsAlike p d
  | .node label kids => by
    have ih : ∀ d ∈ kids, ViewsAlike p d := fun d _ => view_alike d
    intro d' h hrem accessor inSection
    cases h with
    | node hk => rw [view, view, viewAll_alike hk ih]
    | @body _ before before' after after' b b' hl hbefore hfirst hb hb' hafter =>
      -- Up to the body no body has been seen, so it is the first one, and goes on both sides.
      rw [view, view, viewAll_append (Q := fun seen => Role.body ∉ seen) hbefore
        (fun d hd => ih d (by simp [hd])) ?_ (fun seen hseen => viewAll_body hl hb hb'
          (viewAll_alike hafter fun d hd => ih d (by simp [hd])) hseen) (by simp)]
      intro d hd seen hseen hm
      rcases List.mem_cons.mp hm with e | hm
      · exact hfirst d hd e.symm
      · exact hseen hm
    | removed _ hrem' _ =>
      rw [hrem] at hrem'
      cases hrem'
  termination_by d => sizeOf d
  decreasing_by
    have hlt := List.sizeOf_lt_of_mem ‹d ∈ kids›
    simp only [Document.node.sizeOf_spec]
    omega

/-! ## Pages -/

theorem isRemovedDocument_syntaxTree (h : d.kind = .syntaxTree) :
    isRemovedDocument p d = false := by
  unfold isRemovedDocument
  rw [h]
  rfl

theorem Alike.rooted (h : Alike p d d') : Alike p (Tree.rooted d) (Tree.rooted d') := by
  have hkind : d'.label.kind = d.label.kind := h.kind_eq
  unfold Tree.rooted
  rw [hkind]
  by_cases htop : d.label.kind = .syntaxTree
  · rw [if_pos htop, if_pos htop]
    cases h with
    | node hk => exact .node hk
    | @body label _ _ _ _ _ _ loses =>
      rw [show label.kind = .syntaxTree from htop] at loses
      cases loses
    | removed _ hrem _ =>
      rw [isRemovedDocument_syntaxTree htop] at hrem
      cases hrem
  · rw [if_neg htop, if_neg htop]
    exact .node (.cons h .nil)

/-- The interface of a tree, as a document. -/
theorem documentAt_prune_root {t : Tree} (h : t.WellFormed) :
    (prune p t).1.documentAt Tree.root = view p false false (t.documentAt Tree.root) := by
  refine documentAt_prune h (kept_root h p) ?_ ?_
  · simp [IsAccessor, h.root_parent]
  · simp [IsSection, h.root_parent]

/-- Trees made from documents that are alike have the same page once they are pruned, whatever the
bodies and the removed declarations hold. -/
theorem render_prune_eq {links : Links} {o : Options} {d₁ d₂ : Document} {t₁ t₂ : Tree}
    (h₁ : Tree.ofDocument d₁ = .ok t₁) (h₂ : Tree.ofDocument d₂ = .ok t₂) (h : Alike p d₁ d₂) :
    render links o (prune p t₁).1 = render links o (prune p t₂).1 := by
  obtain ⟨hw₁, hd₁⟩ := Tree.ofDocument_spec h₁
  obtain ⟨hw₂, hd₂⟩ := Tree.ofDocument_spec h₂
  refine render_congr (wellFormed_prune hw₁ p) (wellFormed_prune hw₂ p) links o ?_
  rw [documentAt_prune_root hw₁, documentAt_prune_root hw₂, hd₁, hd₂]
  have hstays : isRemovedDocument p (Tree.rooted d₁) = false := by
    refine isRemovedDocument_syntaxTree ?_
    unfold Tree.rooted
    split <;> rfl
  exact (view_alike _ _ h.rooted hstays false false).symm

/-- A class with a public method that has a body, and with a private one. -/
def guardedSample (body : Document) (notes : List Annotation) (hidden : Document) : Document :=
  .node ⟨.member, .typeDecl .classType ∅, []⟩
    [.node ⟨.name, .identifier "Vault", []⟩ [],
     .node ⟨.member, .methodDecl (.single .publicAccess), []⟩
       [.node ⟨.name, .identifier "Open", []⟩ [], body],
     .node ⟨.member, .methodDecl (.single .privateAccess), notes⟩
       [.node ⟨.name, .identifier "Code", []⟩ [], hidden]]

theorem guardedSample_alike :
    Alike ⟨"Vault", usualNoise⟩
      (guardedSample (.node ⟨.body, .block, []⟩ []) [] (.node ⟨.type, .simpleType, []⟩ []))
      (guardedSample (.node ⟨.body, .block, []⟩ [.node ⟨.statement, .returnStmt, []⟩ []])
        [.methodGroup "Secret"] (.node ⟨.body, .block, []⟩ [])) := by
  refine .node (.cons (.node .nil) (.cons ?_ (.cons ?_ .nil)))
  · change Alike _ (.node _ ([_] ++ _ :: [])) (.node _ ([_] ++ _ :: []))
    exact .body rfl (.cons (.node .nil) .nil) (by decide) rfl rfl .nil
  · exact .removed (by decide) (by decide) (.cons (.node .nil) .nil)

/-- A body, and what stands in a private method, leave no trace. -/
theorem render_prune_guardedSample :
    ∃ t₁ t₂, t₁.size ≠ t₂.size ∧
      Tree.ofDocument (guardedSample (.node ⟨.body, .block, []⟩ []) []
        (.node ⟨.type, .simpleType, []⟩ [])) = .ok t₁ ∧
      Tree.ofDocument (guardedSample (.node ⟨.body, .block, []⟩
        [.node ⟨.statement, .returnStmt, []⟩ []]) [.methodGroup "Secret"]
        (.node ⟨.body, .block, []⟩ [])) = .ok t₂ ∧
      render noLinks {} (prune ⟨"Vault", usualNoise⟩ t₁).1 =
        render noLinks {} (prune ⟨"Vault", usualNoise⟩ t₂).1 :=
  ⟨_, _, by decide, rfl, rfl, render_prune_eq rfl rfl guardedSample_alike⟩

end CodeView.Interface
