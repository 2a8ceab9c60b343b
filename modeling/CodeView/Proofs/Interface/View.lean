import CodeView.Proofs.Interface.Meaning

/-!
# The interface of a document

Pruning works on the numbered nodes of a tree. What it leaves can be read off the document that the
tree holds, by one recursion over it.

* `isRemovedDocument`, `isNoiseDocument`, `isSpentDocument`: the decisions about one node, as a
  document.
* `Site`: what a node says of the places of its children. `Site.drops` tells which children go.
* `view`: a document without what pruning drops.
* `documentAt_prune`: a pruned tree holds the view of the document that the tree held before.
-/

namespace CodeView.Syntax.Document

/-- The role of the top node. -/
def role (d : Document) : Role := d.label.role

/-- The kind of the top node. -/
def kind (d : Document) : Kind := d.label.kind

/-- The first child that has a role. -/
def first? (d : Document) (role : Role) : Option Document :=
  d.children.find? fun c => c.role == role

/-- The name of a declaration or type: the text of its first child in the name role. -/
def name? (d : Document) : Option String :=
  (d.first? .name).bind fun c => c.kind.identifierText?

end CodeView.Syntax.Document

namespace CodeView.Interface

open CodeView.Syntax

/-! ## Decisions about one node -/

/-- Whether the removal rule of its kind removes a declaration. -/
def isRemovedDocument (p : Policy) (d : Document) : Bool :=
  match removalRule d.kind with
  | none => false
  | some rule =>
    rule.removes d.kind.modifiers (d.first? .privateImplementationType).isSome
      (d.name? == some p.target)

/-- Whether an attribute is left out. -/
def isNoiseDocument (p : Policy) (d : Document) : Bool :=
  match d.first? .type with
  | none => false
  | some type =>
    match type.kind with
    | .simpleType | .memberType =>
      match type.name? with
      | some name => p.isNoise name
      | none => false
    | _ => false

/-- Whether every attribute of a section is left out. -/
def isSpentDocument (p : Policy) (d : Document) : Bool :=
  d.children.all fun a => a.role != .attributes || isNoiseDocument p a

/-- What a node says of the places of its children: its kind, whether its attributes are filtered,
and whether it is a section of a filtered node. -/
structure Site where
  kind : Kind
  filtered : Bool
  inSection : Bool

namespace Site

/-- Whether the place is that of the first getter or setter of a property. -/
def isGetSet (s : Site) (first : Bool) (role : Role) : Bool :=
  isProperty s.kind && first && (role == .getter || role == .setter)

/-- Whether the place is that of the first adder or remover of an event. -/
def isAddRemove (s : Site) (first : Bool) (role : Role) : Bool :=
  isCustomEvent s.kind && first && (role == .addAccessor || role == .removeAccessor)

/-- Whether a child goes, where `first` says that it is the first of its role. -/
def drops (p : Policy) (s : Site) (first : Bool) (d : Document) : Bool :=
  isRemovedDocument p d ||
    (s.isGetSet first d.role && accessorRule.removes d.kind.modifiers false false) ||
    (losesBody s.kind && first && d.role == .body) ||
    (s.filtered && d.role == .attributes && isSpentDocument p d) ||
    (s.inSection && d.role == .attributes && isNoiseDocument p d)

end Site

mutual

/-- A document without what is dropped below its top. The top is an accessor whose attributes are
filtered, or a section of a filtered node, as the arguments say. -/
def view (p : Policy) (accessor inSection : Bool) : Document → Document
  | .node label kids =>
    .node label
      (viewAll p ⟨label.kind, accessor || (removalRule label.kind).isSome, inSection⟩ [] kids)

/-- The children of a node that stay, where `seen` are the roles of those before. -/
def viewAll (p : Policy) (s : Site) (seen : List Role) : List Document → List Document
  | [] => []
  | d :: rest =>
    let first := !seen.contains d.role
    if s.drops p first d then viewAll p s (d.role :: seen) rest
    else
      view p (s.isGetSet first d.role || s.isAddRemove first d.role)
        (s.filtered && d.role == .attributes) d :: viewAll p s (d.role :: seen) rest

end

/-! ## Reading a tree as a document -/

variable {p : Policy} {t : Tree} {n : NodeId}

section Reading

variable (h : t.WellFormed)

include h

theorem label_documentAt (n : NodeId) : (t.documentAt n).label = t.label n := by
  rw [h.documentAt_eq]
  rfl

theorem role_documentAt (n : NodeId) : (t.documentAt n).role = t.role n :=
  congrArg Label.role (label_documentAt h n)

theorem kind_documentAt (n : NodeId) : (t.documentAt n).kind = t.kind n :=
  congrArg Label.kind (label_documentAt h n)

theorem children_documentAt (n : NodeId) :
    (t.documentAt n).children = (t.children n).map t.documentAt := by
  rw [h.documentAt_eq]
  rfl

theorem first?_documentAt (n : NodeId) (role : Role) :
    (t.documentAt n).first? role = (t.childWithRole? n role).map t.documentAt := by
  unfold Document.first? Tree.childWithRole?
  rw [children_documentAt h, List.find?_map]
  congr 2
  funext c
  rw [Function.comp_apply, role_documentAt h]

theorem name?_documentAt (n : NodeId) : (t.documentAt n).name? = t.name? n := by
  unfold Document.name? Tree.name?
  rw [first?_documentAt h]
  cases t.childWithRole? n .name with
  | none => rfl
  | some c =>
    show (t.documentAt c).kind.identifierText? = (t.kind c).identifierText?
    rw [kind_documentAt h]

theorem isRemoved_documentAt (p : Policy) (n : NodeId) :
    isRemovedDocument p (t.documentAt n) = isRemoved p t n := by
  unfold isRemovedDocument isRemoved
  rw [kind_documentAt h]
  cases removalRule (t.kind n) with
  | none => rfl
  | some rule => simp only [first?_documentAt h, name?_documentAt h, Option.isSome_map]

theorem isNoise_documentAt (p : Policy) (n : NodeId) :
    isNoiseDocument p (t.documentAt n) = isNoise p t n := by
  unfold isNoiseDocument isNoise attributeName?
  rw [first?_documentAt h]
  cases t.childWithRole? n .type with
  | none => rfl
  | some c =>
    simp only [Option.map_some, kind_documentAt h, name?_documentAt h]
    cases t.kind c <;> rfl

theorem isSpent_documentAt (p : Policy) (n : NodeId) :
    isSpentDocument p (t.documentAt n) = true ↔ Pass.Spent p t n := by
  unfold isSpentDocument Pass.Spent
  rw [children_documentAt h, List.all_map, List.all_eq_true]
  simp only [h.mem_children, Function.comp_apply, role_documentAt h, isNoise_documentAt h,
    Bool.or_eq_true, bne_iff_ne, ne_eq, ← Decidable.imp_iff_not_or]

end Reading

/-! ## Places -/

/-- A node is the first getter or setter of a property, or the first adder or remover of an
event. -/
def IsAccessor (t : Tree) (n : NodeId) : Prop :=
  ∃ q, t.parent? n = some q ∧
    ((isProperty (t.kind q) = true ∧
        (t.childWithRole? q .getter = some n ∨ t.childWithRole? q .setter = some n)) ∨
      (isCustomEvent (t.kind q) = true ∧
        (t.childWithRole? q .addAccessor = some n ∨ t.childWithRole? q .removeAccessor = some n)))

/-- A node is an attribute section of a filtered node. -/
def IsSection (t : Tree) (n : NodeId) : Prop :=
  t.role n = .attributes ∧ ∃ q, t.parent? n = some q ∧ Filtered t q

theorem filtered_iff : Filtered t n ↔ IsAccessor t n ∨ (removalRule (t.kind n)).isSome = true := by
  constructor
  · intro hf
    cases hf with
    | declaration hk => exact .inr hk
    | getSet hq hk hfirst => exact .inl ⟨_, hq, .inl ⟨hk, hfirst⟩⟩
    | addRemove hq hk hfirst => exact .inl ⟨_, hq, .inr ⟨hk, hfirst⟩⟩
  · rintro (⟨q, hq, ⟨hk, hfirst⟩ | ⟨hk, hfirst⟩⟩ | hk)
    · exact .getSet hq hk hfirst
    · exact .addRemove hq hk hfirst
    · exact .declaration hk

theorem dropped_iff {c : NodeId} (hc : t.parent? c = some n) :
    Dropped p t c ↔
      isRemoved p t c = true ∨
      (isProperty (t.kind n) = true ∧
        (t.childWithRole? n .getter = some c ∨ t.childWithRole? n .setter = some c) ∧
        isHidden t c = true) ∨
      (losesBody (t.kind n) = true ∧ t.childWithRole? n .body = some c) ∨
      (Filtered t n ∧ t.role c = .attributes ∧ Pass.Spent p t c) ∨
      (IsSection t n ∧ t.role c = .attributes ∧ isNoise p t c = true) := by
  have same : ∀ {q}, t.parent? c = some q → q = n := fun hq => Option.some.inj (hq.symm.trans hc)
  constructor
  · intro hd
    cases hd with
    | declaration hq hk hx => exact .inl (isRemoved_iff.mpr ⟨_, hk, hx⟩)
    | accessor hq hk hfirst hh =>
      cases same hq
      exact .inr (.inl ⟨hk, hfirst, isHidden_iff.mpr hh⟩)
    | body hq hk hfirst =>
      cases same hq
      exact .inr (.inr (.inl ⟨hk, hfirst⟩))
    | spentSection hq hr hf hs =>
      cases same hq
      exact .inr (.inr (.inr (.inl ⟨hf, hr, fun a ha har => isNoise_iff.mpr (hs a ha har)⟩)))
    | noiseAttribute hg hr hq hgr hf hname hx =>
      cases same hg
      exact .inr (.inr (.inr (.inr ⟨⟨hgr, _, hq, hf⟩, hr, isNoise_iff.mpr ⟨_, hname, hx⟩⟩)))
  · rintro (hx | ⟨hk, hfirst, hh⟩ | ⟨hk, hfirst⟩ | ⟨hf, hr, hs⟩ | ⟨⟨hgr, q, hq, hf⟩, hr, hx⟩)
    · obtain ⟨rule, hk, hx⟩ := isRemoved_iff.mp hx
      exact .declaration hc hk hx
    · exact .accessor hc hk hfirst (isHidden_iff.mp hh)
    · exact .body hc hk hfirst
    · exact .spentSection hc hr hf fun a ha har => isNoise_iff.mp (hs a ha har)
    · obtain ⟨name, hname, hx⟩ := isNoise_iff.mp hx
      exact .noiseAttribute hc hr hq hgr hf hname hx

/-- A child is the first of a role if it has the role and none before it does. -/
theorem childWithRole?_eq_some_iff (h : t.WellFormed) {before after : List NodeId} {c : NodeId}
    (hs : t.children n = before ++ c :: after) {role : Role} :
    t.childWithRole? n role = some c ↔ t.role c = role ∧ role ∉ before.map t.role := by
  have hnodup := h.nodup_children n
  rw [hs] at hnodup
  unfold Tree.childWithRole?
  rw [hs, List.find?_append]
  by_cases hb : role ∈ before.map t.role
  · obtain ⟨d, hd, hr⟩ := List.mem_map.mp hb
    obtain ⟨e, he⟩ : ∃ e, before.find? (fun c => t.role c == role) = some e := by
      rw [← Option.isSome_iff_exists, List.find?_isSome]
      exact ⟨d, hd, by simpa using hr⟩
    rw [he, Option.some_or]
    constructor
    · intro e'
      cases e'
      exact absurd rfl
        ((List.nodup_append.mp hnodup).2.2 c (List.mem_of_find?_eq_some he) c (by simp))
    · exact fun hx => absurd hb hx.2
  · have hnone : before.find? (fun c => t.role c == role) = none := by
      rw [List.find?_eq_none]
      intro d hd hr
      exact hb (List.mem_map.mpr ⟨d, hd, by simpa using hr⟩)
    rw [hnone, Option.none_or, List.find?_cons]
    by_cases hr : t.role c = role
    · simp [hr, hb]
    · have hne : (t.role c == role) = false := by simpa using hr
      simp only [hne, hr, false_and, iff_false]
      intro hfind
      have hmem := List.mem_of_find?_eq_some hfind
      have hcons := (List.nodup_append.mp hnodup).2.1
      exact (List.nodup_cons.mp hcons).1 hmem

/-- What a node says of the places of its children, told by the tree. -/
structure SiteOf (t : Tree) (n : NodeId) (s : Site) : Prop where
  kind : s.kind = t.kind n
  filtered : s.filtered = true ↔ Filtered t n
  inSection : s.inSection = true ↔ IsSection t n

section Places

variable {s : Site} {c : NodeId} {first : Bool}

theorem isAccessor_iff (hs : SiteOf t n s) (hc : t.parent? c = some n)
    (hf : ∀ role, t.childWithRole? n role = some c ↔ t.role c = role ∧ first = true) :
    (s.isGetSet first (t.role c) || s.isAddRemove first (t.role c)) = true ↔ IsAccessor t c := by
  have hq : ∀ q, t.parent? c = some q ↔ q = n := by
    intro q
    rw [hc, Option.some.injEq]
    exact eq_comm
  unfold IsAccessor Site.isGetSet Site.isAddRemove
  simp only [hs.kind, hf, hq, exists_eq_left, Bool.or_eq_true, Bool.and_eq_true, beq_iff_eq]
  grind

/-- The children that go at a site are the dropped ones. -/
theorem drops_iff (h : t.WellFormed) (hs : SiteOf t n s) (hc : t.parent? c = some n)
    (hf : ∀ role, t.childWithRole? n role = some c ↔ t.role c = role ∧ first = true) :
    s.drops p first (t.documentAt c) = true ↔ Dropped p t c := by
  have hhidden : accessorRule.removes (t.kind c).modifiers false false = isHidden t c := rfl
  rw [dropped_iff hc]
  unfold Site.drops Site.isGetSet
  simp only [hs.kind, hf, ← hs.filtered, ← hs.inSection, role_documentAt h, kind_documentAt h,
    isRemoved_documentAt h, isNoise_documentAt h, ← isSpent_documentAt h, hhidden, Bool.or_eq_true,
    Bool.and_eq_true, beq_iff_eq]
  grind

end Places

/-! ## The document of a pruned tree -/

/-- What is left of the children of a kept node, once it is known what is left of each of them. -/
theorem documents_prune (h : t.WellFormed) {s : Site} (hs : SiteOf t n s) (hn : Kept p t n)
    (ih : ∀ c ∈ t.children n, Kept p t c → ∀ accessor inSection : Bool,
      (accessor = true ↔ IsAccessor t c) → (inSection = true ↔ IsSection t c) →
      (prune p t).1.documentAt c = view p accessor inSection (t.documentAt c))
    {before after : List NodeId} (hsplit : t.children n = before ++ after) {seen : List Role}
    (hseen : ∀ r, r ∈ seen ↔ r ∈ before.map t.role) :
    (after.filter (· ∉ cutNodes p t)).map (prune p t).1.documentAt =
      viewAll p s seen (after.map t.documentAt) := by
  -- The view knows of the children before a child only their roles, in `seen`.
  induction after generalizing before seen with
  | nil => rfl
  | cons c after ih' =>
    have hmem : c ∈ t.children n := by
      rw [hsplit]
      simp
    have hc := h.mem_children.mp hmem
    have hf : ∀ role, t.childWithRole? n role = some c ↔
        t.role c = role ∧ (!seen.contains (t.role c)) = true := by
      intro role
      rw [childWithRole?_eq_some_iff h hsplit, ← hseen]
      refine and_congr_right fun hr => ?_
      simp [hr]
    have hseen' : ∀ r, r ∈ t.role c :: seen ↔ r ∈ (before ++ [c]).map t.role := by
      intro r
      rw [List.mem_cons, List.map_append, List.mem_append, hseen, List.map_singleton,
        List.mem_singleton]
      exact or_comm
    have hsplit' : t.children n = (before ++ [c]) ++ after := by
      rw [hsplit]
      simp
    have htail := ih' hsplit' hseen'
    rw [List.map_cons, viewAll, role_documentAt h]
    by_cases hd : Dropped p t c
    · have hcut := (hn.mem_cutNodes_iff h hc).mpr hd
      rw [if_pos ((drops_iff h hs hc hf).mpr hd), List.filter_cons_of_neg (by simpa using hcut)]
      exact htail
    · have hcut : c ∉ cutNodes p t := fun hm => hd ((hn.mem_cutNodes_iff h hc).mp hm)
      rw [if_neg (fun e => hd ((drops_iff h hs hc hf).mp e)),
        List.filter_cons_of_pos (by simpa using hcut), List.map_cons, htail]
      congr 1
      refine ih c hmem (hn.child h hc hd) _ _ (isAccessor_iff hs hc hf) ?_
      rw [Bool.and_eq_true, beq_iff_eq, hs.filtered]
      constructor
      · exact fun hx => ⟨hx.2, n, hc, hx.1⟩
      · rintro ⟨hr, q, hq, hfq⟩
        cases hq.symm.trans hc
        exact ⟨hfq, hr⟩

/-- A pruned tree holds the view of the document that the tree held before. -/
theorem documentAt_prune (h : t.WellFormed) (hn : Kept p t n) {accessor inSection : Bool}
    (ha : accessor = true ↔ IsAccessor t n) (hs : inSection = true ↔ IsSection t n) :
    (prune p t).1.documentAt n = view p accessor inSection (t.documentAt n) := by
  induction n using h.induction_down generalizing accessor inSection with
  | step n ih =>
    have hsite : SiteOf t n
        ⟨t.kind n, accessor || (removalRule (t.kind n)).isSome, inSection⟩ := by
      refine ⟨rfl, ?_, hs⟩
      rw [filtered_iff, Bool.or_eq_true, ha]
    have hc : ((t.children n).filter (· ∉ cutNodes p t)).map (prune p t).1.documentAt =
        viewAll p ⟨t.kind n, accessor || (removalRule (t.kind n)).isSome, inSection⟩ []
          ((t.children n).map t.documentAt) :=
      documents_prune h hsite hn (fun c hc hk a b ha hb => ih c hc hk ha hb)
        (List.nil_append _).symm (by simp)
    rw [(wellFormed_prune h p).documentAt_eq, h.documentAt_eq, view, label_prune h,
      children_prune h, hc]
    rfl

end CodeView.Interface
