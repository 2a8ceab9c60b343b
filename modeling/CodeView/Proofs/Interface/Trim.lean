import Mathlib.Data.List.Find
import CodeView.Interface.Prune
import CodeView.Proofs.Syntax.Paths

/-!
# What trimming a node cuts off

A pass reads the tree that its own cuts have left. Here its decisions about one node are put in
terms of the tree `t` that it started from.

* `Over t s`: the tree of `s` is `t` without the nodes that `s` has cut off.
* `Ready p t ids n`: below `n`, only attributes have been cut off so far, and those that are not
  children of `n` are noise in one of its sections. Names, types, accessors and bodies at and below
  `n` then read as in `t` (`isRemoved_detachAll`, `isNoise_detachAll`).
* `Adds t E s s'`: `s'` has cut off, beyond `s`, only nodes of `E`, and at or above every node of
  `E` there is a cut.
* `trim_adds`: trimming `n` adds `Trimmed p t n`, which is read on `t` alone.
-/

namespace CodeView.Interface

open CodeView.Syntax

variable {p : Policy} {t : Tree} {ids : List NodeId} {n : NodeId}

/-! ## Reading a tree from which nodes have been detached -/

theorem mem_childrenWithRole_detachAll (h : t.WellFormed) {role : Role} {c : NodeId} :
    c ∈ (t.detachAll ids).childrenWithRole n role ↔
      t.parent? c = some n ∧ t.role c = role ∧ c ∉ ids := by
  unfold Tree.childrenWithRole
  rw [h.children_detachAll]
  simp only [List.mem_filter, h.mem_children, Tree.role_detachAll, decide_eq_true_eq, beq_iff_eq]
  exact and_assoc.trans (and_congr_right fun _ => and_comm)

/-- A child found by its role is a child of that role. -/
theorem childWithRole?_some (h : t.WellFormed) {role : Role} {c : NodeId}
    (hc : t.childWithRole? n role = some c) : t.parent? c = some n ∧ t.role c = role := by
  refine ⟨h.mem_children.mp (List.mem_of_find?_eq_some hc), ?_⟩
  simpa using List.find?_some hc

/-- The first child of a role is the same as long as no child of that role has been detached. -/
theorem childWithRole?_detachAll (h : t.WellFormed) {role : Role}
    (hc : ∀ c ∈ ids, t.parent? c = some n → t.role c ≠ role) :
    (t.detachAll ids).childWithRole? n role = t.childWithRole? n role := by
  unfold Tree.childWithRole?
  rw [h.children_detachAll, List.find?_filter]
  refine List.find?_congr fun c hm => ?_
  by_cases hid : c ∈ ids
  · have := hc c hid (h.mem_children.mp hm)
    simp [hid, this]
  · simp only [Tree.role_detachAll, hid, not_false_eq_true, decide_true, true_and,
      Bool.decide_eq_true]

/-- Only attributes have been detached below `n`. -/
def AttributesOnly (t : Tree) (ids : List NodeId) (n : NodeId) : Prop :=
  ∀ c ∈ ids, ∀ q, t.parent? c = some q → n ∈ t.lineage q → t.role c = .attributes

theorem AttributesOnly.down (h : t.WellFormed) (ho : AttributesOnly t ids n) {m : NodeId}
    (hm : n ∈ t.lineage m) : AttributesOnly t ids m :=
  fun c hc q hq hmq => ho c hc q hq (h.mem_lineage_trans hm hmq)

theorem AttributesOnly.childWithRole? (h : t.WellFormed) (ho : AttributesOnly t ids n) {role : Role}
    (hr : role ≠ .attributes) :
    (t.detachAll ids).childWithRole? n role = t.childWithRole? n role := by
  refine childWithRole?_detachAll h fun c hc hp => ?_
  rw [ho c hc n hp (h.self_mem_lineage n)]
  exact hr.symm

theorem AttributesOnly.name? (h : t.WellFormed) (ho : AttributesOnly t ids n) :
    (t.detachAll ids).name? n = t.name? n := by
  unfold Tree.name? Tree.identifierText?
  rw [ho.childWithRole? h (by decide)]
  simp

theorem isRemoved_detachAll (h : t.WellFormed) (ho : AttributesOnly t ids n) :
    isRemoved p (t.detachAll ids) n = isRemoved p t n := by
  unfold isRemoved
  rw [Tree.kind_detachAll, ho.childWithRole? h (by decide), ho.name? h]

/-- No rule removes the root. -/
theorem isRemoved_root (h : t.WellFormed) (p : Policy) : isRemoved p t Tree.root = false := by
  simp [isRemoved, h.root_kind, removalRule]

theorem isNoise_detachAll (h : t.WellFormed) (ho : AttributesOnly t ids n) :
    isNoise p (t.detachAll ids) n = isNoise p t n := by
  have hname : attributeName? (t.detachAll ids) n = attributeName? t n := by
    unfold attributeName?
    rw [ho.childWithRole? h (by decide)]
    cases hc : t.childWithRole? n .type with
    | none => rfl
    | some c =>
      have hp := (childWithRole?_some h hc).1
      have hd := ho.down h (h.mem_lineage_of_parent hp (h.self_mem_lineage n))
      simp only [Tree.kind_detachAll, hd.name? h]
  unfold isNoise
  rw [hname]

theorem isHidden_detachAll : isHidden (t.detachAll ids) n = isHidden t n := by
  unfold isHidden
  rw [Tree.kind_detachAll]

/-! ## Passes over a tree -/

namespace Pass

/-- The nodes that have been cut off. -/
def nodes (s : Pass) : List NodeId := s.cuts.map Cut.node

@[simp] theorem nodes_cut (s : Pass) (reason : Reason) (c : NodeId) :
    (s.cut reason c).nodes = c :: s.nodes := rfl

/-- The tree under way is `t` without the nodes that have been cut off. -/
def Over (t : Tree) (s : Pass) : Prop := s.tree = t.detachAll s.nodes

theorem Over.cut {s : Pass} (ho : s.Over t) (reason : Reason) (c : NodeId) :
    (s.cut reason c).Over t := by
  unfold Over at *
  rw [nodes_cut, Tree.detachAll_cons, ← ho]
  rfl

theorem over_start (t : Tree) : (start t).Over t := rfl

/-- From `s` to `s'` only nodes of `E` have been cut off, and each of them is cut off now, or a node
above it is. -/
structure Adds (t : Tree) (E : NodeId → Prop) (s s' : Pass) : Prop where
  isOver : s'.Over t
  mono : ∀ x ∈ s.nodes, x ∈ s'.nodes
  sound : ∀ x ∈ s'.nodes, x ∈ s.nodes ∨ E x
  complete : ∀ x, E x → ∃ m ∈ t.lineage x, m ∈ s'.nodes

variable {s s₁ s₂ : Pass} {E F : NodeId → Prop}

theorem Adds.refl (ho : s.Over t) : Adds t (fun _ => False) s s where
  isOver := ho
  mono := fun _ hx => hx
  sound := fun _ hx => .inl hx
  complete := fun _ hx => hx.elim

theorem Adds.trans (h₁ : Adds t E s s₁) (h₂ : Adds t F s₁ s₂) :
    Adds t (fun x => E x ∨ F x) s s₂ where
  isOver := h₂.isOver
  mono := fun x hx => h₂.mono x (h₁.mono x hx)
  sound := by
    intro x hx
    rcases h₂.sound x hx with h | h
    · rcases h₁.sound x h with h | h
      · exact .inl h
      · exact .inr (.inl h)
    · exact .inr (.inr h)
  complete := by
    rintro x (h | h)
    · obtain ⟨m, hm, hc⟩ := h₁.complete x h
      exact ⟨m, hm, h₂.mono m hc⟩
    · exact h₂.complete x h

theorem Adds.congr (h : Adds t E s s₁) (hE : ∀ x, E x ↔ F x) : Adds t F s s₁ where
  isOver := h.isOver
  mono := h.mono
  sound := fun x hx => (h.sound x hx).imp_right (hE x).mp
  complete := fun x hx => h.complete x ((hE x).mpr hx)

/-- What is added may be described by more nodes, if they are below those added or cut before. -/
theorem Adds.widen (hw : t.WellFormed) (h : Adds t E s s₁) (hE : ∀ x, E x → F x)
    (hF : ∀ x, F x → ∃ m ∈ t.lineage x, E m ∨ m ∈ s.nodes) : Adds t F s s₁ where
  isOver := h.isOver
  mono := h.mono
  sound := fun x hx => (h.sound x hx).imp_right (hE x)
  complete := by
    intro x hx
    obtain ⟨m, hm, hc | hc⟩ := hF x hx
    · obtain ⟨k, hk, hc⟩ := h.complete m hc
      exact ⟨k, hw.mem_lineage_trans hk hm, hc⟩
    · exact ⟨m, hm, h.mono m hc⟩

/-- Cutting one node off. -/
theorem Adds.cut (h : t.WellFormed) (ho : s.Over t) (reason : Reason) (c : NodeId) :
    Adds t (fun x => x = c) s (s.cut reason c) where
  isOver := ho.cut reason c
  mono := by
    intro x hx
    simp [hx]
  sound := by
    intro x hx
    rw [nodes_cut, List.mem_cons] at hx
    exact hx.symm
  complete := by
    rintro x rfl
    exact ⟨x, h.self_mem_lineage x, by simp⟩

/-! ## Attributes -/

/-- Every attribute of a section is noise, also if there is none. -/
def Spent (p : Policy) (t : Tree) (g : NodeId) : Prop :=
  ∀ a, t.parent? a = some g → t.role a = .attributes → isNoise p t a = true

/-- What filtering a section cuts off: its noise, and the section itself if it is spent. -/
def SectionCut (p : Policy) (t : Tree) (g x : NodeId) : Prop :=
  (t.parent? x = some g ∧ t.role x = .attributes ∧ isNoise p t x = true) ∨ (x = g ∧ Spent p t g)

/-- What filtering the attributes of a node cuts off. -/
def AttributeCut (p : Policy) (t : Tree) (n x : NodeId) : Prop :=
  ∃ g, t.parent? g = some n ∧ t.role g = .attributes ∧ SectionCut p t g x

theorem AttributeCut.role {x : NodeId} (hx : AttributeCut p t n x) : t.role x = .attributes := by
  obtain ⟨g, -, hr, ⟨-, hx, -⟩ | ⟨rfl, -⟩⟩ := hx
  · exact hx
  · exact hr

/-- The parent of a cut attribute is the node itself or one of its sections. -/
theorem AttributeCut.parent {x : NodeId} (hx : AttributeCut p t n x) :
    t.parent? x = some n ∨
      ∃ g, t.parent? x = some g ∧ t.parent? g = some n ∧ t.role g = .attributes ∧
        isNoise p t x = true := by
  obtain ⟨g, hg, hr, ⟨hx, -, hn⟩ | ⟨rfl, -⟩⟩ := hx
  · exact .inr ⟨g, hx, hg, hr, hn⟩
  · exact .inl hg

theorem AttributeCut.below (h : t.WellFormed) {x : NodeId} (hx : AttributeCut p t n x) :
    ∃ q, t.parent? x = some q ∧ n ∈ t.lineage q := by
  rcases hx.parent with hp | ⟨g, hp, hg, -, -⟩
  · exact ⟨n, hp, h.self_mem_lineage n⟩
  · exact ⟨g, hp, h.mem_lineage_of_parent hg (h.self_mem_lineage n)⟩

theorem foldl_dropNoise (h : t.WellFormed) {g : NodeId} {l : List NodeId} (ho : s.Over t)
    (ha : AttributesOnly t s.nodes g)
    (hl : ∀ a ∈ l, t.parent? a = some g ∧ t.role a = .attributes) :
    (l.foldl (dropNoise p) s).Over t ∧
      ∀ x, x ∈ (l.foldl (dropNoise p) s).nodes ↔
        x ∈ s.nodes ∨ (x ∈ l ∧ isNoise p t x = true) := by
  induction l generalizing s with
  | nil => exact ⟨ho, by simp⟩
  | cons a l ih =>
    obtain ⟨hp, hr⟩ := hl a (by simp)
    have hread : isNoise p s.tree a = isNoise p t a := by
      rw [ho]
      exact isNoise_detachAll h (ha.down h (h.mem_lineage_of_parent hp (h.self_mem_lineage g)))
    have hl' : ∀ a ∈ l, t.parent? a = some g ∧ t.role a = .attributes :=
      fun b hb => hl b (by simp [hb])
    rw [List.foldl_cons]
    unfold dropNoise
    rw [hread]
    by_cases hn : isNoise p t a = true
    · rw [if_pos hn]
      have ha' : AttributesOnly t (s.cut .noiseAttribute a).nodes g := by
        intro c hc q hq hm
        rcases List.mem_cons.mp hc with rfl | hc
        · exact hr
        · exact ha c hc q hq hm
      obtain ⟨h1, h2⟩ := ih (ho.cut .noiseAttribute a) ha' hl'
      refine ⟨h1, fun x => (h2 x).trans ?_⟩
      rw [nodes_cut, List.mem_cons, List.mem_cons]
      by_cases hx : x = a
      · subst hx
        simp [hn]
      · simp [hx]
    · rw [if_neg hn]
      obtain ⟨h1, h2⟩ := ih ho ha hl'
      refine ⟨h1, fun x => (h2 x).trans ?_⟩
      rw [List.mem_cons]
      by_cases hx : x = a
      · subst hx
        simp [hn]
      · simp [hx]

/-- Filtering a section of which nothing but noise has been cut off before. -/
theorem filterSection_nodes (h : t.WellFormed) {g : NodeId} (ho : s.Over t)
    (ha : AttributesOnly t s.nodes g)
    (hn : ∀ c ∈ s.nodes, t.parent? c = some g → isNoise p t c = true) :
    (s.filterSection p g).Over t ∧
      ∀ x, x ∈ (s.filterSection p g).nodes ↔ x ∈ s.nodes ∨ SectionCut p t g x := by
  have hmem : ∀ a, a ∈ s.tree.childrenWithRole g .attributes ↔
      t.parent? a = some g ∧ t.role a = .attributes ∧ a ∉ s.nodes := by
    intro a
    rw [ho]
    exact mem_childrenWithRole_detachAll h
  obtain ⟨h1, h2⟩ := foldl_dropNoise (p := p) (l := s.tree.childrenWithRole g .attributes) h ho
    ha fun a hm => ⟨((hmem a).mp hm).1, ((hmem a).mp hm).2.1⟩
  unfold filterSection dropSpent
  generalize (s.tree.childrenWithRole g .attributes).foldl (dropNoise p) s = s₁ at h1 h2 ⊢
  have h2' : ∀ x, x ∈ s₁.nodes ↔ x ∈ s.nodes ∨
      (t.parent? x = some g ∧ t.role x = .attributes ∧ isNoise p t x = true) := by
    intro x
    rw [h2, hmem]
    by_cases hx : x ∈ s.nodes <;> simp [hx, and_assoc]
  -- What is left of the section is what is not noise in `t`.
  have hspent : (s₁.tree.childWithRole? g .attributes).isNone = true ↔ Spent p t g := by
    have hread : s₁.tree.children g = (t.children g).filter (· ∉ s₁.nodes) := by
      rw [h1]
      exact h.children_detachAll _ _
    have hrole : ∀ c, s₁.tree.role c = t.role c := by
      intro c
      rw [h1]
      exact Tree.role_detachAll _ _ _
    unfold Tree.childWithRole?
    rw [Option.isNone_iff_eq_none, List.find?_eq_none, hread]
    simp only [List.mem_filter, h.mem_children, hrole, decide_eq_true_eq, beq_iff_eq]
    constructor
    · intro hall a hp hr
      by_cases hm : a ∈ s₁.nodes
      · rcases (h2' a).mp hm with hm | ⟨-, -, hm⟩
        · exact hn a hm hp
        · exact hm
      · exact absurd hr (hall a ⟨hp, hm⟩)
    · rintro hall a ⟨hp, hnot⟩ hr
      exact hnot ((h2' a).mpr (.inr ⟨hp, hr, hall a hp hr⟩))
  by_cases hsp : Spent p t g
  · rw [if_pos (hspent.mpr hsp)]
    refine ⟨h1.cut _ _, fun x => ?_⟩
    rw [nodes_cut, List.mem_cons, h2']
    unfold SectionCut
    simp only [hsp, and_true]
    grind
  · rw [if_neg (fun e => hsp (hspent.mp e))]
    refine ⟨h1, fun x => ?_⟩
    rw [h2']
    unfold SectionCut
    simp only [hsp, and_false, or_false]

theorem foldl_filterSection (h : t.WellFormed) {l : List NodeId} (ho : s.Over t)
    (ha : AttributesOnly t s.nodes n)
    (hl : ∀ g ∈ l, t.parent? g = some n ∧ t.role g = .attributes)
    (hn : ∀ g ∈ l, ∀ c ∈ s.nodes, t.parent? c = some g → isNoise p t c = true) :
    (l.foldl (filterSection p) s).Over t ∧
      ∀ x, x ∈ (l.foldl (filterSection p) s).nodes ↔
        x ∈ s.nodes ∨ ∃ g ∈ l, SectionCut p t g x := by
  induction l generalizing s with
  | nil => exact ⟨ho, by simp⟩
  | cons g l ih =>
    obtain ⟨hp, hr⟩ := hl g (by simp)
    have hg : AttributesOnly t s.nodes g :=
      ha.down h (h.mem_lineage_of_parent hp (h.self_mem_lineage n))
    obtain ⟨h1, h2⟩ := filterSection_nodes h ho hg (hn g (by simp))
    have ha' : AttributesOnly t (s.filterSection p g).nodes n := by
      intro c hc q hq hm
      rcases (h2 c).mp hc with hc | hc
      · exact ha c hc q hq hm
      · exact AttributeCut.role ⟨g, hp, hr, hc⟩
    have hn' : ∀ b ∈ l, ∀ c ∈ (s.filterSection p g).nodes, t.parent? c = some b →
        isNoise p t c = true := by
      intro b hb c hc hcb
      rcases (h2 c).mp hc with hc | ⟨-, -, hc⟩ | ⟨rfl, -⟩
      · exact hn b (by simp [hb]) c hc hcb
      · exact hc
      · -- A section is no child of a section of the same node.
        cases hcb.symm.trans hp
        exact absurd (h.self_mem_lineage n) (h.not_mem_lineage_parent (hl n (by simp [hb])).1)
    obtain ⟨h3, h4⟩ := ih h1 ha' (fun b hb => hl b (by simp [hb])) hn'
    refine ⟨h3, fun x => ?_⟩
    rw [List.foldl_cons, h4, h2, or_assoc]
    simp [List.mem_cons]

/-- Filtering the attributes of a node in whose sections nothing but noise has been cut off. -/
theorem filterAttributes_adds (h : t.WellFormed) (ho : s.Over t)
    (ha : AttributesOnly t s.nodes n)
    (hn : ∀ g, t.parent? g = some n → ∀ c ∈ s.nodes, t.parent? c = some g → isNoise p t c = true) :
    Adds t (AttributeCut p t n) s (s.filterAttributes p n) := by
  have hmem : ∀ g, g ∈ s.tree.childrenWithRole n .attributes ↔
      t.parent? g = some n ∧ t.role g = .attributes ∧ g ∉ s.nodes := by
    intro g
    rw [ho]
    exact mem_childrenWithRole_detachAll h
  obtain ⟨h1, h2⟩ := foldl_filterSection (p := p) (l := s.tree.childrenWithRole n .attributes) h
    ho ha (fun g hg => ⟨((hmem g).mp hg).1, ((hmem g).mp hg).2.1⟩)
    (fun g hg => hn g ((hmem g).mp hg).1)
  refine ⟨h1, fun x hx => (h2 x).mpr (.inl hx), fun x hx => ?_, ?_⟩
  · rcases (h2 x).mp hx with hx | ⟨g, hg, hx⟩
    · exact .inl hx
    · exact .inr ⟨g, ((hmem g).mp hg).1, ((hmem g).mp hg).2.1, hx⟩
  · rintro x ⟨g, hp, hr, hx⟩
    by_cases hg : g ∈ s.nodes
    · rcases hx with ⟨hx, -⟩ | ⟨rfl, -⟩
      · exact ⟨g, h.mem_lineage_of_parent hx (h.self_mem_lineage g), (h2 g).mpr (.inl hg)⟩
      · exact ⟨x, h.self_mem_lineage x, (h2 x).mpr (.inl hg)⟩
    · exact ⟨x, h.self_mem_lineage x, (h2 x).mpr (.inr ⟨g, (hmem g).mpr ⟨hp, hr, hg⟩, hx⟩)⟩

/-! ## Accessors -/

/-- Nothing has been cut off below `n`. -/
def Untouched (t : Tree) (ids : List NodeId) (n : NodeId) : Prop :=
  ∀ c ∈ ids, ∀ q, t.parent? c = some q → n ∉ t.lineage q

theorem filterAttributes_adds_of_untouched (h : t.WellFormed) (ho : s.Over t)
    (hu : Untouched t s.nodes n) : Adds t (AttributeCut p t n) s (s.filterAttributes p n) := by
  refine filterAttributes_adds h ho (fun c hc q hq hm => absurd hm (hu c hc q hq)) ?_
  intro g hg c hc hcg
  exact absurd (h.mem_lineage_of_parent hg (h.self_mem_lineage n)) (hu c hc g hcg)

/-- What filtering the first accessor of a role cuts off: the accessor itself if it may be `hidden`
and is, its attributes otherwise. -/
def AccessorCut (p : Policy) (t : Tree) (hides : Bool) (n : NodeId) (role : Role) (x : NodeId) :
    Prop :=
  ∃ a, t.childWithRole? n role = some a ∧
    if hides && isHidden t a then x = a else AttributeCut p t a x

/-- The accessors of `n` that have a role are as they were: none has been cut off, and nothing below
the first. -/
structure Open (t : Tree) (s : Pass) (n : NodeId) (role : Role) : Prop where
  keeps : ∀ c ∈ s.nodes, t.parent? c = some n → t.role c ≠ role
  untouched : ∀ a, t.childWithRole? n role = some a → Untouched t s.nodes a

theorem Open.childWithRole? (h : t.WellFormed) {role : Role} (ho : s.Over t)
    (hr : Open t s n role) : s.tree.childWithRole? n role = t.childWithRole? n role := by
  rw [ho]
  exact childWithRole?_detachAll h hr.keeps

theorem filterGetSet_adds (h : t.WellFormed) {role : Role} (ho : s.Over t) (hr : Open t s n role) :
    Adds t (AccessorCut p t true n role) s (s.filterGetSet p n role) := by
  unfold filterGetSet
  rw [hr.childWithRole? h ho]
  cases ha : t.childWithRole? n role with
  | none => exact (Adds.refl ho).congr fun x => by simp [AccessorCut, ha]
  | some a =>
    have hread : isHidden s.tree a = isHidden t a := by
      rw [ho]
      exact isHidden_detachAll
    simp only [hread]
    by_cases hh : isHidden t a = true
    · rw [if_pos hh]
      exact (Adds.cut h ho .accessor a).congr fun x => by simp [AccessorCut, ha, hh]
    · rw [if_neg hh]
      exact (filterAttributes_adds_of_untouched h ho (hr.untouched a ha)).congr fun x => by
        simp [AccessorCut, ha, hh]

theorem filterAddRemove_adds (h : t.WellFormed) {role : Role} (ho : s.Over t)
    (hr : Open t s n role) :
    Adds t (AccessorCut p t false n role) s (s.filterAddRemove p n role) := by
  unfold filterAddRemove
  rw [hr.childWithRole? h ho]
  cases ha : t.childWithRole? n role with
  | none => exact (Adds.refl ho).congr fun x => by simp [AccessorCut, ha]
  | some a =>
    exact (filterAttributes_adds_of_untouched h ho (hr.untouched a ha)).congr fun x => by
      simp [AccessorCut, ha]

/-- An accessor cut is the accessor, or one of its attributes. -/
theorem AccessorCut.cases (h : t.WellFormed) {hides : Bool} {role : Role} {x : NodeId}
    (hx : AccessorCut p t hides n role x) :
    ∃ a, t.parent? a = some n ∧ t.role a = role ∧ (x = a ∨ AttributeCut p t a x) := by
  obtain ⟨a, ha, hx⟩ := hx
  obtain ⟨hp, hr⟩ := childWithRole?_some h ha
  refine ⟨a, hp, hr, ?_⟩
  split at hx
  · exact .inl hx
  · exact .inr hx

/-- Filtering the accessors of one role leaves those of another as they were. -/
theorem Open.of_adds (h : t.WellFormed) {hides : Bool} {role role' : Role}
    (hne : role ≠ role') (hna : role' ≠ .attributes) (hr : Open t s n role')
    (ha : Adds t (AccessorCut p t hides n role) s s₁) : Open t s₁ n role' where
  keeps := by
    intro c hc hp
    rcases ha.sound c hc with hc | hc
    · exact hr.keeps c hc hp
    · obtain ⟨a, -, har, rfl | hca⟩ := hc.cases h
      · rw [har]
        exact hne
      · rw [hca.role]
        exact hna.symm
  untouched := by
    intro b hb c hc q hq hm
    rcases ha.sound c hc with hc | hc
    · exact hr.untouched b hb c hc q hq hm
    · obtain ⟨hbp, hbr⟩ := childWithRole?_some h hb
      obtain ⟨a, hap, har, rfl | hca⟩ := hc.cases h
      · cases hq.symm.trans hap
        exact h.not_mem_lineage_parent hbp hm
      · obtain ⟨q', hq', haq⟩ := hca.below h
        cases hq.symm.trans hq'
        have hab := h.eq_of_siblings hap hbp haq hm
        rw [hab, hbr] at har
        exact hne har.symm

/-- Filtering the accessors of two roles, one after the other. -/
theorem foldl_accessors_adds (h : t.WellFormed) {hides : Bool} {r₁ r₂ : Role} (hne : r₁ ≠ r₂)
    (hna : r₂ ≠ .attributes) {f : Pass → Role → Pass}
    (hf : ∀ s role, s.Over t → Open t s n role → Adds t (AccessorCut p t hides n role) s (f s role))
    (ho : s.Over t) (h₁ : Open t s n r₁) (h₂ : Open t s n r₂) :
    Adds t (fun x => AccessorCut p t hides n r₁ x ∨ AccessorCut p t hides n r₂ x) s
      ([r₁, r₂].foldl f s) := by
  have ha := hf s r₁ ho h₁
  exact ha.trans (hf (f s r₁) r₂ ha.isOver (h₂.of_adds h hne hna ha))

/-- What filtering the accessors of a node cuts off. -/
def AccessorsCut (p : Policy) (t : Tree) (n x : NodeId) : Prop :=
  (isProperty (t.kind n) = true ∧
    (AccessorCut p t true n .getter x ∨ AccessorCut p t true n .setter x)) ∨
  (isCustomEvent (t.kind n) = true ∧
    (AccessorCut p t false n .addAccessor x ∨ AccessorCut p t false n .removeAccessor x))

theorem AccessorsCut.cases (h : t.WellFormed) {x : NodeId} (hx : AccessorsCut p t n x) :
    ∃ role a, role ∈ [Role.getter, .setter, .addAccessor, .removeAccessor] ∧
      t.parent? a = some n ∧ t.role a = role ∧ (x = a ∨ AttributeCut p t a x) := by
  rcases hx with ⟨-, hx | hx⟩ | ⟨-, hx | hx⟩
  all_goals
    obtain ⟨a, hp, ha, hx⟩ := hx.cases h
    exact ⟨_, a, by simp, hp, ha, hx⟩

/-! ## A whole node -/

/-- What filtering a declaration cuts off. -/
def DeclarationCut (p : Policy) (t : Tree) (n x : NodeId) : Prop :=
  ((removalRule (t.kind n)).isSome = true ∧ AttributeCut p t n x) ∨ AccessorsCut p t n x

/-- What trimming a node cuts off: attributes, accessors and the first body, as its kind asks. -/
def Trimmed (p : Policy) (t : Tree) (n x : NodeId) : Prop :=
  DeclarationCut p t n x ∨ (losesBody (t.kind n) = true ∧ t.childWithRole? n .body = some x)

/-- Below `n` only attributes have been cut off: children of `n`, and noise in sections of `n`. -/
def Ready (p : Policy) (t : Tree) (ids : List NodeId) (n : NodeId) : Prop :=
  ∀ c ∈ ids, ∀ q, t.parent? c = some q → n ∈ t.lineage q →
    t.role c = .attributes ∧
      (q = n ∨ (t.parent? q = some n ∧ t.role q = .attributes ∧ isNoise p t c = true))

theorem Ready.attributesOnly (hr : Ready p t ids n) : AttributesOnly t ids n :=
  fun c hc q hq hm => (hr c hc q hq hm).1

/-- After the attributes of a node have been filtered, its accessors are still as they were. -/
theorem Open.of_ready (h : t.WellFormed) {role : Role} (hna : role ≠ .attributes)
    (hr : Ready p t s.nodes n) (ha : Adds t E s s₁) (hE : ∀ x, E x → AttributeCut p t n x) :
    Open t s₁ n role where
  keeps := by
    intro c hc hp
    have hcr : t.role c = .attributes := by
      rcases ha.sound c hc with hc | hc
      · exact (hr c hc n hp (h.self_mem_lineage n)).1
      · exact (hE c hc).role
    rw [hcr]
    exact hna.symm
  untouched := by
    intro a haa c hc q hq hm
    obtain ⟨hap, har⟩ := childWithRole?_some h haa
    have hnq : n ∈ t.lineage q :=
      h.mem_lineage_trans (h.mem_lineage_of_parent hap (h.self_mem_lineage n)) hm
    -- The parent of a cut node is `n` or a section of it, and neither is at or below `a`.
    have hcase : q = n ∨ (t.parent? q = some n ∧ t.role q = .attributes) := by
      rcases ha.sound c hc with hc | hc
      · exact (hr c hc q hq hnq).2.imp_right fun e => ⟨e.1, e.2.1⟩
      · rcases (hE c hc).parent with e | ⟨g, e, hg, hgr, -⟩
        · exact .inl (Option.some.inj (hq.symm.trans e))
        · cases hq.symm.trans e
          exact .inr ⟨hg, hgr⟩
    rcases hcase with rfl | ⟨hqp, hqr⟩
    · exact h.not_mem_lineage_parent hap hm
    · have e := h.eq_of_siblings hap hqp hm (h.self_mem_lineage q)
      rw [← e, har] at hqr
      exact hna hqr

theorem filterAccessors_eq {s : Pass} (ho : s.Over t) :
    s.filterAccessors p n =
      if isProperty (t.kind n) then [Role.getter, Role.setter].foldl (filterGetSet p n) s
      else if isCustomEvent (t.kind n) then
        [Role.addAccessor, Role.removeAccessor].foldl (filterAddRemove p n) s
      else s := by
  have hk : s.tree.kind n = t.kind n := by
    rw [ho]
    exact Tree.kind_detachAll _ _ _
  unfold filterAccessors
  rw [hk]

theorem filterAccessors_adds (h : t.WellFormed) (ho : s.Over t)
    (hr : ∀ role, role ≠ .attributes → Open t s n role) :
    Adds t (AccessorsCut p t n) s (s.filterAccessors p n) := by
  have hexcl : isProperty (t.kind n) = true → isCustomEvent (t.kind n) = false := by
    cases t.kind n <;> simp [isProperty, isCustomEvent]
  rw [filterAccessors_eq ho]
  unfold AccessorsCut
  by_cases hp : isProperty (t.kind n) = true
  · rw [if_pos hp]
    exact (foldl_accessors_adds h (by decide) (by decide)
      (fun s role ho ha => filterGetSet_adds h ho ha) ho (hr .getter (by decide))
      (hr .setter (by decide))).congr fun x => by simp [hp, hexcl hp]
  · rw [if_neg hp]
    by_cases he : isCustomEvent (t.kind n) = true
    · rw [if_pos he]
      exact (foldl_accessors_adds h (by decide) (by decide)
        (fun s role ho ha => filterAddRemove_adds h ho ha) ho (hr .addAccessor (by decide))
        (hr .removeAccessor (by decide))).congr fun x => by simp [hp, he]
    · rw [if_neg he]
      exact (Adds.refl ho).congr fun x => by simp [hp, he]

theorem filterDeclaration_adds (h : t.WellFormed) (ho : s.Over t) (hr : Ready p t s.nodes n) :
    Adds t (DeclarationCut p t n) s (s.filterDeclaration p n) := by
  have hk : s.tree.kind n = t.kind n := by
    rw [ho]
    exact Tree.kind_detachAll _ _ _
  unfold filterDeclaration DeclarationCut
  rw [hk]
  by_cases hrule : (removalRule (t.kind n)).isSome = true
  · rw [if_pos hrule]
    have ha : Adds t (AttributeCut p t n) s (s.filterAttributes p n) := by
      refine filterAttributes_adds h ho hr.attributesOnly fun g hg c hc hcg => ?_
      have hm := h.mem_lineage_of_parent hg (h.self_mem_lineage n)
      rcases (hr c hc g hcg hm).2 with rfl | ⟨-, -, hn⟩
      · exact absurd (h.self_mem_lineage g) (h.not_mem_lineage_parent hg)
      · exact hn
    have hb := filterAccessors_adds (p := p) h ha.isOver fun role hne =>
      Open.of_ready h hne hr ha fun _ hx => hx
    exact (ha.trans hb).congr fun x => by simp [hrule]
  · rw [if_neg hrule]
    have hno : ∀ x, ¬AccessorsCut p t n x := by
      intro x hx
      revert hrule hx
      unfold AccessorsCut
      cases t.kind n <;> simp [isProperty, isCustomEvent, removalRule]
    exact (Adds.refl ho).congr fun x => by simp [hrule, hno x]

theorem DeclarationCut.role_ne_body (h : t.WellFormed) {x : NodeId}
    (hx : DeclarationCut p t n x) : t.role x ≠ .body := by
  rcases hx with ⟨-, hx⟩ | hx
  · rw [hx.role]
    decide
  · obtain ⟨role, a, hrole, -, har, rfl | hx⟩ := hx.cases h
    · rw [har]
      rintro rfl
      simp at hrole
    · rw [hx.role]
      decide

/-- **Trimming in terms of the tree at the start.** The cuts made before do not change what a node
loses. -/
theorem trim_adds (h : t.WellFormed) (ho : s.Over t) (hr : Ready p t s.nodes n) :
    Adds t (Trimmed p t n) s (s.trim p n) := by
  have ha := filterDeclaration_adds h ho hr
  have hread :
      (s.filterDeclaration p n).tree.childWithRole? n .body = t.childWithRole? n .body := by
    rw [ha.isOver]
    refine childWithRole?_detachAll h fun c hc hp => ?_
    rcases ha.sound c hc with hc | hc
    · rw [(hr c hc n hp (h.self_mem_lineage n)).1]
      decide
    · exact hc.role_ne_body h
  have hk : (s.filterDeclaration p n).tree.kind n = t.kind n := by
    rw [ha.isOver]
    exact Tree.kind_detachAll _ _ _
  unfold trim dropBody Trimmed
  rw [hk, hread]
  by_cases hb : losesBody (t.kind n) = true
  · rw [if_pos hb]
    cases hc : t.childWithRole? n .body with
    | none => exact ha.congr fun x => by simp
    | some c =>
      exact (ha.trans (Adds.cut h ha.isOver .body c)).congr fun x => by simp [hb, eq_comm]
  · rw [if_neg hb]
    exact ha.congr fun x => by simp [hb]

/-- Trimming reaches nodes below the trimmed one only. -/
theorem Trimmed.below (h : t.WellFormed) {x : NodeId} (hx : Trimmed p t n x) :
    ∃ q, t.parent? x = some q ∧ n ∈ t.lineage q := by
  rcases hx with (⟨-, hx⟩ | hx) | ⟨-, hx⟩
  · exact hx.below h
  · obtain ⟨_, a, -, hap, -, rfl | hx⟩ := hx.cases h
    · exact ⟨n, hap, h.self_mem_lineage n⟩
    · obtain ⟨q, hq, hm⟩ := hx.below h
      exact ⟨q, hq, h.mem_lineage_trans (h.mem_lineage_of_parent hap (h.self_mem_lineage n)) hm⟩
  · exact ⟨n, (childWithRole?_some h hx).1, h.self_mem_lineage n⟩

end Pass

end CodeView.Interface
