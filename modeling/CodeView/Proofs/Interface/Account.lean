import Mathlib.Logic.Function.Iterate
import CodeView.Proofs.Interface.Reached
import CodeView.Proofs.Interface.Residue

/-!
# The account of a pass

A pass goes through lists of children that it has looked up before it cut others off. To cut off a
node that has no parent any more would count and change nothing. No pass does that.

* `Takes E s s'`: from `s` to `s'` only nodes of `E` have been cut off, and each had its parent when
  it was cut off. Nodes outside `E` keep theirs (`Takes.parent?`).
* `takes_foldl`: children that are gone through one after the other do not disturb each other, as
  nothing is below two of them. So every part of a pass takes nodes at or below the node that it
  looks at (`filterAttributes_takes`, `trim_takes`, `visit_takes`).
* `Exact t s`: the cuts of `s` are of different nodes, which all had a parent in `t`. Each cut keeps
  this (`Exact.cut`), so a whole pass does (`Takes.exact`).
* `summary_exact`: the summary counts the nodes that lost their parent, and passes come to an end.
-/

namespace CodeView.Interface

open CodeView.Syntax

variable {p : Policy} {t : Tree} {n : NodeId}

namespace Pass

variable {s s₁ s₂ : Pass} {E F : NodeId → Prop}

/-! ## Cuts of linked nodes -/

/-- From one pass to a later one, nodes of `E` have been cut off, each while it had a parent. -/
inductive Takes (E : NodeId → Prop) (s : Pass) : Pass → Prop where
  | refl : Takes E s s
  | cut {s₁ : Pass} (before : Takes E s s₁) (reason : Reason) {c : NodeId} (mem : E c)
    (linked : s₁.tree.parent? c ≠ none) : Takes E s (s₁.cut reason c)

theorem Takes.one (reason : Reason) {c : NodeId} (hc : E c) (hl : s.tree.parent? c ≠ none) :
    Takes E s (s.cut reason c) :=
  .cut .refl reason hc hl

theorem Takes.mono (h : Takes E s s₁) (hE : ∀ x, E x → F x) : Takes F s s₁ := by
  induction h with
  | refl => exact .refl
  | cut _ reason hc hl ih => exact .cut ih reason (hE _ hc) hl

theorem Takes.trans (h₁ : Takes E s s₁) (h₂ : Takes E s₁ s₂) : Takes E s s₂ := by
  induction h₂ with
  | refl => exact h₁
  | cut _ reason hc hl ih => exact .cut ih reason hc hl

theorem Takes.isOver (h : Takes E s s₁) (ho : s.Over t) : s₁.Over t := by
  induction h with
  | refl => exact ho
  | cut _ reason _ _ ih => exact ih.cut reason _

/-- A node that is not taken keeps its parent. -/
theorem Takes.parent? (h : Takes E s s₁) {x : NodeId} (hx : ¬E x) :
    s₁.tree.parent? x = s.tree.parent? x := by
  induction h with
  | refl => rfl
  | @cut s₁ _ reason c hc _ ih =>
    have hne : x ≠ c := fun e => hx (e ▸ hc)
    have hcut : (s₁.cut reason c).tree = s₁.tree.detach c := rfl
    rw [hcut, Tree.parent?_detach, if_neg hne, ih]

theorem Over.wellFormed (h : t.WellFormed) (ho : s.Over t) : s.tree.WellFormed := by
  rw [ho]
  exact h.detachAll _

/-- What has a parent under way had it at the start. -/
theorem Over.parent?_eq_some (ho : s.Over t) {x q : NodeId} (hq : s.tree.parent? x = some q) :
    t.parent? x = some q := by
  rw [ho] at hq
  exact (Tree.parent?_detachAll_eq_some.mp hq).2

/-! ## Children one after the other -/

/-- A node stands below `n`. -/
def Inside (t : Tree) (n x : NodeId) : Prop :=
  ∃ c, t.parent? c = some n ∧ c ∈ t.lineage x

theorem Inside.mem_lineage (h : t.WellFormed) {x : NodeId} (hx : Inside t n x) :
    n ∈ t.lineage x := by
  obtain ⟨c, hc, hm⟩ := hx
  exact h.mem_lineage_trans (h.mem_lineage_of_parent hc (h.self_mem_lineage n)) hm

theorem not_inside_self (h : t.WellFormed) (n : NodeId) : ¬Inside t n n := by
  rintro ⟨c, hc, hm⟩
  exact h.not_mem_lineage_parent hc hm

/-- Going through children, a step for each that takes nothing but what is at or below it. -/
theorem takes_foldl (h : t.WellFormed) {f : Pass → NodeId → Pass} {l : List NodeId}
    (hd : l.Nodup) (ho : s.Over t) (hl : ∀ c ∈ l, s.tree.parent? c = some n)
    (hf : ∀ (c : NodeId) (s : Pass), s.Over t → s.tree.parent? c = some n →
      Takes (fun x => c ∈ t.lineage x) s (f s c)) :
    Takes (Inside t n) s (l.foldl f s) := by
  induction l generalizing s with
  | nil => exact .refl
  | cons c l ih =>
    obtain ⟨hcl, hd⟩ := List.nodup_cons.mp hd
    have hc := hl c (by simp)
    have hfirst := hf c s ho hc
    have hcp := ho.parent?_eq_some hc
    -- The step for `c` stays away from the other children, so they are still linked.
    have hrest : ∀ d ∈ l, (f s c).tree.parent? d = some n := by
      intro d hdl
      have hdp := hl d (by simp [hdl])
      rw [hfirst.parent?, hdp]
      intro hm
      have e := h.eq_of_siblings hcp (ho.parent?_eq_some hdp) hm (h.self_mem_lineage d)
      exact hcl (e ▸ hdl)
    exact (hfirst.mono fun x hx => ⟨c, hcp, hx⟩).trans (ih hd (hfirst.isOver ho) hrest)

/-- Going through children of one role. -/
theorem takes_foldl_role (h : t.WellFormed) {f : Pass → NodeId → Pass} (ho : s.Over t)
    (role : Role) (hf : ∀ (c : NodeId) (s : Pass), s.Over t → s.tree.parent? c = some n →
      Takes (fun x => c ∈ t.lineage x) s (f s c)) :
    Takes (Inside t n) s ((s.tree.childrenWithRole n role).foldl f s) := by
  have hw := ho.wellFormed h
  refine takes_foldl h ((hw.nodup_children n).filter _) ho (fun c hc => ?_) hf
  exact ((mem_childrenWithRole hw).mp hc).1

/-! ## The parts of a pass -/

theorem dropNoise_takes (h : t.WellFormed) {a g : NodeId} (hp : s.tree.parent? a = some g) :
    Takes (fun x => a ∈ t.lineage x) s (s.dropNoise p a) := by
  unfold dropNoise
  split
  · exact .one _ (h.self_mem_lineage a) (by simp [hp])
  · exact .refl

theorem filterSection_takes (h : t.WellFormed) (ho : s.Over t) {g : NodeId}
    (hp : s.tree.parent? g = some n) :
    Takes (fun x => g ∈ t.lineage x) s (s.filterSection p g) := by
  have hnoise : Takes (Inside t g) s
      ((s.tree.childrenWithRole g .attributes).foldl (dropNoise p) s) :=
    takes_foldl_role h ho .attributes fun a s _ ha => dropNoise_takes h ha
  have hbelow := hnoise.mono fun x hx => hx.mem_lineage h
  have hlinked := hnoise.parent? (not_inside_self h g)
  unfold filterSection dropSpent
  split
  · refine hbelow.trans (.one _ (h.self_mem_lineage g) ?_)
    simp [hlinked, hp]
  · exact hbelow

theorem filterAttributes_takes (h : t.WellFormed) (ho : s.Over t) (p : Policy) (n : NodeId) :
    Takes (Inside t n) s (s.filterAttributes p n) :=
  takes_foldl_role h ho .attributes fun _ _ ho hg => filterSection_takes h ho hg

/-- What is taken from a child of `n` is taken from below `n`. -/
theorem filterAttributes_child_takes (h : t.WellFormed) (ho : s.Over t) {a : NodeId}
    (ha : s.tree.parent? a = some n) : Takes (Inside t n) s (s.filterAttributes p a) :=
  (filterAttributes_takes h ho p a).mono fun _ hx =>
    ⟨a, ho.parent?_eq_some ha, hx.mem_lineage h⟩

/-- Cutting off a child that has just been found. -/
theorem cut_child_takes (h : t.WellFormed) (ho : s.Over t) (reason : Reason) {role : Role}
    {c : NodeId} (hc : s.tree.childWithRole? n role = some c) :
    Takes (Inside t n) s (s.cut reason c) := by
  have hp := (childWithRole?_some (ho.wellFormed h) hc).1
  exact .one _ ⟨c, ho.parent?_eq_some hp, h.self_mem_lineage c⟩ (by simp [hp])

theorem filterGetSet_takes (h : t.WellFormed) (ho : s.Over t) (p : Policy) (n : NodeId)
    (role : Role) : Takes (Inside t n) s (s.filterGetSet p n role) := by
  unfold filterGetSet
  split
  · exact .refl
  · next a ha =>
    split
    · exact cut_child_takes h ho .accessor ha
    · exact filterAttributes_child_takes h ho (childWithRole?_some (ho.wellFormed h) ha).1

theorem filterAddRemove_takes (h : t.WellFormed) (ho : s.Over t) (p : Policy) (n : NodeId)
    (role : Role) : Takes (Inside t n) s (s.filterAddRemove p n role) := by
  unfold filterAddRemove
  split
  · exact .refl
  · next a ha =>
    exact filterAttributes_child_takes h ho (childWithRole?_some (ho.wellFormed h) ha).1

theorem takes_foldl_roles {f : Pass → Role → Pass} (ho : s.Over t)
    (hf : ∀ (s : Pass) (role : Role), s.Over t → Takes E s (f s role)) (roles : List Role) :
    Takes E s (roles.foldl f s) := by
  induction roles generalizing s with
  | nil => exact .refl
  | cons role roles ih =>
    have hfirst := hf s role ho
    exact hfirst.trans (ih (hfirst.isOver ho))

theorem filterAccessors_takes (h : t.WellFormed) (ho : s.Over t) (p : Policy) (n : NodeId) :
    Takes (Inside t n) s (s.filterAccessors p n) := by
  unfold filterAccessors
  split
  · exact takes_foldl_roles ho (fun s role ho => filterGetSet_takes h ho p n role) _
  · split
    · exact takes_foldl_roles ho (fun s role ho => filterAddRemove_takes h ho p n role) _
    · exact .refl

theorem filterDeclaration_takes (h : t.WellFormed) (ho : s.Over t) (p : Policy) (n : NodeId) :
    Takes (Inside t n) s (s.filterDeclaration p n) := by
  unfold filterDeclaration
  split
  · have hattributes := filterAttributes_takes h ho p n
    exact hattributes.trans (filterAccessors_takes h (hattributes.isOver ho) p n)
  · exact .refl

theorem dropBody_takes (h : t.WellFormed) (ho : s.Over t) (n : NodeId) :
    Takes (Inside t n) s (s.dropBody n) := by
  unfold dropBody
  split
  · split
    · exact .refl
    · next body hb => exact cut_child_takes h ho .body hb
  · exact .refl

theorem trim_takes (h : t.WellFormed) (ho : s.Over t) (p : Policy) (n : NodeId) :
    Takes (Inside t n) s (s.trim p n) := by
  have hdecl := filterDeclaration_takes h ho p n
  exact hdecl.trans (dropBody_takes h (hdecl.isOver ho) n)

/-- The visit of the root, or of a node that is still linked. -/
theorem visit_takes (h : t.WellFormed) (ho : s.Over t) (p : Policy) (levels : Nat)
    (hn : n = Tree.root ∨ s.tree.parent? n ≠ none) :
    Takes (fun x => n ∈ t.lineage x) s (s.visit p levels n) := by
  induction levels generalizing s n with
  | zero => exact .refl
  | succ levels ih =>
    rw [visit]
    split
    · next hr =>
      refine .one _ (h.self_mem_lineage n) (hn.resolve_left ?_)
      rintro rfl
      rw [isRemoved_root (ho.wellFormed h)] at hr
      cases hr
    · have htrim := trim_takes h ho p n
      have hover := htrim.isOver ho
      have hw := hover.wellFormed h
      have hkids : Takes (Inside t n) (s.trim p n)
          (((s.trim p n).tree.children n).foldl (visit p levels) (s.trim p n)) :=
        takes_foldl h (hw.nodup_children n) hover (fun c hc => hw.mem_children.mp hc)
          fun c s ho hc => ih ho (.inr (by simp [hc]))
      exact (htrim.trans hkids).mono fun x hx => hx.mem_lineage h

theorem run_takes (h : t.WellFormed) (p : Policy) :
    Takes (fun x => Tree.root ∈ t.lineage x) (start t) (run p t) :=
  visit_takes h (over_start t) p t.size (.inl rfl)

/-! ## Exact passes -/

/-- The nodes that have been cut off are different, and each had a parent at the start. -/
structure Exact (t : Tree) (s : Pass) : Prop where
  isOver : s.Over t
  nodup : s.nodes.Nodup
  linked : ∀ x ∈ s.nodes, t.parent? x ≠ none

theorem exact_start (t : Tree) : Exact t (start t) where
  isOver := over_start t
  nodup := List.nodup_nil
  linked := List.forall_mem_nil _

/-- A node that has a parent under way has not been cut off yet. -/
theorem Exact.cut (hs : Exact t s) (reason : Reason) {c : NodeId}
    (hc : s.tree.parent? c ≠ none) : Exact t (s.cut reason c) := by
  obtain ⟨q, hq⟩ := Option.ne_none_iff_exists'.mp hc
  rw [hs.isOver, Tree.parent?_detachAll_eq_some] at hq
  obtain ⟨hfresh, hparent⟩ := hq
  refine ⟨hs.isOver.cut reason c, ?_, ?_⟩
  · rw [nodes_cut]
    exact List.nodup_cons.mpr ⟨hfresh, hs.nodup⟩
  · intro x hx
    rw [nodes_cut, List.mem_cons] at hx
    rcases hx with rfl | hx
    · simp [hparent]
    · exact hs.linked x hx

theorem Takes.exact (h : Takes E s s₁) (hs : Exact t s) : Exact t s₁ := by
  induction h with
  | refl => exact hs
  | cut _ reason _ hl ih => exact ih.cut reason hl

end Pass

/-- The nodes that have a parent in one tree and none in another. -/
def orphans (before after : Tree) : List NodeId :=
  (List.range before.size).filter fun n => (before.parent? n).isSome && (after.parent? n).isNone

/-- The orphans of an exact pass are the nodes that it has cut off. -/
theorem Pass.Exact.length_nodes {s : Pass} (hs : Pass.Exact t s) :
    s.nodes.length = (orphans t s.tree).length := by
  refine List.Perm.length_eq ((List.perm_ext_iff_of_nodup hs.nodup ?_).mpr fun x => ?_)
  · exact List.nodup_range.filter _
  · unfold orphans
    rw [List.mem_filter, List.mem_range, hs.isOver, Tree.parent?_detachAll]
    constructor
    · intro hx
      obtain ⟨q, hq⟩ := Option.ne_none_iff_exists'.mp (hs.linked x hx)
      exact ⟨Tree.lt_size_of_parent hq, by simp [hx, hq]⟩
    · rintro ⟨-, hx⟩
      by_cases hm : x ∈ s.nodes
      · exact hm
      · rw [if_neg hm] at hx
        cases hq : t.parent? x <;> simp [hq] at hx

/-! ## The summary -/

namespace Summary

/-- The number of all cuts. -/
def total (s : Summary) : Nat :=
  s.declarations + s.accessors + s.attributes + s.attributeSections + s.bodies

theorem total_ofCuts (cuts : List Cut) : (ofCuts cuts).total = cuts.length := by
  induction cuts with
  | nil => rfl
  | cons c cuts ih =>
    obtain ⟨reason, node⟩ := c
    simp only [total, ofCuts, List.countP_cons, List.length_cons] at ih ⊢
    cases reason <;> simp <;> omega

theorem isEmpty_iff {s : Summary} : s.isEmpty = true ↔ s.total = 0 := by
  obtain ⟨declarations, accessors, attributes, sections, bodies⟩ := s
  simp only [isEmpty, total, beq_iff_eq, Summary.mk.injEq]
  omega

end Summary

theorem total_prune (p : Policy) (t : Tree) : (prune p t).2.total = (cutNodes p t).length := by
  unfold cutNodes Pass.nodes
  rw [List.length_map]
  exact Summary.total_ofCuts _

/-- The summary counts the nodes that have lost their parent. -/
theorem total_prune_eq (h : t.WellFormed) (p : Policy) :
    (prune p t).2.total = (orphans t (prune p t).1).length := by
  rw [total_prune]
  exact ((Pass.run_takes h p).exact (Pass.exact_start t)).length_nodes

theorem isEmpty_prune_iff (h : t.WellFormed) (p : Policy) :
    (prune p t).2.isEmpty = true ↔ (prune p t).1 = t := by
  rw [Summary.isEmpty_iff]
  constructor
  · intro hzero
    rw [total_prune, List.length_eq_zero_iff] at hzero
    rw [prune_tree h, hzero, Tree.detachAll_nil]
  · intro hsame
    rw [total_prune_eq h, hsame, List.length_eq_zero_iff]
    unfold orphans
    rw [List.filter_eq_nil_iff]
    intro n _
    cases t.parent? n <;> simp

/-! ## One pass after the other -/

/-- A pass that cuts something off makes the attached part of the tree smaller. -/
theorem length_attached_prune_lt (h : t.WellFormed) (hcut : cutNodes p t ≠ []) :
    (prune p t).1.attached.length < t.attached.length := by
  obtain ⟨x, hx⟩ := List.exists_mem_of_ne_nil _ hcut
  have h' := wellFormed_prune h p
  have hlost := lost_of_mem_cutNodes h hx
  have hr := hlost.mem_lineage h
  have hbefore : t.isAttached x = true := Tree.isAttached_iff.mpr hr
  have hafter : ¬(prune p t).1.isAttached x = true := by
    rw [prune_tree h, h.isAttached_detachAll]
    rintro ⟨-, hc⟩
    exact Tree.parent?_ne_none hr (hlost.ne_root h) (hc x (h.self_mem_lineage x) hx)
  rw [h.isAttached_iff_mem_descendants] at hbefore
  rw [h'.isAttached_iff_mem_descendants] at hafter
  -- What is attached after the pass was attached before, and so was `x`.
  have hsub : x :: (prune p t).1.attached ⊆ t.attached := by
    refine List.cons_subset.mpr ⟨hbefore, fun y hy => ?_⟩
    have hy' := h'.isAttached_iff_mem_descendants.mpr hy
    rw [prune_tree h, h.isAttached_detachAll] at hy'
    exact h.isAttached_iff_mem_descendants.mp hy'.1
  have hnodup : (x :: (prune p t).1.attached).Nodup :=
    List.nodup_cons.mpr ⟨hafter, h'.nodup_descendants _⟩
  exact (List.subperm_of_subset hnodup hsub).length_le

/-- Some pass cuts nothing off, and no later than there were attached nodes at the start. -/
theorem exists_empty_pass (h : t.WellFormed) (p : Policy) :
    ∃ k < t.attached.length, (prune p ((fun t => (prune p t).1)^[k] t)).2.isEmpty = true := by
  induction hk : t.attached.length using Nat.strongRecOn generalizing t with
  | ind size ih =>
    subst hk
    by_cases hempty : (prune p t).2.isEmpty = true
    · refine ⟨0, List.length_pos_of_mem (a := Tree.root) ?_, hempty⟩
      exact h.isAttached_iff_mem_descendants.mp
        (Tree.isAttached_iff.mpr (h.self_mem_lineage Tree.root))
    · have hcut : cutNodes p t ≠ [] := by
        rwa [Summary.isEmpty_iff, total_prune, List.length_eq_zero_iff] at hempty
      have hlt := length_attached_prune_lt h hcut
      obtain ⟨k, hk, hdone⟩ := ih _ hlt (wellFormed_prune h p) rfl
      exact ⟨k + 1, by omega, hdone⟩

/-- **The summary is an exact account.** It counts the nodes that had a parent before the pass and
have none after it, so it is empty if and only if the pass has left the store as it was. Otherwise
fewer nodes are attached than before; so of the passes that follow each other, one is empty, and it
comes no later than there were attached nodes at the start. -/
theorem summary_exact (ht : Reached t) (p : Policy) :
    (prune p t).2.total = (orphans t (prune p t).1).length ∧
    ((prune p t).2.isEmpty = true ↔ (prune p t).1 = t) ∧
    ((prune p t).2.isEmpty = false → (prune p t).1.attached.length < t.attached.length) ∧
    ∃ k < t.attached.length, (prune p ((fun t => (prune p t).1)^[k] t)).2.isEmpty = true := by
  have h := ht.wellFormed
  refine ⟨total_prune_eq h p, isEmpty_prune_iff h p, fun hcut => ?_, exists_empty_pass h p⟩
  refine length_attached_prune_lt h fun hnil => ?_
  have hempty : (prune p t).2.isEmpty = true := by
    rw [Summary.isEmpty_iff, total_prune, hnil, List.length_nil]
  rw [hempty] at hcut
  cases hcut

/-- Of two bodies, each pass takes one; the third of at most eight passes finds nothing. -/
theorem summary_exact_twoBodies :
    Reached (treeOf twoBodies) ∧
      ((prune widgetPolicy (treeOf twoBodies)).2.total = 1 ∧
        (orphans (treeOf twoBodies) (prune widgetPolicy (treeOf twoBodies)).1).length = 1) ∧
      (prune widgetPolicy (treeOf twoBodies)).1 ≠ treeOf twoBodies ∧
      (prune widgetPolicy (treeOf twoBodies)).1.attached.length <
        (treeOf twoBodies).attached.length ∧
      ∃ k < 8, (prune widgetPolicy
        ((fun t => (prune widgetPolicy t).1)^[k] (treeOf twoBodies))).2.isEmpty = true := by
  have hd : Tree.ofDocument twoBodies = .ok (treeOf twoBodies) := rfl
  have hreached : Reached (treeOf twoBodies) := .ofDocument hd
  obtain ⟨hcount, hsame, hless, hend⟩ := summary_exact hreached widgetPolicy
  have htotal : (prune widgetPolicy (treeOf twoBodies)).2.total = 1 := by decide +kernel
  have hnot : (prune widgetPolicy (treeOf twoBodies)).2.isEmpty = false := by decide +kernel
  have hsize : (treeOf twoBodies).attached.length = 8 := by decide +kernel
  refine ⟨hreached, ⟨htotal, hcount ▸ htotal⟩, fun e => ?_, hless hnot, hsize ▸ hend⟩
  rw [hsame.mpr e] at hnot
  cases hnot

end CodeView.Interface
