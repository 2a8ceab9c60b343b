import Mathlib.Data.List.Nodup
import Mathlib.Data.List.Perm.Subperm
import CodeView.Proofs.Syntax.Paths

/-!
# Walks that end

The walks up and down a tree are bounded by the size of the store. Here the bound is taken away: a
run of an unbounded loop is a derivation, and a well-formed tree has one from every node, with the
answer of the bounded walk.

* `SeeksRoot`, `SeeksNote`: the runs of the loops that climb to the root, and to the nearest
  annotated node. `Visits`: the runs of the loop that visits nodes with a stack.
* `mem_ids_branch`: the nodes of a branch are those whose lineage holds its top. Each stands there
  once (`nodup_ids_branch`), so a branch has no more nodes than the store (`length_ids_branch_le`).
* `descendants_eq`: the walk with a stack finds the nodes of the branch, in pre-order.
-/

namespace CodeView.Syntax

theorem Branch.idsAll_eq (list : List Branch) : Branch.idsAll list = list.flatMap Branch.ids := by
  induction list with
  | nil => rfl
  | cons b list ih => rw [Branch.idsAll, ih, List.flatMap_cons]

namespace Tree

variable {t : Tree}

/-! ## Loops without a bound -/

/-- From a node, the search for the root ends with an answer. -/
inductive SeeksRoot (t : Tree) : NodeId → Bool → Prop where
  | found : SeeksRoot t root true
  | up {n q : NodeId} {answer : Bool} (hn : n ≠ root) (hq : t.parent? n = some q)
    (rest : SeeksRoot t q answer) : SeeksRoot t n answer
  | lost {n : NodeId} (hn : n ≠ root) (hq : t.parent? n = none) : SeeksRoot t n false

/-- From a node, the search for the nearest annotated node ends with an answer. -/
inductive SeeksNote (t : Tree) : NodeId → Option NodeId → Prop where
  | found {n : NodeId} (hn : t.annotations n ≠ []) : SeeksNote t n (some n)
  | up {n q : NodeId} {answer : Option NodeId} (hn : t.annotations n = [])
    (hq : t.parent? n = some q) (rest : SeeksNote t q answer) : SeeksNote t n answer
  | lost {n : NodeId} (hn : t.annotations n = []) (hq : t.parent? n = none) : SeeksNote t n none

/-- From a stack of nodes, the loop that visits the top and puts its children in its place ends, and
has visited nodes in an order. -/
inductive Visits (t : Tree) : List NodeId → List NodeId → Prop where
  | done : Visits t [] []
  | next {n : NodeId} {stack visited : List NodeId}
    (rest : Visits t (t.children n ++ stack) visited) : Visits t (n :: stack) (n :: visited)

/-! ## Upwards -/

theorem WellFormed.isAttached_of_parent (h : t.WellFormed) {n q : NodeId} (hn : n ≠ root)
    (hq : t.parent? n = some q) : t.isAttached n = t.isAttached q := by
  rw [Bool.eq_iff_iff, isAttached_iff, isAttached_iff, h.lineage_of_parent hq, List.mem_cons]
  exact or_iff_right hn.symm

/-- The search for the root ends, from every node. -/
theorem WellFormed.seeksRoot (h : t.WellFormed) (n : NodeId) : SeeksRoot t n (t.isAttached n) := by
  induction n using h.induction_up with
  | step n ih =>
    by_cases hn : n = root
    · subst hn
      have ha : t.isAttached root = true := isAttached_iff.mpr (h.self_mem_lineage root)
      rw [ha]
      exact .found
    · cases hq : t.parent? n with
      | none =>
        have ha : t.isAttached n = false := by
          rw [Bool.eq_false_iff, ne_eq, isAttached_iff, lineage_of_none hq, List.mem_singleton]
          exact fun e => hn e.symm
        rw [ha]
        exact .lost hn hq
      | some q =>
        rw [h.isAttached_of_parent hn hq]
        exact .up hn hq (ih q hq)

/-- The search for the nearest annotated node ends, from every node. -/
theorem WellFormed.seeksNote (h : t.WellFormed) (n : NodeId) :
    SeeksNote t n (t.nearestAnnotated? n) := by
  induction n using h.induction_up with
  | step n ih =>
    rw [h.nearestAnnotated?_eq]
    by_cases hn : t.annotations n = []
    · rw [if_pos (by rw [hn]; rfl)]
      cases hq : t.parent? n with
      | none => exact .lost hn hq
      | some q => exact .up hn hq (ih q hq)
    · rw [if_neg (by rwa [List.isEmpty_iff])]
      exact .found hn

/-! ## Downwards -/

/-- The pre-order of a branch is its top and the pre-orders of the children. -/
theorem WellFormed.ids_branch (h : t.WellFormed) (n : NodeId) :
    (t.branch n).ids = n :: (t.children n).flatMap fun c => (t.branch c).ids := by
  rw [h.branch_eq, Branch.ids, Branch.idsAll_eq, List.flatMap_map]

/-- The nodes of a branch are those at or below its top. -/
theorem WellFormed.mem_ids_branch (h : t.WellFormed) {n x : NodeId} :
    x ∈ (t.branch n).ids ↔ n ∈ t.lineage x := by
  induction n using h.induction_down with
  | step n ih =>
    rw [h.ids_branch, List.mem_cons, List.mem_flatMap]
    constructor
    · rintro (rfl | ⟨c, hc, hx⟩)
      · exact h.self_mem_lineage x
      · have hp := h.mem_lineage_of_parent (h.mem_children.mp hc) (h.self_mem_lineage n)
        exact h.mem_lineage_trans hp ((ih c hc).mp hx)
    · intro hx
      by_cases hne : x = n
      · exact .inl hne
      · obtain ⟨c, hp, hcx⟩ := h.exists_child_on_path hx hne
        have hc := h.mem_children.mpr hp
        exact .inr ⟨c, hc, (ih c hc).mpr hcx⟩

/-- No node stands twice in a branch. -/
theorem WellFormed.nodup_ids_branch (h : t.WellFormed) (n : NodeId) : (t.branch n).ids.Nodup := by
  induction n using h.induction_down with
  | step n ih =>
    rw [h.ids_branch, List.nodup_cons, List.nodup_flatMap]
    refine ⟨?_, ih, ?_⟩
    · rw [List.mem_flatMap]
      rintro ⟨c, hc, hn⟩
      exact h.not_mem_lineage_parent (h.mem_children.mp hc) (h.mem_ids_branch.mp hn)
    · -- Children are different, and nothing is below two of them.
      refine (h.nodup_children n).imp_of_mem fun {c d} hc hd hne => ?_
      intro x hcx hdx
      exact hne (h.eq_of_siblings (h.mem_children.mp hc) (h.mem_children.mp hd)
        (h.mem_ids_branch.mp hcx) (h.mem_ids_branch.mp hdx))

/-- A branch has no more nodes than the store. -/
theorem WellFormed.length_ids_branch_le (h : t.WellFormed) (n : NodeId) :
    (t.branch n).ids.length ≤ t.size := by
  by_cases hn : n < t.size
  · have hsub : (t.branch n).ids ⊆ List.range t.size := by
      intro x hx
      rw [List.mem_range]
      rcases h.mem_lineage_iff.mp (h.mem_ids_branch.mp hx) with rfl | ⟨q, hq, -⟩
      · exact hn
      · exact lt_size_of_parent hq
    have hle := (List.subperm_of_subset (h.nodup_ids_branch n) hsub).length_le
    rwa [List.length_range] at hle
  · have hnone : t.children n = [] := by
      unfold children
      rw [Array.getElem?_eq_none (Nat.not_lt.mp hn)]
    rw [h.ids_branch, hnone]
    exact h.root_lt

/-- The walk visits the branches of the waiting nodes one after the other, if it has a step for each
of their nodes. -/
theorem WellFormed.walk_eq (h : t.WellFormed) {steps : Nat} {waiting seen : List NodeId}
    (hs : (waiting.flatMap fun n => (t.branch n).ids).length ≤ steps) :
    t.walk steps waiting seen =
      seen.reverse ++ waiting.flatMap fun n => (t.branch n).ids := by
  induction steps generalizing waiting seen with
  | zero =>
    cases waiting with
    | nil => simp [walk]
    | cons n waiting =>
      rw [List.flatMap_cons, h.ids_branch] at hs
      simp at hs
  | succ steps ih =>
    cases waiting with
    | nil => simp [walk]
    | cons n waiting =>
      have hn : ((n :: waiting).flatMap fun n => (t.branch n).ids) =
          n :: (t.children n ++ waiting).flatMap fun n => (t.branch n).ids := by
        rw [List.flatMap_cons, h.ids_branch, List.flatMap_append, List.cons_append]
      rw [hn] at hs ⊢
      rw [walk, ih (Nat.le_of_succ_le_succ hs), List.reverse_cons, List.append_assoc]
      rfl

theorem WellFormed.descendants_eq (h : t.WellFormed) (n : NodeId) :
    t.descendants n = (t.branch n).ids := by
  unfold descendants
  rw [h.walk_eq]
  · simp
  · simpa using h.length_ids_branch_le n

/-- The nodes found below a node are those that climb to it. -/
theorem WellFormed.mem_descendants (h : t.WellFormed) {n x : NodeId} :
    x ∈ t.descendants n ↔ n ∈ t.lineage x := by
  rw [h.descendants_eq, h.mem_ids_branch]

theorem WellFormed.nodup_descendants (h : t.WellFormed) (n : NodeId) :
    (t.descendants n).Nodup := by
  rw [h.descendants_eq]
  exact h.nodup_ids_branch n

/-- A stack of nodes is visited branch by branch. -/
theorem WellFormed.visits_append (h : t.WellFormed) (n : NodeId) {stack visited : List NodeId}
    (hs : Visits t stack visited) : Visits t (n :: stack) ((t.branch n).ids ++ visited) := by
  induction n using h.induction_down generalizing stack visited with
  | step n ih =>
    rw [h.ids_branch, List.cons_append]
    refine .next ?_
    -- The children go through one after the other, the last one first in this proof.
    have hkids : ∀ kids : List NodeId, (∀ c ∈ kids, c ∈ t.children n) →
        Visits t (kids ++ stack) ((kids.flatMap fun c => (t.branch c).ids) ++ visited) := by
      intro kids hk
      induction kids with
      | nil => exact hs
      | cons c kids ihk =>
        rw [List.flatMap_cons, List.append_assoc]
        exact ih c (hk c (by simp)) (ihk fun d hd => hk d (by simp [hd]))
    exact hkids _ fun _ hc => hc

/-- The visit with a stack ends, from every node. -/
theorem WellFormed.visits (h : t.WellFormed) (n : NodeId) : Visits t [n] (t.descendants n) := by
  have hv := h.visits_append n .done
  rwa [List.append_nil, ← h.descendants_eq] at hv

/-- The way up and the way down agree on what the root reaches. -/
theorem WellFormed.isAttached_iff_mem_descendants (h : t.WellFormed) {n : NodeId} :
    t.isAttached n = true ↔ n ∈ t.descendants root := by
  rw [isAttached_iff, h.mem_descendants]

end Tree

end CodeView.Syntax
