import CodeView.Proofs.Syntax.Store

/-!
# Paths of a tree

In a well-formed tree the bounded walks up and down end by themselves, so `lineage` and `branch`
have the equations of unbounded recursion.

* `lineage_of_parent`, `mem_lineage_iff`: a node's lineage is the node and the lineage of its
  parent. The nodes whose lineage holds `n` are those at or below `n`; two nodes of one lineage are
  in line (`mem_lineage_total`), so nothing is below two children of one node (`eq_of_siblings`).
* `branch_eq`: a branch is its top and the branches of the children.
* `isAttached_detachAll`: the nodes that stay attached are those without a detached node on their
  path from the root. Their lineage is what it was (`lineage_detachAll`).
-/

namespace CodeView.Syntax.Tree

variable {t : Tree}

/-! ## Upwards -/

/-- What holds of a node as soon as it holds of its parent holds of every node. -/
theorem WellFormed.induction_up (h : t.WellFormed) {P : NodeId → Prop}
    (step : ∀ n, (∀ q, t.parent? n = some q → P q) → P n) (n : NodeId) : P n := by
  induction n using Nat.strongRecOn with
  | ind n ih => exact step n fun q hq => ih q (h.parent_lt hq)

theorem climb_of_none {n : NodeId} (hn : t.parent? n = none) (k : Nat) : t.climb k n = [n] := by
  cases k with
  | zero => rfl
  | succ k => simp [climb, hn]

/-- A climb of enough steps does not depend on their number. -/
theorem WellFormed.climb_eq (h : t.WellFormed) {k m n : Nat} (hk : n ≤ k) (hm : n ≤ m) :
    t.climb k n = t.climb m n := by
  induction k generalizing m n with
  | zero =>
    obtain rfl : n = 0 := by omega
    rw [climb_of_none h.root_parent, climb_of_none h.root_parent]
  | succ k ih =>
    cases hq : t.parent? n with
    | none => rw [climb_of_none hq, climb_of_none hq]
    | some q =>
      have hlt := h.parent_lt hq
      obtain ⟨m, rfl⟩ : ∃ j, m = j + 1 := ⟨m - 1, by omega⟩
      simp only [climb, hq]
      rw [ih (m := m) (by omega) (by omega)]

theorem lineage_of_none {n : NodeId} (hn : t.parent? n = none) : t.lineage n = [n] :=
  climb_of_none hn _

/-- Apart from the root, a node that the root reaches has a parent. -/
theorem parent?_ne_none {n : NodeId} (hr : root ∈ t.lineage n) (hn : n ≠ root) :
    t.parent? n ≠ none := by
  intro hnone
  rw [lineage_of_none hnone, List.mem_singleton] at hr
  exact hn hr.symm

theorem WellFormed.lineage_of_parent (h : t.WellFormed) {n q : NodeId}
    (hq : t.parent? n = some q) : t.lineage n = n :: t.lineage q := by
  have hlt := h.parent_lt hq
  have hn := lt_size_of_parent hq
  obtain ⟨k, hk⟩ : ∃ k, t.size = k + 1 := ⟨t.size - 1, by omega⟩
  have hc : t.climb (k + 1) n = n :: t.climb k q := by simp only [climb, hq]
  unfold lineage
  rw [hk, hc, h.climb_eq (m := k + 1) (by omega) (by omega)]

theorem WellFormed.mem_lineage_iff (h : t.WellFormed) {m n : NodeId} :
    m ∈ t.lineage n ↔ m = n ∨ ∃ q, t.parent? n = some q ∧ m ∈ t.lineage q := by
  cases hq : t.parent? n with
  | none => simp [lineage_of_none hq]
  | some q => simp [h.lineage_of_parent hq]

theorem WellFormed.self_mem_lineage (h : t.WellFormed) (n : NodeId) : n ∈ t.lineage n :=
  h.mem_lineage_iff.mpr (.inl rfl)

theorem WellFormed.mem_lineage_of_parent (h : t.WellFormed) {m n q : NodeId}
    (hq : t.parent? n = some q) (hm : m ∈ t.lineage q) : m ∈ t.lineage n :=
  h.mem_lineage_iff.mpr (.inr ⟨q, hq, hm⟩)

theorem WellFormed.le_of_mem_lineage (h : t.WellFormed) {m n : Nat} (hm : m ∈ t.lineage n) :
    m ≤ n := by
  induction n using h.induction_up with
  | step n ih =>
    rcases h.mem_lineage_iff.mp hm with rfl | ⟨q, hq, hm⟩
    · exact Nat.le_refl _
    · exact Nat.le_trans (ih q hq hm) (Nat.le_of_lt (h.parent_lt hq))

theorem WellFormed.mem_lineage_trans (h : t.WellFormed) {a b c : NodeId} (hab : a ∈ t.lineage b)
    (hbc : b ∈ t.lineage c) : a ∈ t.lineage c := by
  induction c using h.induction_up with
  | step c ih =>
    rcases h.mem_lineage_iff.mp hbc with rfl | ⟨q, hq, hb⟩
    · exact hab
    · exact h.mem_lineage_of_parent hq (ih q hq hb)

/-- Two nodes of one lineage are in line. -/
theorem WellFormed.mem_lineage_total (h : t.WellFormed) {a b c : NodeId} (ha : a ∈ t.lineage c)
    (hb : b ∈ t.lineage c) : a ∈ t.lineage b ∨ b ∈ t.lineage a := by
  induction c using h.induction_up with
  | step c ih =>
    rcases h.mem_lineage_iff.mp ha with rfl | ⟨q, hq, ha'⟩
    · exact .inr hb
    · rcases h.mem_lineage_iff.mp hb with rfl | ⟨q', hq', hb'⟩
      · exact .inl ha
      · cases hq.symm.trans hq'
        exact ih q hq ha' hb'

/-- The root reaches every node on the path to one that it reaches. -/
theorem WellFormed.root_mem_lineage (h : t.WellFormed) {m n : NodeId} (hr : root ∈ t.lineage n)
    (hm : m ∈ t.lineage n) : root ∈ t.lineage m := by
  rcases h.mem_lineage_total hr hm with hm | hm
  · exact hm
  · rw [lineage_of_none h.root_parent, List.mem_singleton] at hm
    exact hm ▸ h.self_mem_lineage _

/-- A node is not below its own child. -/
theorem WellFormed.not_mem_lineage_parent (h : t.WellFormed) {c q : NodeId}
    (hc : t.parent? c = some q) : c ∉ t.lineage q := by
  intro hm
  have h1 := h.le_of_mem_lineage hm
  have h2 := h.parent_lt hc
  omega

/-- Nothing is below two children of one node. -/
theorem WellFormed.eq_of_siblings (h : t.WellFormed) {c d q x : NodeId}
    (hc : t.parent? c = some q) (hd : t.parent? d = some q) (hcx : c ∈ t.lineage x)
    (hdx : d ∈ t.lineage x) : c = d := by
  rcases h.mem_lineage_total hcx hdx with hm | hm
  · rcases h.mem_lineage_iff.mp hm with e | ⟨r, hr, hm⟩
    · exact e
    · cases hr.symm.trans hd
      exact absurd hm (h.not_mem_lineage_parent hc)
  · rcases h.mem_lineage_iff.mp hm with e | ⟨r, hr, hm⟩
    · exact e.symm
    · cases hr.symm.trans hc
      exact absurd hm (h.not_mem_lineage_parent hd)

/-- The path from a node down to one below it starts with a child. -/
theorem WellFormed.exists_child_on_path (h : t.WellFormed) {n x : NodeId} (hx : n ∈ t.lineage x)
    (hne : x ≠ n) : ∃ c, t.parent? c = some n ∧ c ∈ t.lineage x := by
  induction x using h.induction_up with
  | step x ih =>
    rcases h.mem_lineage_iff.mp hx with e | ⟨q, hq, hm⟩
    · exact absurd e.symm hne
    · by_cases hqn : q = n
      · subst hqn
        exact ⟨x, hq, h.self_mem_lineage x⟩
      · obtain ⟨c, hc, hcq⟩ := ih q hq hm hqn
        exact ⟨c, hc, h.mem_lineage_of_parent hq hcq⟩

theorem isAttached_iff {n : NodeId} : t.isAttached n = true ↔ root ∈ t.lineage n := by
  unfold isAttached
  exact List.contains_iff_mem

/-- The nearest annotated node is the node itself or that of its parent. -/
theorem WellFormed.nearestAnnotated?_eq (h : t.WellFormed) (n : NodeId) :
    t.nearestAnnotated? n =
      if (t.annotations n).isEmpty then (t.parent? n).bind t.nearestAnnotated? else some n := by
  unfold nearestAnnotated?
  cases hq : t.parent? n with
  | none =>
    rw [lineage_of_none hq]
    cases hn : t.annotations n <;> simp [hn]
  | some q =>
    rw [h.lineage_of_parent hq]
    cases hn : t.annotations n <;> simp [hn]

/-! ## Downwards -/

/-- A branch grown over enough levels does not depend on their number. -/
theorem WellFormed.grow_eq (h : t.WellFormed) {k m n : Nat} (hk : t.size ≤ k + n)
    (hm : t.size ≤ m + n) : t.grow k n = t.grow m n := by
  have leaf : ∀ {j n : Nat}, t.size ≤ n → t.grow j n = .node n (t.label n) [] := by
    intro j n hn
    have he : t.children n = [] := by
      unfold children
      rw [Array.getElem?_eq_none hn]
    cases j <;> simp [grow, he]
  induction k generalizing m n with
  | zero => rw [leaf (by omega), leaf (by omega)]
  | succ k ih =>
    by_cases hn : t.size ≤ n
    · rw [leaf hn, leaf hn]
    · obtain ⟨m, rfl⟩ : ∃ j, m = j + 1 := ⟨m - 1, by omega⟩
      simp only [grow]
      congr 1
      refine List.map_congr_left fun c hc => ?_
      have hlt := h.parent_lt (h.mem_children.mp hc)
      exact ih (by omega) (by omega)

theorem WellFormed.branch_eq (h : t.WellFormed) (n : NodeId) :
    t.branch n = .node n (t.label n) ((t.children n).map t.branch) := by
  unfold branch
  have hs := h.grow_eq (k := t.size) (m := t.size + 1) (n := n) (by omega) (by omega)
  rw [hs]
  simp only [grow]

/-! ## After nodes have been detached -/

/-- A path without detached nodes stays as it is. -/
theorem WellFormed.lineage_detachAll (h : t.WellFormed) {ids : List NodeId} {n : NodeId}
    (hc : ∀ m ∈ t.lineage n, m ∈ ids → t.parent? m = none) :
    (t.detachAll ids).lineage n = t.lineage n := by
  induction n using h.induction_up with
  | step n ih =>
    cases hq : t.parent? n with
    | none =>
      rw [lineage_of_none hq, lineage_of_none (by rw [parent?_detachAll, hq, ite_self])]
    | some q =>
      have hn : n ∉ ids := by
        intro hm
        rw [hc n (h.self_mem_lineage n) hm] at hq
        cases hq
      have hq' : (t.detachAll ids).parent? n = some q := by
        rw [parent?_detachAll, if_neg hn, hq]
      rw [(h.detachAll ids).lineage_of_parent hq', h.lineage_of_parent hq,
        ih q hq fun m hm => hc m (h.mem_lineage_of_parent hq hm)]

/-- A node stays attached if nothing on its path from the root is detached. -/
theorem WellFormed.isAttached_detachAll (h : t.WellFormed) {ids : List NodeId} {n : NodeId} :
    (t.detachAll ids).isAttached n = true ↔
      t.isAttached n = true ∧ ∀ m ∈ t.lineage n, m ∈ ids → t.parent? m = none := by
  constructor
  · intro ha
    rw [isAttached_iff] at ha ⊢
    induction n using h.induction_up with
    | step n ih =>
      rcases (h.detachAll ids).mem_lineage_iff.mp ha with rfl | ⟨q, hq, hm⟩
      · refine ⟨h.self_mem_lineage _, fun m hm _ => ?_⟩
        rw [lineage_of_none h.root_parent, List.mem_singleton] at hm
        rw [hm, h.root_parent]
      · obtain ⟨hn, hq⟩ := parent?_detachAll_eq_some.mp hq
        obtain ⟨h1, h2⟩ := ih q hq hm
        refine ⟨h.mem_lineage_of_parent hq h1, fun m hm hid => ?_⟩
        rcases h.mem_lineage_iff.mp hm with rfl | ⟨r, hr, hm⟩
        · exact absurd hid hn
        · cases hr.symm.trans hq
          exact h2 m hm hid
  · rintro ⟨ha, hc⟩
    rw [isAttached_iff, h.lineage_detachAll hc]
    exact isAttached_iff.mp ha

end CodeView.Syntax.Tree
