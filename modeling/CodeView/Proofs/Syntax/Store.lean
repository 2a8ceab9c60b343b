import CodeView.Syntax.Tree

/-!
# The store of a tree

What `append`, `annotate` and `detach` do to the label, the parent and the children of every node,
and the invariant that they keep.

* `WellFormed`: the root is the bare start of the tree, parents and children agree, no node is a
  child twice, and a child has a larger number than its parent.
* `detachAll` detaches several nodes. What is left depends only on which nodes they are
  (`parent?_detachAll`, `children_detachAll`).
* `WellFormed.induction_down`: what follows for a node from its children holds of every node.
-/

namespace CodeView.Syntax.Tree

/-! ## Detaching one node -/

theorem entries_detach_of_none {t : Tree} {id : NodeId} (h : t.parent? id = none) :
    t.detach id = t := by
  unfold detach
  rw [h]

/-- The entries after a node has been taken from its parent. -/
theorem entries_detach {t : Tree} {id q : NodeId} (h : t.parent? id = some q) (n : NodeId) :
    (t.detach id).entries[n]? = t.entries[n]?.map fun e =>
      { e with
        parent := if n = id then none else e.parent
        children := if n = q then e.children.filter (· != id) else e.children } := by
  unfold detach
  rw [h]
  simp only [Array.getElem?_modify]
  cases t.entries[n]? with
  | none => simp
  | some e =>
    simp only [show (n = id) = (id = n) from propext eq_comm,
      show (n = q) = (q = n) from propext eq_comm]
    by_cases hid : id = n <;> by_cases hq : q = n <;> simp [hid, hq]

@[simp] theorem size_detach (t : Tree) (id : NodeId) : (t.detach id).size = t.size := by
  unfold detach size
  split <;> simp

@[simp] theorem label_detach (t : Tree) (id n : NodeId) : (t.detach id).label n = t.label n := by
  cases h : t.parent? id with
  | none => rw [entries_detach_of_none h]
  | some q =>
    unfold label
    rw [entries_detach h]
    cases t.entries[n]? <;> rfl

/-- A detached node has no parent; every other node keeps its own. -/
theorem parent?_detach (t : Tree) (id n : NodeId) :
    (t.detach id).parent? n = if n = id then none else t.parent? n := by
  cases h : t.parent? id with
  | none =>
    rw [entries_detach_of_none h]
    split
    · next hn => rw [hn, h]
    · rfl
  | some q =>
    unfold parent?
    rw [entries_detach h]
    cases t.entries[n]? with
    | none => simp
    | some e => by_cases hn : n = id <;> simp [hn]

/-- Only the parent of a detached node loses a child. -/
theorem children_detach (t : Tree) (id n : NodeId) :
    (t.detach id).children n =
      if t.parent? id = some n then (t.children n).filter (· != id) else t.children n := by
  cases h : t.parent? id with
  | none =>
    rw [entries_detach_of_none h]
    simp
  | some q =>
    unfold children
    rw [entries_detach h]
    cases t.entries[n]? with
    | none => simp
    | some e => by_cases hn : n = q <;> simp [hn, eq_comm]

/-! ## Adding a node or an annotation -/

theorem entries_append (t : Tree) (q : NodeId) (role : Role) (kind : Kind) (n : NodeId) :
    (t.append q role kind).entries[n]? =
      if n = t.size then some ⟨⟨role, kind, []⟩, some q, []⟩
      else t.entries[n]?.map fun e =>
        if n = q then { e with children := e.children ++ [t.size] } else e := by
  unfold append size
  simp only [Array.getElem?_push, Array.size_modify, Array.getElem?_modify]
  split
  · rfl
  · by_cases hq : n = q
    · simp [hq]
    · rw [if_neg (fun h => hq h.symm)]
      simp [hq]

@[simp] theorem size_append (t : Tree) (q : NodeId) (role : Role) (kind : Kind) :
    (t.append q role kind).size = t.size + 1 := by
  simp [append, size]

theorem entries_size (t : Tree) : t.entries[t.size]? = none :=
  Array.getElem?_eq_none (Nat.le_refl _)

theorem label_append (t : Tree) (q : NodeId) (role : Role) (kind : Kind) (n : NodeId) :
    (t.append q role kind).label n = if n = t.size then ⟨role, kind, []⟩ else t.label n := by
  unfold label
  rw [entries_append]
  by_cases hn : n = t.size
  · simp [hn]
  · simp only [hn, if_false]
    cases t.entries[n]? with
    | none => rfl
    | some e => by_cases hq : n = q <;> simp [hq]

theorem parent?_append (t : Tree) (q : NodeId) (role : Role) (kind : Kind) (n : NodeId) :
    (t.append q role kind).parent? n = if n = t.size then some q else t.parent? n := by
  unfold parent?
  rw [entries_append]
  by_cases hn : n = t.size
  · simp [hn]
  · simp only [hn, if_false]
    cases t.entries[n]? with
    | none => rfl
    | some e => by_cases hq : n = q <;> simp [hq]

/-- The new node is the last child of its parent. -/
theorem children_append {t : Tree} {q : NodeId} (hq : q < t.size) (role : Role) (kind : Kind)
    (n : NodeId) :
    (t.append q role kind).children n =
      if n = q then t.children q ++ [t.size] else t.children n := by
  unfold children
  rw [entries_append]
  by_cases hn : n = t.size
  · subst hn
    simp only [if_true]
    rw [if_neg (Nat.ne_of_gt hq), entries_size]
  · simp only [hn, if_false]
    by_cases h : n = q
    · subst h
      obtain ⟨e, he⟩ : ∃ e, t.entries[n]? = some e := ⟨_, Array.getElem?_eq_getElem hq⟩
      simp [he]
    · simp only [h, if_false]
      cases t.entries[n]? <;> rfl

theorem entries_annotate (t : Tree) (id : NodeId) (note : Annotation) (n : NodeId) :
    (t.annotate id note).entries[n]? = t.entries[n]?.map fun e =>
      if n = id then
        { e with label := { e.label with annotations := e.label.annotations ++ [note] } }
      else e := by
  unfold annotate
  simp only [Array.getElem?_modify]
  by_cases hn : n = id
  · simp [hn]
  · rw [if_neg (fun h => hn h.symm)]
    simp [hn]

@[simp] theorem size_annotate (t : Tree) (id : NodeId) (note : Annotation) :
    (t.annotate id note).size = t.size := by
  simp [annotate, size]

theorem label_annotate {t : Tree} {id : NodeId} (hid : id < t.size) (note : Annotation)
    (n : NodeId) :
    (t.annotate id note).label n =
      if n = id then { t.label id with annotations := t.annotations id ++ [note] }
      else t.label n := by
  unfold annotations label
  rw [entries_annotate]
  by_cases hn : n = id
  · subst hn
    obtain ⟨e, he⟩ : ∃ e, t.entries[n]? = some e := ⟨_, Array.getElem?_eq_getElem hid⟩
    simp [he]
  · simp only [hn, if_false]
    cases t.entries[n]? <;> rfl

@[simp] theorem kind_annotate (t : Tree) (id : NodeId) (note : Annotation) (n : NodeId) :
    (t.annotate id note).kind n = t.kind n := by
  unfold kind label
  rw [entries_annotate]
  cases t.entries[n]? with
  | none => rfl
  | some e => by_cases hn : n = id <;> simp [hn]

@[simp] theorem parent?_annotate (t : Tree) (id : NodeId) (note : Annotation) (n : NodeId) :
    (t.annotate id note).parent? n = t.parent? n := by
  unfold parent?
  rw [entries_annotate]
  cases t.entries[n]? with
  | none => rfl
  | some e => by_cases hn : n = id <;> simp [hn]

@[simp] theorem children_annotate (t : Tree) (id : NodeId) (note : Annotation) (n : NodeId) :
    (t.annotate id note).children n = t.children n := by
  unfold children
  rw [entries_annotate]
  cases t.entries[n]? with
  | none => rfl
  | some e => by_cases hn : n = id <;> simp [hn]

theorem lt_size_of_parent {t : Tree} {q : NodeId} {c : Nat} (h : t.parent? c = some q) :
    c < t.size := by
  obtain ⟨e, he, -⟩ := Option.bind_eq_some_iff.mp h
  exact (Array.getElem?_eq_some_iff.mp he).1

/-! ## The invariant -/

/-- The root starts the tree, parents and children agree, and numbers grow downwards. -/
structure WellFormed (t : Tree) : Prop where
  root_lt : 0 < t.size
  root_kind : t.kind root = .syntaxTree
  root_parent : t.parent? root = none
  mem_children : ∀ {q c}, c ∈ t.children q ↔ t.parent? c = some q
  nodup_children : ∀ q, (t.children q).Nodup
  parent_lt : ∀ {q c : Nat}, t.parent? c = some q → q < c

theorem wellFormed_empty : WellFormed empty where
  root_lt := by decide
  root_kind := rfl
  root_parent := rfl
  mem_children := by
    intro q c
    rcases q with _ | q <;> rcases c with _ | c <;> simp [empty, children, parent?]
  nodup_children := by
    intro q
    rcases q with _ | q <;> simp [empty, children]
  parent_lt := by
    intro q c h
    rcases c with _ | c <;> simp [empty, parent?] at h

/-- A new node is no child of a well-formed tree. -/
theorem WellFormed.size_not_mem_children {t : Tree} (h : t.WellFormed) (q : NodeId) :
    t.size ∉ t.children q := by
  intro hm
  exact Nat.lt_irrefl _ (lt_size_of_parent (h.mem_children.mp hm))

theorem WellFormed.append {t : Tree} (h : t.WellFormed) {q : NodeId} (hq : q < t.size)
    (role : Role) (kind : Kind) : (t.append q role kind).WellFormed where
  root_lt := by
    rw [size_append]
    exact Nat.succ_pos _
  root_kind := by
    unfold Tree.kind
    rw [label_append, if_neg (Nat.ne_of_lt h.root_lt)]
    exact h.root_kind
  root_parent := by
    rw [parent?_append, if_neg (Nat.ne_of_lt h.root_lt)]
    exact h.root_parent
  mem_children := by
    intro r c
    rw [children_append hq, parent?_append]
    by_cases hr : r = q
    · subst hr
      by_cases hc : c = t.size
      · simp [hc]
      · simp [hc, h.mem_children]
    · by_cases hc : c = t.size
      · subst hc
        have : q ≠ r := fun e => hr e.symm
        simp [hr, this, h.size_not_mem_children]
      · simp [hr, hc, h.mem_children]
  nodup_children := by
    intro r
    rw [children_append hq]
    split
    · refine List.nodup_append.mpr ⟨h.nodup_children q, by simp, ?_⟩
      intro a ha b hb
      rw [List.mem_singleton] at hb
      rintro rfl
      exact h.size_not_mem_children q (hb ▸ ha)
    · exact h.nodup_children r
  parent_lt := by
    intro r c hc
    rw [parent?_append] at hc
    split at hc
    · next e =>
      cases hc
      exact e ▸ hq
    · exact h.parent_lt hc

theorem WellFormed.annotate {t : Tree} (h : t.WellFormed) (id : NodeId) (note : Annotation) :
    (t.annotate id note).WellFormed where
  root_lt := by simpa using h.root_lt
  root_kind := by simpa using h.root_kind
  root_parent := by simpa using h.root_parent
  mem_children := by
    intro q c
    rw [children_annotate, parent?_annotate]
    exact h.mem_children
  nodup_children := by simpa using h.nodup_children
  parent_lt := by
    intro q c hc
    rw [parent?_annotate] at hc
    exact h.parent_lt hc

/-- In a well-formed tree, detaching a node takes it out of every list of children. -/
theorem WellFormed.children_detach {t : Tree} (h : t.WellFormed) (id n : NodeId) :
    (t.detach id).children n = (t.children n).filter (· != id) := by
  rw [Tree.children_detach]
  split
  · rfl
  · next hn =>
    symm
    rw [List.filter_eq_self]
    intro c hc
    have hne : c ≠ id := by
      rintro rfl
      exact hn (h.mem_children.mp hc)
    simpa using hne

theorem WellFormed.detach {t : Tree} (h : t.WellFormed) (id : NodeId) :
    (t.detach id).WellFormed where
  root_lt := by simpa using h.root_lt
  root_kind := by
    unfold kind
    rw [label_detach]
    exact h.root_kind
  root_parent := by
    rw [parent?_detach, h.root_parent]
    split <;> rfl
  mem_children := by
    intro q c
    rw [h.children_detach, parent?_detach, List.mem_filter, h.mem_children]
    by_cases hc : c = id <;> simp [hc]
  nodup_children := by
    intro q
    rw [h.children_detach]
    exact (h.nodup_children q).filter _
  parent_lt := by
    intro q c hc
    rw [parent?_detach] at hc
    split at hc
    · cases hc
    · exact h.parent_lt hc

/-- What holds of a node as soon as it holds of its children holds of every node. -/
theorem WellFormed.induction_down {t : Tree} (h : t.WellFormed) {P : NodeId → Prop}
    (step : ∀ n, (∀ c ∈ t.children n, P c) → P n) (n : NodeId) : P n := by
  -- Numbers grow downwards and end at the size of the store.
  induction hk : t.size - n using Nat.strongRecOn generalizing n with
  | ind k ih =>
    refine step n fun c hc => ?_
    have hp := h.mem_children.mp hc
    have h1 := h.parent_lt hp
    have h2 := lt_size_of_parent hp
    exact ih (t.size - c) (by omega) c rfl

/-! ## Detaching several nodes -/

/-- Detaches nodes one after the other, the last one first. -/
def detachAll (t : Tree) (ids : List NodeId) : Tree :=
  ids.foldr (fun id t => t.detach id) t

@[simp] theorem detachAll_nil (t : Tree) : t.detachAll [] = t := rfl

@[simp] theorem detachAll_cons (t : Tree) (id : NodeId) (ids : List NodeId) :
    t.detachAll (id :: ids) = (t.detachAll ids).detach id := rfl

@[simp] theorem size_detachAll (t : Tree) (ids : List NodeId) :
    (t.detachAll ids).size = t.size := by
  induction ids with
  | nil => rfl
  | cons id ids ih => rw [detachAll_cons, size_detach, ih]

@[simp] theorem label_detachAll (t : Tree) (ids : List NodeId) (n : NodeId) :
    (t.detachAll ids).label n = t.label n := by
  induction ids with
  | nil => rfl
  | cons id ids ih => rw [detachAll_cons, label_detach, ih]

@[simp] theorem kind_detachAll (t : Tree) (ids : List NodeId) (n : NodeId) :
    (t.detachAll ids).kind n = t.kind n := by
  unfold kind
  rw [label_detachAll]

@[simp] theorem role_detachAll (t : Tree) (ids : List NodeId) (n : NodeId) :
    (t.detachAll ids).role n = t.role n := by
  unfold role
  rw [label_detachAll]

theorem parent?_detachAll (t : Tree) (ids : List NodeId) (n : NodeId) :
    (t.detachAll ids).parent? n = if n ∈ ids then none else t.parent? n := by
  induction ids with
  | nil => simp
  | cons id ids ih =>
    rw [detachAll_cons, parent?_detach, ih]
    by_cases h1 : n = id <;> by_cases h2 : n ∈ ids <;> simp [h1, h2]

/-- What has a parent afterwards had it before and was not detached. -/
theorem parent?_detachAll_eq_some {t : Tree} {ids : List NodeId} {n q : NodeId} :
    (t.detachAll ids).parent? n = some q ↔ n ∉ ids ∧ t.parent? n = some q := by
  rw [parent?_detachAll]
  split <;> simp [*]

theorem WellFormed.detachAll {t : Tree} (h : t.WellFormed) (ids : List NodeId) :
    (t.detachAll ids).WellFormed := by
  induction ids with
  | nil => exact h
  | cons id ids ih => exact ih.detach id

/-- Every list of children loses the detached nodes and keeps the order of the others. -/
theorem WellFormed.children_detachAll {t : Tree} (h : t.WellFormed) (ids : List NodeId)
    (n : NodeId) : (t.detachAll ids).children n = (t.children n).filter (· ∉ ids) := by
  induction ids with
  | nil => exact (List.filter_eq_self.mpr (by simp)).symm
  | cons id ids ih =>
    rw [detachAll_cons, (h.detachAll ids).children_detach, ih, List.filter_filter]
    refine List.filter_congr fun c _ => ?_
    by_cases h1 : c = id <;> by_cases h2 : c ∈ ids <;> simp [h1, h2]

end CodeView.Syntax.Tree
