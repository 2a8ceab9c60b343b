import CodeView.Proofs.Syntax.Build
import CodeView.Proofs.Syntax.Walks

/-!
# Trees number documents in pre-order

A document becomes a tree unless a root stands below its top. The tree holds nothing but the
document, and its nodes have the numbers 0, 1, 2, .. in pre-order.

* `Document.labels`: the labels of a document in pre-order. `NestsRoot` says that one of them below
  the top is a root.
* `add_cases`: adding a document fails just if it has a root.
* `addAll_ids`: the nodes that are added have the next numbers in pre-order.
* `ofDocument_exact`: all of this, for the tree of a document.
-/

namespace CodeView.Syntax

namespace Document

mutual

/-- The labels of a document in pre-order. -/
def labels : Document → List Label
  | .node label children => label :: labelsAll children

/-- The labels of several documents, one after the other. -/
def labelsAll : List Document → List Label
  | [] => []
  | d :: rest => labels d ++ labelsAll rest

end

/-- A root occurs in labels. -/
def HasRoot (labels : List Label) : Prop := ∃ l ∈ labels, l.kind = .syntaxTree

/-- A root stands strictly below the top. -/
def NestsRoot (d : Document) : Prop := HasRoot (labelsAll d.children)

instance (d : Document) : Decidable d.NestsRoot :=
  inferInstanceAs (Decidable (∃ l ∈ labelsAll d.children, l.kind = .syntaxTree))

theorem labelsAll_eq (docs : List Document) : labelsAll docs = docs.flatMap labels := by
  induction docs with
  | nil => rfl
  | cons d docs ih => rw [labelsAll, ih, List.flatMap_cons]

theorem hasRoot_append {a b : List Label} : HasRoot (a ++ b) ↔ HasRoot a ∨ HasRoot b := by
  simp only [HasRoot, List.mem_append, or_and_right, exists_or]

theorem hasRoot_labels {label : Label} {docs : List Document} :
    HasRoot (labels (.node label docs)) ↔ label.kind = .syntaxTree ∨ HasRoot (labelsAll docs) := by
  rw [labels]
  simp [HasRoot]

end Document

open Document

namespace Tree

/-! ## Documents that cannot be added -/

mutual

/-- Adding a document fails if it has a root, and only then. -/
theorem add_cases (t : Tree) (q : NodeId) : ∀ d : Document,
    (HasRoot d.labels ∧ t.add q d = .error .nestedRoot) ∨
      (¬ HasRoot d.labels ∧ ∃ t', t.add q d = .ok t')
  | .node label docs => by
    rw [add, hasRoot_labels]
    by_cases hk : label.kind = .syntaxTree
    · exact .inl ⟨.inl hk, if_pos hk⟩
    · rw [if_neg hk, or_iff_right hk]
      exact addAll_cases _ _ docs

theorem addAll_cases (t : Tree) (q : NodeId) : ∀ docs : List Document,
    (HasRoot (labelsAll docs) ∧ t.addAll q docs = .error .nestedRoot) ∨
      (¬ HasRoot (labelsAll docs) ∧ ∃ t', t.addAll q docs = .ok t')
  | [] => by
    refine .inr ⟨?_, t, rfl⟩
    rintro ⟨l, hl, -⟩
    cases hl
  | d :: docs => by
    rw [addAll, labelsAll, hasRoot_append]
    rcases add_cases t q d with ⟨hd, he⟩ | ⟨hd, t₁, ho⟩
    · rw [he]
      exact .inl ⟨.inl hd, rfl⟩
    · rw [ho, or_iff_right hd]
      exact addAll_cases t₁ q docs

end

/-- The tree of a document fails if a root is nested in it, and only then. -/
theorem ofDocument_cases (d : Document) :
    (d.NestsRoot ∧ ofDocument d = .error .nestedRoot) ∨
      (¬ d.NestsRoot ∧ ∃ t, ofDocument d = .ok t) := by
  unfold ofDocument NestsRoot
  split
  · exact addAll_cases _ _ _
  · next hk =>
    obtain ⟨label, docs⟩ := d
    have hd := add_cases empty root (.node label docs)
    have hroot : HasRoot (labels (.node label docs)) ↔ HasRoot (labelsAll docs) :=
      hasRoot_labels.trans (or_iff_right hk)
    rwa [hroot] at hd

/-! ## The numbers of added nodes -/

/-- The branch below a node stays while the tree grows elsewhere. -/
theorem Grown.branch {t t' : Tree} {q : Nat} {new : List NodeId} {docs : List Document}
    (h : t.WellFormed) (hg : Grown t t' q new docs) (n : Nat) (hq : q < n) (hn : n < t.size) :
    t'.branch n = t.branch n := by
  induction n using h.induction_down with
  | step n ih =>
    rw [hg.wellFormed.branch_eq, h.branch_eq, hg.label n hn, hg.children n hn,
      if_neg (Nat.ne_of_gt hq), List.append_nil]
    congr 1
    refine List.map_congr_left fun c hc => ?_
    have hp := h.mem_children.mp hc
    exact ih c hc (Nat.lt_trans hq (h.parent_lt hp)) (lt_size_of_parent hp)

/-- The node that was added is in the store. -/
theorem Grown.size_lt {t t' : Tree} {q : Nat} {docs : List Document} (hq : q < t.size)
    (hg : Grown t t' q [t.size] docs) : t.size < t'.size := by
  have hmem : t.size ∈ t'.children q := by
    rw [hg.children q hq, if_pos rfl]
    exact List.mem_append_right _ (List.mem_singleton.mpr rfl)
  exact lt_size_of_parent (hg.wellFormed.mem_children.mp hmem)

/-- The numbers from one size of a store up to another. -/
def between (t t' : Tree) : List NodeId := List.range' t.size (t'.size - t.size)

theorem between_append {t₁ t₂ t₃ : Tree} (h₁ : t₁.size ≤ t₂.size) (h₂ : t₂.size ≤ t₃.size) :
    between t₁ t₂ ++ between t₂ t₃ = between t₁ t₃ := by
  have hstart : t₂.size = t₁.size + (t₂.size - t₁.size) := by omega
  have hlen : t₃.size - t₁.size = (t₂.size - t₁.size) + (t₃.size - t₂.size) := by omega
  unfold between
  rw [hlen, ← List.range'_append_1, ← hstart]

mutual

theorem add_ids {t t' : Tree} (h : t.WellFormed) {q : Nat} (hq : q < t.size) :
    ∀ d : Document, t.add q d = .ok t' → (t'.branch t.size).ids = between t t'
  | .node label docs, hd => by
    rw [add] at hd
    split at hd
    · cases hd
    · have hw := (h.append hq label.role label.kind).annotateAll t.size label.annotations
      obtain ⟨new, hg, hids⟩ := addAll_ids hw (by simp) docs hd
      have hlt : t.size + 1 ≤ t'.size := by simpa using hg.size_le
      have hlen : t'.size - t.size = t'.size - (t.size + 1) + 1 := by omega
      unfold between at hids ⊢
      rw [hg.wellFormed.ids_branch, hg.children_start hq, hids, hlen, List.range'_succ]
      simp

/-- The nodes that documents become have the next numbers, in pre-order. -/
theorem addAll_ids {t t' : Tree} (h : t.WellFormed) {q : Nat} (hq : q < t.size) :
    ∀ docs : List Document, t.addAll q docs = .ok t' →
      ∃ new, Grown t t' q new docs ∧ (new.flatMap fun c => (t'.branch c).ids) = between t t'
  | [], hd => by
    rw [addAll] at hd
    cases hd
    refine ⟨[], Grown.nil h q, ?_⟩
    unfold between
    rw [Nat.sub_self]
    rfl
  | d :: docs, hd => by
    rw [addAll] at hd
    split at hd
    · cases hd
    · next t₁ h₁ =>
      have hg₁ := add_grown h hq d h₁
      obtain ⟨new, hg₂, hids⟩ :=
        addAll_ids hg₁.wellFormed (Nat.lt_of_lt_of_le hq hg₁.size_le) docs hd
      refine ⟨t.size :: new, hg₁.append hq hg₂, ?_⟩
      -- What was added first is not touched by the rest.
      have hkeep := hg₂.branch hg₁.wellFormed t.size hq (hg₁.size_lt hq)
      rw [List.flatMap_cons, hids, hkeep, add_ids h hq d h₁,
        between_append hg₁.size_le hg₂.size_le]

end

/-- The nodes of a tree that has grown from a bare root are numbered in pre-order. -/
theorem Grown.descendants_root {t t' : Tree} {new : List NodeId} {docs : List Document}
    (ht : t.size = 1) (hc : t.children root = []) (hg : Grown t t' root new docs)
    (hids : (new.flatMap fun c => (t'.branch c).ids) = between t t') :
    t'.descendants root = List.range t'.size := by
  have hsize : t'.size = t'.size - 1 + 1 := by
    have := hg.size_le
    omega
  have hroot : 0 < t.size := by omega
  have hchildren : t'.children root = new := by
    rw [hg.children _ hroot, if_pos rfl, hc, List.nil_append]
  rw [hg.wellFormed.descendants_eq, hg.wellFormed.ids_branch, hchildren, hids, between, ht, hsize,
    List.range_succ_eq_map, List.range'_eq_map_range, Nat.add_sub_cancel]
  simp only [Nat.add_comm 1]

theorem ofDocument_descendants {d : Document} {t : Tree} (h : ofDocument d = .ok t) :
    t.descendants root = List.range t.size := by
  unfold ofDocument at h
  split at h
  · have hw := wellFormed_empty.annotateAll root d.label.annotations
    obtain ⟨new, hg, hids⟩ := addAll_ids hw hw.root_lt _ h
    exact hg.descendants_root (size_annotateAll _ _ _) (children_annotateAll _ _ _ _) hids
  · have hg := add_grown wellFormed_empty wellFormed_empty.root_lt d h
    have hids := add_ids wellFormed_empty wellFormed_empty.root_lt d h
    refine hg.descendants_root rfl rfl ?_
    rw [List.flatMap_singleton, hids]

/-- **Building is exact.** A document fails to become a tree if a root stands below its top, and
only then. Otherwise its nodes are numbered in pre-order, and the tree reads back as the document: with
its top as the root if that is one, else as the one child of a bare root. -/
theorem ofDocument_exact (d : Document) :
    (ofDocument d = .error .nestedRoot ↔ d.NestsRoot) ∧
    (¬ d.NestsRoot → ∃ t, ofDocument d = .ok t ∧ t.descendants root = List.range t.size ∧
      t.toDocument = rooted d) := by
  rcases ofDocument_cases d with ⟨hn, he⟩ | ⟨hn, t, ht⟩
  · exact ⟨iff_of_true he hn, fun h => absurd hn h⟩
  · refine ⟨iff_of_false ?_ hn, fun _ => ⟨t, ht, ofDocument_descendants ht, (ofDocument_spec ht).2⟩⟩
    rw [ht]
    exact fun h => nomatch h

/-- An annotated class with a name and a method, as the member of a root that is annotated too. -/
def classSample : Document :=
  .node ⟨.member, .syntaxTree, [.usingScope "Widgets"]⟩
    [.node ⟨.member, .typeDecl .classType ∅, [.type "Widgets.Gadget", .methodGroup "Run"]⟩
      [.node ⟨.name, .identifier "Gadget", []⟩ [],
        .node ⟨.member, .methodDecl ∅, []⟩ [.node ⟨.name, .identifier "Run", []⟩ []]]]

/-- The class has no root below its top, but a root around it puts one there. -/
theorem ofDocument_exact_classSample :
    (¬ classSample.NestsRoot ∧ ∃ t, ofDocument classSample = .ok t ∧
      t.descendants root = List.range t.size ∧ t.toDocument = rooted classSample) ∧
    ofDocument (.node ⟨.root, .syntaxTree, []⟩ [classSample]) = .error .nestedRoot := by
  have hplain : ¬ classSample.NestsRoot := by decide
  have hnested : (Document.node ⟨.root, .syntaxTree, []⟩ [classSample]).NestsRoot := by decide
  exact ⟨⟨hplain, (ofDocument_exact classSample).2 hplain⟩, (ofDocument_exact _).1.mpr hnested⟩

end Tree

end CodeView.Syntax
