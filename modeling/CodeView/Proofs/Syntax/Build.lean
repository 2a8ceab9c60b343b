import CodeView.Syntax.Build
import CodeView.Proofs.Syntax.Paths

/-!
# Trees that are built

A tree comes from a document, or from another tree by adding, annotating or detaching a node.

* `Grown t t' q new docs`: `t'` is `t` with the nodes `new` as further children of `q`, and below
  them stands what `docs` says.
* `addAll_grown`: adding documents grows a tree by them, so a tree keeps the document that it was
  made from (`ofDocument_spec`).
* `Built`: the trees that can be made. They are well formed (`Built.wellFormed`).
-/

namespace CodeView.Syntax

theorem Branch.toDocuments_eq (list : List Branch) :
    Branch.toDocuments list = list.map Branch.toDocument := by
  induction list with
  | nil => rfl
  | cons b list ih => rw [Branch.toDocuments, ih, List.map_cons]

namespace Tree

/-- The document of the tree below a node. -/
def documentAt (t : Tree) (n : NodeId) : Document := (t.branch n).toDocument

theorem WellFormed.documentAt_eq {t : Tree} (h : t.WellFormed) (n : NodeId) :
    t.documentAt n = .node (t.label n) ((t.children n).map t.documentAt) := by
  unfold documentAt
  rw [h.branch_eq, Branch.toDocument, Branch.toDocuments_eq, List.map_map]
  rfl

/-! ## Annotating -/

theorem WellFormed.annotateAll {t : Tree} (h : t.WellFormed) (id : NodeId)
    (notes : List Annotation) : (t.annotateAll id notes).WellFormed := by
  unfold Tree.annotateAll
  induction notes generalizing t with
  | nil => exact h
  | cons note notes ih => exact ih (h.annotate id note)

@[simp] theorem size_annotateAll (t : Tree) (id : NodeId) (notes : List Annotation) :
    (t.annotateAll id notes).size = t.size := by
  unfold annotateAll
  induction notes generalizing t with
  | nil => rfl
  | cons note notes ih => rw [List.foldl_cons, ih, size_annotate]

@[simp] theorem parent?_annotateAll (t : Tree) (id : NodeId) (notes : List Annotation)
    (n : NodeId) : (t.annotateAll id notes).parent? n = t.parent? n := by
  unfold annotateAll
  induction notes generalizing t with
  | nil => rfl
  | cons note notes ih => rw [List.foldl_cons, ih, parent?_annotate]

@[simp] theorem children_annotateAll (t : Tree) (id : NodeId) (notes : List Annotation)
    (n : NodeId) : (t.annotateAll id notes).children n = t.children n := by
  unfold annotateAll
  induction notes generalizing t with
  | nil => rfl
  | cons note notes ih => rw [List.foldl_cons, ih, children_annotate]

theorem label_annotateAll {t : Tree} {id : NodeId} (hid : id < t.size) (notes : List Annotation)
    (n : NodeId) :
    (t.annotateAll id notes).label n =
      if n = id then { t.label id with annotations := t.annotations id ++ notes }
      else t.label n := by
  unfold annotateAll
  induction notes generalizing t with
  | nil => by_cases hn : n = id <;> simp [hn, annotations]
  | cons note notes ih =>
    rw [List.foldl_cons, ih (by simpa using hid)]
    unfold annotations
    rw [label_annotate hid, label_annotate hid]
    by_cases hn : n = id <;> simp [hn, annotations]

/-! ## Adding documents -/

/-- `t'` is `t` with the nodes `new` after the children of `q`, and the documents below them. -/
structure Grown (t t' : Tree) (q : NodeId) (new : List NodeId) (docs : List Document) : Prop where
  wellFormed : t'.WellFormed
  size_le : t.size ≤ t'.size
  label : ∀ n, n < t.size → t'.label n = t.label n
  children : ∀ n, n < t.size → t'.children n = t.children n ++ if n = q then new else []
  fresh : ∀ c ∈ new, t.size ≤ c
  documents : new.map t'.documentAt = docs

theorem Grown.nil {t : Tree} (h : t.WellFormed) (q : NodeId) : Grown t t q [] [] where
  wellFormed := h
  size_le := Nat.le_refl _
  label := fun _ _ => rfl
  children := by simp
  fresh := by simp
  documents := rfl

/-- What stands below a node stays while the tree grows elsewhere. -/
theorem Grown.documentAt {t t' : Tree} {q : Nat} {new : List NodeId} {docs : List Document}
    (h : t.WellFormed) (hg : Grown t t' q new docs) (n : Nat) (hq : q < n) (hn : n < t.size) :
    t'.documentAt n = t.documentAt n := by
  induction n using h.induction_down with
  | step n ih =>
    rw [hg.wellFormed.documentAt_eq, h.documentAt_eq, hg.label n hn, hg.children n hn,
      if_neg (Nat.ne_of_gt hq), List.append_nil]
    congr 1
    refine List.map_congr_left fun c hc => ?_
    have hp := h.mem_children.mp hc
    exact ih c hc (Nat.lt_trans hq (h.parent_lt hp)) (lt_size_of_parent hp)

theorem Grown.append {t t₁ t₂ : Tree} {q : Nat} {a b : List NodeId} {d e : List Document}
    (hq : q < t.size) (h₁ : Grown t t₁ q a d) (h₂ : Grown t₁ t₂ q b e) :
    Grown t t₂ q (a ++ b) (d ++ e) where
  wellFormed := h₂.wellFormed
  size_le := Nat.le_trans h₁.size_le h₂.size_le
  label := fun n hn => (h₂.label n (Nat.lt_of_lt_of_le hn h₁.size_le)).trans (h₁.label n hn)
  children := by
    intro n hn
    rw [h₂.children n (Nat.lt_of_lt_of_le hn h₁.size_le), h₁.children n hn]
    split <;> simp
  fresh := by
    intro c hc
    rcases List.mem_append.mp hc with hc | hc
    · exact h₁.fresh c hc
    · exact Nat.le_trans h₁.size_le (h₂.fresh c hc)
  documents := by
    rw [List.map_append, h₂.documents, ← h₁.documents]
    congr 1
    refine List.map_congr_left fun c hc => ?_
    have hmem : c ∈ t₁.children q := by
      rw [h₁.children q hq, if_pos rfl]
      exact List.mem_append_right _ hc
    exact h₂.documentAt h₁.wellFormed c (Nat.lt_of_lt_of_le hq (h₁.fresh c hc))
      (lt_size_of_parent (h₁.wellFormed.mem_children.mp hmem))

/-- A node that was just added has the children that have grown below it. -/
theorem Grown.children_start {t t' : Tree} {q : Nat} (hq : q < t.size) {label : Label}
    {new : List NodeId} {docs : List Document}
    (hg : Grown ((t.append q label.role label.kind).annotateAll t.size label.annotations) t' t.size
      new docs) : t'.children t.size = new := by
  have hnone : t.children t.size = [] := by
    unfold Tree.children
    rw [entries_size]
  rw [hg.children _ (by simp), if_pos rfl, children_annotateAll, children_append hq,
    if_neg (Nat.ne_of_gt hq), hnone, List.nil_append]

/-- Adding a node and then growing the tree below it. -/
theorem Grown.node {t t' : Tree} {q : Nat} (hq : q < t.size) {label : Label} {new : List NodeId}
    {docs : List Document}
    (hg : Grown ((t.append q label.role label.kind).annotateAll t.size label.annotations) t' t.size
      new docs) :
    Grown t t' q [t.size] [.node label docs] := by
  have hid : t.size < (t.append q label.role label.kind).size := by simp
  have hlabel := label_annotateAll hid label.annotations
  have hsize : t.size < ((t.append q label.role label.kind).annotateAll t.size
      label.annotations).size := by simp
  refine ⟨hg.wellFormed, ?_, ?_, ?_, by simp, ?_⟩
  · exact Nat.le_of_lt (Nat.lt_of_lt_of_le hsize hg.size_le)
  · intro n hn
    rw [hg.label n (Nat.lt_trans hn hsize), hlabel, if_neg (Nat.ne_of_lt hn), label_append,
      if_neg (Nat.ne_of_lt hn)]
  · intro n hn
    rw [hg.children n (Nat.lt_trans hn hsize), if_neg (Nat.ne_of_lt hn), children_annotateAll,
      children_append hq, List.append_nil]
    by_cases e : n = q
    · rw [if_pos e, if_pos e, e]
    · rw [if_neg e, if_neg e, List.append_nil]
  · have hnew : t'.children t.size = new := hg.children_start hq
    have hlab : t'.label t.size = label := by
      rw [hg.label _ hsize, hlabel, if_pos rfl]
      unfold annotations
      rw [label_append, if_pos rfl]
      rfl
    rw [List.map_singleton, hg.wellFormed.documentAt_eq, hnew, hg.documents, hlab]

mutual

theorem add_grown {t t' : Tree} (h : t.WellFormed) {q : Nat} (hq : q < t.size) :
    ∀ d : Document, t.add q d = .ok t' → Grown t t' q [t.size] [d]
  | .node label docs, hd => by
    rw [add] at hd
    split at hd
    · cases hd
    · have hw := (h.append hq label.role label.kind).annotateAll t.size label.annotations
      obtain ⟨new, hg⟩ := addAll_grown hw (by simp) docs hd
      exact Grown.node hq hg

/-- Adding documents to a node grows the tree by them. -/
theorem addAll_grown {t t' : Tree} (h : t.WellFormed) {q : Nat} (hq : q < t.size) :
    ∀ docs : List Document, t.addAll q docs = .ok t' → ∃ new, Grown t t' q new docs
  | [], hd => by
    rw [addAll] at hd
    cases hd
    exact ⟨[], Grown.nil h q⟩
  | d :: docs, hd => by
    rw [addAll] at hd
    split at hd
    · cases hd
    · next t₁ h₁ =>
      have hg₁ := add_grown h hq d h₁
      obtain ⟨new, hg₂⟩ :=
        addAll_grown hg₁.wellFormed (Nat.lt_of_lt_of_le hq hg₁.size_le) docs hd
      exact ⟨t.size :: new, hg₁.append hq hg₂⟩

end

/-- The document that a tree is made from, as a tree shows it: the top is a root. -/
def rooted (d : Document) : Document :=
  if d.label.kind = .syntaxTree then .node ⟨.root, .syntaxTree, d.label.annotations⟩ d.children
  else .node ⟨.root, .syntaxTree, []⟩ [d]

/-- The root of a tree that has grown from a bare root. -/
theorem Grown.documentAt_root {t t' : Tree} {new : List NodeId} {docs : List Document}
    (ht : 0 < t.size) (hc : t.children root = []) (hg : Grown t t' root new docs) :
    t'.documentAt root = .node (t.label root) docs := by
  rw [hg.wellFormed.documentAt_eq, hg.label _ ht, hg.children _ ht, if_pos rfl, hc, List.nil_append,
    hg.documents]

/-- A tree made from a document is well formed and keeps the document. -/
theorem ofDocument_spec {d : Document} {t : Tree} (h : ofDocument d = .ok t) :
    t.WellFormed ∧ t.documentAt root = rooted d := by
  unfold ofDocument at h
  unfold rooted
  split at h
  · next hk =>
    have hw := wellFormed_empty.annotateAll root d.label.annotations
    obtain ⟨new, hg⟩ := addAll_grown hw hw.root_lt _ h
    refine ⟨hg.wellFormed, ?_⟩
    rw [if_pos hk, hg.documentAt_root hw.root_lt (by rw [children_annotateAll]; rfl),
      label_annotateAll wellFormed_empty.root_lt, if_pos rfl]
    rfl
  · next hk =>
    have hg := add_grown wellFormed_empty wellFormed_empty.root_lt d h
    refine ⟨hg.wellFormed, ?_⟩
    rw [if_neg hk, hg.documentAt_root wellFormed_empty.root_lt rfl]
    rfl

/-! ## Every tree -/

/-- The trees that are made from documents, or from a root alone, by adding, annotating and
detaching nodes. -/
inductive Built : Tree → Prop where
  | empty : Built empty
  | ofDocument {d : Document} {t : Tree} (h : Tree.ofDocument d = .ok t) : Built t
  | append {t : Tree} {q : NodeId} (h : Built t) (hq : q < t.size) (role : Role) (kind : Kind) :
    Built (t.append q role kind)
  | annotate {t : Tree} (h : Built t) (id : NodeId) (note : Annotation) :
    Built (t.annotate id note)
  | detach {t : Tree} (h : Built t) (id : NodeId) : Built (t.detach id)

theorem Built.wellFormed {t : Tree} (h : Built t) : t.WellFormed := by
  induction h with
  | empty => exact wellFormed_empty
  | ofDocument h => exact (ofDocument_spec h).1
  | append _ hq role kind ih => exact ih.append hq role kind
  | annotate _ id note ih => exact ih.annotate id note
  | detach _ id ih => exact ih.detach id

end Tree

end CodeView.Syntax
