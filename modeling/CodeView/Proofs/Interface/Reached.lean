import CodeView.Proofs.Interface.Meaning
import CodeView.Proofs.Syntax.Walks

/-!
# Every tree that can be reached

A tree starts as a bare root. Nodes are added to it, also below detached ones, annotated and
detached, and it is pruned, in any order and any number of times.

* `Reached`: the trees of such histories. Each step keeps a tree well formed, so all of them are
  (`Reached.wellFormed`).
* `Reached.ofDocument`: a tree that is made from a document has such a history too.
* `reached_parents_walks`: parents and children agree in every reached tree, and the walks up and
  down end and agree on what the root reaches.
-/

namespace CodeView.Interface

open CodeView.Syntax

/-- The trees that a bare root becomes. Every step is about nodes that the tree has. -/
inductive Reached : Tree → Prop where
  | new : Reached Tree.empty
  | append {t : Tree} {q : NodeId} (before : Reached t) (hq : t.has q = true) (role : Role)
    (kind : Kind) : Reached (t.append q role kind)
  | appendIdentifier {t : Tree} {q : NodeId} (before : Reached t) (hq : t.has q = true)
    (role : Role) (name : String) : Reached (t.appendIdentifier q role name)
  | annotate {t : Tree} {id : NodeId} (before : Reached t) (hid : t.has id = true)
    (note : Annotation) : Reached (t.annotate id note)
  | detach {t : Tree} {id : NodeId} (before : Reached t) (hid : t.has id = true) :
    Reached (t.detach id)
  | prune {t : Tree} (before : Reached t) (p : Policy) : Reached (prune p t).1

variable {t : Tree}

theorem has_iff {id : NodeId} : t.has id = true ↔ id < t.size := by
  unfold Tree.has
  exact decide_eq_true_iff

/-- Every step keeps the invariant, so every reached tree has it. -/
theorem Reached.wellFormed (ht : Reached t) : t.WellFormed := by
  induction ht with
  | new => exact Tree.wellFormed_empty
  | append _ hq role kind ih => exact ih.append (has_iff.mp hq) role kind
  | appendIdentifier _ hq role name ih => exact ih.append (has_iff.mp hq) role (.identifier name)
  | @annotate _ id _ _ note ih => exact ih.annotate id note
  | @detach _ id _ _ ih => exact ih.detach id
  | prune _ p ih => exact wellFormed_prune ih p

/-! ## Trees of documents -/

theorem Reached.annotateAll (ht : Reached t) {id : NodeId} (hid : t.has id = true)
    (notes : List Annotation) : Reached (t.annotateAll id notes) := by
  unfold Tree.annotateAll
  induction notes generalizing t with
  | nil => exact ht
  | cons note notes ih =>
    refine ih (ht.annotate hid note) ?_
    rw [has_iff] at hid ⊢
    simpa using hid

mutual

theorem Reached.add {t t' : Tree} (ht : Reached t) {q : NodeId} (hq : t.has q = true) :
    ∀ d : Document, t.add q d = .ok t' → Reached t'
  | .node label docs, hd => by
    rw [Tree.add] at hd
    split at hd
    · cases hd
    · have hid : (t.append q label.role label.kind).has t.size = true := has_iff.mpr (by simp)
      refine Reached.addAll ((ht.append hq _ _).annotateAll hid _) ?_ docs hd
      rw [has_iff]
      simp

theorem Reached.addAll {t t' : Tree} (ht : Reached t) {q : NodeId} (hq : t.has q = true) :
    ∀ docs : List Document, t.addAll q docs = .ok t' → Reached t'
  | [], hd => by
    rw [Tree.addAll] at hd
    cases hd
    exact ht
  | d :: docs, hd => by
    rw [Tree.addAll] at hd
    split at hd
    · cases hd
    · next t₁ h₁ =>
      have hgrown := Tree.add_grown ht.wellFormed (has_iff.mp hq) d h₁
      have hq₁ : t₁.has q = true :=
        has_iff.mpr (Nat.lt_of_lt_of_le (has_iff.mp hq) hgrown.size_le)
      exact Reached.addAll (Reached.add ht hq d h₁) hq₁ docs hd

end

/-- The tree of a document is reached by adding and annotating its nodes one after the other. -/
theorem Reached.ofDocument {d : Document} (h : Tree.ofDocument d = .ok t) : Reached t := by
  have hroot : Tree.empty.has Tree.root = true := rfl
  unfold Tree.ofDocument at h
  split at h
  · refine (Reached.new.annotateAll hroot _).addAll ?_ _ h
    rw [has_iff, Tree.size_annotateAll]
    exact has_iff.mp hroot
  · exact Reached.new.add hroot d h

/-! ## Parents, children and walks -/

/-- **The store of a reached tree.** The root has no parent; a node is among the children of its
parent, once and with a larger number, and of no other node. So the searches for the root and for
the nearest annotated node end, and so does the visit with a stack. The visit is the pre-order of
the whole branch, repeats no node, and from the root it finds what climbs to the root. -/
theorem reached_parents_walks (ht : Reached t) :
    t.parent? Tree.root = none ∧
    (∀ q c : Nat, (c ∈ t.children q ↔ t.parent? c = some q) ∧
      (t.parent? c = some q → (t.children q).count c = 1 ∧ q < c)) ∧
    (∀ id, Tree.SeeksRoot t id (t.isAttached id) ∧ Tree.SeeksNote t id (t.nearestAnnotated? id) ∧
      Tree.Visits t [id] (t.descendants id)) ∧
    (∀ id, t.branch id = .node id (t.label id) ((t.children id).map t.branch) ∧
      t.descendants id = (t.branch id).ids ∧ (t.descendants id).Nodup) ∧
    ∀ id, t.isAttached id = true ↔ id ∈ t.descendants Tree.root := by
  have h := ht.wellFormed
  refine ⟨h.root_parent, fun q c => ⟨h.mem_children, fun hc => ⟨?_, h.parent_lt hc⟩⟩,
    fun id => ⟨h.seeksRoot id, h.seeksNote id, h.visits id⟩,
    fun id => ⟨h.branch_eq id, h.descendants_eq id, ?_⟩,
    fun id => h.isAttached_iff_mem_descendants⟩
  · exact List.count_eq_one_of_mem (h.nodup_children q) (h.mem_children.mpr hc)
  · rw [h.descendants_eq]
    exact h.nodup_ids_branch id

/-- A class is detached and then gets a method, the root gets a name, and the tree is pruned. -/
def orphanSample : Tree :=
  (prune ⟨"Widget", usualNoise⟩
    ((((Tree.empty.append 0 .member (.typeDecl .classType ∅)).detach 1).append 1 .member
      (.methodDecl ∅)).appendIdentifier 0 .name "Widget")).1

theorem orphanSample_reached : Reached orphanSample :=
  ((((Reached.new.append (by decide) _ _).detach (by decide)).append (by decide) _
    _).appendIdentifier (by decide) _ _).prune _

/-- The method hangs below the class, but the root does not reach it. -/
theorem reached_parents_walks_orphanSample :
    Reached orphanSample ∧ orphanSample.parent? 2 = some 1 ∧
      (orphanSample.children 1).count 2 = 1 ∧ 2 ∉ orphanSample.descendants Tree.root ∧
      Tree.SeeksRoot orphanSample 2 false := by
  obtain ⟨-, hp, hw, -, ha⟩ := reached_parents_walks orphanSample_reached
  have hparent : orphanSample.parent? 2 = some 1 := by decide +kernel
  have hlost : orphanSample.isAttached 2 = false := by decide +kernel
  refine ⟨orphanSample_reached, hparent, ((hp 1 2).2 hparent).1, ?_, hlost ▸ (hw 2).1⟩
  rw [← ha 2, hlost]
  exact Bool.false_ne_true

end CodeView.Interface
