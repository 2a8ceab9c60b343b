import CodeView.Html.Highlight
import CodeView.Proofs.Interface.Reached
import CodeView.Proofs.Interface.Residue

/-!
# What detaching changes, and what it leaves

A detached node takes everything below it along, and nothing else. A pass detaches many nodes, of
which some stand below others; what is left does not depend on the order.

* `ext_nodes`: a tree is told by its size and by the label, parent and children of every node. So
  the tree left by `detachAll` depends only on which nodes were detached (`detachAll_congr`).
* `branch_detach`: what stands at and below a detached node stays as it was.
* `lineage_of_attached`: a node that is still attached has the path that it had, and so its nearest
  annotated node (`nearestAnnotated?_of_attached`) and its highlight (`classify_of_attached`).
* `detach_exact`: what one detached node changes, and that several may go in any order.
* `prune_keeps`: what pruning leaves as it was.
-/

namespace CodeView.Syntax.Tree

variable {t t' : Tree} {ids ids' : List NodeId} {id n : NodeId}

/-! ## The order of detaching -/

/-- Two stores of one size that show the same of every node are the same. -/
theorem ext_nodes (hs : t.size = t'.size) (hl : ∀ n, t.label n = t'.label n)
    (hp : ∀ n, t.parent? n = t'.parent? n) (hc : ∀ n, t.children n = t'.children n) : t = t' := by
  obtain ⟨entries⟩ := t
  obtain ⟨entries'⟩ := t'
  congr 1
  refine Array.ext hs fun i h₁ h₂ => ?_
  have hli := hl i
  have hpi := hp i
  have hci := hc i
  unfold label at hli
  unfold parent? at hpi
  unfold children at hci
  rw [Array.getElem?_eq_getElem h₁, Array.getElem?_eq_getElem h₂] at hli hpi hci
  generalize entries[i] = e at hli hpi hci ⊢
  generalize entries'[i] = e' at hli hpi hci ⊢
  obtain ⟨label, parent, children⟩ := e
  obtain ⟨label', parent', children'⟩ := e'
  exact congr (congr (congrArg Entry.mk hli) hpi) hci

/-- Which nodes are detached decides what is left. -/
theorem WellFormed.detachAll_congr (h : t.WellFormed) (he : ∀ n, n ∈ ids ↔ n ∈ ids') :
    t.detachAll ids = t.detachAll ids' := by
  apply ext_nodes
  · rw [size_detachAll, size_detachAll]
  · intro n
    rw [label_detachAll, label_detachAll]
  · intro n
    rw [parent?_detachAll, parent?_detachAll]
    simp only [he]
  · intro n
    rw [h.children_detachAll, h.children_detachAll]
    simp only [he]

theorem foldl_detach_eq (t : Tree) (ids : List NodeId) :
    ids.foldl detach t = t.detachAll ids.reverse := by
  unfold detachAll
  rw [List.foldr_reverse]

/-! ## What goes and what stays -/

/-- The root no longer reaches a detached node and what is below it. -/
theorem WellFormed.isAttached_detach (h : t.WellFormed) (hid : id ≠ root) :
    (t.detach id).isAttached n = true ↔ t.isAttached n = true ∧ n ∉ t.descendants id := by
  have hone : t.detach id = t.detachAll [id] := rfl
  rw [hone, h.isAttached_detachAll, h.mem_descendants]
  refine and_congr_right fun hn => ?_
  have hr := isAttached_iff.mp hn
  constructor
  · intro hc hm
    have hnone := hc id hm (List.mem_singleton.mpr rfl)
    exact parent?_ne_none (h.root_mem_lineage hr hm) hid hnone
  · intro hnot m hm hmem
    rw [List.mem_singleton] at hmem
    exact absurd (hmem ▸ hm) hnot

/-- A detached node keeps everything below it. -/
theorem WellFormed.branch_detach (h : t.WellFormed) {x : NodeId} (hx : id ∈ t.lineage x) :
    (t.detach id).branch x = t.branch x := by
  induction x using h.induction_down with
  | step x ih =>
    -- The parent of `id` is above it, so at and below `id` no list of children has changed.
    have hkids : (t.detach id).children x = t.children x := by
      rw [Tree.children_detach]
      split
      · next hp =>
        have h1 := h.le_of_mem_lineage hx
        have h2 := h.parent_lt hp
        omega
      · rfl
    rw [(h.detach id).branch_eq, h.branch_eq, label_detach, hkids]
    congr 1
    refine List.map_congr_left fun c hc => ?_
    exact ih c hc (h.mem_lineage_of_parent (h.mem_children.mp hc) hx)

/-- The walk below a detached node finds what it found before. -/
theorem WellFormed.descendants_detach (h : t.WellFormed) (id : NodeId) :
    (t.detach id).descendants id = t.descendants id := by
  rw [(h.detach id).descendants_eq, h.descendants_eq, h.branch_detach (h.self_mem_lineage id)]

/-! ## The nodes that are still attached -/

theorem WellFormed.parent?_of_attached (h : t.WellFormed)
    (hn : (t.detachAll ids).isAttached n = true) : (t.detachAll ids).parent? n = t.parent? n := by
  have hc := (h.isAttached_detachAll.mp hn).2
  rw [parent?_detachAll]
  split
  · next hm => exact (hc n (h.self_mem_lineage n) hm).symm
  · rfl

theorem WellFormed.lineage_of_attached (h : t.WellFormed)
    (hn : (t.detachAll ids).isAttached n = true) : (t.detachAll ids).lineage n = t.lineage n :=
  h.lineage_detachAll (h.isAttached_detachAll.mp hn).2

theorem WellFormed.nearestAnnotated?_of_attached (h : t.WellFormed)
    (hn : (t.detachAll ids).isAttached n = true) :
    (t.detachAll ids).nearestAnnotated? n = t.nearestAnnotated? n := by
  unfold nearestAnnotated? annotations
  rw [h.lineage_of_attached hn]
  simp only [label_detachAll]

/-- An attached node looks as it did before others were detached. -/
theorem WellFormed.classify_of_attached (h : t.WellFormed) (links : Html.Links)
    (hn : (t.detachAll ids).isAttached n = true) :
    Html.classify links (t.detachAll ids) (some n) = Html.classify links t (some n) := by
  unfold Html.classify annotations
  rw [Option.bind_some, Option.bind_some, h.nearestAnnotated?_of_attached hn]
  simp only [kind_detachAll, label_detachAll]

end CodeView.Syntax.Tree

namespace CodeView.Interface

open CodeView.Syntax

variable {t : Tree}

/-- **Detaching.** A node other than the root goes with everything below it, and nothing else goes.
Its former parent loses this one child; every other link in the store stays, and what is below the
node too. Of several nodes, also nested, repeated or detached ones, it only counts which they
are. -/
theorem detach_exact (ht : Reached t) :
    (∀ id, id ≠ Tree.root →
      (∀ n, (t.detach id).isAttached n = true ↔
        t.isAttached n = true ∧ n ∉ t.descendants id) ∧
      (t.detach id).parent? id = none ∧
      (∀ q, t.parent? id = some q → (t.detach id).children q = (t.children q).filter (· != id)) ∧
      (∀ n, n ≠ id → (t.detach id).parent? n = t.parent? n) ∧
      (∀ n, t.parent? id ≠ some n → (t.detach id).children n = t.children n) ∧
      (t.detach id).descendants id = t.descendants id) ∧
    ∀ ids ids' : List NodeId, (∀ n, n ∈ ids ↔ n ∈ ids') →
      ids.foldl Tree.detach t = ids'.foldl Tree.detach t := by
  have h := ht.wellFormed
  refine ⟨fun id hid => ⟨fun n => h.isAttached_detach hid, ?_, fun q hq => ?_, fun n hn => ?_,
    fun n hn => ?_, h.descendants_detach id⟩, fun ids ids' he => ?_⟩
  · rw [Tree.parent?_detach, if_pos rfl]
  · rw [Tree.children_detach, if_pos hq]
  · rw [Tree.parent?_detach, if_neg hn]
  · rw [Tree.children_detach, if_neg hn]
  · rw [Tree.foldl_detach_eq, Tree.foldl_detach_eq]
    refine h.detachAll_congr fun n => ?_
    rw [List.mem_reverse, List.mem_reverse]
    exact he n

/-- An annotated class (1) with a name (4) and a method (2) that has a body (3). -/
def bodySample : Tree :=
  ((((Tree.empty.append 0 .member (.typeDecl .classType ∅)).annotate 1
    (.type "Widgets.Widget")).append 1 .member (.methodDecl ∅)).append 2 .body
    .block).appendIdentifier 1 .name "Widget"

theorem bodySample_reached : Reached bodySample :=
  ((((Reached.new.append (by decide) _ _).annotate (by decide) _).append (by decide) _ _).append
    (by decide) _ _).appendIdentifier (by decide) _ _

/-- The method takes its body along and leaves the name. Method and body can go in either order, and
the root in between does nothing. -/
theorem detach_exact_bodySample :
    Reached bodySample ∧
      ((bodySample.detach 2).isAttached 4 = true ∧ ¬(bodySample.detach 2).isAttached 3 = true) ∧
      ((bodySample.detach 2).children 1 = [4] ∧ (bodySample.detach 2).descendants 2 = [2, 3]) ∧
      [2, 0, 3, 2].foldl Tree.detach bodySample = [3, 2, 0].foldl Tree.detach bodySample := by
  obtain ⟨hone, hmany⟩ := detach_exact bodySample_reached
  obtain ⟨hattached, -, hkids, -, -, hbelow⟩ := hone 2 (by decide)
  refine ⟨bodySample_reached, ⟨(hattached 4).mpr (by decide +kernel), ?_⟩, ⟨?_, ?_⟩, hmany _ _ ?_⟩
  · rw [hattached 3]
    decide +kernel
  · rw [hkids 1 (by decide +kernel)]
    decide +kernel
  · rw [hbelow]
    decide +kernel
  · intro n
    simp only [List.mem_cons, List.not_mem_nil, or_false]
    grind

/-- **Pruning leaves what it keeps as it was.** No number and no label changes, and no child takes
another place. Every node that is still attached has its parent, its nearest annotated node, its
highlight and its link. -/
theorem prune_keeps (ht : Reached t) (p : Policy) :
    (prune p t).1.size = t.size ∧
    (∀ n, (prune p t).1.kind n = t.kind n ∧ (prune p t).1.role n = t.role n ∧
      (prune p t).1.annotations n = t.annotations n) ∧
    (∀ n, ((prune p t).1.children n).Sublist (t.children n)) ∧
    ∀ n, (prune p t).1.isAttached n = true →
      (prune p t).1.parent? n = t.parent? n ∧
      (prune p t).1.nearestAnnotated? n = t.nearestAnnotated? n ∧
      ∀ links, Html.classify links (prune p t).1 (some n) = Html.classify links t (some n) := by
  have h := ht.wellFormed
  refine ⟨?_, fun n => ⟨kind_prune h p n, role_prune h p n, ?_⟩, fun n => ?_, fun n hn => ?_⟩
  · rw [prune_tree h, Tree.size_detachAll]
  · exact congrArg Label.annotations (label_prune h p n)
  · rw [children_prune h]
    exact List.filter_sublist
  · rw [prune_tree h] at hn ⊢
    exact ⟨h.parent?_of_attached hn, h.nearestAnnotated?_of_attached hn,
      fun links => h.classify_of_attached links hn⟩

/-- The body goes. The name is still that of the class, and looks like it. -/
theorem prune_keeps_bodySample :
    Reached bodySample ∧ (prune widgetPolicy bodySample).1.isAttached 3 = false ∧
      (prune widgetPolicy bodySample).1.isAttached 4 = true ∧
      (prune widgetPolicy bodySample).1.parent? 4 = some 1 ∧
      (prune widgetPolicy bodySample).1.nearestAnnotated? 4 = some 1 ∧
      ∀ links, Html.classify links (prune widgetPolicy bodySample).1 (some 4) =
        (.typeDeclaration, none) := by
  obtain ⟨-, -, -, hkept⟩ := prune_keeps bodySample_reached widgetPolicy
  have hname : (prune widgetPolicy bodySample).1.isAttached 4 = true := by decide +kernel
  obtain ⟨hparent, hnearest, hlook⟩ := hkept 4 hname
  have hbefore : bodySample.nearestAnnotated? 4 = some 1 := by decide +kernel
  refine ⟨bodySample_reached, by decide +kernel, hname, ?_, hnearest.trans hbefore, fun links => ?_⟩
  · rw [hparent]
    decide +kernel
  · rw [hlook links]
    unfold Html.classify
    rw [Option.bind_some, hbefore]
    rfl

end CodeView.Interface
