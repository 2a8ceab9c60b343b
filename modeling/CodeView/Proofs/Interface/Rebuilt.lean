import Mathlib.Data.Set.Function
import CodeView.Proofs.Html.Congruence
import CodeView.Proofs.Interface.Reached
import CodeView.Proofs.Syntax.Numbering

/-!
# Numbers and detached nodes do not show

A tree has a history: its nodes have the numbers of the order in which they were added, and
detached ones still lie in the store. The tree that is rebuilt from its document has neither.

* `Branch.renumber`: a branch with other numbers. It is the only one with the same document and
  those numbers (`eq_renumber`), and its events are the same with those numbers (`events_renumber`).
* `branch_of_attached`: if the branch of one root is that of another one with other numbers, so is
  the branch of every attached node, and highlights agree.
* `rebuilt_shows_same`: a tree and the one rebuilt from its document show the same.
-/

namespace CodeView.Syntax

/-! ## Other numbers -/

namespace Branch

mutual

/-- A branch with other numbers. -/
def renumber (f : NodeId → NodeId) : Branch → Branch
  | .node id label children => .node (f id) label (renumberAll f children)

/-- Branches with other numbers. -/
def renumberAll (f : NodeId → NodeId) : List Branch → List Branch
  | [] => []
  | b :: rest => renumber f b :: renumberAll f rest

end

variable {f : NodeId → NodeId}

theorem renumberAll_eq (list : List Branch) : renumberAll f list = list.map (renumber f) := by
  induction list with
  | nil => rfl
  | cons b list ih => rw [renumberAll, ih, List.map_cons]

@[simp] theorem id_renumber (b : Branch) : (b.renumber f).id = f b.id := by
  cases b
  rfl

@[simp] theorem role_renumber (b : Branch) : (b.renumber f).role = b.role := by
  cases b
  rfl

mutual

theorem length_ids : ∀ b : Branch, b.ids.length = b.toDocument.labels.length
  | .node id label children => by
    rw [ids, toDocument, Document.labels, List.length_cons, List.length_cons,
      length_idsAll children]

/-- There is a number for each label. -/
theorem length_idsAll : ∀ list : List Branch,
    (idsAll list).length = (Document.labelsAll (toDocuments list)).length
  | [] => rfl
  | b :: rest => by
    rw [idsAll, toDocuments, Document.labelsAll, List.length_append, List.length_append,
      length_ids b, length_idsAll rest]

end

mutual

theorem eq_renumber : ∀ {b b' : Branch}, b.toDocument = b'.toDocument → b'.ids = b.ids.map f →
    b' = b.renumber f
  | .node id label children, .node id' label' children', hd, hi => by
    rw [toDocument, toDocument, Document.node.injEq] at hd
    rw [ids, ids, List.map_cons, List.cons.injEq] at hi
    rw [renumber, hi.1, hd.1, eq_renumberAll hd.2 hi.2]

/-- Branches are told by their documents and their numbers. -/
theorem eq_renumberAll : ∀ {list list' : List Branch}, toDocuments list = toDocuments list' →
    idsAll list' = (idsAll list).map f → list' = renumberAll f list
  | [], [], _, _ => rfl
  | [], _ :: _, hd, _ => by rw [toDocuments, toDocuments] at hd; cases hd
  | _ :: _, [], hd, _ => by rw [toDocuments, toDocuments] at hd; cases hd
  | b :: rest, b' :: rest', hd, hi => by
    rw [toDocuments, toDocuments, List.cons.injEq] at hd
    rw [idsAll, idsAll, List.map_append] at hi
    -- The first branches have as many nodes as their common document.
    have hlen : b'.ids.length = (b.ids.map f).length := by
      rw [List.length_map, length_ids, length_ids, hd.1]
    obtain ⟨hb, hrest⟩ := List.append_inj hi hlen
    rw [renumberAll, eq_renumber hd.1 hb, eq_renumberAll hd.2 hrest]

end

end Branch

namespace Tree

variable {t t' : Tree}

/-- The labels of a document that stands in a tree are those of its nodes. -/
theorem WellFormed.labels_documentAt (h : t.WellFormed) (n : NodeId) :
    (t.documentAt n).labels = (t.branch n).ids.map t.label := by
  induction n using h.induction_down with
  | step n ih =>
    rw [h.documentAt_eq, h.ids_branch, Document.labels, Document.labelsAll_eq, List.map_cons,
      List.map_flatMap, List.flatMap_map]
    congr 1
    exact List.flatMap_congr ih

/-- The root of a tree nests no other, if no other attached node is one. -/
theorem WellFormed.not_nestsRoot (h : t.WellFormed)
    (hk : ∀ n, t.isAttached n = true → n ≠ root → t.kind n ≠ .syntaxTree) :
    ¬ t.toDocument.NestsRoot := by
  have hdoc : t.toDocument = .node (t.label root) ((t.children root).map t.documentAt) :=
    h.documentAt_eq root
  unfold Document.NestsRoot
  rw [hdoc]
  rintro ⟨l, hl, hroot⟩
  rw [Document.children, Document.labelsAll_eq, List.flatMap_map, List.mem_flatMap] at hl
  obtain ⟨c, hc, hl⟩ := hl
  rw [h.labels_documentAt, List.mem_map] at hl
  obtain ⟨m, hm, rfl⟩ := hl
  have hp := h.mem_children.mp hc
  have hcm := h.mem_ids_branch.mp hm
  have hrc := h.mem_lineage_of_parent hp (h.self_mem_lineage root)
  have hne : m ≠ root := by
    have h1 := h.le_of_mem_lineage hcm
    have h2 := h.parent_lt hp
    exact Nat.ne_of_gt (Nat.lt_of_lt_of_le h2 h1)
  exact hk m (isAttached_iff.mpr (h.mem_lineage_trans hrc hcm)) hne hroot

/-- Where a branch is another one with other numbers, its children are too. -/
theorem WellFormed.child_renumber (h : t.WellFormed) (h' : t'.WellFormed) {f : NodeId → NodeId}
    {n c : NodeId} (hb : t'.branch (f n) = (t.branch n).renumber f) (hc : t.parent? c = some n) :
    t'.parent? (f c) = some (f n) ∧ t'.branch (f c) = (t.branch c).renumber f := by
  rw [h'.branch_eq, h.branch_eq, Branch.renumber, Branch.renumberAll_eq, List.map_map,
    Branch.node.injEq] at hb
  obtain ⟨-, -, hkids⟩ := hb
  have hmem : (t.branch c).renumber f ∈ (t'.children (f n)).map t'.branch := by
    rw [hkids]
    exact List.mem_map.mpr ⟨c, h.mem_children.mpr hc, rfl⟩
  obtain ⟨c', hc', e⟩ := List.mem_map.mp hmem
  have hid : c' = f c := by
    have hi := congrArg Branch.id e
    rwa [Branch.id_renumber, h'.branch_eq, h.branch_eq] at hi
  subst hid
  exact ⟨h'.mem_children.mp hc', e⟩

theorem label_renumber (h : t.WellFormed) (h' : t'.WellFormed) {f : NodeId → NodeId} {n : NodeId}
    (hb : t'.branch (f n) = (t.branch n).renumber f) : t'.label (f n) = t.label n := by
  rw [h'.branch_eq, h.branch_eq, Branch.renumber, Branch.node.injEq] at hb
  exact hb.2.1

end Tree

end CodeView.Syntax

namespace CodeView.Layout

open CodeView.Syntax CodeView.Html

variable {f : NodeId → NodeId}

theorem isSimple_renumber (b : Branch) : isSimple (b.renumber f) = isSimple b := by
  have hroles : (b.renumber f).children.map Branch.role = b.children.map Branch.role := by
    obtain ⟨id, label, children⟩ := b
    rw [Branch.renumber, Branch.renumberAll_eq, Branch.children, Branch.children, List.map_map]
    exact List.map_congr_left fun c _ => Branch.role_renumber c
  rw [isSimple_eq, isSimple_eq, hroles]

mutual

theorem print_renumber (o : Options) : ∀ b : Branch,
    print o (b.renumber f) = (print o b).map (Printed.map f)
  | .node id label children => by
    have hsimple := isSimple_renumber (f := f) (.node id label children)
    rw [Branch.renumber] at hsimple ⊢
    rw [print_map, print, printAll_renumber o children, hsimple]

/-- Branches with other numbers print the same with those numbers. -/
theorem printAll_renumber (o : Options) : ∀ list : List Branch,
    printAll o (Branch.renumberAll f list) = list.map fun b => (print o b).map (Printed.map f)
  | [] => rfl
  | b :: rest => by
    rw [Branch.renumberAll, printAll, print_renumber o b, printAll_renumber o rest, List.map_cons]

end

/-- A branch with other numbers has the same events with those numbers. -/
theorem events_renumber (o : Options) (b : Branch) :
    events o (b.renumber f) = (events o b).map (EventOf.map f) := by
  rw [events_eq, events_eq, print_renumber]
  rfl

end CodeView.Layout

namespace CodeView.Interface

open CodeView.Syntax CodeView.Layout CodeView.Html

variable {t t' : Tree}

/-! ## Two trees with one document -/

/-- From the root on, what is below a node and how it is highlighted is the same in both trees. -/
theorem branch_of_attached (h : t.WellFormed) (h' : t'.WellFormed) {f : NodeId → NodeId}
    (hroot : f Tree.root = Tree.root)
    (hb : t'.branch Tree.root = (t.branch Tree.root).renumber f) {n : NodeId}
    (hn : t.isAttached n = true) :
    t'.branch (f n) = (t.branch n).renumber f ∧
      ∀ links, marksOf links t' (f n) = marksOf links t n := by
  rw [Tree.isAttached_iff] at hn
  induction n using h.induction_up with
  | step n ih =>
    rcases h.mem_lineage_iff.mp hn with rfl | ⟨q, hq, hm⟩
    · have hbr : t'.branch (f Tree.root) = (t.branch Tree.root).renumber f := by
        rw [hroot]
        exact hb
      have hl := Tree.label_renumber h h' hbr
      refine ⟨hbr, fun links => ?_⟩
      rw [hroot] at hl ⊢
      exact marksOf_root h' h links hl
    · obtain ⟨hbq, hmq⟩ := ih q hq hm
      obtain ⟨hp, hbn⟩ := h.child_renumber h' hbq hq
      exact ⟨hbn, fun links => marksOf_child h' h hp hq (Tree.label_renumber h h' hbn) (hmq links)⟩

/-- The root of a reached tree is in the role of one. -/
theorem Reached.role_root (ht : Reached t) : t.role Tree.root = .root := by
  induction ht with
  | new => rfl
  | append before hq role kind ih =>
    have hne := Nat.ne_of_lt before.wellFormed.root_lt
    unfold Tree.role
    rw [Tree.label_append, if_neg hne]
    exact ih
  | appendIdentifier before hq role name ih =>
    have hne := Nat.ne_of_lt before.wellFormed.root_lt
    unfold Tree.role Tree.appendIdentifier
    rw [Tree.label_append, if_neg hne]
    exact ih
  | annotate before hid note ih =>
    unfold Tree.role at ih ⊢
    rw [Tree.label_annotate (has_iff.mp hid)]
    split
    · next e => rw [← e]; exact ih
    · exact ih
  | detach before hid ih =>
    unfold Tree.role
    rw [Tree.label_detach]
    exact ih
  | prune before p ih =>
    unfold Tree.role
    rw [label_prune before.wellFormed]
    exact ih

/-- The document of a reached tree is one with a root on top. -/
theorem Reached.rooted_toDocument (ht : Reached t) : Tree.rooted t.toDocument = t.toDocument := by
  have h := ht.wellFormed
  have hdoc : t.toDocument = .node (t.label Tree.root) ((t.children Tree.root).map t.documentAt) :=
    h.documentAt_eq Tree.root
  have hkind := h.root_kind
  have hrole := ht.role_root
  unfold Tree.kind at hkind
  unfold Tree.role at hrole
  rw [hdoc, Tree.rooted, Document.label, Document.children, if_pos hkind, ← hkind, ← hrole]

/-! ## The rebuilt tree -/

/-- The place of a node among the attached ones, in pre-order. -/
def position (t : Tree) (n : NodeId) : NodeId := (t.descendants Tree.root).idxOf n

theorem map_position (h : t.WellFormed) :
    (t.descendants Tree.root).map (position t) = List.range (t.descendants Tree.root).length := by
  have hnodup := h.nodup_descendants Tree.root
  apply List.ext_getElem
  · simp
  · intro i h₁ h₂
    simp only [List.getElem_map, List.getElem_range, position, hnodup.idxOf_getElem]

/-- The nodes of a rebuilt tree are the places of the attached nodes. -/
theorem descendants_rebuilt (h : t.WellFormed) (hb : Tree.ofDocument t.toDocument = .ok t')
    (hd : t'.documentAt Tree.root = t.documentAt Tree.root) :
    t'.descendants Tree.root = (t.descendants Tree.root).map (position t) := by
  have h' := (Tree.ofDocument_spec hb).1
  have hlen : (t'.descendants Tree.root).length = (t.descendants Tree.root).length := by
    rw [h'.descendants_eq, h.descendants_eq, Branch.length_ids, Branch.length_ids]
    exact congrArg (fun d => (Document.labels d).length) hd
  have hrange := Tree.ofDocument_descendants hb
  have hsize : t'.size = (t.descendants Tree.root).length := by
    rw [← hlen, hrange, List.length_range]
  rw [hrange, map_position h, hsize]

/-- A map of lists without repetition is a bijection between what they hold. -/
theorem bijOn_of_map {l l' : List NodeId} {f : NodeId → NodeId} (hl : l' = l.map f)
    (hnodup : l'.Nodup) : Set.BijOn f {n | n ∈ l} {n | n ∈ l'} := by
  subst hl
  refine ⟨fun n hn => List.mem_map_of_mem hn, fun a ha b hb e => ?_, fun m hm => ?_⟩
  · exact List.inj_on_of_nodup_map hnodup ha hb e
  · obtain ⟨n, hn, rfl⟩ := List.mem_map.mp hm
    exact ⟨n, hn, rfl⟩

/-- **History does not show.** The document of a reached tree, in which only the root is a root, can
be built again. The two trees have the same page. Between their attached nodes there is a bijection,
from pre-order to pre-order, that keeps labels, and up to which the events of the whole tree and the
highlights of all nodes are the same. -/
theorem rebuilt_shows_same (ht : Reached t)
    (hk : ∀ n, t.isAttached n = true → n ≠ Tree.root → t.kind n ≠ .syntaxTree) :
    ∃ t', Tree.ofDocument t.toDocument = .ok t' ∧
      (∀ links o, render links o t' = render links o t) ∧
      ∃ f : NodeId → NodeId,
        Set.BijOn f {n | t.isAttached n = true} {n | t'.isAttached n = true} ∧
        t'.descendants Tree.root = (t.descendants Tree.root).map f ∧
        (∀ n, t.isAttached n = true → t'.label (f n) = t.label n) ∧
        (∀ o, events o (t'.branch Tree.root) =
          (events o (t.branch Tree.root)).map (EventOf.map f)) ∧
        ∀ links n, t.isAttached n = true →
          classify links t' (some (f n)) = classify links t (some n) := by
  have h := ht.wellFormed
  obtain ⟨hn, -⟩ | ⟨-, t', hb⟩ := Tree.ofDocument_cases t.toDocument
  · exact absurd hn (h.not_nestsRoot hk)
  obtain ⟨h', hdoc⟩ := Tree.ofDocument_spec hb
  rw [ht.rooted_toDocument] at hdoc
  have hids := descendants_rebuilt h hb hdoc
  have hbranch : t'.branch Tree.root = (t.branch Tree.root).renumber (position t) := by
    refine Branch.eq_renumber hdoc.symm ?_
    rw [← h'.descendants_eq, ← h.descendants_eq]
    exact hids
  have hroot : position t Tree.root = Tree.root := by
    have hi := congrArg Branch.id hbranch
    rw [Branch.id_renumber, h'.branch_eq, h.branch_eq] at hi
    exact hi.symm
  have hnodup : (t'.descendants Tree.root).Nodup := by
    rw [h'.descendants_eq]
    exact h'.nodup_ids_branch Tree.root
  refine ⟨t', hb, fun links o => render_congr h' h links o hdoc, position t, ?_, hids,
    fun n hn => ?_, fun o => ?_, fun links n hn => ?_⟩
  · simp only [h.isAttached_iff_mem_descendants, h'.isAttached_iff_mem_descendants]
    exact bijOn_of_map hids hnodup
  · exact Tree.label_renumber h h' (branch_of_attached h h' hroot hbranch hn).1
  · rw [hbranch, events_renumber]
  · exact (branch_of_attached h h' hroot hbranch hn).2 links

/-- The class and its method in the sample are detached, so the rebuilt tree has two nodes of four;
the name keeps its text under another number. -/
theorem rebuilt_shows_same_orphanSample :
    Reached orphanSample ∧ orphanSample.size = 4 ∧
      ∃ t', Tree.ofDocument orphanSample.toDocument = .ok t' ∧
        (∀ links o, render links o t' = render links o orphanSample) ∧
        ∃ f : NodeId → NodeId, t'.descendants Tree.root = [f 0, f 3] ∧
          t'.label (f 3) = ⟨.name, .identifier "Widget", []⟩ := by
  have hattached : orphanSample.descendants Tree.root = [0, 3] := by decide +kernel
  have hkind : ∀ n ∈ orphanSample.descendants Tree.root, n ≠ Tree.root →
      orphanSample.kind n ≠ .syntaxTree := by
    rw [hattached]
    decide +kernel
  have hname : orphanSample.label 3 = ⟨.name, .identifier "Widget", []⟩ := by decide +kernel
  have hsize : orphanSample.size = 4 := by decide +kernel
  have h := orphanSample_reached.wellFormed
  obtain ⟨t', hb, hr, f, -, hd, hl, -⟩ := rebuilt_shows_same orphanSample_reached fun n hn =>
    hkind n (h.isAttached_iff_mem_descendants.mp hn)
  refine ⟨orphanSample_reached, hsize, t', hb, hr, f, ?_, ?_⟩
  · rw [hd, hattached]
    rfl
  · have hin : orphanSample.isAttached 3 = true := by decide +kernel
    rw [hl 3 hin, hname]

end CodeView.Interface
