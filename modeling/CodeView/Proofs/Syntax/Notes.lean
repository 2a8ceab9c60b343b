import CodeView.Proofs.Syntax.Paths

/-!
# Annotations of nodes

Which annotations of a tree have the same meaning, and which nodes decide what the nearest annotated
node of a node is.

* `NoteForm`, `firstOf?`: the form of an annotation, and the first annotation of a form.
  `SameByForm`: the annotations of each form stand in the same order in both lists, so the first of
  each form is the same (`SameByForm.firstOf?_eq`).
* `renote`: a tree with other annotations on the same nodes.
* `notePath`: the way from a node up to its nearest annotated node.
* `ChangedAway`: the trees that come from a tree by changes that leave out the nodes of a path. They
  show the same of these nodes (`ChangedAway.agree`).
-/

namespace CodeView.Syntax

/-! ## Forms of annotations -/

/-- The form of an annotation: what it names, without the name. -/
inductive NoteForm where
  | type
  | usingScope
  | member
  | methodGroup
  | localName
  | constant
  deriving DecidableEq, Repr

/-- The form of an annotation. -/
def Annotation.form : Annotation → NoteForm
  | .type _ => .type
  | .usingScope _ => .usingScope
  | .member _ _ => .member
  | .methodGroup _ => .methodGroup
  | .localName _ _ => .localName
  | .constant _ => .constant

/-- The full name of a type that an annotation names. -/
def Annotation.typeName? : Annotation → Option String
  | .type fullName => some fullName
  | _ => none

/-- The kind of a member that an annotation names. -/
def Annotation.memberKind? : Annotation → Option SymbolKind
  | .member symbol _ => some symbol
  | _ => none

/-- The kind of a variable that an annotation names. -/
def Annotation.variableKind? : Annotation → Option VariableKind
  | .localName _ kind => some kind
  | _ => none

/-- The second list is a reordering of the first in which annotations of one form stand in the same
order as before. Each annotation has one form, so none is lost or added. -/
def SameByForm (notes notes' : List Annotation) : Prop :=
  ∀ form : NoteForm, notes'.filter (·.form = form) = notes.filter (·.form = form)

/-- The first annotation of a form. -/
def firstOf? (form : NoteForm) (notes : List Annotation) : Option Annotation :=
  notes.find? (·.form = form)

theorem form_firstOf? {form : NoteForm} {notes : List Annotation} {note : Annotation}
    (h : firstOf? form notes = some note) : note.form = form := by
  simpa using List.find?_some h

theorem firstOf?_cons (form : NoteForm) (note : Annotation) (notes : List Annotation) :
    firstOf? form (note :: notes) =
      if note.form = form then some note else firstOf? form notes := by
  unfold firstOf?
  rw [List.find?_cons]
  split <;> simp_all

/-- There is no annotation if there is none of any form. -/
theorem isEmpty_iff_firstOf? {notes : List Annotation} :
    notes.isEmpty = true ↔ ∀ form, firstOf? form notes = none := by
  cases notes with
  | nil => exact iff_of_true rfl fun _ => rfl
  | cons note notes =>
    refine iff_of_false Bool.false_ne_true fun h => ?_
    have hown := h note.form
    rw [firstOf?_cons, if_pos rfl] at hown
    cases hown

namespace SameByForm

variable {notes notes' : List Annotation}

theorem firstOf?_eq (h : SameByForm notes notes') (form : NoteForm) :
    firstOf? form notes' = firstOf? form notes := by
  unfold firstOf?
  rw [← List.head?_filter, ← List.head?_filter, h form]

theorem isEmpty_eq (h : SameByForm notes notes') : notes'.isEmpty = notes.isEmpty := by
  rw [Bool.eq_iff_iff, isEmpty_iff_firstOf?, isEmpty_iff_firstOf?]
  simp only [h.firstOf?_eq]

end SameByForm

namespace Tree

variable {t t' : Tree}

/-! ## Other annotations on the same nodes -/

/-- A tree with other annotations on each of its nodes. -/
def renote (t : Tree) (notes : NodeId → List Annotation) : Tree :=
  ⟨t.entries.mapIdx fun n e => { e with label := { e.label with annotations := notes n } }⟩

section Renote

variable {notes : NodeId → List Annotation}

theorem entries_renote (t : Tree) (notes : NodeId → List Annotation) (n : NodeId) :
    (t.renote notes).entries[n]? = t.entries[n]?.map fun e =>
      { e with label := { e.label with annotations := notes n } } :=
  Array.getElem?_mapIdx

theorem parent?_renote (t : Tree) (notes : NodeId → List Annotation) (n : NodeId) :
    (t.renote notes).parent? n = t.parent? n := by
  unfold parent?
  rw [entries_renote]
  cases t.entries[n]? <;> rfl

theorem kind_renote (t : Tree) (notes : NodeId → List Annotation) (n : NodeId) :
    (t.renote notes).kind n = t.kind n := by
  unfold kind label
  rw [entries_renote]
  cases t.entries[n]? <;> rfl

theorem lineage_renote (t : Tree) (notes : NodeId → List Annotation) (n : NodeId) :
    (t.renote notes).lineage n = t.lineage n := by
  have hclimb : ∀ k n, (t.renote notes).climb k n = t.climb k n := by
    intro k
    induction k with
    | zero => exact fun _ => rfl
    | succ k ih =>
      intro n
      rw [climb, climb, parent?_renote]
      cases t.parent? n with
      | none => rfl
      | some q => exact congrArg (n :: ·) (ih q)
  have hsize : (t.renote notes).size = t.size := Array.size_mapIdx
  unfold lineage
  rw [hsize, hclimb]

/-- If the annotations of every node have been reordered, those at every number have. -/
theorem sameByForm_renote
    (h : ∀ n, t.has n = true → SameByForm (t.annotations n) (notes n)) (n : NodeId) :
    SameByForm (t.annotations n) ((t.renote notes).annotations n) := by
  have hn := h n
  unfold annotations label at hn ⊢
  rw [entries_renote]
  cases he : t.entries[n]? with
  | none => exact fun _ => rfl
  | some e =>
    rw [he] at hn
    exact hn (decide_eq_true (Array.getElem?_eq_some_iff.mp he).1)

theorem nearestAnnotated?_renote
    (h : ∀ n, t.has n = true → SameByForm (t.annotations n) (notes n)) (n : NodeId) :
    (t.renote notes).nearestAnnotated? n = t.nearestAnnotated? n := by
  unfold nearestAnnotated?
  rw [lineage_renote]
  simp only [(sameByForm_renote h _).isEmpty_eq]

end Renote

/-! ## The way to the nearest annotated node -/

/-- The way from a node up to its nearest annotated node, both included; up to its topmost ancestor
if none is annotated. -/
def notePath (t : Tree) (n : NodeId) : List NodeId :=
  (t.lineage n).takeWhile (fun m => (t.annotations m).isEmpty) ++ (t.nearestAnnotated? n).toList

theorem mem_lineage_of_notePath {m n : NodeId} (h : m ∈ t.notePath n) : m ∈ t.lineage n := by
  rcases List.mem_append.mp h with h | h
  · exact (List.takeWhile_prefix _).mem h
  · exact List.mem_of_find?_eq_some (Option.mem_toList.mp h)

theorem WellFormed.notePath_eq (h : t.WellFormed) (n : NodeId) :
    t.notePath n =
      n :: if (t.annotations n).isEmpty then ((t.parent? n).map t.notePath).getD [] else [] := by
  unfold notePath
  rw [h.nearestAnnotated?_eq]
  cases hq : t.parent? n with
  | none =>
    rw [lineage_of_none hq]
    cases hn : (t.annotations n).isEmpty <;> simp [hn]
  | some q =>
    rw [h.lineage_of_parent hq]
    cases hn : (t.annotations n).isEmpty <;> simp [hn]

theorem WellFormed.self_mem_notePath (h : t.WellFormed) (n : NodeId) : n ∈ t.notePath n := by
  rw [h.notePath_eq]
  exact List.mem_cons_self

/-- The way from a node without annotations leads on through its parent. -/
theorem WellFormed.mem_notePath_of_parent (h : t.WellFormed) {m n q : NodeId}
    (hn : (t.annotations n).isEmpty = true) (hq : t.parent? n = some q) (hm : m ∈ t.notePath q) :
    m ∈ t.notePath n := by
  rw [h.notePath_eq, if_pos hn, hq]
  exact List.mem_cons_of_mem n hm

/-! ## Changes elsewhere -/

/-- What a tree can become by changes that leave out the nodes of a path: nodes are added anywhere,
and other nodes of the tree are annotated and detached, in any order and any number of times. -/
inductive ChangedAway (path : List NodeId) (t : Tree) : Tree → Prop where
  | refl : ChangedAway path t t
  | append {t' : Tree} {q : NodeId} (before : ChangedAway path t t') (hq : t'.has q = true)
    (role : Role) (kind : Kind) : ChangedAway path t (t'.append q role kind)
  | annotate {t' : Tree} {id : NodeId} (before : ChangedAway path t t') (hid : t'.has id = true)
    (haway : id ∉ path) (note : Annotation) : ChangedAway path t (t'.annotate id note)
  | detach {t' : Tree} {id : NodeId} (before : ChangedAway path t t') (hid : t'.has id = true)
    (haway : id ∉ path) : ChangedAway path t (t'.detach id)

/-- Two trees show the same of a node, as far as the way up is concerned. -/
def AgreeAt (t t' : Tree) (m : NodeId) : Prop :=
  t'.label m = t.label m ∧ t'.parent? m = t.parent? m

/-- Each change keeps the tree well formed and leaves the nodes of the path as they were. -/
theorem ChangedAway.agree {path : List NodeId} (hc : ChangedAway path t t') (h : t.WellFormed)
    (hpath : ∀ m ∈ path, m < t.size) :
    t'.WellFormed ∧ t.size ≤ t'.size ∧ ∀ m ∈ path, AgreeAt t t' m := by
  induction hc with
  | refl => exact ⟨h, Nat.le_refl _, fun m _ => ⟨rfl, rfl⟩⟩
  | @append t' q _ hq role kind ih =>
    obtain ⟨hwf, hsize, hagree⟩ := ih
    refine ⟨hwf.append (of_decide_eq_true hq) role kind, ?_, fun m hm => ?_⟩
    · rw [size_append]
      exact Nat.le_succ_of_le hsize
    · have hne : m ≠ t'.size := Nat.ne_of_lt (Nat.lt_of_lt_of_le (hpath m hm) hsize)
      unfold AgreeAt
      rw [label_append, parent?_append, if_neg hne, if_neg hne]
      exact hagree m hm
  | @annotate t' id _ hid haway note ih =>
    obtain ⟨hwf, hsize, hagree⟩ := ih
    refine ⟨hwf.annotate id note, ?_, fun m hm => ?_⟩
    · rw [size_annotate]
      exact hsize
    · have hne : m ≠ id := fun e => haway (e ▸ hm)
      unfold AgreeAt
      rw [label_annotate (of_decide_eq_true hid), if_neg hne, parent?_annotate]
      exact hagree m hm
  | @detach t' id _ hid haway ih =>
    obtain ⟨hwf, hsize, hagree⟩ := ih
    refine ⟨hwf.detach id, ?_, fun m hm => ?_⟩
    · rw [size_detach]
      exact hsize
    · have hne : m ≠ id := fun e => haway (e ▸ hm)
      unfold AgreeAt
      rw [label_detach, parent?_detach, if_neg hne]
      exact hagree m hm

end Tree

end CodeView.Syntax
