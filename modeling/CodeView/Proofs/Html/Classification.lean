import CodeView.Proofs.Html.Congruence
import CodeView.Proofs.Interface.Reached
import CodeView.Proofs.Syntax.Notes

/-!
# What decides the highlight of a node

The annotations of the nearest annotated node decide, and of these the one whose form comes first in
a fixed order. Nothing else in the tree matters.

* `leading?`: the first annotation of the first form that there is. The highlight and the link are
  those of this annotation (`highlightOf_eq`), so the order of different forms does not count
  (`classify_renote`).
* `marksOf_congr_path`: trees that agree on the way from a node up to its nearest annotated node
  give it the same highlight, and so do trees that were changed elsewhere (`classify_changedAway`).
* `classify_link_iff`: when there is a link.
-/

namespace CodeView.Html

open CodeView.Syntax CodeView.Interface

/-! ## The annotation that decides -/

/-- The forms of annotations, those that decide before others first. -/
def formOrder : List NoteForm :=
  [.type, .usingScope, .member, .methodGroup, .localName, .constant]

/-- The annotation that decides: the first one of the first form that there is. -/
def leading? (notes : List Annotation) : Option Annotation :=
  formOrder.findSome? fun form => firstOf? form notes

/-- The highlight and the link that one annotation of a node of a kind gives. -/
def noteHighlight (links : Links) (kind : Kind) : Annotation → Highlight × Option String
  | .type fullName =>
    if isTypeDecl kind then (.typeDeclaration, none) else (.typeReference, links fullName)
  | .usingScope _ => (.namespaceReference, none)
  | .member symbol _ => (memberHighlight symbol kind, none)
  | .methodGroup _ => (.methodReference, none)
  | .localName _ .parameter => (.argumentReference, none)
  | .localName _ _ => (.unknown, none)
  | .constant _ => (.fieldReference, none)

/-- A search that passes over annotations of other forms asks the first one of its form. -/
theorem search_eq {α : Type} {form : NoteForm} {search : List Annotation → Option α}
    {ask : Annotation → Option α} (hnil : search [] = none)
    (hcons : ∀ note notes,
      search (note :: notes) = if note.form = form then ask note else search notes)
    (notes : List Annotation) : search notes = (firstOf? form notes).bind ask := by
  induction notes with
  | nil => exact hnil
  | cons note notes ih =>
    rw [hcons, firstOf?_cons]
    split
    · rfl
    · exact ih

theorem any_eq_isSome {form : NoteForm} {test : Annotation → Bool}
    (htest : ∀ note, test note = decide (note.form = form)) (notes : List Annotation) :
    notes.any test = (firstOf? form notes).isSome := by
  unfold firstOf?
  rw [List.isSome_find?, funext htest]

theorem typeName?_eq (notes : List Annotation) :
    typeName? notes = (firstOf? .type notes).bind Annotation.typeName? :=
  search_eq rfl (fun note _ => by cases note <;> rfl) notes

theorem memberKind?_eq (notes : List Annotation) :
    memberKind? notes = (firstOf? .member notes).bind Annotation.memberKind? :=
  search_eq rfl (fun note _ => by cases note <;> rfl) notes

theorem variableKind?_eq (notes : List Annotation) :
    variableKind? notes = (firstOf? .localName notes).bind Annotation.variableKind? :=
  search_eq rfl (fun note _ => by cases note <;> rfl) notes

theorem namesScope_eq (notes : List Annotation) :
    namesScope notes = (firstOf? .usingScope notes).isSome :=
  any_eq_isSome (fun note => by cases note <;> rfl) notes

theorem namesMethodGroup_eq (notes : List Annotation) :
    namesMethodGroup notes = (firstOf? .methodGroup notes).isSome :=
  any_eq_isSome (fun note => by cases note <;> rfl) notes

theorem holdsConstant_eq (notes : List Annotation) :
    holdsConstant notes = (firstOf? .constant notes).isSome :=
  any_eq_isSome (fun note => by cases note <;> rfl) notes

/-- One annotation decides, the first of the first form that there is. -/
theorem highlightOf_eq (links : Links) (kind : Kind) (notes : List Annotation) :
    highlightOf links kind notes =
      ((leading? notes).map (noteHighlight links kind)).getD (.unknown, none) := by
  unfold highlightOf leading? formOrder
  rw [typeName?_eq, namesScope_eq, memberKind?_eq, namesMethodGroup_eq, variableKind?_eq,
    holdsConstant_eq]
  simp only [List.findSome?_cons, List.findSome?_nil]
  -- Down the order of forms, up to the first that there is.
  cases h : firstOf? .type notes with
  | some note =>
    cases note <;> cases form_firstOf? h
    rfl
  | none =>
    cases h : firstOf? .usingScope notes with
    | some note =>
      cases note <;> cases form_firstOf? h
      rfl
    | none =>
      cases h : firstOf? .member notes with
      | some note =>
        cases note <;> cases form_firstOf? h
        rfl
      | none =>
        cases h : firstOf? .methodGroup notes with
        | some note =>
          cases note <;> cases form_firstOf? h
          rfl
        | none =>
          cases h : firstOf? .localName notes with
          | some note =>
            cases note <;> cases form_firstOf? h
            next variableKind => cases variableKind <;> rfl
          | none =>
            cases h : firstOf? .constant notes with
            | some note =>
              cases note <;> cases form_firstOf? h
              rfl
            | none => rfl

theorem highlightOf_congr {notes notes' : List Annotation} (h : SameByForm notes notes')
    (links : Links) (kind : Kind) :
    highlightOf links kind notes' = highlightOf links kind notes := by
  have hlead : leading? notes' = leading? notes := by
    unfold leading?
    simp only [h.firstOf?_eq]
  rw [highlightOf_eq, highlightOf_eq, hlead]

/-- No other form comes before types. -/
theorem leading?_eq_type {notes : List Annotation} {fullName : String} :
    leading? notes = some (.type fullName) ↔ firstOf? .type notes = some (.type fullName) := by
  unfold leading? formOrder
  rw [List.findSome?_cons]
  cases h : firstOf? .type notes with
  | some note => rfl
  | none =>
    refine iff_of_false (fun hlead => ?_) (by simp)
    obtain ⟨form, hm, hfirst⟩ := List.exists_of_findSome?_eq_some hlead
    have hform : NoteForm.type = form := form_firstOf? hfirst
    subst hform
    simp at hm

theorem noteHighlight_link_iff {links : Links} {kind : Kind} {note : Annotation} {url : String} :
    (noteHighlight links kind note).2 = some url ↔
      ∃ fullName, note = .type fullName ∧ isTypeDecl kind = false ∧ links fullName = some url := by
  cases note with
  | type fullName => cases h : isTypeDecl kind <;> simp [noteHighlight, h]
  | localName name variableKind => cases variableKind <;> simp [noteHighlight]
  | _ => simp [noteHighlight]

/-- There is a link if the first type that is named has one and the node declares no type. -/
theorem highlightOf_link_iff {links : Links} {kind : Kind} {notes : List Annotation}
    {url : String} :
    (highlightOf links kind notes).2 = some url ↔
      ∃ fullName, firstOf? .type notes = some (.type fullName) ∧ isTypeDecl kind = false ∧
        links fullName = some url := by
  rw [highlightOf_eq]
  simp only [← leading?_eq_type]
  cases leading? notes with
  | none => simp
  | some note => simp [noteHighlight_link_iff]

theorem highlightOf_of_link {links : Links} {kind : Kind} {notes : List Annotation} {url : String}
    (h : (highlightOf links kind notes).2 = some url) :
    (highlightOf links kind notes).1 = .typeReference := by
  obtain ⟨fullName, hfirst, hkind, -⟩ := highlightOf_link_iff.mp h
  rw [highlightOf_eq, leading?_eq_type.mpr hfirst]
  simp [noteHighlight, hkind]

/-! ## Highlights of trees -/

theorem classify_eq (links : Links) (t : Tree) (n : NodeId) :
    classify links t (some n) =
      ((t.nearestAnnotated? n).map fun a => highlightOf links (t.kind a) (t.annotations a)).getD
        (.unknown, none) := by
  unfold classify
  rw [Option.bind_some]
  cases t.nearestAnnotated? n <;> rfl

/-- The order of annotations of different forms does not count. -/
theorem classify_renote {t : Tree} {notes : NodeId → List Annotation}
    (h : ∀ n, t.has n = true → SameByForm (t.annotations n) (notes n)) (links : Links)
    (node : Option NodeId) : classify links (t.renote notes) node = classify links t node := by
  cases node with
  | none => rfl
  | some n =>
    rw [classify_eq, classify_eq, Tree.nearestAnnotated?_renote h]
    simp only [Tree.kind_renote, highlightOf_congr (Tree.sameByForm_renote h _)]

/-- Trees that agree on the way up from a node give it the same highlight. -/
theorem marksOf_congr_path {t t' : Tree} (h : t.WellFormed) (h' : t'.WellFormed) (links : Links)
    {n : NodeId} (hagree : ∀ m ∈ t.notePath n, t.AgreeAt t' m) :
    marksOf links t' n = marksOf links t n := by
  induction n using h.induction_up with
  | step n ih =>
    obtain ⟨hlabel, hparent⟩ := hagree n (h.self_mem_notePath n)
    rw [marksOf_eq h', marksOf_eq h]
    unfold Tree.annotations Tree.kind
    rw [hlabel, hparent]
    split
    · next hn =>
      cases hq : t.parent? n with
      | none => rfl
      | some q => exact ih q hq fun m hm => hagree m (h.mem_notePath_of_parent hn hq hm)
    · rfl

theorem classify_changedAway {t t' : Tree} (h : t.WellFormed) (links : Links) {n : NodeId}
    (hn : n < t.size) (hc : Tree.ChangedAway (t.notePath n) t t') :
    classify links t' (some n) = classify links t (some n) := by
  have hpath : ∀ m ∈ t.notePath n, m < t.size := fun m hm =>
    Nat.lt_of_le_of_lt (h.le_of_mem_lineage (Tree.mem_lineage_of_notePath hm)) hn
  obtain ⟨h', -, hagree⟩ := hc.agree h hpath
  exact marksOf_congr_path h h' links hagree

theorem isTypeDecl_eq_false_iff {kind : Kind} :
    isTypeDecl kind = false ↔ ∀ form modifiers, kind ≠ .typeDecl form modifiers := by
  cases kind <;> simp [isTypeDecl]

theorem classify_link_iff {links : Links} {t : Tree} {n : NodeId} {url : String} :
    (classify links t (some n)).2 = some url ↔
      ∃ a fullName, t.nearestAnnotated? n = some a ∧
        firstOf? .type (t.annotations a) = some (.type fullName) ∧
        (∀ form modifiers, t.kind a ≠ .typeDecl form modifiers) ∧ links fullName = some url := by
  rw [classify_eq]
  cases t.nearestAnnotated? n with
  | none => simp
  | some a => simp [highlightOf_link_iff, isTypeDecl_eq_false_iff]

theorem classify_of_link {links : Links} {t : Tree} {n : NodeId} {url : String}
    (h : (classify links t (some n)).2 = some url) :
    (classify links t (some n)).1 = .typeReference := by
  rw [classify_eq] at h ⊢
  cases ha : t.nearestAnnotated? n with
  | none =>
    rw [ha] at h
    cases h
  | some a =>
    rw [ha] at h
    exact highlightOf_of_link h

/-- **The nearest annotations decide, by their form.** Annotations of different forms can change
places on all nodes, and the tree can change everywhere but on the way from a node up to its nearest
annotated node: its highlight and its link stay. They are those of the first annotation of the first
form that there is. There is a link if and only if the nearest annotated node names a type that has
one and is no declaration of a type; then the node is a reference to a type. -/
theorem classify_by_nearest_notes {t : Tree} (ht : Reached t) (links : Links) :
    (∀ notes : NodeId → List Annotation,
      (∀ n, t.has n = true → SameByForm (t.annotations n) (notes n)) →
        ∀ node, classify links (t.renote notes) node = classify links t node) ∧
    (∀ n t', t.has n = true → Tree.ChangedAway (t.notePath n) t t' →
      classify links t' (some n) = classify links t (some n)) ∧
    (∀ n, classify links t (some n) =
      ((t.nearestAnnotated? n).bind fun a =>
        (leading? (t.annotations a)).map (noteHighlight links (t.kind a))).getD (.unknown, none)) ∧
    ∀ n url,
      ((classify links t (some n)).2 = some url ↔
        ∃ a fullName, t.nearestAnnotated? n = some a ∧
          firstOf? .type (t.annotations a) = some (.type fullName) ∧
          (∀ form modifiers, t.kind a ≠ .typeDecl form modifiers) ∧ links fullName = some url) ∧
      ((classify links t (some n)).2 = some url →
        (classify links t (some n)).1 = .typeReference) := by
  refine ⟨fun notes h node => classify_renote h links node, fun n t' hn hc => ?_, fun n => ?_,
    fun n url => ⟨classify_link_iff, classify_of_link⟩⟩
  · exact classify_changedAway ht.wellFormed links (has_iff.mp hn) hc
  · rw [classify_eq]
    cases t.nearestAnnotated? n with
    | none => rfl
    | some a => exact highlightOf_eq links (t.kind a) (t.annotations a)

/-- A name (2) in a use of a type (1) that names a method before two types. -/
def partTree : Tree :=
  ((((Tree.empty.append 0 .member .simpleType).annotate 1 (.member .method "Widgets.Run")).annotate
    1 (.type "Widgets.Part")).annotate 1 (.type "Widgets.Whole")).appendIdentifier 1 .name "Part"

theorem partTree_reached : Reached partTree :=
  ((((Reached.new.append (by decide) _ _).annotate (by decide) _).annotate (by decide) _).annotate
    (by decide) _).appendIdentifier (by decide) _ _

/-- The method after the types. -/
def partNotes (n : NodeId) : List Annotation :=
  if n = 1 then
    [.type "Widgets.Part", .type "Widgets.Whole", .member .method "Widgets.Run"]
  else []

/-- Both types have a page. -/
def partLinks : Links := fun fullName => some ("/" ++ fullName)

/-- The root is annotated, and the name gets a neighbour that is detached again. -/
theorem partTree_changed :
    Tree.ChangedAway (partTree.notePath 2) partTree
      (((partTree.annotate 0 (.usingScope "Widgets")).appendIdentifier 1 .name "Whole").detach 3) :=
  ((Tree.ChangedAway.refl.annotate (by decide) (by decide +kernel) _).append (by decide) _ _).detach
    (by decide) (by decide +kernel)

/-- The name leads to the page of the first type in all three trees. -/
theorem classify_by_nearest_notes_partTree :
    Reached partTree ∧
      classify partLinks (partTree.renote partNotes) (some 2) =
        (.typeReference, some "/Widgets.Part") ∧
      classify partLinks
        (((partTree.annotate 0 (.usingScope "Widgets")).appendIdentifier 1 .name "Whole").detach 3)
        (some 2) = (.typeReference, some "/Widgets.Part") := by
  obtain ⟨hnotes, hchanged, -, hlink⟩ := classify_by_nearest_notes partTree_reached partLinks
  have hsame : ∀ n, partTree.has n = true → SameByForm (partTree.annotations n) (partNotes n) := by
    intro n hn
    have hlt : n < 3 := has_iff.mp hn
    obtain rfl | rfl | rfl : n = 0 ∨ n = 1 ∨ n = 2 := by grind
    · exact fun _ => rfl
    · intro form
      cases form <;> decide +kernel
    · exact fun _ => rfl
  have hurl : (classify partLinks partTree (some 2)).2 = some "/Widgets.Part" :=
    (hlink 2 _).1.mpr ⟨1, "Widgets.Part", by decide +kernel, by decide +kernel,
      isTypeDecl_eq_false_iff.mp (by decide +kernel), by decide⟩
  have hlook : classify partLinks partTree (some 2) = (.typeReference, some "/Widgets.Part") :=
    Prod.ext ((hlink 2 _).2 hurl) hurl
  refine ⟨partTree_reached, ?_, ?_⟩
  · rw [hnotes partNotes hsame, hlook]
  · rw [hchanged 2 _ (by decide) partTree_changed, hlook]

end CodeView.Html
