import CodeView.Proofs.Json.Carries
import CodeView.Proofs.Json.Numerals
import CodeView.Proofs.Json.Texts
import CodeView.Syntax.Build
import Mathlib.Tactic.MkIffOfInductiveProp

/-!
# One document, however it is read

A value in memory and a text of it give the same tree, whatever the order in which the members of an
object are written, if the reader takes every numeral for the number that it is for. An annotation
is the one thing that texts are more liberal with: there its payload may be a list of fields.

* `kindOfMembers_congr`: the kind of a node does not depend on the order of the members;
* `nodeMembers_eq_ok`: neither does what the members say of a node (`Draft.Reads`), though they are
  taken one by one;
* `carries_document` joins the two by induction on how deep the value is nested;
* `Tree.ofInput_agrees_ofValue` is the result for trees, and `Tree.ofInput_closeText_ne` a text with
  a numeral that the reader takes for another number than it denotes.
-/

namespace CodeView.Syntax.Format

open CodeView.Json

variable {o₁ o₂ : Origin}

/-! ## Vocabularies, literals and annotations -/

theorem carries_modifiers : Carries o₁ o₂ (fun _ => True) modifiers := by
  intro c₁ c₂ r₁ r₂ v a ho₁ ho₂ _ h₁ h₂ ha
  obtain ⟨words, hwords, ha⟩ := bind_eq_ok.1 ha
  have hstrings : Carries o₁ o₂ (fun _ => True) string := carries_scalar _ _
  have hlist := carries_list hstrings ho₁ ho₂ (fun _ _ => trivial) h₁ h₂ hwords
  exact bind_eq_ok.2 ⟨words, hlist, ha⟩

theorem carries_literal (ho : o₁ = .held ↔ o₂ = .held) :
    Carries o₁ o₂ (fun _ => True) literal := by
  refine (carries_variant (Q := fun _ => True) ho ?_).mono fun _ _ _ _ => trivial
  simp only [List.forall_mem_cons, List.not_mem_nil, false_imp_iff, implies_true, and_true]
  exact ⟨trivial, (carries_scalar _ _).map _, (carries_scalar _ _).map _,
    (carries_scalar _ _).map _, (carries_scalar _ _).map _, (carries_scalar _ _).map _,
    (carries_scalar _ _).map _⟩

theorem carries_note (ho : o₁ = .held ↔ o₂ = .held) :
    Carries o₁ o₂ (fun v => ∀ w ∈ v.payloads, o₁ = .text → w.isArray = false) note := by
  have hrecord : ∀ {wording} {fields : Fields Annotation}, FieldsCarry o₁ o₂ fields →
      PayloadCarries o₁ o₂ (fun w => o₁ = .text → w.isArray = false) (.record wording fields) :=
    fun hfields => ⟨hfields, fun ho₁ _ hplain => nomatch hplain ho₁⟩
  have hstring : ∀ name, FieldsCarry o₁ o₂ (.required name string) :=
    fun name => .required name (carries_scalar _ _)
  refine carries_variant ho ?_
  simp only [List.forall_mem_cons, List.not_mem_nil, false_imp_iff, implies_true, and_true]
  refine ⟨hrecord ?_, hrecord ?_, hrecord ?_, hrecord ?_, hrecord ?_, hrecord ?_⟩
  · exact (hstring _).map _
  · exact (hstring _).map _
  · exact ((FieldsCarry.required _ (carries_name ho _)).map _).seq (hstring _)
  · exact (hstring _).map _
  · exact ((hstring _).map _).seq (.required _ (carries_name ho _))
  · exact (FieldsCarry.required _ (carries_literal ho)).map _

/-! ## Values that describe nodes -/

mutual

/-- The values that stand for nodes in the value of a node: itself, and the nodes of its
children. -/
def nodeValues : Value → List Value
  | .object members => .object members :: nodesOfMembers members
  | v => [v]

/-- The nodes of the children among the members of a node. -/
def nodesOfMembers : List (String × Value) → List Value
  | [] => []
  | (key, v) :: rest =>
    if key = "children" then nodesOfChildren v ++ nodesOfMembers rest else nodesOfMembers rest

/-- The nodes of a list of children. -/
def nodesOfChildren : Value → List Value
  | .array items => nodesOfItems items
  | _ => []

/-- The nodes of the items of a list of children. -/
def nodesOfItems : List Value → List Value
  | [] => []
  | v :: rest => nodeValues v ++ nodesOfItems rest

end

/-- The values that stand for annotations of a node. -/
def noteValues : Value → List Value
  | .object members => (members.filter (·.1 == "annotations")).flatMap (·.2.items)
  | _ => []

/-- No payload of an annotation in the value of a node is an array. -/
def PlainNotes (v : Value) : Prop :=
  ∀ node ∈ nodeValues v, ∀ note ∈ noteValues node, ∀ payload ∈ note.payloads,
    payload.isArray = false

instance (v : Value) : Decidable (PlainNotes v) :=
  inferInstanceAs (Decidable (∀ node ∈ nodeValues v, ∀ note ∈ noteValues node,
    ∀ payload ∈ note.payloads, payload.isArray = false))

theorem mem_nodesOfItems {node : Value} {items : List Value} :
    node ∈ nodesOfItems items ↔ ∃ v ∈ items, node ∈ nodeValues v := by
  induction items with
  | nil => simp [nodesOfItems]
  | cons v rest ih => simp [nodesOfItems, ih]

theorem mem_nodesOfMembers {node v : Value} {members : List (String × Value)}
    (hv : ("children", v) ∈ members) (h : node ∈ nodesOfChildren v) :
    node ∈ nodesOfMembers members := by
  induction members with
  | nil => cases hv
  | cons m rest ih =>
    obtain ⟨key, w⟩ := m
    obtain ⟨rfl, rfl⟩ | hrest := (List.mem_cons.1 hv).imp_left Prod.mk.inj
    · simp [nodesOfMembers, h]
    · by_cases hkey : key = "children" <;> simp [nodesOfMembers, hkey, ih hrest]

section PlainNotes

variable {entries : List (String × Value)} {v : Value}

/-- The annotations of a node itself. -/
theorem PlainNotes.note (h : PlainNotes (.object entries)) (hv : ("annotations", v) ∈ entries) :
    ∀ note ∈ v.items, ∀ payload ∈ note.payloads, payload.isArray = false := by
  intro note hnote
  refine h (.object entries) (by simp [nodeValues]) note ?_
  exact List.mem_flatMap.2 ⟨_, List.mem_filter.2 ⟨hv, rfl⟩, hnote⟩

/-- The annotations of the children of a node. -/
theorem PlainNotes.child (h : PlainNotes (.object entries)) (hv : ("children", v) ∈ entries) :
    ∀ child ∈ v.items, PlainNotes child := by
  intro child hchild node hnode
  cases v with
  | array items =>
    have hitems := mem_nodesOfItems.2 ⟨child, hchild, hnode⟩
    exact h node (List.mem_cons_of_mem _ (mem_nodesOfMembers hv hitems))
  | _ => cases hchild

end PlainNotes

/-! ## Kinds -/

/-- The fields of every kind are read the same whatever the order of the members. -/
theorem kinds_carry : ∀ k ∈ kinds, FieldsCarry .held .held k.2 := by
  have hmodifiers : FieldsCarry .held .held modifiersField := .optional _ carries_modifiers _
  simp only [kinds, List.forall_mem_cons, List.not_mem_nil, false_imp_iff, implies_true, and_true,
    FieldsCarry.pure, true_and]
  and_intros
  all_goals
    apply_rules [FieldsCarry.map, FieldsCarry.seq, FieldsCarry.optional, FieldsCarry.required,
      carries_nullable, carries_name, carries_scalar, carries_literal, Iff.rfl]

theorem carries_kindTagged (positions : Bool) {Q : Value → Prop} :
    Carries o₁ o₂ Q fun _ r => kindTagged positions r := by
  intro c₁ c₂ r₁ r₂ v fields _ _ _ h₁ h₂ hfields
  cases v with
  | scalar s =>
    obtain ⟨span₁, rfl⟩ := h₁.of_scalar
    obtain ⟨span₂, rfl⟩ := h₂.of_scalar
    cases s with
    | string => exact hfields
    | number n =>
      cases n with
      | natural => exact hfields
      | _ => simp [kindTagged] at hfields
    | _ => simp [kindTagged] at hfields
  | array =>
    obtain ⟨_, _, _, rfl, -⟩ := h₁.of_array
    simp [kindTagged] at hfields
  | object =>
    obtain ⟨_, _, _, rfl, -⟩ := h₁.of_object
    simp [kindTagged] at hfields

/-- A tag names one of the kinds. -/
theorem mem_kinds_of_kindTagged {positions : Bool} {r : Reading} {fields : Fields Kind}
    (h : kindTagged positions r = .ok fields) : ∃ k ∈ kinds, k.2 = fields := by
  unfold kindTagged at h
  split at h
  · unfold kindNamed at h
    split at h
    · next k hk => exact ⟨k, List.mem_of_find?_eq_some hk, by simpa using h⟩
    · cases h
  · split at h
    · next k hk => exact ⟨k, List.mem_of_getElem? hk, by simpa using h⟩
    · cases h
  · cases h

/-- The members of a node that the kind is read from: all but the tag. -/
def untagged (members : List Member) : List Member :=
  members.filter (!·.isNamed "kind")

theorem untagged_of_absent {members : List Member} (h : Fields.find members "kind" = none) :
    untagged members = members := by
  have hnone := List.find?_eq_none.1 (Option.map_eq_none_iff.1 h)
  exact List.filter_eq_self.2 fun m hm => by simpa using hnone m hm

theorem findTag_of_absent {positions : Bool} {members : List Member}
    (h : Fields.find members "kind" = none) (found : HeldKind) :
    findTag positions members found =
      .ok { found with others := members.reverse ++ found.others } := by
  induction members generalizing found with
  | nil => rfl
  | cons m rest ih =>
    cases hm : m.isNamed "kind" with
    | true => cases Fields.find_cons_self hm ▸ h
    | false => simp [findTag, hm, ih (Fields.find_cons_of_other hm ▸ h)]

/-- The tag is found wherever it stands. -/
theorem findTag_of_present {positions : Bool} {members : List Member}
    (hnodup : (members.map Member.key).Nodup) {r : Reading}
    (h : Fields.find members "kind" = some r) (others : List Member) :
    findTag positions members ⟨none, others⟩ = (kindTagged positions r).map fun fields =>
      ⟨some fields, (untagged members).reverse ++ others⟩ := by
  induction members generalizing others with
  | nil => cases h
  | cons m rest ih =>
    obtain ⟨hm, hnodup⟩ := List.nodup_cons.1 hnodup
    cases hnamed : m.isNamed "kind" with
    | true =>
      have habsent := Fields.find_eq_none_of_notMem hm hnamed
      have huntagged : untagged (m :: rest) = rest := by
        rw [← untagged_of_absent habsent]
        simp [untagged, hnamed]
      cases (Fields.find_cons_self hnamed).symm.trans h
      cases htag : kindTagged positions m.value <;>
        simp [findTag, hnamed, htag, findTag_of_absent habsent, huntagged, bind, Except.bind,
          Except.map]
    | false =>
      have hrest := Fields.find_cons_of_other hnamed ▸ h
      simp [findTag, hnamed, ih hnodup hrest, untagged]

/-- The kind is that of the tag, with its fields read from the other members. -/
theorem kindOfMembers_eq_ok {positions : Bool} {members : List Member}
    (hnodup : (members.map Member.key).Nodup) {kind : Kind} :
    kindOfMembers positions members = .ok kind ↔ ∃ r fields,
      Fields.find members "kind" = some r ∧ kindTagged positions r = .ok fields ∧
      fields.ofMembers Context.held (untagged members) none = .ok kind := by
  cases h : Fields.find members "kind" with
  | none => simp [kindOfMembers, findTag_of_absent h, ok_bind]
  | some r =>
    cases htag : kindTagged positions r <;>
      simp [kindOfMembers, findTag_of_present hnodup h, htag, bind, Except.bind, Except.map]

/-- The order of the members does not count for the kind. -/
theorem kindOfMembers_congr {positions : Bool} {members₁ members₂ : List Member}
    {entries : List (String × Value)} (h₁ : ShowsMembers Context.held members₁ entries)
    (h₂ : ShowsMembers Context.held members₂ entries) {kind : Kind}
    (hkind : kindOfMembers positions members₁ = .ok kind) :
    kindOfMembers positions members₂ = .ok kind := by
  obtain ⟨r₁, fields, hfind₁, htag, hfields⟩ := (kindOfMembers_eq_ok h₁.nodup).1 hkind
  obtain ⟨hnone, -⟩ | ⟨_, r₂, v, hsome, hfind₂, hr₁, hr₂⟩ := h₁.sameFound h₂ "kind"
  · cases hfind₁.symm.trans hnone
  · cases hfind₁.symm.trans hsome
    have htag₂ := carries_kindTagged positions (Q := fun _ => True) rfl rfl trivial hr₁ hr₂ htag
    obtain ⟨k, hk, rfl⟩ := mem_kinds_of_kindTagged htag
    have hnamed : ∀ (m : Member) key, m.key = .ok key →
        (!m.isNamed "kind") = (!key == "kind") := by
      intro m key hkey
      simp [Member.isNamed, hkey]
    have hcarry :=
      (kinds_carry k hk).ofMembers rfl rfl (h₁.filter hnamed) (h₂.filter hnamed) hfields
    exact (kindOfMembers_eq_ok h₂.nodup).2 ⟨r₂, k.2, hfind₂, htag₂, hcarry⟩

/-! ## Nodes -/

/-- Whether a member of a node is held back until the end of its object. -/
def isHeldBack (m : Member) : Bool :=
  !(m.isNamed "role" || m.isNamed "annotations" || m.isNamed "children")

/-- What is known of a field after some members have been taken: what the member of its name says,
or else what was known before. -/
def Taken {α : Type} (decode : Decoder α) (ctx : Context) (members : List Member) (name : String)
    (before after : Option α) : Prop :=
  match Fields.find members name with
  | none => after = before
  | some r => ∃ a, decode ctx r = .ok a ∧ after = some a

section Taken

variable {α : Type} {decode : Decoder α} {ctx : Context} {m : Member} {rest : List Member}
  {name : String} {before after : Option α}

theorem taken_absent (h : Fields.find rest name = none) :
    Taken decode ctx rest name before after ↔ after = before := by
  simp [Taken, h]

theorem taken_cons_self (h : m.isNamed name = true) :
    Taken decode ctx (m :: rest) name before after ↔
      ∃ a, decode ctx m.value = .ok a ∧ after = some a := by
  simp [Taken, Fields.find_cons_self h]

theorem taken_cons_of_other (h : m.isNamed name = false) :
    Taken decode ctx (m :: rest) name before after ↔ Taken decode ctx rest name before after := by
  simp [Taken, Fields.find_cons_of_other h]

end Taken

/-- A draft knows nothing yet of the fields that are still to come. -/
structure Draft.Awaits (draft : Draft) (members : List Member) : Prop where
  role : draft.role = none ∨ Fields.find members "role" = none
  annotations : draft.annotations = none ∨ Fields.find members "annotations" = none
  children : draft.children = none ∨ Fields.find members "children" = none

theorem Draft.Awaits.tail {draft : Draft} {m : Member} {rest : List Member}
    (h : draft.Awaits (m :: rest)) : draft.Awaits rest := by
  have htail : ∀ name, Fields.find (m :: rest) name = none → Fields.find rest name = none := by
    intro name hnone
    cases hnamed : m.isNamed name with
    | true => cases Fields.find_cons_self hnamed ▸ hnone
    | false => exact Fields.find_cons_of_other hnamed ▸ hnone
  exact ⟨h.role.imp_right (htail _), h.annotations.imp_right (htail _),
    h.children.imp_right (htail _)⟩

/-- What the members of a node say, without regard to their order. -/
@[mk_iff]
structure Draft.Reads (ctx : Context) (members : List Member) (before after : Draft) : Prop where
  role : Taken Format.role ctx members "role" before.role after.role
  annotations : Taken (list note) ctx members "annotations" before.annotations after.annotations
  children : Taken nodeList ctx members "children" before.children after.children
  held : after.held = (members.filter isHeldBack).reverse ++ before.held
  hold : ∀ m ∈ members, isHeldBack m = true → ctx.hold m.value = .ok ()

section Steps

-- `nodeMembers` and `Draft.Reads` agree on what one member adds

variable {ctx : Context} {m : Member} {rest : List Member} {draft draft' : Draft}

theorem isNamed_other {name : String} (h : m.isNamed name = true) (name' : String)
    (hne : name ≠ name') : m.isNamed name' = false := by
  rw [Member.isNamed_iff] at h
  simpa [Member.isNamed, h] using hne

theorem nodeMembers_role (h : m.isNamed "role" = true) (hnone : draft.role = none) :
    nodeMembers ctx draft (m :: rest) = .ok draft' ↔ ∃ r, role ctx m.value = .ok r ∧
      nodeMembers ctx { draft with role := some r } rest = .ok draft' := by
  obtain ⟨key, keyEnd, value⟩ := m
  cases Member.isNamed_iff.1 h
  simp [nodeMembers, hnone, Member.value, bind_eq_ok]

theorem reads_role (h : m.isNamed "role" = true) (habsent : Fields.find rest "role" = none) :
    Draft.Reads ctx (m :: rest) draft draft' ↔ ∃ r, role ctx m.value = .ok r ∧
      Draft.Reads ctx rest { draft with role := some r } draft' := by
  have hnotes := isNamed_other h "annotations" (by decide)
  have hchildren := isNamed_other h "children" (by decide)
  have hheld : isHeldBack m = false := by simp [isHeldBack, h]
  simp only [Draft.reads_iff, taken_cons_self h, taken_absent habsent, taken_cons_of_other hnotes,
    taken_cons_of_other hchildren, List.filter_cons, List.forall_mem_cons, hheld]
  grind

theorem nodeMembers_annotations (h : m.isNamed "annotations" = true)
    (hnone : draft.annotations = none) :
    nodeMembers ctx draft (m :: rest) = .ok draft' ↔ ∃ notes, list note ctx m.value = .ok notes ∧
      nodeMembers ctx { draft with annotations := some notes } rest = .ok draft' := by
  obtain ⟨key, keyEnd, value⟩ := m
  cases Member.isNamed_iff.1 h
  simp [nodeMembers, hnone, Member.value, bind_eq_ok]

theorem reads_annotations (h : m.isNamed "annotations" = true)
    (habsent : Fields.find rest "annotations" = none) :
    Draft.Reads ctx (m :: rest) draft draft' ↔ ∃ notes, list note ctx m.value = .ok notes ∧
      Draft.Reads ctx rest { draft with annotations := some notes } draft' := by
  have hrole := isNamed_other h "role" (by decide)
  have hchildren := isNamed_other h "children" (by decide)
  have hheld : isHeldBack m = false := by simp [isHeldBack, h]
  simp only [Draft.reads_iff, taken_cons_self h, taken_absent habsent, taken_cons_of_other hrole,
    taken_cons_of_other hchildren, List.filter_cons, List.forall_mem_cons, hheld]
  grind

theorem nodeMembers_children (h : m.isNamed "children" = true) (hnone : draft.children = none) :
    nodeMembers ctx draft (m :: rest) = .ok draft' ↔ ∃ nodes, nodeList ctx m.value = .ok nodes ∧
      nodeMembers ctx { draft with children := some nodes } rest = .ok draft' := by
  obtain ⟨key, keyEnd, value⟩ := m
  cases Member.isNamed_iff.1 h
  simp [nodeMembers, hnone, Member.value, bind_eq_ok]

theorem reads_children (h : m.isNamed "children" = true)
    (habsent : Fields.find rest "children" = none) :
    Draft.Reads ctx (m :: rest) draft draft' ↔ ∃ nodes, nodeList ctx m.value = .ok nodes ∧
      Draft.Reads ctx rest { draft with children := some nodes } draft' := by
  have hrole := isNamed_other h "role" (by decide)
  have hnotes := isNamed_other h "annotations" (by decide)
  have hheld : isHeldBack m = false := by simp [isHeldBack, h]
  simp only [Draft.reads_iff, taken_cons_self h, taken_absent habsent, taken_cons_of_other hrole,
    taken_cons_of_other hnotes, List.filter_cons, List.forall_mem_cons, hheld]
  grind

theorem nodeMembers_other {key : String} (hkey : m.key = .ok key) (h : isHeldBack m = true) :
    nodeMembers ctx draft (m :: rest) = .ok draft' ↔ ctx.hold m.value = .ok () ∧
      nodeMembers ctx { draft with held := m :: draft.held } rest = .ok draft' := by
  obtain ⟨_, keyEnd, value⟩ := m
  cases hkey
  have hother : key ≠ "role" ∧ key ≠ "annotations" ∧ key ≠ "children" := by
    simpa [isHeldBack, Member.isNamed, Member.key, and_assoc] using h
  simp [nodeMembers, hother, Member.value, seq_eq_ok]

theorem reads_other (h : isHeldBack m = true) :
    Draft.Reads ctx (m :: rest) draft draft' ↔ ctx.hold m.value = .ok () ∧
      Draft.Reads ctx rest { draft with held := m :: draft.held } draft' := by
  obtain ⟨⟨hrole, hnotes⟩, hchildren⟩ :
      (m.isNamed "role" = false ∧ m.isNamed "annotations" = false) ∧
        m.isNamed "children" = false := by
    simpa [isHeldBack] using h
  simp only [Draft.reads_iff, taken_cons_of_other hrole, taken_cons_of_other hnotes,
    taken_cons_of_other hchildren, List.filter_cons, List.forall_mem_cons, h]
  grind

end Steps

/-- Members without repetition are taken with the same result in every order. -/
theorem nodeMembers_eq_ok {ctx : Context} {members : List Member} {draft draft' : Draft}
    (hkeys : ∀ m ∈ members, ∃ key, m.key = .ok key) (hnodup : (members.map Member.key).Nodup)
    (hawaits : draft.Awaits members) :
    nodeMembers ctx draft members = .ok draft' ↔ Draft.Reads ctx members draft draft' := by
  induction members generalizing draft with
  | nil =>
    have hnone : ∀ name, Fields.find [] name = none := fun _ => rfl
    obtain ⟨role, notes, children, held⟩ := draft
    obtain ⟨role', notes', children', held'⟩ := draft'
    simp only [nodeMembers, Draft.reads_iff, taken_absent (hnone _), Except.ok.injEq,
      Draft.mk.injEq]
    grind
  | cons m rest ih =>
    obtain ⟨⟨key, hkey⟩, hkeys⟩ := List.forall_mem_cons.1 hkeys
    obtain ⟨hm, hnodup⟩ := List.nodup_cons.1 hnodup
    have hbehind : ∀ {name}, m.isNamed name = true → Fields.find rest name = none :=
      Fields.find_eq_none_of_notMem hm
    have hnew : ∀ {α : Type} {known : Option α} {name}, m.isNamed name = true →
        known = none ∨ Fields.find (m :: rest) name = none → known = none := by
      intro α known name hnamed h
      exact h.resolve_right (by simp [Fields.find_cons_self hnamed])
    cases hrole : m.isNamed "role" with
    | true =>
      rw [nodeMembers_role hrole (hnew hrole hawaits.role), reads_role hrole (hbehind hrole)]
      refine exists_congr fun r => and_congr_right fun _ => ih hkeys hnodup ?_
      exact { hawaits.tail with role := .inr (hbehind hrole) }
    | false =>
    cases hnotes : m.isNamed "annotations" with
    | true =>
      rw [nodeMembers_annotations hnotes (hnew hnotes hawaits.annotations),
        reads_annotations hnotes (hbehind hnotes)]
      refine exists_congr fun notes => and_congr_right fun _ => ih hkeys hnodup ?_
      exact { hawaits.tail with annotations := .inr (hbehind hnotes) }
    | false =>
    cases hchildren : m.isNamed "children" with
    | true =>
      rw [nodeMembers_children hchildren (hnew hchildren hawaits.children),
        reads_children hchildren (hbehind hchildren)]
      refine exists_congr fun nodes => and_congr_right fun _ => ih hkeys hnodup ?_
      exact { hawaits.tail with children := .inr (hbehind hchildren) }
    | false =>
      have hheld : isHeldBack m = true := by simp [isHeldBack, hrole, hnotes, hchildren]
      rw [nodeMembers_other hkey hheld, reads_other hheld]
      refine and_congr_right fun _ => ih hkeys hnodup ?_
      exact { hawaits.tail with }

theorem nodeMembers_empty_eq_ok {ctx : Context} {members : List Member}
    {entries : List (String × Value)} (h : ShowsMembers ctx members entries) {draft : Draft} :
    nodeMembers ctx .empty members = .ok draft ↔ Draft.Reads ctx members .empty draft := by
  have hkeys : ∀ m ∈ members, ∃ key, m.key = .ok key := by
    intro m hm
    obtain ⟨e, -, hkey, -⟩ := h.exists_entry hm
    exact ⟨e.1, hkey⟩
  exact nodeMembers_eq_ok hkeys h.nodup ⟨.inl rfl, .inl rfl, .inl rfl⟩

theorem Taken.carries {α : Type} {decode : Decoder α} {Q : Value → Prop}
    (hdecode : Carries o₁ o₂ Q decode) {c₁ c₂ : Context} (ho₁ : c₁.origin = o₁)
    (ho₂ : c₂.origin = o₂) {members₁ members₂ : List Member} {entries : List (String × Value)}
    (h₁ : ShowsMembers c₁ members₁ entries) (h₂ : ShowsMembers c₂ members₂ entries) {name : String}
    (hQ : ∀ v, (name, v) ∈ entries → Q v) {before after : Option α}
    (h : Taken decode c₁ members₁ name before after) :
    Taken decode c₂ members₂ name before after := by
  obtain ⟨hnone₁, hnone₂⟩ | ⟨r₁, r₂, v, hsome₁, hsome₂, hv, hr₁, hr₂⟩ := h₁.find_both h₂ name
  · simpa [Taken, hnone₁, hnone₂] using h
  · simp only [Taken, hsome₁, hsome₂] at h ⊢
    obtain ⟨a, ha, hafter⟩ := h
    exact ⟨a, hdecode ho₁ ho₂ (hQ v hv) hr₁ hr₂ ha, hafter⟩

theorem nodeItems_eq (ctx : Context) (items : List Reading) :
    nodeItems ctx items = items.mapM (document ctx) := by
  induction items with
  | nil => simp [nodeItems, pure, Except.pure]
  | cons r rest ih => simp [nodeItems, ih]

theorem nodeList_eq_ok {ctx : Context} {r : Reading} {nodes : List Document} :
    nodeList ctx r = .ok nodes ↔ list document ctx r = .ok nodes := by
  cases r with
  | array span items cut => simp only [nodeList, list, nodeItems_eq, bind_eq_ok, mapError_eq_ok]
  | _ => simp [nodeList, list]

theorem document_eq_ok {ctx : Context} {r : Reading} {d : Document} :
    document ctx r = .ok d ↔ ∃ inner span members draft, r = .object span members none ∧
      ctx.enter span.before = .ok inner ∧ nodeMembers inner .empty members = .ok draft ∧
      draft.finish = .ok d := by
  cases r with
  | object span members cut =>
    simp only [document, bind_eq_ok, mapError_eq_ok]
    constructor
    · rintro ⟨inner, henter, draft, hdraft, ⟨⟩, hcut, hd⟩
      cases raiseCut_eq_ok.1 hcut
      exact ⟨inner, span, members, draft, rfl, henter, hdraft, hd⟩
    · rintro ⟨inner, _, _, draft, ⟨⟩, henter, hdraft, hd⟩
      exact ⟨inner, henter, draft, hdraft, (), rfl, hd⟩
  | _ => simp [document]

/-- What the members of a node say carries over from one reading to the other. -/
theorem Draft.Reads.carries {Q : Value → Prop} (ho : o₁ = .held ↔ o₂ = .held)
    (hchildren : Carries o₁ o₂ Q nodeList) {c₁ c₂ : Context} (ho₁ : c₁.origin = o₁)
    (ho₂ : c₂.origin = o₂) {members₁ members₂ : List Member} {entries : List (String × Value)}
    (h₁ : ShowsMembers c₁ members₁ entries) (h₂ : ShowsMembers c₂ members₂ entries)
    (hQ : ∀ v, ("children", v) ∈ entries → Q v)
    (hplain : o₁ = .text → PlainNotes (.object entries)) {draft : Draft}
    (h : Draft.Reads c₁ members₁ .empty draft) :
    Draft.Reads c₂ members₂ .empty
      { draft with held := (members₂.filter isHeldBack).reverse } where
  role := h.role.carries (carries_name ho _) ho₁ ho₂ h₁ h₂ fun _ _ => trivial
  annotations := by
    refine h.annotations.carries (carries_list (carries_note ho)) ho₁ ho₂ h₁ h₂ ?_
    exact fun v hv note hnote payload hpayload htext =>
      (hplain htext).note hv note hnote payload hpayload
  children := h.children.carries hchildren ho₁ ho₂ h₁ h₂ hQ
  held := (List.append_nil _).symm
  hold := by
    intro m hm _
    obtain ⟨e, -, -, hshows⟩ := h₂.exists_entry hm
    exact hshows.hold

/-- The kind that the held members give carries over. -/
theorem finish_congr {c₁ c₂ : Context} {members₁ members₂ : List Member}
    {entries : List (String × Value)} (h₁ : ShowsMembers c₁ members₁ entries)
    (h₂ : ShowsMembers c₂ members₂ entries) {draft : Draft} {d : Document}
    (hheld : draft.held = (members₁.filter isHeldBack).reverse) (hd : draft.finish = .ok d) :
    { draft with held := (members₂.filter isHeldBack).reverse }.finish = .ok d := by
  obtain ⟨kind, hkind, hd⟩ := bind_eq_ok.1 hd
  rw [hheld, List.reverse_reverse] at hkind
  have hnamed : ∀ (m : Member) key, m.key = .ok key → isHeldBack m =
      !(key == "role" || key == "annotations" || key == "children") := by
    intro m key hkey
    simp [isHeldBack, Member.isNamed, hkey]
  have hkind₂ := kindOfMembers_congr (h₁.filter hnamed).held (h₂.filter hnamed).held hkind
  exact bind_eq_ok.2 ⟨kind, by rwa [List.reverse_reverse], hd⟩

/-- Every reading of the value of a node gives the same document. -/
theorem carries_document (ho : o₁ = .held ↔ o₂ = .held) :
    Carries o₁ o₂ (fun v => o₁ = .text → PlainNotes v) document := by
  -- by induction on how deep the value is nested: the children of a node lie two levels below it
  suffices h : ∀ n, Carries o₁ o₂ (fun v => v.nesting ≤ n ∧ (o₁ = .text → PlainNotes v))
      document from
    fun _ _ _ _ v _ ho₁ ho₂ hplain => h v.nesting ho₁ ho₂ ⟨Nat.le_refl _, hplain⟩
  intro n
  induction n using Nat.strongRecOn with
  | ind n ih =>
    intro c₁ c₂ r₁ r₂ v d ho₁ ho₂ ⟨hn, hplain⟩ h₁ h₂ hd
    obtain ⟨inner, span, members₁, draft, rfl, henter, hdraft, hd⟩ := document_eq_ok.1 hd
    cases v with
    | scalar => cases h₁
    | array => cases h₁
    | object entries =>
      obtain ⟨inner₁, span₁, _, hr₁, henter₁, h₁, -⟩ := h₁.of_object
      obtain ⟨inner₂, span₂, members₂, rfl, henter₂, h₂, -⟩ := h₂.of_object
      cases hr₁
      cases henter.symm.trans henter₁
      have horigin₁ := (Context.enter_ok henter₁).1.trans ho₁
      have horigin₂ := (Context.enter_ok henter₂).1.trans ho₂
      obtain ⟨k, rfl, hk⟩ := Value.nesting_object_le.1 hn
      have hchildren : Carries o₁ o₂
          (fun v => ∀ w ∈ v.items, w.nesting ≤ k ∧ (o₁ = .text → PlainNotes w)) nodeList := by
        intro c₁ c₂ r₁ r₂ v nodes ho₁ ho₂ hv h₁ h₂ hnodes
        rw [nodeList_eq_ok] at hnodes ⊢
        exact carries_list (ih k (Nat.lt_succ_self k)) ho₁ ho₂ hv h₁ h₂ hnodes
      have hQ : ∀ v, ("children", v) ∈ entries →
          ∀ w ∈ v.items, w.nesting ≤ k ∧ (o₁ = .text → PlainNotes w) := by
        intro v hv w hw
        have hlt := Value.nesting_lt_of_mem_items hw
        have hle : v.nesting ≤ k := hk _ hv
        exact ⟨by omega, fun htext => (hplain htext).child hv w hw⟩
      have hreads := (nodeMembers_empty_eq_ok h₁).1 hdraft
      have hreads₂ := hreads.carries ho hchildren horigin₁ horigin₂ h₁ h₂ hQ hplain
      have hheld := hreads.held.trans (List.append_nil _)
      exact document_eq_ok.2 ⟨inner₂, span₂, members₂, _, rfl, henter₂,
        (nodeMembers_empty_eq_ok h₂).2 hreads₂, finish_congr h₁ h₂ hheld hd⟩

end CodeView.Syntax.Format

namespace CodeView.Syntax.Tree

open CodeView.Json

/-! ## Trees -/

/-- A decoder accepts a text of a value if it accepts a reading that shows the value. -/
theorem exists_shows_decodeInput {v : Value} {s : String} (hdistinct : v.Distinct)
    (hnesting : v.nesting ≤ 127) (htext : IsText Numeral.number? v s.toList) :
    ∃ r, Shows Context.text r v ∧ ∀ {α : Type} (decode : Decoder α) (medium : Medium) (a : α),
      decodeInput decode ⟨medium, Text.Utf8.bytes s, none⟩ = .ok a ↔
        decode Context.text r = .ok a := by
  obtain ⟨r, rest, hread, hend, hstands⟩ := htext.reading
  refine ⟨r, hstands 127 hdistinct hnesting, fun decode medium a => ?_⟩
  cases hdecode : decode Context.text r <;>
    simp [decodeInput, wide_bytes, hread, hdecode, hend, raise, Input.finish, bind, Except.bind,
      Except.mapError, pure, Except.pure]

theorem ofInput_eq_ok {input : Input} {t : Tree} :
    ofInput input = .ok t ↔
      ∃ d, decodeInput Format.document input = .ok d ∧ ofDocument d = .ok t := by
  cases h : decodeInput Format.document input <;> simp [ofInput, h]

theorem ofValue_eq_ok {v : Value} {t : Tree} :
    ofValue v = .ok t ↔ ∃ d, Format.document Context.value (Reading.ofValue v.canonical) = .ok d ∧
      ofDocument d = .ok t := by
  cases h : Format.document Context.value (Reading.ofValue v.canonical) <;>
    simp [ofValue, decodeValue, h, Except.mapError]

section Agreement

variable {v : Value} {s : String} {t : Tree}

theorem ofInput_of_ofValue (hdistinct : v.Distinct) (hnesting : v.nesting ≤ 127)
    (htext : IsText Numeral.number? v s.toList) (medium : Medium) (h : ofValue v = .ok t) :
    ofInput ⟨medium, Text.Utf8.bytes s, none⟩ = .ok t := by
  obtain ⟨r, hr, hdecode⟩ := exists_shows_decodeInput hdistinct hnesting htext
  have hforth : Carries .value .text _ Format.document := Format.carries_document (by decide)
  obtain ⟨d, hd, ht⟩ := ofValue_eq_ok.1 h
  have hread := hforth rfl rfl nofun (shows_canonical v hdistinct) hr hd
  exact ofInput_eq_ok.2 ⟨d, (hdecode _ medium d).2 hread, ht⟩

theorem ofValue_of_ofInput (hdistinct : v.Distinct) (hnesting : v.nesting ≤ 127)
    (htext : IsText Numeral.number? v s.toList) (hplain : Format.PlainNotes v) (medium : Medium)
    (h : ofInput ⟨medium, Text.Utf8.bytes s, none⟩ = .ok t) : ofValue v = .ok t := by
  obtain ⟨r, hr, hdecode⟩ := exists_shows_decodeInput hdistinct hnesting htext
  have hback : Carries .text .value _ Format.document := Format.carries_document (by decide)
  obtain ⟨d, hd, ht⟩ := ofInput_eq_ok.1 h
  have hread :=
    hback rfl rfl (fun _ => hplain) hr (shows_canonical v hdistinct) ((hdecode _ medium d).1 hd)
  exact ofValue_eq_ok.2 ⟨d, hread, ht⟩

end Agreement

/-- A value in memory and a text of it give the same tree, if every number of the value is written
by a numeral that the reader takes for this number. -/
theorem ofInput_agrees_ofValue {v : Value} {s : String} (hdistinct : v.Distinct)
    (hnesting : v.nesting ≤ 127) (htext : IsText Numeral.number? v s.toList) (medium : Medium)
    (t : Tree) :
    (ofValue v = .ok t → ofInput ⟨medium, Text.Utf8.bytes s, none⟩ = .ok t) ∧
      (Format.PlainNotes v → ofInput ⟨medium, Text.Utf8.bytes s, none⟩ = .ok t →
        ofValue v = .ok t) :=
  ⟨ofInput_of_ofValue hdistinct hnesting htext medium,
    fun hplain => ofValue_of_ofInput hdistinct hnesting htext hplain medium⟩

/-- An expression that is a float. -/
def floatValue (x : Binary64) : Value :=
  .object [("kind", .scalar (.string "primitive_expression")),
    ("value", .object [("float", .scalar (.number (.float x)))])]

/-- A block with an annotation and two children: the kind of the first is given by its position, the
second is the float nearest to a tenth. -/
def blockValue : Value :=
  .object [("kind", .scalar (.string "block_statement")),
    ("annotations", .array [.object [("type", .object [("full_name", .scalar (.string "T"))])]]),
    ("children", .array
      [.object [("kind", .scalar (.number (.natural 41))), ("name", .scalar (.string "é"))],
        floatValue ⟨0x3fb999999999999a⟩])]

/-- A text of it with the members in another order, blanks and an escape. -/
def blockText : String :=
  "\x7b\"children\": [\x7b\"name\":\"\\u00e9\", \"kind\":41\x7d," ++
    "\x7b\"kind\":\"primitive_expression\",\"value\":\x7b\"float\":0.1\x7d\x7d],\n" ++
    "\"kind\":\"block_statement\",\"annotations\":[\x7b\"type\":\x7b\"full_name\":\"T\"\x7d\x7d]\x7d"

/-- The tree of both. -/
def blockTree : Tree :=
  (((empty.append root .member .block).annotate 1 (.type "T")).append 1 .member
    (.identifier "é")).append 1 .member (.primitiveExpr (.float ⟨0x3fb999999999999a⟩))

/-- The expression is written as any numeral that is for the float is. -/
theorem writes_floatValue {numbers : Numeral → Option Number} {x : Binary64} {n : Numeral}
    {text : List Char} (h : WritesNumeral text n) (hx : numbers n = some (.float x)) :
    Writes numbers (.value (floatValue x))
      ("\x7b\"kind\":\"primitive_expression\",\"value\":\x7b\"float\":".toList ++
        (text ++ ['\x7d', '\x7d'])) := by
  have hnone : IsBlank [] := List.forall_mem_nil _
  have hplain : ["kind", "primitive_expression", "value", "float"].all (·.toList.all isPlain) =
      true := rfl
  have hself : ∀ word ∈ ["kind", "primitive_expression", "value", "float"],
      Spells word.toList word.toList :=
    fun word hword => .self (List.all_eq_true.1 hplain word hword)
  have hfloat : Writes numbers (.value (.object [("float", .scalar (.number (.float x)))])) _ :=
    .object hnone (.lastMember (hself "float" (by simp)) hnone hnone (.number h hx) hnone) (.refl _)
  have hvalue : Writes numbers (.value (floatValue x)) _ :=
    .object hnone
      (.member (hself "kind" (by simp)) hnone hnone
        (.string (hself "primitive_expression" (by simp))) hnone hnone
        (.lastMember (hself "value" (by simp)) hnone hnone hfloat hnone))
      (.refl _)
  simpa using hvalue

theorem blockText_isText : IsText Numeral.short? blockValue blockText.toList := by
  have hnone : IsBlank [] := List.forall_mem_nil _
  have hspace : IsBlank [' '] := by simp [IsBlank, isBlank]
  have hline : IsBlank ['\n'] := by simp [IsBlank, isBlank]
  have hplain : ["children", "name", "kind", "annotations", "type", "full_name", "block_statement",
      "T"].all (·.toList.all isPlain) = true := rfl
  have hself : ∀ word ∈ ["children", "name", "kind", "annotations", "type", "full_name",
      "block_statement", "T"], Spells word.toList word.toList :=
    fun word hword => .self (List.all_eq_true.1 hplain word hword)
  have hescape : Spells "\\u00e9".toList ['é'] := .unit (n := 233) rfl rfl rfl .nil
  have hdigits : IsWhole ['4', '1'] := by simp [IsWhole, IsDigits, Char.isDigit]
  have hzero : IsWhole ['0'] := by simp [IsWhole, IsDigits, Char.isDigit]
  have hone : IsDigits ['1'] := by simp [IsDigits, Char.isDigit]
  have hposition : Writes Numeral.short? (.value (.scalar (.number (.natural 41)))) ['4', '1'] :=
    .number (@WritesNumeral.mk false _ _ _ _ _ hdigits .absent .absent) (by decide +kernel)
  have hfirst : Writes Numeral.short? (.value (.object
      [("kind", .scalar (.number (.natural 41))), ("name", .scalar (.string "é"))])) _ :=
    .object hnone
      (.member (hself "name" (by simp)) hnone hnone (.string hescape) hnone hspace
        (.lastMember (hself "kind" (by simp)) hnone hnone hposition hnone))
      (.swap _ _ _)
  have hsecond : Writes Numeral.short? (.value (floatValue ⟨0x3fb999999999999a⟩)) _ :=
    writes_floatValue (@WritesNumeral.mk false _ _ _ _ _ hzero (.point hone) .absent)
      (by decide +kernel)
  have htype : Writes Numeral.short? (.value (.object [("full_name", .scalar (.string "T"))])) _ :=
    .object hnone
      (.lastMember (hself "full_name" (by simp)) hnone hnone (.string (hself "T" (by simp))) hnone)
      (.refl _)
  have hnote : Writes Numeral.short?
      (.value (.object [("type", .object [("full_name", .scalar (.string "T"))])])) _ :=
    .object hnone (.lastMember (hself "type" (by simp)) hnone hnone htype hnone) (.refl _)
  have hvalue : Writes Numeral.short? (.value blockValue) _ :=
    .object hnone
      (.member (hself "children" (by simp)) hnone hspace
        (.array hnone (.item hfirst hnone hnone (.lastItem hsecond hnone))) hnone hline
        (.member (hself "kind" (by simp)) hnone hnone
          (.string (hself "block_statement" (by simp))) hnone hnone
          (.lastMember (hself "annotations" (by simp)) hnone hnone
            (.array hnone (.lastItem hnote hnone)) hnone)))
      (@List.perm_append_comm _ [_] _)
  exact ⟨[], _, [], hnone, hvalue, hnone, by decide +kernel⟩

theorem ofInput_agrees_ofValue_blockText :
    blockValue.Distinct ∧ blockValue.nesting ≤ 127 ∧
      IsText Numeral.denoted? blockValue blockText.toList ∧
      IsText Numeral.number? blockValue blockText.toList ∧
      Format.PlainNotes blockValue ∧ ofValue blockValue = .ok blockTree ∧
      ofInput ⟨.stream, Text.Utf8.bytes blockText, none⟩ = .ok blockTree := by
  have hdistinct : blockValue.Distinct := by decide
  have hnesting : blockValue.nesting ≤ 127 := by decide
  have hplain : Format.PlainNotes blockValue := by decide
  have hvalue : ofValue blockValue = .ok blockTree := rfl
  have hdenoted := blockText_isText.mono fun _ _ h => (Numeral.short?_eq_some h).1
  have hread := blockText_isText.mono fun _ _ h => (Numeral.short?_eq_some h).2
  obtain ⟨hforth, hback⟩ := ofInput_agrees_ofValue hdistinct hnesting hread .stream blockTree
  have htext := hforth hvalue
  exact ⟨hdistinct, hnesting, hdenoted, hread, hplain, hback hplain htext, htext⟩

/-! ## A text that gives another tree -/

/-- The tree of an expression that is a float. -/
def floatTree (x : Binary64) : Tree :=
  empty.append root .member (.primitiveExpr (.float x))

theorem ofValue_floatValue (x : Binary64) : ofValue (floatValue x) = .ok (floatTree x) :=
  rfl

/-- The float nearest to 51.248178375505404. -/
def closeFloat : Binary64 := ⟨0x40499fc44f1b2f60⟩

/-- The next float. The reader rounds the significand 51248178375505404 up to a float before it
divides it by a power of ten, and this is nearest to the quotient. -/
def nextFloat : Binary64 := ⟨0x40499fc44f1b2f61⟩

/-- A text of the expression `closeFloat`. -/
def closeText : String :=
  "\x7b\"kind\":\"primitive_expression\",\"value\":\x7b\"float\":51.248178375505404\x7d\x7d"

theorem closeText_isText {numbers : Numeral → Option Number} {x : Binary64}
    (hx : numbers ⟨false, "51".toList, some "248178375505404".toList, none⟩ = some (.float x)) :
    IsText numbers (floatValue x) closeText.toList := by
  have hwhole : IsWhole "51".toList := by simp [IsWhole, IsDigits, Char.isDigit]
  have hfraction : IsDigits "248178375505404".toList := by simp [IsDigits, Char.isDigit]
  have hnumeral := @WritesNumeral.mk false _ _ _ _ _ hwhole (.point hfraction) .absent
  have hnone : IsBlank [] := List.forall_mem_nil _
  exact ⟨[], _, [], hnone, writes_floatValue hnumeral hx, hnone, by decide +kernel⟩

/-- The reader takes the numeral of the text for the next float, so the text gives another tree than
the value. -/
theorem ofInput_closeText_ne :
    (floatValue closeFloat).Distinct ∧ (floatValue closeFloat).nesting ≤ 127 ∧
      IsText Numeral.denoted? (floatValue closeFloat) closeText.toList ∧
      ofValue (floatValue closeFloat) = .ok (floatTree closeFloat) ∧
      ofInput ⟨.text, Text.Utf8.bytes closeText, none⟩ = .ok (floatTree nextFloat) ∧
      ofInput ⟨.stream, Text.Utf8.bytes closeText, none⟩ = .ok (floatTree nextFloat) ∧
      floatTree nextFloat ≠ floatTree closeFloat := by
  have hread : IsText Numeral.number? (floatValue nextFloat) closeText.toList :=
    closeText_isText (by decide +kernel)
  have hnext : ∀ medium, ofInput ⟨medium, Text.Utf8.bytes closeText, none⟩ =
      .ok (floatTree nextFloat) :=
    fun medium => ofInput_of_ofValue (by decide) (by decide) hread medium (ofValue_floatValue _)
  refine ⟨by decide, by decide, closeText_isText (by decide +kernel), ofValue_floatValue _,
    hnext .text, hnext .stream, fun h => ?_⟩
  have hkind := congrArg (fun t => t.kind 1) h
  cases hkind

end CodeView.Syntax.Tree
