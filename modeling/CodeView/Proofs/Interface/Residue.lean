import CodeView.Proofs.Interface.Meaning

/-!
# What is left after one pass

The interface view promises that bodies, hidden accessors and noise are gone. A pass looks at the
first body and at the first accessor of each role, and filters a section before it removes the
declarations below it. So the promise holds of every node that has no second child in such a role,
and of every section without declarations, but not of every document.

* `Sealed`: the promise. `not_sealed_prune`: for each part of it, a document that breaks it.
* `childrenWithRole_body_prune`, `not_hidden_prune`, `cleanSection_prune`: bodies, accessors and
  sections after a pass, each with the condition that it needs.
* `prune_seals`: what one pass achieves at every node that is left.
-/

namespace CodeView.Interface

open CodeView.Syntax

variable {p : Policy} {t : Tree} {n : NodeId}

/-! ## The promise -/

/-- A node whose attributes are to be free of noise: a declaration that has a removal rule, or an
accessor of a property or event. -/
inductive ShowsAttributes (t : Tree) (n : NodeId) : Prop where
  | declaration (rule : (removalRule (t.kind n)).isSome = true)
  | getSet {q : NodeId} (parent : t.parent? n = some q) (kind : isProperty (t.kind q) = true)
    (role : t.role n ∈ [Role.getter, .setter])
  | addRemove {q : NodeId} (parent : t.parent? n = some q) (kind : isCustomEvent (t.kind q) = true)
    (role : t.role n ∈ [Role.addAccessor, .removeAccessor])

/-- A section has attributes, and none of them is noise. -/
def CleanSection (p : Policy) (t : Tree) (g : NodeId) : Prop :=
  t.childrenWithRole g .attributes ≠ [] ∧
    ∀ a ∈ t.childrenWithRole g .attributes, isNoise p t a = false

/-- An accessor is neither private nor internal. -/
def Unhidden (t : Tree) (a : NodeId) : Prop :=
  (t.kind a).modifiers.contains .privateAccess = false ∧
    (t.kind a).modifiers.contains .internalAccess = false

/-- What the interface view promises of the nodes that the root reaches. -/
structure Sealed (p : Policy) (t : Tree) : Prop where
  body : ∀ n, t.isAttached n = true → losesBody (t.kind n) = true →
    t.childrenWithRole n .body = []
  accessor : ∀ n, t.isAttached n = true → isProperty (t.kind n) = true →
    ∀ role ∈ [Role.getter, .setter], ∀ a ∈ t.childrenWithRole n role, Unhidden t a
  attributes : ∀ n, t.isAttached n = true → ShowsAttributes t n →
    ∀ g ∈ t.childrenWithRole n .attributes, CleanSection p t g

/-- A public class with one method that has two bodies. -/
def twoBodies : Document :=
  .node ⟨.member, .typeDecl .classType (.single .publicAccess), []⟩
    [.node ⟨.name, .identifier "Widget", []⟩ [],
      .node ⟨.member, .methodDecl (.single .publicAccess), []⟩
        [.node ⟨.name, .identifier "Run", []⟩ [], .node ⟨.body, .block, []⟩ [],
          .node ⟨.body, .block, []⟩ [.node ⟨.statement, .throwStmt, []⟩ []]]]

/-- A public class with one property that has two getters, the second one private. -/
def twoGetters : Document :=
  .node ⟨.member, .typeDecl .classType (.single .publicAccess), []⟩
    [.node ⟨.name, .identifier "Widget", []⟩ [],
      .node ⟨.member, .propertyDecl (.single .publicAccess), []⟩
        [.node ⟨.getter, .accessor .getter ∅, []⟩ [],
          .node ⟨.getter, .accessor .getter (.single .privateAccess), []⟩ []]]

/-- A public class with a section that holds nothing but a private field. -/
def declaringSection : Document :=
  .node ⟨.member, .typeDecl .classType (.single .publicAccess), []⟩
    [.node ⟨.name, .identifier "Widget", []⟩ [],
      .node ⟨.attributes, .attributeSection none, []⟩
        [.node ⟨.attributes, .fieldDecl (.single .privateAccess), []⟩ []]]

/-- The usual policy for a type with the name `Widget`. -/
def widgetPolicy : Policy := ⟨"Widget", usualNoise⟩

/-- The tree of a document, a bare root if there is none. -/
def treeOf (d : Document) : Tree := (Tree.ofDocument d).toOption.getD Tree.empty

/-- A document that can be read, and of whose tree one pass does not keep the promise. -/
def Leaks (p : Policy) (d : Document) : Prop :=
  Tree.ofDocument d = .ok (treeOf d) ∧ ¬Sealed p (prune p (treeOf d)).1

/-- The second body, the second getter and the emptied section are left. -/
theorem not_sealed_prune :
    Leaks widgetPolicy twoBodies ∧ Leaks widgetPolicy twoGetters ∧
      Leaks widgetPolicy declaringSection := by
  refine ⟨⟨rfl, fun hs => ?_⟩, ⟨rfl, fun hs => ?_⟩, ⟨rfl, fun hs => ?_⟩⟩
  · have hnone := hs.body 3 (by decide +kernel) (by decide +kernel)
    revert hnone
    decide +kernel
  · have hshown := hs.accessor 3 (by decide +kernel) (by decide +kernel) .getter (by decide) 5
      (by decide +kernel)
    revert hshown
    unfold Unhidden
    decide +kernel
  · have hclean := hs.attributes 1 (by decide +kernel) (.declaration (by decide +kernel)) 3
      (by decide +kernel)
    exact hclean.1 (by decide +kernel)

/-! ## Nodes after a pass -/

/-- What the root reaches after a pass has nothing dropped on its path. -/
theorem kept_of_isAttached (h : t.WellFormed) (hn : (prune p t).1.isAttached n = true) :
    Kept p t n := by
  rw [prune_tree h, h.isAttached_detachAll] at hn
  obtain ⟨ha, hc⟩ := hn
  have hr := Tree.isAttached_iff.mp ha
  refine ⟨hr, fun m hm hd => ?_⟩
  obtain ⟨c, hcm, hcut, hp⟩ := (exists_cut_iff h p hr).mpr ⟨m, hm, hd⟩
  exact hp (hc c hcm hcut)

theorem kind_prune (h : t.WellFormed) (p : Policy) (n : NodeId) :
    (prune p t).1.kind n = t.kind n :=
  congrArg Label.kind (label_prune h p n)

theorem role_prune (h : t.WellFormed) (p : Policy) (n : NodeId) :
    (prune p t).1.role n = t.role n :=
  congrArg Label.role (label_prune h p n)

/-- The children of a kept node are those that are not dropped. -/
theorem Kept.mem_children_prune (h : t.WellFormed) (hn : Kept p t n) {c : NodeId} :
    c ∈ (prune p t).1.children n ↔ t.parent? c = some n ∧ ¬Dropped p t c := by
  rw [children_prune h, List.mem_filter, h.mem_children, decide_eq_true_eq]
  exact and_congr_right fun hc => not_congr (hn.mem_cutNodes_iff h hc)

theorem Kept.mem_childrenWithRole_prune (h : t.WellFormed) (hn : Kept p t n) {role : Role}
    {c : NodeId} :
    c ∈ (prune p t).1.childrenWithRole n role ↔
      t.parent? c = some n ∧ t.role c = role ∧ ¬Dropped p t c := by
  unfold Tree.childrenWithRole
  rw [List.mem_filter, hn.mem_children_prune h, beq_iff_eq, role_prune h]
  exact and_assoc.trans (and_congr_right fun _ => and_comm)

theorem mem_childrenWithRole (h : t.WellFormed) {role : Role} {c : NodeId} :
    c ∈ t.childrenWithRole n role ↔ t.parent? c = some n ∧ t.role c = role := by
  unfold Tree.childrenWithRole
  rw [List.mem_filter, h.mem_children, beq_iff_eq]

/-- The only child that has a role is the first. -/
theorem childWithRole?_of_single (h : t.WellFormed) {role : Role}
    (hone : (t.childrenWithRole n role).length ≤ 1) {c : NodeId} (hc : t.parent? c = some n)
    (hr : t.role c = role) : t.childWithRole? n role = some c := by
  have hmem : c ∈ t.childrenWithRole n role := (mem_childrenWithRole h).mpr ⟨hc, hr⟩
  have hfirst : t.childWithRole? n role = (t.childrenWithRole n role).head? :=
    List.head?_filter.symm
  obtain ⟨d, hd⟩ := List.length_eq_one_iff.mp (Nat.le_antisymm hone (List.length_pos_of_mem hmem))
  rw [hd, List.mem_singleton] at hmem
  rw [hfirst, hd, hmem]
  rfl

/-! ## Bodies and accessors -/

/-- A member with one body loses it. -/
theorem childrenWithRole_body_prune (h : t.WellFormed)
    (hn : (prune p t).1.isAttached n = true) (hk : losesBody (t.kind n) = true)
    (hone : (t.childrenWithRole n .body).length ≤ 1) :
    (prune p t).1.childrenWithRole n .body = [] := by
  rw [List.eq_nil_iff_forall_not_mem]
  intro c hc
  obtain ⟨hp, hr, hd⟩ := (Kept.mem_childrenWithRole_prune h (kept_of_isAttached h hn)).mp hc
  exact hd (.body hp hk (childWithRole?_of_single h hone hp hr))

/-- The only accessor of a role that a property has left is not hidden. -/
theorem not_hidden_prune (h : t.WellFormed) (hn : (prune p t).1.isAttached n = true)
    (hk : isProperty (t.kind n) = true) {role : Role} (hrole : role ∈ [Role.getter, .setter])
    (hone : (t.childrenWithRole n role).length ≤ 1) {a : NodeId}
    (ha : a ∈ (prune p t).1.childrenWithRole n role) : Unhidden (prune p t).1 a := by
  obtain ⟨hp, hr, hd⟩ := (Kept.mem_childrenWithRole_prune h (kept_of_isAttached h hn)).mp ha
  have hf := childWithRole?_of_single h hone hp hr
  have hfirst : t.childWithRole? n .getter = some a ∨ t.childWithRole? n .setter = some a := by
    simp only [List.mem_cons, List.not_mem_nil, or_false] at hrole
    rcases hrole with rfl | rfl
    · exact .inl hf
    · exact .inr hf
  unfold Unhidden
  rw [kind_prune h, ← Bool.not_eq_true, ← Bool.not_eq_true]
  exact ⟨fun hh => hd (.accessor hp hk hfirst (.inl hh)),
    fun hh => hd (.accessor hp hk hfirst (.inr hh))⟩

/-! ## Sections -/

/-- Whether a kind is that of an accessor. -/
def isAccessor : Kind → Bool
  | .accessor _ _ => true
  | _ => false

/-- At and below a node there is neither an accessor nor a declaration that has a removal rule. -/
def Undeclaring (t : Tree) (g : NodeId) : Prop :=
  ∀ m < t.size, g ∈ t.lineage m →
    isAccessor (t.kind m) = false ∧ (removalRule (t.kind m)).isNone = true

instance (t : Tree) (g : NodeId) : Decidable (Undeclaring t g) :=
  inferInstanceAs (Decidable (∀ m < t.size, g ∈ t.lineage m →
    isAccessor (t.kind m) = false ∧ (removalRule (t.kind m)).isNone = true))

theorem Undeclaring.losesBody {g m : NodeId} (hg : Undeclaring t g) (hlt : m < t.size)
    (hm : g ∈ t.lineage m) : losesBody (t.kind m) = false := by
  have hk := hg m hlt hm
  revert hk
  cases t.kind m <;> simp [isAccessor, removalRule, Interface.losesBody]

theorem Undeclaring.isProperty {g m : NodeId} (hg : Undeclaring t g) (hlt : m < t.size)
    (hm : g ∈ t.lineage m) : isProperty (t.kind m) = false := by
  have hk := hg m hlt hm
  revert hk
  cases t.kind m <;> simp [isAccessor, removalRule, Interface.isProperty]

theorem mem_cutNodes_dropped (h : t.WellFormed) {c q : NodeId} (hc : c ∈ cutNodes p t)
    (hq : t.parent? c = some q) : Dropped p t c :=
  (lost_of_mem_cutNodes h hc).dropped h hq

/-- Below such a node a pass cuts off attributes only, so names and types read as before. -/
theorem Undeclaring.attributesOnly (h : t.WellFormed) {g : NodeId} (hg : Undeclaring t g) :
    AttributesOnly t (cutNodes p t) g := by
  intro c hc q hq hm
  have hqlt : q < t.size := Nat.lt_trans (h.parent_lt hq) (Tree.lt_size_of_parent hq)
  cases mem_cutNodes_dropped h hc hq with
  | declaration _ hk _ =>
    have hnone := (hg c (Tree.lt_size_of_parent hq) (h.mem_lineage_of_parent hq hm)).2
    rw [hk] at hnone
    cases hnone
  | accessor hp hk _ _ =>
    cases hp.symm.trans hq
    rw [hg.isProperty hqlt hm] at hk
    cases hk
  | body hp hk _ =>
    cases hp.symm.trans hq
    rw [hg.losesBody hqlt hm] at hk
    cases hk
  | spentSection _ hr _ _ => exact hr
  | noiseAttribute _ hr _ _ _ _ _ => exact hr

/-- Of the attributes in a section without declarations, only noise is dropped. -/
theorem Undeclaring.noise_of_dropped (h : t.WellFormed) {g a : NodeId} (hg : Undeclaring t g)
    (hgr : t.role g = .attributes) (ha : t.parent? a = some g) (har : t.role a = .attributes)
    (hd : Dropped p t a) : isNoise p t a = true := by
  have hglt : g < t.size := Nat.lt_trans (h.parent_lt ha) (Tree.lt_size_of_parent ha)
  have hself := h.self_mem_lineage g
  have hrole : ∀ {q role}, t.childWithRole? q role = some a → role = .attributes :=
    fun hf => (childWithRole?_some h hf).2.symm.trans har
  cases hd with
  | declaration _ hk _ =>
    have hnone := (hg a (Tree.lt_size_of_parent ha) (h.mem_lineage_of_parent ha hself)).2
    rw [hk] at hnone
    cases hnone
  | accessor _ _ hfirst _ =>
    rcases hfirst with hf | hf
    · cases hrole hf
    · cases hrole hf
  | body _ _ hf => cases hrole hf
  | spentSection hq _ hf _ =>
    -- A section is itself no node whose attributes are filtered.
    cases hq.symm.trans ha
    have hgrole : ∀ {q role}, t.childWithRole? q role = some g → role = .attributes :=
      fun hf => (childWithRole?_some h hf).2.symm.trans hgr
    cases hf with
    | declaration hk =>
      have hnone := (hg g hglt hself).2
      rw [Option.isNone_iff_eq_none] at hnone
      rw [hnone] at hk
      cases hk
    | getSet _ _ hfirst =>
      rcases hfirst with hf | hf
      · cases hgrole hf
      · cases hgrole hf
    | addRemove _ _ hfirst =>
      rcases hfirst with hf | hf
      · cases hgrole hf
      · cases hgrole hf
  | noiseAttribute _ _ _ _ _ hname hx => exact isNoise_iff.mpr ⟨_, hname, hx⟩

theorem isNoise_prune (h : t.WellFormed) {g a : NodeId} (hg : Undeclaring t g)
    (ha : t.parent? a = some g) : isNoise p (prune p t).1 a = isNoise p t a := by
  rw [prune_tree h]
  have ho := (hg.attributesOnly (p := p) h).down h
    (h.mem_lineage_of_parent ha (h.self_mem_lineage g))
  exact isNoise_detachAll h ho

/-- A section that a filtered node has left shows something and no noise, if no declarations stand
in it. -/
theorem cleanSection_prune (h : t.WellFormed) (hn : (prune p t).1.isAttached n = true)
    (hf : Filtered t n) {g : NodeId} (hg : g ∈ (prune p t).1.childrenWithRole n .attributes)
    (hu : Undeclaring t g) : CleanSection p (prune p t).1 g := by
  have hkept := kept_of_isAttached h hn
  obtain ⟨hp, hr, hd⟩ := (hkept.mem_childrenWithRole_prune h).mp hg
  have hkeptg := hkept.child h hp hd
  have hmem : ∀ {a}, a ∈ (prune p t).1.childrenWithRole g .attributes ↔
      t.parent? a = some g ∧ t.role a = .attributes ∧ ¬Dropped p t a :=
    hkeptg.mem_childrenWithRole_prune h
  constructor
  · -- If nothing were left, every attribute would have been noise, and the section dropped.
    intro hnil
    refine hd (.spentSection hp hr hf fun a ha har => isNoise_iff.mp ?_)
    refine hu.noise_of_dropped h hr ha har (Classical.byContradiction fun hda => ?_)
    have hleft := hmem.mpr ⟨ha, har, hda⟩
    rw [hnil] at hleft
    cases hleft
  · intro a hleft
    obtain ⟨ha, har, hda⟩ := hmem.mp hleft
    rw [isNoise_prune h hu ha, ← Bool.not_eq_true]
    intro hnoise
    obtain ⟨name, hname, hx⟩ := isNoise_iff.mp hnoise
    exact hda (.noiseAttribute ha har hp hr hf hname hx)

/-! ## One pass -/

/-- The promise, at one node and for one section at a time. -/
theorem prune_seals (ht : t.Built) (p : Policy) (n : NodeId)
    (hn : (prune p t).1.isAttached n = true) :
    (losesBody (t.kind n) = true → (t.childrenWithRole n .body).length ≤ 1 →
      (prune p t).1.childrenWithRole n .body = []) ∧
    (isProperty (t.kind n) = true → ∀ role ∈ [Role.getter, .setter],
      (t.childrenWithRole n role).length ≤ 1 →
        ∀ a ∈ (prune p t).1.childrenWithRole n role, Unhidden (prune p t).1 a) ∧
    (Filtered t n → ∀ g ∈ (prune p t).1.childrenWithRole n .attributes, Undeclaring t g →
      CleanSection p (prune p t).1 g) := by
  have h := ht.wellFormed
  refine ⟨fun hk hone => ?_, fun hk role hrole hone a ha => ?_, fun hf g hg hu => ?_⟩
  · exact childrenWithRole_body_prune h hn hk hone
  · exact not_hidden_prune h hn hk hrole hone ha
  · exact cleanSection_prune h hn hf hg hu

/-- An attribute of a simple name. -/
def attributeDocument (name : String) : Document :=
  .node ⟨.attributes, .attributeUse, []⟩
    [.node ⟨.type, .simpleType, []⟩ [.node ⟨.name, .identifier name, []⟩ []]]

/-- A class with a method (node 3) and a property (node 12): the method has a section with noise in
it and a body, the property a private setter. -/
def membersSample : Document :=
  .node ⟨.member, .typeDecl .classType (.single .publicAccess), []⟩
    [.node ⟨.name, .identifier "Widget", []⟩ [],
      .node ⟨.member, .methodDecl (.single .publicAccess), []⟩
        [.node ⟨.attributes, .attributeSection none, []⟩
            [attributeDocument "CLSCompliant", attributeDocument "Obsolete"],
          .node ⟨.body, .block, []⟩ []],
      .node ⟨.member, .propertyDecl (.single .publicAccess), []⟩
        [.node ⟨.getter, .accessor .getter ∅, []⟩ [],
          .node ⟨.setter, .accessor .setter (.single .privateAccess), []⟩ []]]

/-- The body, the noise and the private setter go, the other attribute stays. -/
theorem prune_seals_membersSample :
    Tree.ofDocument membersSample = .ok (treeOf membersSample) ∧
      ((treeOf membersSample).childrenWithRole 3 .body = [11] ∧
        (prune widgetPolicy (treeOf membersSample)).1.childrenWithRole 3 .body = []) ∧
      ((treeOf membersSample).childrenWithRole 4 .attributes = [5, 8] ∧
        CleanSection widgetPolicy (prune widgetPolicy (treeOf membersSample)).1 4) ∧
      ((treeOf membersSample).childrenWithRole 12 .getter = [13] ∧
        Unhidden (prune widgetPolicy (treeOf membersSample)).1 13) := by
  have hd : Tree.ofDocument membersSample = .ok (treeOf membersSample) := rfl
  obtain ⟨hbody, -, hsection⟩ := prune_seals (.ofDocument hd) widgetPolicy 3 (by decide +kernel)
  obtain ⟨-, hgetter, -⟩ := prune_seals (.ofDocument hd) widgetPolicy 12 (by decide +kernel)
  refine ⟨hd, ⟨by decide +kernel, ?_⟩, ⟨by decide +kernel, ?_⟩, by decide +kernel, ?_⟩
  · exact hbody (by decide +kernel) (by decide +kernel)
  · exact hsection (.declaration (by decide +kernel)) 4 (by decide +kernel) (by decide +kernel)
  · exact hgetter (by decide +kernel) .getter (by decide) (by decide +kernel) 13 (by decide +kernel)

end CodeView.Interface
