import CodeView.Proofs.Interface.Residue

/-!
# Pruning twice

A second pass reads the tree that the first one has left. It finds nothing to cut off if the first
pass has kept the promise of the interface view and no cut has made a declaration removable.

* `Orderly`: no doubled body or accessor, and no declarations in attribute sections. One pass seals
  an orderly tree (`sealed_prune`).
* `not_isRemoved_prune`: a declaration that stays does not become removable. Cuts can only take an
  implemented interface from it, and can only uncover the name of the shown type.
* `prune_eq_self`: a pass over a sealed tree without removable declarations leaves it as it is.
* `prune_prune`: so the second pass over an orderly tree does nothing.
-/

namespace CodeView.Interface

open CodeView.Syntax

variable {p : Policy} {t : Tree} {n : NodeId}

/-- The roles of which a pass looks at the first child only. -/
def firstOnly : List Role := [.body, .getter, .setter, .addAccessor, .removeAccessor]

/-- Of the nodes that the root reaches, none has two children in a role of which only the first is
looked at, and none in the attribute role has an accessor or a removable kind of declaration at or
below it. -/
structure Orderly (t : Tree) : Prop where
  single : ∀ n < t.size, t.isAttached n = true →
    ∀ role ∈ firstOnly, (t.childrenWithRole n role).length ≤ 1
  undeclaring : ∀ g < t.size, t.isAttached g = true → t.role g = .attributes → Undeclaring t g

/-! ## What the first pass leaves -/

theorem Kept.lt_size (h : t.WellFormed) (hn : Kept p t n) : n < t.size := by
  rcases h.mem_lineage_iff.mp hn.1 with e | ⟨q, hq, -⟩
  · exact e ▸ h.root_lt
  · exact Tree.lt_size_of_parent hq

/-- Kept nodes are among those that the root reaches. -/
theorem Orderly.length_le_one (h : t.WellFormed) (ho : Orderly t) (hn : Kept p t n) {role : Role}
    (hrole : role ∈ firstOnly) : (t.childrenWithRole n role).length ≤ 1 :=
  ho.single n (hn.lt_size h) (Tree.isAttached_iff.mpr hn.1) role hrole

theorem Orderly.first (h : t.WellFormed) (ho : Orderly t) {q : NodeId} (hq : Kept p t q)
    (hn : t.parent? n = some q) (hrole : t.role n ∈ firstOnly) :
    t.childWithRole? q (t.role n) = some n :=
  childWithRole?_of_single h (ho.length_le_one h hq hrole) hn rfl

/-- A parent that is left was the parent before, and is left itself. -/
theorem parent_of_prune (h : t.WellFormed) {q : NodeId}
    (hn : (prune p t).1.isAttached n = true) (hq : (prune p t).1.parent? n = some q) :
    t.parent? n = some q ∧ Kept p t q := by
  have hparent : t.parent? n = some q := by
    rw [prune_tree h] at hq
    exact (Tree.parent?_detachAll_eq_some.mp hq).2
  obtain ⟨hr, hd⟩ := kept_of_isAttached h hn
  have hmem := h.mem_lineage_of_parent hparent (h.self_mem_lineage q)
  exact ⟨hparent, h.root_mem_lineage hr hmem, fun m hm => hd m (h.mem_lineage_trans hm hmem)⟩

/-- In an orderly tree, every node that is left and shows attributes has had them filtered. -/
theorem ShowsAttributes.filtered (h : t.WellFormed) (ho : Orderly t)
    (hn : (prune p t).1.isAttached n = true) (hs : ShowsAttributes (prune p t).1 n) :
    Filtered t n := by
  cases hs with
  | declaration hk =>
    rw [kind_prune h] at hk
    exact .declaration hk
  | getSet hq hk hrole =>
    rw [kind_prune h] at hk
    rw [role_prune h] at hrole
    obtain ⟨hparent, hkept⟩ := parent_of_prune h hn hq
    simp only [List.mem_cons, List.not_mem_nil, or_false] at hrole
    refine .getSet hparent hk (hrole.imp (fun hr => ?_) fun hr => ?_)
    · exact hr ▸ ho.first h hkept hparent (by rw [hr]; decide)
    · exact hr ▸ ho.first h hkept hparent (by rw [hr]; decide)
  | addRemove hq hk hrole =>
    rw [kind_prune h] at hk
    rw [role_prune h] at hrole
    obtain ⟨hparent, hkept⟩ := parent_of_prune h hn hq
    simp only [List.mem_cons, List.not_mem_nil, or_false] at hrole
    refine .addRemove hparent hk (hrole.imp (fun hr => ?_) fun hr => ?_)
    · exact hr ▸ ho.first h hkept hparent (by rw [hr]; decide)
    · exact hr ▸ ho.first h hkept hparent (by rw [hr]; decide)

/-- One pass seals an orderly tree. -/
theorem sealed_prune (h : t.WellFormed) (ho : Orderly t) (p : Policy) :
    Sealed p (prune p t).1 where
  body := by
    intro n hn hk
    rw [kind_prune h] at hk
    have hone := ho.length_le_one h (kept_of_isAttached h hn) (show Role.body ∈ firstOnly by decide)
    exact childrenWithRole_body_prune h hn hk hone
  accessor := by
    intro n hn hk role hrole a ha
    rw [kind_prune h] at hk
    have hfirst : ∀ role ∈ [Role.getter, .setter], role ∈ firstOnly := by decide
    have hone := ho.length_le_one h (kept_of_isAttached h hn) (hfirst role hrole)
    exact not_hidden_prune h hn hk hrole hone ha
  attributes := by
    intro n hn hs g hg
    have hkept := kept_of_isAttached h hn
    obtain ⟨hp, hr, hd⟩ := (hkept.mem_childrenWithRole_prune h).mp hg
    have hkeptg := hkept.child h hp hd
    exact cleanSection_prune h hn (hs.filtered h ho hn) hg
      (ho.undeclaring g (hkeptg.lt_size h) (Tree.isAttached_iff.mpr hkeptg.1) hr)

/-! ## Declarations that stay -/

/-- A rule that removes a declaration also removes one that is explicit and not the target. -/
theorem RemovalRule.removes_mono {rule : RemovalRule} {m : Modifiers} {e e' target target' : Bool}
    (he : e' = true → e = true) (ht : target = true → target' = true)
    (hr : rule.removes m e' target' = true) : rule.removes m e target = true := by
  unfold RemovalRule.removes at *
  cases e <;> cases e' <;> cases target <;> cases target' <;> simp_all

/-- The first element that satisfies a test stays the first one if it is kept. -/
theorem find?_filter_of_find? {α : Type} {test keep : α → Bool} {l : List α} {a : α}
    (hf : l.find? test = some a) (hk : keep a = true) : (l.filter keep).find? test = some a := by
  obtain ⟨ha, before, after, rfl, hb⟩ := List.find?_eq_some_iff_append.mp hf
  rw [List.filter_append, List.filter_cons_of_pos hk, List.find?_append]
  have hnone : (before.filter keep).find? test = none := by
    rw [List.find?_eq_none]
    intro b hm
    simpa using hb b (List.mem_filter.mp hm).1
  rw [hnone, List.find?_cons_of_pos ha]
  rfl

/-- No pass cuts off the identifier that names a node. -/
theorem name?_prune (h : t.WellFormed) (hn : Kept p t n) {name : String}
    (hname : t.name? n = some name) : (prune p t).1.name? n = some name := by
  obtain ⟨c, hc, htext⟩ := Option.bind_eq_some_iff.mp hname
  obtain ⟨hp, hr⟩ := childWithRole?_some h hc
  have hrole : ∀ {q role}, t.childWithRole? q role = some c → role = .name :=
    fun hf => (childWithRole?_some h hf).2.symm.trans hr
  have hd : ¬Dropped p t c := by
    intro hd
    cases hd with
    | declaration _ hk _ =>
      unfold Tree.identifierText? at htext
      revert hk htext
      cases t.kind c <;> simp [Kind.identifierText?, removalRule]
    | accessor _ _ hfirst _ =>
      rcases hfirst with hf | hf
      · cases hrole hf
      · cases hrole hf
    | body _ _ hf => cases hrole hf
    | spentSection _ hx _ _ => cases hx.symm.trans hr
    | noiseAttribute _ hx _ _ _ _ _ => cases hx.symm.trans hr
  have hfirst : (prune p t).1.childWithRole? n .name = some c := by
    unfold Tree.childWithRole?
    rw [children_prune h]
    simp only [role_prune h]
    refine find?_filter_of_find? hc ?_
    simpa using fun hcut => hd ((hn.mem_cutNodes_iff h hp).mp hcut)
  unfold Tree.name? Tree.identifierText?
  rw [hfirst, Option.bind_some, kind_prune h]
  exact htext

/-- A declaration that stays is not removable afterwards. -/
theorem not_isRemoved_prune (h : t.WellFormed) (hn : (prune p t).1.isAttached n = true) :
    isRemoved p (prune p t).1 n = false := by
  have hkept := kept_of_isAttached h hn
  rw [← Bool.not_eq_true]
  intro hrem
  obtain ⟨rule, hk, hrem⟩ := isRemoved_iff.mp hrem
  rw [kind_prune h] at hk hrem
  have hexplicit : ((prune p t).1.childWithRole? n .privateImplementationType).isSome = true →
      (t.childWithRole? n .privateImplementationType).isSome = true := by
    unfold Tree.childWithRole?
    simp only [List.find?_isSome, role_prune h]
    rintro ⟨c, hc, hr⟩
    exact ⟨c, h.mem_children.mpr ((hkept.mem_children_prune h).mp hc).1, hr⟩
  have htarget : (t.name? n == some p.target) = true →
      ((prune p t).1.name? n == some p.target) = true := by
    rw [beq_iff_eq, beq_iff_eq]
    exact name?_prune h hkept
  have hbefore := rule.removes_mono hexplicit htarget hrem
  rcases h.mem_lineage_iff.mp hkept.1 with hroot | ⟨q, hq, -⟩
  · rw [← hroot, h.root_kind] at hk
    cases hk
  · exact hkept.2 n (h.self_mem_lineage n) (.declaration hq hk hbefore)

/-! ## A pass that finds nothing -/

theorem Filtered.showsAttributes (h : t.WellFormed) (hf : Filtered t n) : ShowsAttributes t n := by
  have hrole : ∀ {q role}, t.childWithRole? q role = some n → t.role n = role :=
    fun hf => (childWithRole?_some h hf).2
  cases hf with
  | declaration hk => exact .declaration hk
  | getSet hq hk hfirst => exact .getSet hq hk (by simpa using hfirst.imp hrole hrole)
  | addRemove hq hk hfirst => exact .addRemove hq hk (by simpa using hfirst.imp hrole hrole)

/-- In a sealed tree, nothing but a removable declaration is dropped. -/
theorem Sealed.not_dropped (h : t.WellFormed) (hs : Sealed p t)
    (hrem : ∀ n, t.isAttached n = true → isRemoved p t n = false) {x : NodeId}
    (hx : Tree.root ∈ t.lineage x) : ¬Dropped p t x := by
  have hattached : ∀ {m}, m ∈ t.lineage x → t.isAttached m = true :=
    fun hm => Tree.isAttached_iff.mpr (h.root_mem_lineage hx hm)
  have hparent : ∀ {q}, t.parent? x = some q → q ∈ t.lineage x :=
    fun hq => h.mem_lineage_of_parent hq (h.self_mem_lineage _)
  have hmem : ∀ {q role}, t.childWithRole? q role = some x → x ∈ t.childrenWithRole q role :=
    fun hf => (mem_childrenWithRole h).mpr (childWithRole?_some h hf)
  intro hd
  cases hd with
  | declaration _ hk hr =>
    have hno := hrem x (hattached (h.self_mem_lineage x))
    rw [isRemoved_iff.mpr ⟨_, hk, hr⟩] at hno
    cases hno
  | accessor hq hk hfirst hh =>
    have hshown : Unhidden t x := by
      rcases hfirst with hf | hf
      · exact hs.accessor _ (hattached (hparent hq)) hk .getter (by decide) x (hmem hf)
      · exact hs.accessor _ (hattached (hparent hq)) hk .setter (by decide) x (hmem hf)
    rw [hshown.1, hshown.2] at hh
    simp at hh
  | body hq hk hf =>
    have hbody := hmem hf
    rw [hs.body _ (hattached (hparent hq)) hk] at hbody
    cases hbody
  | spentSection hq hr hf hspent =>
    obtain ⟨hne, hclean⟩ := hs.attributes _ (hattached (hparent hq)) (hf.showsAttributes h) x
      ((mem_childrenWithRole h).mpr ⟨hq, hr⟩)
    obtain ⟨a, ha⟩ := List.exists_mem_of_ne_nil _ hne
    obtain ⟨hap, har⟩ := (mem_childrenWithRole h).mp ha
    have hnoise := isNoise_iff.mpr (hspent a hap har)
    rw [hclean a ha] at hnoise
    cases hnoise
  | noiseAttribute hg hr hq hgr hf hname hx =>
    obtain ⟨-, hclean⟩ := hs.attributes _
      (hattached (h.mem_lineage_trans (h.mem_lineage_of_parent hq (h.self_mem_lineage _))
        (hparent hg))) (hf.showsAttributes h) _
      ((mem_childrenWithRole h).mpr ⟨hq, hgr⟩)
    have hno := hclean x ((mem_childrenWithRole h).mpr ⟨hg, hr⟩)
    rw [isNoise_iff.mpr ⟨_, hname, hx⟩] at hno
    cases hno

/-- A pass over a sealed tree without removable declarations leaves it as it is. -/
theorem prune_eq_self (h : t.WellFormed) (hs : Sealed p t)
    (hrem : ∀ n, t.isAttached n = true → isRemoved p t n = false) :
    prune p t = (t, ⟨0, 0, 0, 0, 0⟩) := by
  have hcuts : (Pass.run p t).cuts = [] := by
    rw [List.eq_nil_iff_forall_not_mem]
    intro c hc
    have hlost := lost_of_mem_cutNodes h (List.mem_map_of_mem hc)
    have hr := hlost.mem_lineage h
    rcases h.mem_lineage_iff.mp hr with e | ⟨q, hq, -⟩
    · exact hlost.ne_root h e.symm
    · exact hs.not_dropped h hrem hr (hlost.dropped h hq)
  have htree : (Pass.run p t).tree = t := by
    have hover := (Pass.run_adds h p).isOver
    unfold Pass.Over Pass.nodes at hover
    rwa [hcuts] at hover
  have hpair : prune p t = ((Pass.run p t).tree, Summary.ofCuts (Pass.run p t).cuts) := rfl
  rw [hpair, hcuts, htree]
  rfl

/-- **Pruning is idempotent.** A second pass over an orderly tree cuts nothing off and leaves the
whole store as it is. -/
theorem prune_prune (ht : t.Built) (ho : Orderly t) (p : Policy) :
    (prune p (prune p t).1).2.isEmpty = true ∧ (prune p (prune p t).1).1 = (prune p t).1 := by
  have h := ht.wellFormed
  have hself := prune_eq_self (wellFormed_prune h p) (sealed_prune h ho p)
    fun n hn => not_isRemoved_prune h hn
  rw [hself]
  exact ⟨rfl, rfl⟩

/-- Of the class with a method and a property, the first pass cuts off a body, a setter and an
attribute, the second nothing. -/
theorem prune_prune_membersSample :
    Orderly (treeOf membersSample) ∧
      (prune widgetPolicy (treeOf membersSample)).2.isEmpty = false ∧
      (prune widgetPolicy (prune widgetPolicy (treeOf membersSample)).1).2.isEmpty = true ∧
      (prune widgetPolicy (prune widgetPolicy (treeOf membersSample)).1).1 =
        (prune widgetPolicy (treeOf membersSample)).1 := by
  have hd : Tree.ofDocument membersSample = .ok (treeOf membersSample) := rfl
  have ho : Orderly (treeOf membersSample) := ⟨by decide +kernel, by decide +kernel⟩
  exact ⟨ho, by decide +kernel, prune_prune (.ofDocument hd) ho widgetPolicy⟩

end CodeView.Interface
