import CodeView.Proofs.Interface.Trim
import CodeView.Proofs.Syntax.Build
import CodeView.Proofs.Syntax.Modifiers

/-!
# What pruning leaves

A pass trims a node, then goes on with the children that it has left. What it cuts off is told here
by the tree that it started from.

* `Lost p t n`: the nodes that the visit of `n` loses, that is the declarations to be removed at and
  below `n`, and what trimming takes from any node at or below `n`.
* `visit_adds`: the visit of `n` adds `Lost p t n`, by induction on the levels below `n`.
* `Dropped p t n`: `n` itself is left out, one case for each reason, all read on `t`.
* `isAttached_prune_iff`: after pruning, the root reaches the nodes that it reached before, except
  those at or below a dropped node.
-/

namespace CodeView.Interface

open CodeView.Syntax

variable {p : Policy} {t : Tree} {n : NodeId}

namespace Pass

variable {s s₁ : Pass}

/-! ## One visit -/

/-- Where trimming takes something from: the node itself, or the attributes of a child. -/
theorem Trimmed.place (h : t.WellFormed) {x : NodeId} (hx : Trimmed p t n x) :
    t.parent? x = some n ∨ t.role x = .attributes ∧ ∃ c, t.parent? c = some n ∧
      (t.parent? x = some c ∨
        ∃ g, t.parent? x = some g ∧ t.parent? g = some c ∧ t.role g = .attributes ∧
          isNoise p t x = true) := by
  rcases hx with (⟨-, hx⟩ | hx) | ⟨-, hx⟩
  · rcases hx.parent with hp | ⟨g, hp, hg, -, -⟩
    · exact .inl hp
    · exact .inr ⟨hx.role, g, hg, .inl hp⟩
  · obtain ⟨_, a, -, hap, -, rfl | hx⟩ := hx.cases h
    · exact .inl hap
    · exact .inr ⟨hx.role, a, hap, hx.parent⟩
  · exact .inl (childWithRole?_some h hx).1

/-- After a node has been trimmed, its children are ready to be visited. -/
theorem Ready.child (h : t.WellFormed) (hr : Ready p t s.nodes n)
    (ha : Adds t (Trimmed p t n) s s₁) {c : NodeId} (hc : t.parent? c = some n) :
    Ready p t s₁.nodes c := by
  intro x hx q hq hm
  have hn : ∀ {r}, r = n → c ∉ t.lineage r := by
    rintro r rfl
    exact h.not_mem_lineage_parent hc
  have hsib : ∀ {d r}, t.parent? d = some n → d ∈ t.lineage r → c ∈ t.lineage r → d = c :=
    fun hd hdr hcr => h.eq_of_siblings hd hc hdr hcr
  rcases ha.sound x hx with hx | hx
  · have hnq := h.mem_lineage_trans (h.mem_lineage_of_parent hc (h.self_mem_lineage n)) hm
    obtain ⟨hrole, e | ⟨hqn, -, -⟩⟩ := hr x hx q hq hnq
    · exact absurd hm (hn e)
    · exact ⟨hrole, .inl (hsib hqn (h.self_mem_lineage q) hm)⟩
  · rcases hx.place h with e | ⟨hrole, d, hd, e | ⟨g, e, hg, hgr, hnoise⟩⟩
    · exact absurd hm (hn (Option.some.inj (hq.symm.trans e)))
    · cases hq.symm.trans e
      exact ⟨hrole, .inl (hsib hd (h.self_mem_lineage q) hm)⟩
    · cases hq.symm.trans e
      have hdc := hsib hd (h.mem_lineage_of_parent hg (h.self_mem_lineage d)) hm
      exact ⟨hrole, .inr ⟨hdc ▸ hg, hgr, hnoise⟩⟩

/-- What the visit of `n` loses. -/
def Lost (p : Policy) (t : Tree) (n x : NodeId) : Prop :=
  (n ∈ t.lineage x ∧ isRemoved p t x = true) ∨ ∃ g, n ∈ t.lineage g ∧ Trimmed p t g x

theorem Lost.mem_lineage (h : t.WellFormed) {x : NodeId} (hx : Lost p t n x) :
    n ∈ t.lineage x := by
  rcases hx with ⟨hm, -⟩ | ⟨g, hm, hx⟩
  · exact hm
  · obtain ⟨q, hq, hg⟩ := hx.below h
    exact h.mem_lineage_of_parent hq (h.mem_lineage_trans hm hg)

theorem Lost.up (h : t.WellFormed) {m x : NodeId} (hm : m ∈ t.lineage n) (hx : Lost p t n x) :
    Lost p t m x := by
  rcases hx with ⟨hn, hx⟩ | ⟨g, hn, hx⟩
  · exact .inl ⟨h.mem_lineage_trans hm hn, hx⟩
  · exact .inr ⟨g, h.mem_lineage_trans hm hn, hx⟩

/-- What is lost below a node that stays is taken from it or lost in the visit of a child. -/
theorem Lost.down (h : t.WellFormed) {x : NodeId} (hk : isRemoved p t n = false)
    (hx : Lost p t n x) :
    Trimmed p t n x ∨ ∃ c, t.parent? c = some n ∧ Lost p t c x := by
  rcases hx with ⟨hm, hx⟩ | ⟨g, hm, hx⟩
  · have hne : x ≠ n := by
      rintro rfl
      rw [hk] at hx
      cases hx
    obtain ⟨c, hc, hcx⟩ := h.exists_child_on_path hm hne
    exact .inr ⟨c, hc, .inl ⟨hcx, hx⟩⟩
  · by_cases hg : g = n
    · exact .inl (hg ▸ hx)
    · obtain ⟨c, hc, hcg⟩ := h.exists_child_on_path hm hg
      exact .inr ⟨c, hc, .inr ⟨g, hcg, hx⟩⟩

/-- Visiting one child leaves the others ready. -/
theorem Ready.of_sibling (h : t.WellFormed) {c d : NodeId} (hc : t.parent? c = some n)
    (hd : t.parent? d = some n) (hne : c ≠ d) (hr : Ready p t s.nodes d)
    (ha : Adds t (Lost p t c) s s₁) : Ready p t s₁.nodes d := by
  intro x hx q hq hm
  rcases ha.sound x hx with hx | hx
  · exact hr x hx q hq hm
  · exact absurd (h.eq_of_siblings hc hd (hx.mem_lineage h) (h.mem_lineage_of_parent hq hm)) hne

theorem foldl_adds (h : t.WellFormed) {f : Pass → NodeId → Pass} {l : List NodeId}
    (hl : ∀ c ∈ l, t.parent? c = some n) (hd : l.Nodup) (ho : s.Over t)
    (hr : ∀ c ∈ l, Ready p t s.nodes c)
    (hf : ∀ c ∈ l, ∀ s : Pass, s.Over t → Ready p t s.nodes c → Adds t (Lost p t c) s (f s c)) :
    Adds t (fun x => ∃ c ∈ l, Lost p t c x) s (l.foldl f s) := by
  induction l generalizing s with
  | nil => exact (Adds.refl ho).congr fun x => by simp
  | cons c l ih =>
    obtain ⟨hcl, hd⟩ := List.nodup_cons.mp hd
    have ha := hf c (by simp) s ho (hr c (by simp))
    have hr' : ∀ d ∈ l, Ready p t (f s c).nodes d := by
      intro d hdl
      have hne : c ≠ d := fun e => hcl (e ▸ hdl)
      exact (hr d (by simp [hdl])).of_sibling h (hl c (by simp)) (hl d (by simp [hdl])) hne ha
    have hb := ih (fun d hdl => hl d (by simp [hdl])) hd ha.isOver hr'
      fun d hdl => hf d (by simp [hdl])
    exact (ha.trans hb).congr fun x => by simp

/-- **A visit in terms of the tree at the start.** There are enough levels if they reach from the
number of the node to the size of the store. -/
theorem visit_adds (h : t.WellFormed) {levels n : Nat} (hn : n < t.size)
    (hl : t.size ≤ levels + n) (ho : s.Over t) (hr : Ready p t s.nodes n) :
    Adds t (Lost p t n) s (s.visit p levels n) := by
  induction levels generalizing s n with
  | zero => omega
  | succ levels ih =>
    have hread : isRemoved p s.tree n = isRemoved p t n := by
      rw [ho]
      exact isRemoved_detachAll h hr.attributesOnly
    rw [visit, hread]
    split
    · next hk =>
      refine (Adds.cut h ho .declaration n).widen h ?_ ?_
      · rintro x rfl
        exact .inl ⟨h.self_mem_lineage x, hk⟩
      · exact fun x hx => ⟨n, hx.mem_lineage h, .inl rfl⟩
    · next hk =>
      rw [Bool.not_eq_true] at hk
      have ha := trim_adds h ho hr
      have hkids : (s.trim p n).tree.children n =
          (t.children n).filter (· ∉ (s.trim p n).nodes) := by
        rw [ha.isOver]
        exact h.children_detachAll _ _
      have hmem : ∀ c, c ∈ (s.trim p n).tree.children n ↔
          t.parent? c = some n ∧ c ∉ (s.trim p n).nodes := by
        intro c
        rw [hkids, List.mem_filter, h.mem_children, decide_eq_true_eq]
      have hnodup : ((s.trim p n).tree.children n).Nodup := by
        rw [hkids]
        exact (h.nodup_children n).filter _
      have hb := foldl_adds h (fun c hc => ((hmem c).mp hc).1) hnodup ha.isOver
        (fun c hc => hr.child h ha ((hmem c).mp hc).1)
        fun c hc s hso hsr => by
          have hp := ((hmem c).mp hc).1
          have hlt := h.parent_lt hp
          exact ih (Tree.lt_size_of_parent hp) (by omega) hso hsr
      refine (ha.trans hb).widen h ?_ ?_
      · rintro x (hx | ⟨c, hc, hx⟩)
        · exact .inr ⟨n, h.self_mem_lineage n, hx⟩
        · exact hx.up h (h.mem_lineage_of_parent ((hmem c).mp hc).1 (h.self_mem_lineage n))
      · intro x hx
        rcases hx.down h hk with hx | ⟨c, hc, hx⟩
        · exact ⟨x, h.self_mem_lineage x, .inl (.inl hx)⟩
        · by_cases hcut : c ∈ (s.trim p n).nodes
          · -- The child has been cut off already, by the trimming or before.
            refine ⟨c, hx.mem_lineage h, ?_⟩
            exact (ha.sound c hcut).symm.imp_left .inl
          · exact ⟨x, h.self_mem_lineage x, .inl (.inr ⟨c, (hmem c).mpr ⟨hc, hcut⟩, hx⟩)⟩

theorem run_adds (h : t.WellFormed) (p : Policy) :
    Adds t (Lost p t Tree.root) (start t) (run p t) :=
  visit_adds h h.root_lt (by omega) (over_start t) (by intro x hx; simp [nodes, start] at hx)

/-- Nothing is lost of a tree at its root, which no rule removes and nothing contains. -/
theorem Lost.ne_root (h : t.WellFormed) {m : NodeId} (hx : Lost p t n m) : m ≠ Tree.root := by
  rintro rfl
  rcases hx with ⟨-, hx⟩ | ⟨g, -, hx⟩
  · rw [isRemoved_root h] at hx
    cases hx
  · obtain ⟨q, hq, -⟩ := hx.below h
    rw [h.root_parent] at hq
    cases hq

end Pass

/-! ## The reasons, on the tree before -/

/-- The attributes of a node are filtered: it is a declaration with a removal rule, the first getter
or setter of a property, or the first adder or remover of an event. -/
inductive Filtered (t : Tree) (n : NodeId) : Prop where
  | declaration (rule : (removalRule (t.kind n)).isSome = true)
  | getSet {q : NodeId} (parent : t.parent? n = some q) (kind : isProperty (t.kind q) = true)
    (first : t.childWithRole? q .getter = some n ∨ t.childWithRole? q .setter = some n)
  | addRemove {q : NodeId} (parent : t.parent? n = some q) (kind : isCustomEvent (t.kind q) = true)
    (first : t.childWithRole? q .addAccessor = some n ∨ t.childWithRole? q .removeAccessor = some n)

/-- A node below `q` is left out, for one of five reasons. -/
inductive Dropped (p : Policy) (t : Tree) (n : NodeId) : Prop where
  /-- The rule of its kind removes it. -/
  | declaration {q : NodeId} (parent : t.parent? n = some q) {rule : RemovalRule}
    (kind : removalRule (t.kind n) = some rule)
    (removes : rule.removes (t.kind n).modifiers
      (t.childWithRole? n .privateImplementationType).isSome (t.name? n == some p.target) = true)
  /-- It is the first getter or setter of a property, and private or internal. -/
  | accessor {q : NodeId} (parent : t.parent? n = some q) (kind : isProperty (t.kind q) = true)
    (first : t.childWithRole? q .getter = some n ∨ t.childWithRole? q .setter = some n)
    (hidden : (t.kind n).modifiers.contains .privateAccess = true ∨
      (t.kind n).modifiers.contains .internalAccess = true)
  /-- It is the first body of a method, constructor or accessor. -/
  | body {q : NodeId} (parent : t.parent? n = some q) (kind : losesBody (t.kind q) = true)
    (first : t.childWithRole? q .body = some n)
  /-- It is a section of a filtered node, and all its attributes are noise. -/
  | spentSection {q : NodeId} (parent : t.parent? n = some q) (role : t.role n = .attributes)
    (filtered : Filtered t q)
    (spent : ∀ a, t.parent? a = some n → t.role a = .attributes →
      ∃ name, attributeName? t a = some name ∧ name ∈ p.noise)
  /-- It is a noise attribute in a section of a filtered node. -/
  | noiseAttribute {g q : NodeId} (parent : t.parent? n = some g) (role : t.role n = .attributes)
    (above : t.parent? g = some q) (sectionRole : t.role g = .attributes)
    (filtered : Filtered t q) {name : String} (type : attributeName? t n = some name)
    (noise : name ∈ p.noise)

theorem isNoise_iff {a : NodeId} :
    isNoise p t a = true ↔ ∃ name, attributeName? t a = some name ∧ name ∈ p.noise := by
  unfold isNoise
  cases attributeName? t a with
  | none => simp
  | some name => simp [Policy.isNoise]

theorem isRemoved_iff :
    isRemoved p t n = true ↔ ∃ rule, removalRule (t.kind n) = some rule ∧
      rule.removes (t.kind n).modifiers (t.childWithRole? n .privateImplementationType).isSome
        (t.name? n == some p.target) = true := by
  unfold isRemoved
  cases removalRule (t.kind n) <;> simp

theorem isHidden_iff :
    isHidden t n = true ↔ (t.kind n).modifiers.contains .privateAccess = true ∨
      (t.kind n).modifiers.contains .internalAccess = true := by
  have hmem : ∀ m, hidden.contains m = true ↔ m = .privateAccess ∨ m = .internalAccess := by
    intro m
    rw [hidden, Modifiers.contains_ofList]
    simp
  have hrule : isHidden t n = (t.kind n).modifiers.meets hidden := by
    simp [isHidden, RemovalRule.removes, accessorRule]
  rw [hrule, Modifiers.meets_iff]
  constructor
  · rintro ⟨m, hm, hh⟩
    rcases (hmem m).mp hh with rfl | rfl
    · exact .inl hm
    · exact .inr hm
  · rintro (hm | hm)
    · exact ⟨_, hm, (hmem _).mpr (.inl rfl)⟩
    · exact ⟨_, hm, (hmem _).mpr (.inr rfl)⟩

/-! ## The two accounts agree -/

namespace Pass

theorem AttributeCut.dropped {x : NodeId} (hf : Filtered t n) (hx : AttributeCut p t n x) :
    Dropped p t x := by
  obtain ⟨g, hg, hr, ⟨hp, hxr, hx⟩ | ⟨rfl, hx⟩⟩ := hx
  · obtain ⟨name, hname, hx⟩ := isNoise_iff.mp hx
    exact .noiseAttribute hp hxr hg hr hf hname hx
  · exact .spentSection hg hr hf fun a ha har => isNoise_iff.mp (hx a ha har)

theorem AccessorCut.dropped {hides : Bool} {role : Role} {x : NodeId}
    (hf : ∀ a, t.childWithRole? n role = some a → Filtered t a)
    (hh : ∀ a, t.childWithRole? n role = some a → hides = true → isHidden t a = true →
      Dropped p t a)
    (hx : AccessorCut p t hides n role x) : Dropped p t x := by
  obtain ⟨a, ha, hx⟩ := hx
  split at hx
  · next hc =>
    rw [Bool.and_eq_true] at hc
    exact hx ▸ hh a ha hc.1 hc.2
  · exact hx.dropped (hf a ha)

theorem AccessorsCut.dropped (h : t.WellFormed) {x : NodeId} (hx : AccessorsCut p t n x) :
    Dropped p t x := by
  have hp : ∀ {role a}, t.childWithRole? n role = some a → t.parent? a = some n :=
    fun ha => (childWithRole?_some h ha).1
  rcases hx with ⟨hk, hx | hx⟩ | ⟨hk, hx | hx⟩
  · exact hx.dropped (fun a ha => .getSet (hp ha) hk (.inl ha))
      fun a ha _ hh => .accessor (hp ha) hk (.inl ha) (isHidden_iff.mp hh)
  · exact hx.dropped (fun a ha => .getSet (hp ha) hk (.inr ha))
      fun a ha _ hh => .accessor (hp ha) hk (.inr ha) (isHidden_iff.mp hh)
  · exact hx.dropped (fun a ha => .addRemove (hp ha) hk (.inl ha)) (by simp)
  · exact hx.dropped (fun a ha => .addRemove (hp ha) hk (.inr ha)) (by simp)

/-- Whatever a visit loses is dropped. -/
theorem Lost.dropped (h : t.WellFormed) {x q : NodeId} (hq : t.parent? x = some q)
    (hx : Lost p t n x) : Dropped p t x := by
  rcases hx with ⟨-, hx⟩ | ⟨g, -, (⟨hk, hx⟩ | hx) | ⟨hk, hx⟩⟩
  · obtain ⟨rule, hk, hx⟩ := isRemoved_iff.mp hx
    exact .declaration hq hk hx
  · exact hx.dropped (.declaration hk)
  · exact hx.dropped h
  · exact .body (childWithRole?_some h hx).1 hk hx

/-- An accessor of a property that stays has its attributes filtered; one that does not is lost
itself. -/
theorem AccessorCut.of_attributeCut (h : t.WellFormed) {hides : Bool} {role : Role} {a x : NodeId}
    (ha : t.childWithRole? n role = some a) (hx : AttributeCut p t a x) :
    ∃ y ∈ t.lineage x, AccessorCut p t hides n role y := by
  by_cases hh : (hides && isHidden t a) = true
  · obtain ⟨q, hq, hm⟩ := hx.below h
    exact ⟨a, h.mem_lineage_of_parent hq hm, a, ha, by rw [if_pos hh]⟩
  · exact ⟨x, h.self_mem_lineage x, a, ha, by rwa [if_neg hh]⟩

/-- The attributes that a filtered node does not keep are taken by the trimming of the node or of
its parent, if not by themselves then with the node. -/
theorem AttributeCut.trimmed (h : t.WellFormed) {x : NodeId} (hf : Filtered t n)
    (hx : AttributeCut p t n x) : ∃ y ∈ t.lineage x, ∃ g, Trimmed p t g y := by
  cases hf with
  | declaration hk => exact ⟨x, h.self_mem_lineage x, n, .inl (.inl ⟨hk, hx⟩)⟩
  | getSet hq hk hfirst =>
    rcases hfirst with ha | ha
    · obtain ⟨y, hy, hc⟩ := AccessorCut.of_attributeCut h ha hx
      exact ⟨y, hy, _, .inl (.inr (.inl ⟨hk, .inl hc⟩))⟩
    · obtain ⟨y, hy, hc⟩ := AccessorCut.of_attributeCut h ha hx
      exact ⟨y, hy, _, .inl (.inr (.inl ⟨hk, .inr hc⟩))⟩
  | addRemove hq hk hfirst =>
    rcases hfirst with ha | ha
    · obtain ⟨y, hy, hc⟩ := AccessorCut.of_attributeCut h ha hx
      exact ⟨y, hy, _, .inl (.inr (.inr ⟨hk, .inl hc⟩))⟩
    · obtain ⟨y, hy, hc⟩ := AccessorCut.of_attributeCut h ha hx
      exact ⟨y, hy, _, .inl (.inr (.inr ⟨hk, .inr hc⟩))⟩

end Pass

/-- A dropped node that the root reaches is lost, or a node above it is. -/
theorem Dropped.lost (h : t.WellFormed) {x : NodeId} (hr : Tree.root ∈ t.lineage x)
    (hd : Dropped p t x) : ∃ y ∈ t.lineage x, Pass.Lost p t Tree.root y := by
  have of_trimmed : (∃ y ∈ t.lineage x, ∃ g, Pass.Trimmed p t g y) →
      ∃ y ∈ t.lineage x, Pass.Lost p t Tree.root y := by
    rintro ⟨y, hy, g, ht⟩
    obtain ⟨q, hq, hg⟩ := ht.below h
    have hgx := h.mem_lineage_trans (h.mem_lineage_of_parent hq hg) hy
    exact ⟨y, hy, .inr ⟨g, h.root_mem_lineage hr hgx, ht⟩⟩
  cases hd with
  | declaration hq hk hx =>
    exact ⟨x, h.self_mem_lineage x, .inl ⟨hr, isRemoved_iff.mpr ⟨_, hk, hx⟩⟩⟩
  | accessor hq hk hfirst hh =>
    have hcut : ∀ {q role}, t.childWithRole? q role = some x → Pass.AccessorCut p t true q role x :=
      fun ha => ⟨x, ha, by rw [Bool.true_and, if_pos (isHidden_iff.mpr hh)]⟩
    refine of_trimmed ⟨x, h.self_mem_lineage x, _, .inl (.inr (.inl ⟨hk, ?_⟩))⟩
    exact hfirst.imp hcut hcut
  | body hq hk hfirst => exact of_trimmed ⟨x, h.self_mem_lineage x, _, .inr ⟨hk, hfirst⟩⟩
  | spentSection hq hrole hf hspent =>
    refine of_trimmed (Pass.AttributeCut.trimmed h hf ⟨x, hq, hrole, .inr ⟨rfl, ?_⟩⟩)
    exact fun a ha har => isNoise_iff.mpr (hspent a ha har)
  | noiseAttribute hg hrole hq hgr hf hname hx =>
    refine of_trimmed (Pass.AttributeCut.trimmed h hf ⟨_, hq, hgr, .inl ⟨hg, hrole, ?_⟩⟩)
    exact isNoise_iff.mpr ⟨_, hname, hx⟩

theorem Dropped.parent_isSome (hd : Dropped p t n) : ∃ q, t.parent? n = some q := by
  cases hd with
  | declaration hq => exact ⟨_, hq⟩
  | accessor hq => exact ⟨_, hq⟩
  | body hq => exact ⟨_, hq⟩
  | spentSection hq => exact ⟨_, hq⟩
  | noiseAttribute hq => exact ⟨_, hq⟩

/-! ## The whole pass -/

/-- The nodes that pruning cuts off. -/
def cutNodes (p : Policy) (t : Tree) : List NodeId := (Pass.run p t).nodes

theorem prune_tree (h : t.WellFormed) (p : Policy) :
    (prune p t).1 = t.detachAll (cutNodes p t) :=
  (Pass.run_adds h p).isOver

theorem wellFormed_prune (h : t.WellFormed) (p : Policy) : (prune p t).1.WellFormed := by
  rw [prune_tree h]
  exact h.detachAll _

theorem label_prune (h : t.WellFormed) (p : Policy) (n : NodeId) :
    (prune p t).1.label n = t.label n := by
  rw [prune_tree h, Tree.label_detachAll]

theorem children_prune (h : t.WellFormed) (p : Policy) (n : NodeId) :
    (prune p t).1.children n = (t.children n).filter (· ∉ cutNodes p t) := by
  rw [prune_tree h, h.children_detachAll]

theorem lost_of_mem_cutNodes (h : t.WellFormed) {m : NodeId} (hm : m ∈ cutNodes p t) :
    Pass.Lost p t Tree.root m := by
  rcases (Pass.run_adds h p).sound m hm with hm | hm
  · simp [Pass.nodes, Pass.start] at hm
  · exact hm

/-- On a path from the root, a node is cut off if one is dropped, and the other way round. -/
theorem exists_cut_iff (h : t.WellFormed) (p : Policy) {x : NodeId}
    (hr : Tree.root ∈ t.lineage x) :
    (∃ m ∈ t.lineage x, m ∈ cutNodes p t ∧ t.parent? m ≠ none) ↔
      ∃ m ∈ t.lineage x, Dropped p t m := by
  constructor
  · rintro ⟨m, hm, hc, hp⟩
    obtain ⟨q, hq⟩ := Option.ne_none_iff_exists'.mp hp
    exact ⟨m, hm, (lost_of_mem_cutNodes h hc).dropped h hq⟩
  · rintro ⟨m, hm, hd⟩
    have hrm : Tree.root ∈ t.lineage m := h.root_mem_lineage hr hm
    obtain ⟨y, hy, hl⟩ := hd.lost h hrm
    obtain ⟨c, hc, hcut⟩ := (Pass.run_adds h p).complete y hl
    have hcx := h.mem_lineage_trans hc (h.mem_lineage_trans hy hm)
    have hne := (lost_of_mem_cutNodes h hcut).ne_root h
    exact ⟨c, hcx, hcut, Tree.parent?_ne_none (h.root_mem_lineage hr hcx) hne⟩

/-- The root reaches a node, and neither the node nor anything above it is dropped. -/
def Kept (p : Policy) (t : Tree) (n : NodeId) : Prop :=
  Tree.root ∈ t.lineage n ∧ ∀ m ∈ t.lineage n, ¬Dropped p t m

theorem Kept.child (h : t.WellFormed) {c : NodeId} (hn : Kept p t n) (hc : t.parent? c = some n)
    (hd : ¬Dropped p t c) : Kept p t c := by
  refine ⟨h.mem_lineage_of_parent hc hn.1, fun m hm => ?_⟩
  rw [h.lineage_of_parent hc, List.mem_cons] at hm
  rcases hm with rfl | hm
  · exact hd
  · exact hn.2 m hm

theorem kept_root (h : t.WellFormed) (p : Policy) : Kept p t Tree.root := by
  refine ⟨h.self_mem_lineage _, fun m hm hd => ?_⟩
  rw [Tree.lineage_of_none h.root_parent, List.mem_singleton] at hm
  obtain ⟨q, hq⟩ := hd.parent_isSome
  rw [hm, h.root_parent] at hq
  cases hq

/-- Nothing on the path of a kept node is cut off, so that path stays as it is. -/
theorem Kept.not_cut (h : t.WellFormed) (hn : Kept p t n) :
    ∀ m ∈ t.lineage n, m ∈ cutNodes p t → t.parent? m = none := by
  intro m hm hcut
  refine Classical.byContradiction fun hp => ?_
  obtain ⟨d, hdm, hd⟩ := (exists_cut_iff h p hn.1).mp ⟨m, hm, hcut, hp⟩
  exact hn.2 d hdm hd

/-- Of the children of a kept node, those are cut off that are dropped. -/
theorem Kept.mem_cutNodes_iff (h : t.WellFormed) {c : NodeId} (hn : Kept p t n)
    (hc : t.parent? c = some n) : c ∈ cutNodes p t ↔ Dropped p t c := by
  have hp : t.parent? c ≠ none := by
    rw [hc]
    exact Option.some_ne_none n
  have hiff := exists_cut_iff h p (h.mem_lineage_of_parent hc hn.1)
  simp only [h.lineage_of_parent hc, List.mem_cons] at hiff
  constructor
  · intro hcut
    obtain ⟨m, rfl | hm, hd⟩ := hiff.mp ⟨c, .inl rfl, hcut, hp⟩
    · exact hd
    · exact absurd hd (hn.2 m hm)
  · intro hd
    obtain ⟨m, rfl | hm, hcut, hmp⟩ := hiff.mpr ⟨c, .inl rfl, hd⟩
    · exact hcut
    · exact absurd (hn.not_cut h m hm hcut) hmp

/-- **The meaning of pruning.** The root reaches the nodes that it reached before and that have no
dropped node on their path, themselves included. -/
theorem isAttached_prune_iff (ht : t.Built) (p : Policy) (x : NodeId) :
    (prune p t).1.isAttached x = true ↔
      t.isAttached x = true ∧ ∀ m ∈ t.lineage x, ¬Dropped p t m := by
  have h := ht.wellFormed
  rw [prune_tree h, h.isAttached_detachAll]
  refine and_congr_right fun hx => ?_
  have hr := Tree.isAttached_iff.mp hx
  constructor
  · intro hc m hm hd
    obtain ⟨c, hcm, hcut, hp⟩ := (exists_cut_iff h p hr).mpr ⟨m, hm, hd⟩
    exact hp (hc c hcm hcut)
  · intro hd
    exact Kept.not_cut h ⟨hr, hd⟩

/-- A class with one property: a private setter with a body (nodes 3 and 4), and a getter with a
noise attribute in a section (nodes 5 to 9). -/
def propertySample : Tree :=
  ((((((((Tree.empty.append 0 .member (.typeDecl .classType ∅)).append 1 .member
    (.propertyDecl (.single .publicAccess))).append 2 .setter
    (.accessor .setter (.single .privateAccess))).append 3 .body .block).append 2 .getter
    (.accessor .getter ∅)).append 5 .attributes (.attributeSection none)).append 6 .attributes
    .attributeUse).append 7 .type .simpleType).append 8 .name (.identifier "CLSCompliant")

theorem propertySample_built : propertySample.Built :=
  ((((((((Tree.Built.empty.append (by decide) _ _).append (by decide) _ _).append
    (by decide) _ _).append (by decide) _ _).append (by decide) _ _).append (by decide) _ _).append
    (by decide) _ _).append (by decide) _ _).append (by decide) _ _

/-- The getter stays; its noise attribute and the body of the setter go. -/
theorem isAttached_prune_propertySample :
    propertySample.Built ∧
      (propertySample.isAttached 5 = true ∧ ∀ m ∈ propertySample.lineage 5,
        ¬Dropped ⟨"Widget", usualNoise⟩ propertySample m) ∧
      ∀ x ∈ [4, 7], ¬(propertySample.isAttached x = true ∧ ∀ m ∈ propertySample.lineage x,
        ¬Dropped ⟨"Widget", usualNoise⟩ propertySample m) := by
  refine ⟨propertySample_built,
    (isAttached_prune_iff propertySample_built _ 5).mp (by decide +kernel), fun x hx => ?_⟩
  rw [← isAttached_prune_iff propertySample_built]
  revert x
  decide +kernel

end CodeView.Interface
