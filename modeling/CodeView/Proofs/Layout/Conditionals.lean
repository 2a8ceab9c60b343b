import CodeView.Proofs.Layout.Arrangement
import CodeView.Proofs.Layout.Coverage

/-!
# Which `if` an `else` belongs to

A reader of the text sees no nodes: an `else` is read for the nearest `if` before it in the same
block that has none yet. A branch that is an `if` is written without braces, so the `else` behind it
may be read as the `else` of the branch.

* `Scope`, `bindings`: the reader, and for every `else` the node that wrote it and the node that
  wrote its `if`.
* `Dangles`: an `if` after which some `if` still lacks its `else`.
* `Leaves`: events that leave just some nodes without their `else`, whatever has been read before.
  Parts that are put together by the grammar leave none behind (`leaves_arranged`).
* `else_binds_iff`: an `else` is read as that of the node that wrote it, unless the first branch of
  the node dangles.
-/

namespace CodeView.Layout

open CodeView.Syntax

variable {ι : Type}

/-! ## Reading -/

/-- What a reader keeps in mind: the nodes that are open, the nodes of the block that have written
an `if` and no `else` is read for it yet, and those of the blocks around it, innermost first. -/
structure Scope (ι : Type) where
  nodes : List ι
  ifs : List ι
  outer : List (List ι)

namespace Scope

/-- Before the first event. -/
def top : Scope ι := ⟨[], [], []⟩

/-- Reads an event. -/
def step (s : Scope ι) : EventOf ι → Scope ι
  | .start n => { s with nodes := n :: s.nodes }
  | .finish _ => { s with nodes := s.nodes.tail }
  | .keyword word =>
    if word = "if" then { s with ifs := s.nodes.head?.toList ++ s.ifs }
    else if word = "else" then { s with ifs := s.ifs.tail }
    else s
  | .token text =>
    if text = "\x7b" then { s with ifs := [], outer := s.ifs :: s.outer }
    else if text = "\x7d" then { s with ifs := s.outer.headD [], outer := s.outer.tail }
    else s
  | _ => s

/-- Reads events. -/
def read (s : Scope ι) (events : List (EventOf ι)) : Scope ι := events.foldl step s

/-- An `else` with the node that writes it and the node it is read for. -/
def binding? (s : Scope ι) : EventOf ι → Option (ι × Option ι)
  | .keyword word => if word = "else" then s.nodes.head?.map fun n => (n, s.ifs.head?) else none
  | _ => none

/-- All of them in events. -/
def bindings (s : Scope ι) : List (EventOf ι) → List (ι × Option ι)
  | [] => []
  | e :: events => (s.binding? e).toList ++ (s.step e).bindings events

variable (s : Scope ι) (a b : List (EventOf ι))

theorem read_append : s.read (a ++ b) = (s.read a).read b := List.foldl_append

theorem bindings_append : s.bindings (a ++ b) = s.bindings a ++ (s.read a).bindings b := by
  induction a generalizing s with
  | nil => rfl
  | cons e a ih =>
    rw [List.cons_append, bindings, bindings, ih, List.append_assoc]
    rfl

end Scope

/-! ## Events that leave nodes without their `else` -/

/-- After the events, just the given nodes have no `else` that had none before, and of every `else`
in them something holds. -/
def Leaves (P : ι × Option ι → Prop) (opens : List ι) (events : List (EventOf ι)) : Prop :=
  ∀ s : Scope ι, s.read events = { s with ifs := opens ++ s.ifs } ∧ ∀ b ∈ s.bindings events, P b

variable {P : ι × Option ι → Prop} {x y : List ι} {a b : List (EventOf ι)}

theorem leaves_nil : Leaves P [] ([] : List (EventOf ι)) :=
  fun _ => ⟨rfl, List.forall_mem_nil _⟩

theorem Leaves.append (ha : Leaves P x a) (hb : Leaves P y b) : Leaves P (y ++ x) (a ++ b) := by
  intro s
  obtain ⟨hra, hba⟩ := ha s
  obtain ⟨hrb, hbb⟩ := hb { s with ifs := x ++ s.ifs }
  rw [Scope.read_append, Scope.bindings_append, hra, hrb, List.append_assoc]
  exact ⟨rfl, List.forall_mem_append.mpr ⟨hba, hbb⟩⟩

/-- An event that a reader passes over. -/
theorem leaves_idle {e : EventOf ι} (hs : ∀ s : Scope ι, s.step e = s)
    (hb : ∀ s : Scope ι, s.binding? e = none) : Leaves P [] [e] := by
  intro s
  have hnone : s.bindings [e] = [] := by rw [Scope.bindings, hb]; rfl
  rw [hnone]
  exact ⟨hs s, List.forall_mem_nil _⟩

theorem leaves_plain {e : EventOf ι} (he : e.isPlain = true) : Leaves P [] [e] := by
  cases e with
  | start _ | finish _ | indent | unindent => cases he
  | keyword word =>
    have hw : word ≠ "if" ∧ word ≠ "else" := by simpa [EventOf.isPlain] using he
    exact leaves_idle (fun s => by simp [Scope.step, hw]) fun s => by simp [Scope.binding?, hw]
  | token text =>
    have ht : text ≠ "\x7b" ∧ text ≠ "\x7d" := by simpa [EventOf.isPlain] using he
    exact leaves_idle (fun s => by simp [Scope.step, ht]) fun _ => rfl
  | _ => exact leaves_idle (fun _ => rfl) fun _ => rfl

theorem Leaves.cons {e : EventOf ι} (he : Leaves P [] [e]) (ha : Leaves P x a) :
    Leaves P x (e :: a) := by
  simpa using he.append ha

/-- One level deeper. -/
theorem Leaves.level (ha : Leaves P x a) : Leaves P x (.indent :: a ++ [.unindent]) := by
  have hindent : Leaves P [] [.indent] := leaves_idle (fun _ => rfl) fun _ => rfl
  have hunindent : Leaves P [] [.unindent] := leaves_idle (fun _ => rfl) fun _ => rfl
  exact (hindent.cons ha).append hunindent

/-- Reading events between others, from where those in front of them have led. -/
theorem Leaves.within (ha : Leaves P x a) {s inside : Scope ι} {front : List (EventOf ι)}
    (back : List (EventOf ι)) (hfront : s.read front = inside)
    (hbefore : ∀ b ∈ s.bindings front, P b)
    (hafter : ∀ b ∈ Scope.bindings { inside with ifs := x ++ inside.ifs } back, P b) :
    s.read (front ++ (a ++ back)) = Scope.read { inside with ifs := x ++ inside.ifs } back ∧
      ∀ b ∈ s.bindings (front ++ (a ++ back)), P b := by
  obtain ⟨hr, hb⟩ := ha inside
  rw [Scope.read_append, Scope.bindings_append, hfront, Scope.read_append, Scope.bindings_append,
    hr]
  exact ⟨rfl, List.forall_mem_append.mpr ⟨hbefore, List.forall_mem_append.mpr ⟨hb, hafter⟩⟩⟩

/-- Braces keep what is open in them to themselves. -/
theorem Leaves.block (ha : Leaves P x a) :
    Leaves P [] (.token "\x7b" :: a ++ [.token "\x7d"]) := by
  intro s
  have hopen : s.read [.token "\x7b"] = ⟨s.nodes, [], s.ifs :: s.outer⟩ := rfl
  exact ha.within [.token "\x7d"] hopen (List.forall_mem_nil _) (List.forall_mem_nil _)

/-- A node goes around what it writes. -/
theorem Leaves.node (ha : Leaves P x a) (n : ι) : Leaves P x (.start n :: a ++ [.finish n]) := by
  intro s
  have hstart : s.read [.start n] = ⟨n :: s.nodes, s.ifs, s.outer⟩ := rfl
  exact ha.within [.finish n] hstart (List.forall_mem_nil _) (List.forall_mem_nil _)

theorem Scope.read_if (s : Scope ι) (n : ι) :
    s.read [.start n, .keyword "if"] = ⟨n :: s.nodes, n :: s.ifs, s.outer⟩ := rfl

/-- An `if` without an `else` is left behind itself, below what its branch leaves. -/
theorem Leaves.lone (ha : Leaves P x a) (n : ι) :
    Leaves P (x ++ [n]) (.start n :: .keyword "if" :: a ++ [.finish n]) := by
  intro s
  rw [List.append_assoc]
  exact ha.within [.finish n] (s.read_if n) (List.forall_mem_nil _) (List.forall_mem_nil _)

/-- An `else` is read for what the first branch leaves last, and for its own `if` if that is
nothing. -/
theorem Leaves.paired (ha : Leaves P x a) (hb : Leaves P y b) {n : ι}
    (hn : P (n, (x ++ [n]).head?)) :
    Leaves P (y ++ (x ++ [n]).tail)
      (.start n :: .keyword "if" :: (a ++ .keyword "else" :: (b ++ [.finish n]))) := by
  intro s
  let before : Scope ι := ⟨n :: s.nodes, x ++ n :: s.ifs, s.outer⟩
  have helse : before.read [.keyword "else"] =
      ⟨n :: s.nodes, (x ++ [n]).tail ++ s.ifs, s.outer⟩ := by
    cases x <;> simp [Scope.read, Scope.step, before]
  have hbind : before.bindings [.keyword "else"] = [(n, (x ++ [n]).head?)] := by
    cases x <;> rfl
  have hhead : ∀ b ∈ before.bindings [.keyword "else"], P b := by
    rw [hbind]
    exact List.forall_mem_singleton.mpr hn
  obtain ⟨hread, hbound⟩ := hb.within [.finish n] helse hhead (List.forall_mem_nil _)
  obtain ⟨hreads, hbounds⟩ := ha.within _ (s.read_if n) (List.forall_mem_nil _) hbound
  rw [List.append_assoc]
  exact ⟨hreads.trans hread, hbounds⟩

/-! ## Parts that leave nothing -/

/-- What may stand where: in a line whatever leaves nothing, as lines anything that can be read. -/
def scopeRules (P : ι × Option ι → Prop) : Rules ι (Printed ι) where
  event e := e.isPlain = true
  inLine k := Leaves P [] k.text.own
  asBlock k := ∀ style, Leaves P [] (k.text.asBlock style)
  ownLine k := ∃ opens, Leaves P opens k.text.own

/-- Parts that the grammar puts together can be read, and in a line they leave nothing. -/
theorem leaves_arranged {m : Mode} {parts : List (Part ι (Printed ι))}
    (h : Arranged (scopeRules P) m parts) :
    (m = .inline → Leaves P [] (parts.flatMap Part.events)) ∧
      ∃ opens, Leaves P opens (parts.flatMap Part.events) := by
  have inline : ∀ {parts : List (Part ι (Printed ι))}, Leaves P [] (parts.flatMap Part.events) →
      (Mode.inline = .inline → Leaves P [] (parts.flatMap Part.events)) ∧
        ∃ opens, Leaves P opens (parts.flatMap Part.events) := fun h => ⟨fun _ => h, [], h⟩
  induction h with
  | nil m => exact ⟨fun _ => leaves_nil, [], leaves_nil⟩
  | append ha hb iha ihb =>
    obtain ⟨x, hx⟩ := iha.2
    obtain ⟨y, hy⟩ := ihb.2
    rw [List.flatMap_append]
    exact ⟨fun hm => (iha.1 hm).append (ihb.1 hm), y ++ x, hx.append hy⟩
  | event he => exact inline (leaves_plain he)
  | node hk =>
    refine inline ?_
    rw [List.flatMap_singleton]
    exact hk
  | block hk style =>
    refine inline ?_
    rw [List.flatMap_singleton]
    exact hk style
  | braced style hi ih =>
    refine inline ?_
    obtain ⟨x, hx⟩ := ih.2
    have hblock := ((leaves_plain (e := .newLine) rfl).cons hx).level.block
    rw [events_braced]
    rcases style with _ | _ | _
    · simpa using hblock
    · simpa using (leaves_plain (e := .space) rfl).cons hblock
    · simpa using (leaves_plain (e := .newLine) rfl).cons hblock
  | pair hi ih =>
    refine inline ?_
    rw [List.flatMap_append]
    exact (ih.1 rfl).block
  | line ha ih =>
    refine ⟨fun hm => (by cases hm), [], ?_⟩
    rw [List.flatMap_append]
    exact (ih.1 rfl).append (leaves_plain (e := .newLine) rfl)
  | own hk =>
    obtain ⟨x, hx⟩ := hk
    refine ⟨fun hm => (by cases hm), x, ?_⟩
    rw [List.flatMap_singleton]
    exact hx

/-! ## Trees -/

/-- An `if` that has no `else`, or one of whose branches dangles: after it, some `if` of it has no
`else` yet. -/
inductive Dangles (t : Tree) : NodeId → Prop where
  | lone {n : NodeId} (hk : t.kind n = .ifElse)
    (hf : t.childWithRole? n .falseStatement = none) : Dangles t n
  | first {n c : NodeId} (hk : t.kind n = .ifElse)
    (hc : t.childWithRole? n .trueStatement = some c) (hd : Dangles t c) : Dangles t n
  | second {n c : NodeId} (hk : t.kind n = .ifElse)
    (hc : t.childWithRole? n .falseStatement = some c) (hd : Dangles t c) : Dangles t n

/-- A node that can be read: statements are statements, an `if` stands nowhere else unless right
below a root, and neither an operator nor a word of the node is a brace or a word of an `if`. -/
structure Legible (t : Tree) (n : NodeId) : Prop where
  statements : ∀ c ∈ t.children n, isStatementRole (t.role c) = true →
    isStatementKind (t.kind c) = true
  others : t.kind n ≠ .syntaxTree → ∀ c ∈ t.children n, isStatementRole (t.role c) = false →
    t.kind c ≠ .ifElse ∧ t.kind c ≠ .syntaxTree
  operator : ∀ op ∈ operator? (t.kind n), op ≠ "\x7b" ∧ op ≠ "\x7d"
  target : ∀ word ∈ target? (t.kind n), word ≠ "if" ∧ word ≠ "else"

instance (t : Tree) (n : NodeId) : Decidable (Legible t n) :=
  decidable_of_iff
    ((∀ c ∈ t.children n, isStatementRole (t.role c) = true → isStatementKind (t.kind c) = true) ∧
      (t.kind n ≠ .syntaxTree → ∀ c ∈ t.children n, isStatementRole (t.role c) = false →
        t.kind c ≠ .ifElse ∧ t.kind c ≠ .syntaxTree) ∧
      (∀ op ∈ operator? (t.kind n), op ≠ "\x7b" ∧ op ≠ "\x7d") ∧
      ∀ word ∈ target? (t.kind n), word ≠ "if" ∧ word ≠ "else")
    ⟨fun h => ⟨h.1, h.2.1, h.2.2.1, h.2.2.2⟩, fun h => ⟨h.1, h.2, h.3, h.4⟩⟩

/-- An `else` is written by an `if`, and is read for an `if` at or below it: for itself if and only
if its first branch does not dangle. -/
def Bound (t : Tree) (b : NodeId × Option NodeId) : Prop :=
  t.kind b.1 = .ifElse ∧ (∃ m, b.2 = some m ∧ b.1 ∈ t.lineage m) ∧
    (b.2 = some b.1 ↔ ¬∃ c, t.childWithRole? b.1 .trueStatement = some c ∧ Dangles t c)

section Trees

variable {t : Tree} {n c : NodeId} {k : Child (Printed NodeId)}

theorem Dangles.kind_eq (hd : Dangles t n) : t.kind n = .ifElse := by
  cases hd <;> assumption

/-- With an `else`, it is up to the branches. -/
theorem dangles_iff (hk : t.kind n = .ifElse) (hc : t.childWithRole? n .falseStatement = some c) :
    Dangles t n ↔
      (∃ d, t.childWithRole? n .trueStatement = some d ∧ Dangles t d) ∨ Dangles t c := by
  constructor
  · intro hd
    cases hd with
    | lone _ hf =>
      rw [hc] at hf
      cases hf
    | first _ hc' hd => exact .inl ⟨_, hc', hd⟩
    | second _ hc' hd =>
      rw [hc] at hc'
      cases hc'
      exact .inr hd
  · rintro (⟨d, hc', hd⟩ | hd)
    · exact .first hk hc' hd
    · exact .second hk hc hd

/-- The children of a node, printed. -/
abbrev printedKids (o : Options) (t : Tree) (n : NodeId) : List (Child (Printed NodeId)) :=
  (t.children n).map fun c => print o (t.branch c)

/-- The first child of a role prints what the first one in the tree does. -/
theorem first?_print (h : t.WellFormed) (o : Options) (n : NodeId) (role : Role) :
    first? role (printedKids o t n) =
      (t.childWithRole? n role).map fun c => print o (t.branch c) := by
  unfold first? Tree.childWithRole?
  rw [List.find?_map]
  congr 2
  funext c
  exact congrArg (· == role) (role_print h o c)

/-- Events of a node that leave some `if` at or below it, if it dangles, and none if it does not. -/
structure LeavesBelow (t : Tree) (n : NodeId) (opens : List NodeId) (events : List Event) :
    Prop where
  leaves : Leaves (Bound t) opens events
  nil_iff : opens = [] ↔ ¬Dangles t n
  below : ∀ m ∈ opens, n ∈ t.lineage m

/-- What the print of a node leaves. Nothing is said of what a root leaves. -/
structure Reads (t : Tree) (n : NodeId) (k : Child (Printed NodeId)) : Prop where
  own : t.kind n ≠ .syntaxTree → ∃ opens, LeavesBelow t n opens k.text.own
  ownLine : ∃ opens, Leaves (Bound t) opens k.text.own
  asBlock : ∀ style, Leaves (Bound t) [] (k.text.asBlock style)

/-- A branch of an `if` leaves what its node leaves; braces go around it only if it is a block. -/
theorem Reads.embedded (hk : Reads t c k) (hkind : k.kind = t.kind c)
    (hs : isStatementKind (t.kind c) = true) (o : Options) :
    ∃ opens, LeavesBelow t c opens
      ((embedded o k : List (Part NodeId (Printed NodeId))).flatMap Part.events) := by
  by_cases hb : t.kind c = .block
  · have hnot : ¬Dangles t c := fun hd => by
      have := hd.kind_eq
      rw [hb] at this
      cases this
    rw [Layout.embedded, if_pos (hkind.trans hb), List.flatMap_singleton]
    exact ⟨[], hk.asBlock _, by simp [hnot], by simp⟩
  · have hroot : t.kind c ≠ .syntaxTree := fun hr => by rw [hr] at hs; cases hs
    obtain ⟨opens, hleaves, hnil, hbelow⟩ := hk.own hroot
    have hline := (leaves_plain (e := .newLine) rfl).cons hleaves.level
    rw [Layout.embedded, if_neg (hkind ▸ hb)]
    exact ⟨opens, by simpa [Part.events] using hline, hnil, hbelow⟩

/-- A child in the role of a statement, found in a node that can be read. -/
theorem Legible.statement (hn : Legible t n) {role : Role} (hr : isStatementRole role = true)
    (hc : t.childWithRole? n role = some c) :
    c ∈ t.children n ∧ isStatementKind (t.kind c) = true := by
  have hmem := List.mem_of_find?_eq_some hc
  have hrole : t.role c = role := by simpa using List.find?_some hc
  exact ⟨hmem, hn.statements c hmem (hrole ▸ hr)⟩

section IfElse

variable (h : t.WellFormed) (hn : Legible t n) {o : Options}
  (ih : ∀ c ∈ t.children n, Reads t c (print o (t.branch c)))
include h hn ih

/-- The first branch leaves what its node leaves. -/
theorem leaves_trueBranch :
    ∃ x, Leaves (Bound t) x ((trueBranch o (printedKids o t n)).1.flatMap Part.events) ∧
      (x = [] ↔ ¬∃ c, t.childWithRole? n .trueStatement = some c ∧ Dangles t c) ∧
      ∀ m ∈ x, m ≠ n ∧ n ∈ t.lineage m := by
  unfold trueBranch
  rw [first?_print h]
  cases hc : t.childWithRole? n .trueStatement with
  | none =>
    have hend : Leaves (Bound t) [] [.token ";", .newLine] :=
      (leaves_plain rfl).cons (leaves_plain rfl)
    exact ⟨[], hend, by simp, by simp⟩
  | some c =>
    obtain ⟨hmem, hs⟩ := hn.statement rfl hc
    obtain ⟨x, hleaves, hnil, hbelow⟩ := (ih c hmem).embedded (kind_print h o c) hs o
    have hparent := h.mem_children.mp hmem
    refine ⟨x, hleaves, by simp [hnil], fun m hm => ⟨?_, ?_⟩⟩
    · rintro rfl
      exact absurd (h.le_of_mem_lineage (hbelow _ hm)) (Nat.not_le.mpr (h.parent_lt hparent))
    · exact h.mem_lineage_trans (h.mem_lineage_of_parent hparent (h.self_mem_lineage n))
        (hbelow m hm)

/-- The second branch, if there is one, is an `else` and then what its node leaves. -/
theorem leaves_falseBranch (hc : t.childWithRole? n .falseStatement = some c) (lineOpen : Bool) :
    ∃ y tail, LeavesBelow t c y tail ∧
      (falseBranch o (printedKids o t n) lineOpen).flatMap Part.events =
        (spaceIf lineOpen : List (Part NodeId (Printed NodeId))).flatMap Part.events ++
          .keyword "else" :: tail := by
  obtain ⟨hmem, hs⟩ := hn.statement rfl hc
  have hkind := kind_print h o c
  unfold falseBranch
  rw [first?_print h, hc]
  simp only [Option.map_some, hkind, List.flatMap_append, List.flatMap_cons]
  by_cases hif : t.kind c = .ifElse
  · rw [if_pos hif]
    obtain ⟨y, hleaves, hnil, hbelow⟩ := (ih c hmem).own (by rw [hif]; simp)
    have hspace := (leaves_plain (e := .space) rfl).cons hleaves
    exact ⟨y, _, ⟨hspace, hnil, hbelow⟩, by simp [Part.events]⟩
  · rw [if_neg hif]
    obtain ⟨y, hleaves, hnil, hbelow⟩ := (ih c hmem).embedded hkind hs o
    have hend : Leaves (Bound t) [] (List.flatMap Part.events
        (if t.kind c = .block then [.newLine] else [] : List (Part NodeId (Printed NodeId)))) := by
      split
      · exact leaves_plain (e := .newLine) rfl
      · exact leaves_nil
    exact ⟨y, _, ⟨hleaves.append hend, hnil, hbelow⟩, by simp [Part.events]⟩

omit h hn ih in
/-- Whose `else` it is if the first branch leaves `x`. -/
theorem bound_else (hk : t.kind n = .ifElse) (hself : n ∈ t.lineage n) {x : List NodeId}
    (hx : x = [] ↔ ¬∃ c, t.childWithRole? n .trueStatement = some c ∧ Dangles t c)
    (hbelow : ∀ m ∈ x, m ≠ n ∧ n ∈ t.lineage m) : Bound t (n, (x ++ [n]).head?) := by
  refine ⟨hk, ?_, ?_⟩
  · cases x with
    | nil => exact ⟨n, rfl, hself⟩
    | cons m x => exact ⟨m, rfl, (hbelow m (by simp)).2⟩
  · rw [← hx]
    cases x with
    | nil => simp
    | cons m x => simpa using (hbelow m (by simp)).1

/-- An `if` reads its own `else` right if its first branch does not dangle, and leaves itself
behind if it has none. -/
theorem leavesBelow_ifElse (hk : t.kind n = .ifElse)
    (hfit : (scopeRules (Bound t)).Fit (printedKids o t n)) :
    ∃ opens, LeavesBelow t n opens
      (.start n :: (ifElse o (printedKids o t n)).flatMap Part.events ++ [.finish n]) := by
  obtain ⟨x, htrue, hx, hbelow⟩ := leaves_trueBranch h hn ih
  have hcond := (leaves_arranged (arranged_condition hfit o)).1 rfl
  have hfront := hcond.append htrue
  rw [List.append_nil] at hfront
  have hself := h.self_mem_lineage n
  rw [ifElse_eq, List.flatMap_append, List.flatMap_append, List.flatMap_cons]
  cases hc : t.childWithRole? n .falseStatement with
  | none =>
    have hend : Leaves (Bound t) [] ((falseBranch o (printedKids o t n)
        (trueBranch (ι := NodeId) o (printedKids o t n)).2).flatMap Part.events) := by
      unfold falseBranch
      rw [first?_print h, hc]
      simp only [Option.map_none]
      split
      · exact leaves_plain (e := .newLine) rfl
      · exact leaves_nil
    refine ⟨x ++ [n], ?_, by simp [Dangles.lone hk hc], ?_⟩
    · simpa [Part.events] using (hfront.append hend).lone n
    · exact List.forall_mem_append.mpr ⟨fun m hm => (hbelow m hm).2, by simpa using hself⟩
  | some c =>
    obtain ⟨y, tail, ⟨htail, hy, hbelow'⟩, heq⟩ := leaves_falseBranch h hn ih hc
      (trueBranch (ι := NodeId) o (printedKids o t n)).2
    have hspace : ∀ wanted : Bool, Leaves (Bound t) []
        ((spaceIf wanted : List (Part NodeId (Printed NodeId))).flatMap Part.events) := by
      intro wanted
      cases wanted with
      | true => exact leaves_plain (e := .space) rfl
      | false => exact leaves_nil
    refine ⟨y ++ (x ++ [n]).tail, ?_, ?_, ?_⟩
    · rw [heq]
      simpa [Part.events] using
        (hfront.append (hspace _)).paired htail (bound_else hk hself hx hbelow)
    · rw [dangles_iff hk hc, not_or, ← hx, ← hy]
      cases x <;> simp [and_comm]
    · have hparent := h.mem_children.mp (hn.statement rfl hc).1
      refine List.forall_mem_append.mpr ⟨fun m hm => ?_, fun m hm => ?_⟩
      · exact h.mem_lineage_trans (h.mem_lineage_of_parent hparent hself) (hbelow' m hm)
      · rcases List.mem_append.mp (List.mem_of_mem_tail hm) with hm | hm
        · exact (hbelow m hm).2
        · rw [List.mem_singleton.mp hm]
          exact hself

end IfElse

/-- Every node that can be read, together with those below it, leaves what it should. -/
theorem reads_print (h : t.WellFormed) (o : Options)
    (hn : ∀ m ∈ (t.branch n).ids, Legible t m) : Reads t n (print o (t.branch n)) := by
  induction n using h.induction_down with
  | step n ih =>
    rw [h.ids_branch] at hn
    have hlegible := hn n List.mem_cons_self
    have hkids : ∀ c ∈ t.children n, Reads t c (print o (t.branch c)) := fun c hc =>
      ih c hc fun m hm => hn m (List.mem_cons_of_mem _ (List.mem_flatMap.mpr ⟨c, hc, hm⟩))
    have hown : ∀ k ∈ printedKids o t n, (scopeRules (Bound t)).ownLine k :=
      List.forall_mem_map.mpr fun c hc => (hkids c hc).ownLine
    have hfit : t.kind n ≠ .syntaxTree → (scopeRules (Bound t)).Fit (printedKids o t n) := by
      refine fun hroot => ⟨fun _ he => he, ?_, ?_⟩
      · refine List.forall_mem_map.mpr fun c hc hr => ?_
        rw [role_print h] at hr
        obtain ⟨hif, htop⟩ := hlegible.others hroot c hc hr
        obtain ⟨opens, hleaves, hnil, -⟩ := (hkids c hc).own htop
        rwa [hnil.mpr fun hd => hif hd.kind_eq] at hleaves
      · exact List.forall_mem_map.mpr fun c hc _ => (hkids c hc).asBlock
    have hnode : t.kind n ≠ .syntaxTree →
        ∃ opens, LeavesBelow t n opens (print o (t.branch n)).text.own := by
      intro hroot
      rw [text_print h]
      by_cases hif : t.kind n = .ifElse
      · rw [Printed.node, hif]
        exact leavesBelow_ifElse h hlegible hkids hif (hfit hroot)
      · have harranged := arranged_content (hfit hroot)
          (fun op hop => by simpa [scopeRules, EventOf.isPlain] using hlegible.operator op hop)
          (fun word hw => by simpa [scopeRules, EventOf.isPlain] using hlegible.target word hw)
          (fun k hk _ => hown k hk) hroot hif o n
        refine ⟨[], ((leaves_arranged harranged).1 rfl).node n, ?_, by simp⟩
        simpa using fun hd : Dangles t n => hif hd.kind_eq
    refine ⟨hnode, ?_, fun style => ?_⟩
    · by_cases hroot : t.kind n = .syntaxTree
      · rw [text_print h, Printed.node, hroot]
        obtain ⟨opens, hleaves⟩ := (leaves_arranged (arranged_rootMembers
          (fun k hk => .own (hown k hk)) .blank none)).2
        exact ⟨opens, hleaves.node n⟩
      · obtain ⟨opens, hleaves⟩ := hnode hroot
        exact ⟨opens, hleaves.leaves⟩
    · rw [text_print h]
      exact ((leaves_arranged (arranged_blockContent (fun k hk _ => hown k hk)
        (some style))).1 rfl).node n

end Trees

/-- **Whose `else`.** Let the nodes at and below a node be legible. Every `else` in its events is
written by an `if` and read for an `if` at or below that one. It is read for the very node that
wrote it if and only if the first branch of that node does not dangle. -/
theorem else_binds_iff {t : Tree} (ht : Interface.Reached t) (o : Options) {n : NodeId}
    (hn : ∀ m ∈ t.descendants n, Legible t m) :
    ∀ b ∈ Scope.top.bindings (events o (t.branch n)),
      t.kind b.1 = .ifElse ∧ (∃ m, b.2 = some m ∧ b.1 ∈ t.lineage m) ∧
        (b.2 = some b.1 ↔ ¬∃ c, t.childWithRole? b.1 .trueStatement = some c ∧ Dangles t c) := by
  have h := ht.wellFormed
  rw [h.descendants_eq] at hn
  obtain ⟨opens, hleaves⟩ := (reads_print h o hn).ownLine
  rw [events_eq]
  exact (hleaves .top).2

/-- A method with a statement for its body. -/
def methodSample (statement : Document) : Document :=
  .node ⟨.member, .methodDecl .empty, []⟩ [.node ⟨.body, .block, []⟩ [statement]]

/-- A chain of two `if`s. The first branch of the first is a block with an `if` that has no
`else`. -/
def chainSample : Document :=
  methodSample <| .node ⟨.statement, .ifElse, []⟩
    [.node ⟨.trueStatement, .block, []⟩
      [.node ⟨.statement, .ifElse, []⟩ [.node ⟨.trueStatement, .returnStmt, []⟩ []]],
      .node ⟨.falseStatement, .ifElse, []⟩
        [.node ⟨.trueStatement, .throwStmt, []⟩ [], .node ⟨.falseStatement, .returnStmt, []⟩ []]]

/-- The tree of the chain. -/
def chainTree : Tree := (Tree.ofDocument chainSample).toOption.getD .empty

/-- Both are read right. -/
theorem else_binds_iff_chainTree :
    (∀ m ∈ chainTree.descendants 0, Legible chainTree m) ∧
      Scope.top.bindings (events .usual (chainTree.branch 0)) = [(3, some 3), (7, some 7)] ∧
      ¬∃ c, chainTree.childWithRole? 3 .trueStatement = some c ∧ Dangles chainTree c := by
  have hdoc : Tree.ofDocument chainSample = .ok chainTree := by rfl
  have hlegible : ∀ m ∈ chainTree.descendants 0, Legible chainTree m := by decide +kernel
  have hread : Scope.top.bindings (events .usual (chainTree.branch 0)) =
      [(3, some 3), (7, some 7)] := by decide +kernel
  have hfirst := else_binds_iff (.ofDocument hdoc) .usual hlegible (3, some 3) (by simp [hread])
  exact ⟨hlegible, hread, hfirst.2.2.mp rfl⟩

/-- An `if` with an `else`, whose first branch is an `if` without one. -/
def danglingSample : Document :=
  methodSample <| .node ⟨.statement, .ifElse, []⟩
    [.node ⟨.trueStatement, .ifElse, []⟩ [.node ⟨.trueStatement, .returnStmt, []⟩ []],
      .node ⟨.falseStatement, .throwStmt, []⟩ []]

/-- The tree of the two. -/
def danglingTree : Tree := (Tree.ofDocument danglingSample).toOption.getD .empty

/-- The `else` of the outer one is read for the inner one. -/
theorem else_binds_inner :
    (∀ m ∈ danglingTree.descendants 0, Legible danglingTree m) ∧
      Scope.top.bindings (events .usual (danglingTree.branch 0)) = [(3, some 4)] ∧
      ¬∀ b ∈ Scope.top.bindings (events .usual (danglingTree.branch 0)), b.2 = some b.1 := by
  have hread : Scope.top.bindings (events .usual (danglingTree.branch 0)) = [(3, some 4)] := by
    decide +kernel
  refine ⟨by decide +kernel, hread, fun hall => ?_⟩
  have hself := hall (3, some 4) (by simp [hread])
  cases hself

end CodeView.Layout
