import Mathlib.Data.List.Flatten
import Mathlib.Data.List.Nodup
import Mathlib.Data.List.Perm.Subperm
import CodeView.Proofs.Interface.Reached
import CodeView.Proofs.Layout.Outline

/-!
# Which nodes are written

The start and the finish of a node stand around those of its children, in the order of the outline
of its kind. No role is asked for in two places of an outline, so no child is written twice, and a
child is left out only if no place asks for its role or another child has taken the place.

* `Slot.takes`, `Slot.picked`: the roles that a place of an outline asks for, and the children that
  it gets. `picked_subperm`, `picked_perm`: what all places get.
* `Tour`: the starts and finishes of a visit to a node and to some of its children, or to all of
  them. `tour_print` and `tour_print_all` find a tour in the events of a node.
* `visit_once`: no node is written twice, each stands in its parent, and none is lost if all of
  them have a place.
-/

namespace CodeView.Layout

open CodeView.Syntax

variable {ι β : Type}

/-- The start or the finish of a node. -/
def EventOf.isFrame : EventOf ι → Bool
  | .start _ | .finish _ => true
  | _ => false

/-! ## The places of an outline -/

namespace Slot

/-- Whether a place asks for children of a role. -/
def takes : Slot → Role → Bool
  | .word _, _ => false
  | .each wanted, role => wanted role
  | .first single _ _, role => role == single

/-- The brace style for a child of a kind, if it stands in the place as a block. -/
def style? : Slot → Options → Kind → Option BraceStyle
  | .first _ _ style?, o, kind => style? o kind
  | _, _, _ => none

/-- The words of a place start and finish no node. -/
def IsPlain : Slot → Prop
  | .word e => e.isFrame = false
  | .each _ => True
  | .first _ lead _ => ∀ e ∈ lead, e.isFrame = false

/-- What a place gets of a list of children. -/
def picked (role : β → Role) (list : List β) : Slot → List β
  | .word _ => []
  | .each wanted => list.filter fun b => wanted (role b)
  | .first single _ _ => (list.find? fun b => role b == single).toList

/-- No role is asked for in both places. -/
def Apart (s s' : Slot) : Prop := ∀ role, s.takes role = true → s'.takes role = false

end Slot

/-- Whether a node of a kind has a place for children of a role. -/
def hasPlace (kind : Kind) (role : Role) : Bool := (outline kind).any fun s => s.takes role

section Places

variable (text : String) (role : Role) (lead : List (EventOf Unit)) (style : Options → BraceStyle)

@[simp] theorem Slot.takes_word (e : EventOf Unit) : (Slot.word e).takes role = false := rfl

@[simp] theorem Slot.takes_keyword : (Slot.keyword text).takes role = false := rfl

@[simp] theorem Slot.takes_each (wanted : Role → Bool) :
    (Slot.each wanted).takes role = wanted role := rfl

@[simp] theorem Slot.takes_all (wanted : Role) :
    (Slot.all wanted).takes role = (role == wanted) := rfl

@[simp] theorem Slot.takes_members :
    Slot.members.takes role = (role == .comment || role == .member) := rfl

@[simp] theorem Slot.takes_first (single : Role) (style? : Options → Kind → Option BraceStyle) :
    (Slot.first single lead style?).takes role = (role == single) := rfl

@[simp] theorem Slot.takes_child (single : Role) :
    (Slot.child single).takes role = (role == single) := rfl

@[simp] theorem Slot.takes_body : (Slot.body style).takes role = (role == .body) := rfl

@[simp] theorem Slot.takes_branch (single : Role) :
    (Slot.branch single lead).takes role = (role == single) := rfl

variable (o : Options) (kind : Kind)

@[simp] theorem Slot.style?_word (e : EventOf Unit) : (Slot.word e).style? o kind = none := rfl

@[simp] theorem Slot.style?_keyword : (Slot.keyword text).style? o kind = none := rfl

@[simp] theorem Slot.style?_each (wanted : Role → Bool) :
    (Slot.each wanted).style? o kind = none := rfl

@[simp] theorem Slot.style?_all : (Slot.all role).style? o kind = none := rfl

@[simp] theorem Slot.style?_members : Slot.members.style? o kind = none := rfl

@[simp] theorem Slot.style?_child : (Slot.child role).style? o kind = none := rfl

@[simp] theorem Slot.style?_body : (Slot.body style).style? o kind = some (style o) := rfl

@[simp] theorem Slot.style?_branch :
    (Slot.branch role lead).style? o kind =
      if kind = .block then some o.statementBraces else none := rfl

@[simp] theorem Slot.isPlain_word (e : EventOf Unit) :
    (Slot.word e).IsPlain ↔ e.isFrame = false := Iff.rfl

@[simp] theorem Slot.isPlain_keyword : (Slot.keyword text).IsPlain := rfl

@[simp] theorem Slot.isPlain_each (wanted : Role → Bool) : (Slot.each wanted).IsPlain := trivial

@[simp] theorem Slot.isPlain_all : (Slot.all role).IsPlain := trivial

@[simp] theorem Slot.isPlain_members : Slot.members.IsPlain := trivial

@[simp] theorem Slot.isPlain_child : (Slot.child role).IsPlain := List.forall_mem_nil _

@[simp] theorem Slot.isPlain_body : (Slot.body style).IsPlain := List.forall_mem_nil _

@[simp] theorem Slot.isPlain_branch :
    (Slot.branch role lead).IsPlain ↔ ∀ e ∈ lead, e.isFrame = false := Iff.rfl

end Places

theorem outline_isPlain (kind : Kind) : ∀ s ∈ outline kind, s.IsPlain := by
  cases kind with
  | typeDecl form m =>
    by_cases hf : form = .enumType <;> simp [outline, hf, Slot.header, or_imp, forall_and]
  | _ => simp [outline, Slot.header, or_imp, forall_and, EventOf.isFrame]

/-- Modifiers take no child. -/
theorem pairwise_keywords (words : List String) :
    (words.map Slot.keyword).Pairwise Slot.Apart := by
  rw [List.pairwise_map]
  exact List.pairwise_of_forall fun _ _ role h => by cases h

/-- No role is asked for in two places of an outline. -/
theorem outline_apart (kind : Kind) : (outline kind).Pairwise Slot.Apart := by
  cases kind with
  | typeDecl form m =>
    have hwords := pairwise_keywords m.keywords
    by_cases hf : form = .enumType <;>
      simp [outline, hf, Slot.header, hwords, Slot.Apart, List.pairwise_append, or_imp, forall_and]
  | methodDecl m | constructorDecl m | fieldDecl m | propertyDecl m | accessor _ m | eventDecl m
  | customEventDecl m =>
    have hwords := pairwise_keywords m.keywords
    simp [outline, Slot.header, hwords, Slot.Apart, List.pairwise_append, or_imp, forall_and]
  | attributeSection target => cases target <;> simp [outline, Slot.Apart]
  | parameterDecl passing => cases passing <;> simp [outline, Slot.Apart]
  | _ => simp [outline, Slot.Apart]

/-! ## What the places get -/

section Picked

variable {role : β → Role} {list : List β}

theorem filter_append_perm_or {p q : β → Bool} (h : ∀ b, p b = true → q b = false) :
    (list.filter p ++ list.filter q).Perm (list.filter fun b => p b || q b) := by
  have hp : (list.filter fun b => p b || q b).filter p = list.filter p := by
    rw [List.filter_filter]
    refine List.filter_congr fun b _ => ?_
    cases p b <;> simp
  have hq : (list.filter fun b => p b || q b).filter (fun b => !p b) = list.filter q := by
    rw [List.filter_filter]
    refine List.filter_congr fun b _ => ?_
    cases hb : p b with
    | false => simp
    | true => simp [h b hb]
  have hsplit := List.filter_append_perm p (list.filter fun b => p b || q b)
  rwa [hp, hq] at hsplit

variable (role list) in
/-- Places that ask for different roles share the children out. -/
theorem flatMap_filter_perm {slots : List Slot} (h : slots.Pairwise Slot.Apart) :
    (slots.flatMap fun s => list.filter fun b => s.takes (role b)).Perm
      (list.filter fun b => slots.any fun s => s.takes (role b)) := by
  induction h with
  | nil => simp
  | @cons s slots hs _ ih =>
    rw [List.flatMap_cons]
    refine (ih.append_left _).trans ?_
    have happart : ∀ b, s.takes (role b) = true →
        (slots.any fun s => s.takes (role b)) = false := by
      intro b hb
      rw [List.any_eq_false]
      intro s' hs'
      rw [hs s' hs' _ hb]
      exact Bool.false_ne_true
    simpa only [List.any_cons] using filter_append_perm_or happart

theorem Slot.picked_sublist (s : Slot) :
    (s.picked role list).Sublist (list.filter fun b => s.takes (role b)) := by
  cases s with
  | word e => exact List.nil_sublist _
  | each wanted => exact List.Sublist.refl _
  | first single lead style? =>
    simp only [Slot.picked, Slot.takes_first, ← List.head?_filter]
    cases list.filter fun b => role b == single with
    | nil => exact List.nil_sublist _
    | cons b rest => exact (List.nil_sublist rest).cons_cons b

/-- A place with room for one child gets all of them if there is only one. -/
theorem Slot.picked_eq {s : Slot}
    (h : ∀ single, s.role? = some single →
      (list.filter fun b => role b == single).length ≤ 1) :
    s.picked role list = list.filter fun b => s.takes (role b) := by
  cases s with
  | word e => exact (List.filter_eq_nil_iff.mpr fun _ _ => Bool.false_ne_true).symm
  | each wanted => rfl
  | first single lead style? =>
    have hone := h single rfl
    simp only [Slot.picked, Slot.takes_first, ← List.head?_filter]
    match list.filter fun b => role b == single, hone with
    | [], _ => rfl
    | [b], _ => rfl

/-- No child is in two places of a node. -/
theorem picked_subperm (kind : Kind) :
    ((outline kind).flatMap (Slot.picked role list)).Subperm list := by
  have hsub : ((outline kind).flatMap (Slot.picked role list)).Sublist
      ((outline kind).flatMap fun s => list.filter fun b => s.takes (role b)) :=
    List.Sublist.flatMap_right _ fun s _ => s.picked_sublist
  have hall := (flatMap_filter_perm role list (outline_apart kind)).subperm
  exact (hsub.subperm.trans hall).trans List.filter_sublist.subperm

/-- Every child is in a place of a node, if there is one for its role and no other child in it. -/
theorem picked_perm {kind : Kind} (hplace : ∀ b ∈ list, hasPlace kind (role b) = true)
    (hone : ∀ single ∈ singleRoles kind, (list.filter fun b => role b == single).length ≤ 1) :
    ((outline kind).flatMap (Slot.picked role list)).Perm list := by
  have hpicked : (outline kind).flatMap (Slot.picked role list) =
      (outline kind).flatMap fun s => list.filter fun b => s.takes (role b) := by
    refine List.flatMap_congr fun s hs => Slot.picked_eq fun single hsingle => ?_
    exact hone single (List.mem_filterMap.mpr ⟨s, hs, hsingle⟩)
  have hall : (list.filter fun b => (outline kind).any fun s => s.takes (role b)) = list :=
    List.filter_eq_self.mpr hplace
  have hperm := flatMap_filter_perm role list (outline_apart kind)
  rwa [hall, ← hpicked] at hperm

theorem Slot.picked_map {γ : Type} (g : γ → β) (list : List γ) (s : Slot) :
    s.picked role (list.map g) = (s.picked (fun c => role (g c)) list).map g := by
  cases s with
  | word e => rfl
  | each wanted => exact List.filter_map ..
  | first single lead style? =>
    rw [Slot.picked, Slot.picked, List.find?_map, Option.toList_map]
    rfl

end Picked

/-! ## The frame of events -/

/-- The starts and finishes among events. -/
def frame (events : List (EventOf ι)) : List (EventOf ι) := events.filter EventOf.isFrame

/-- The reading that keeps starts and finishes. -/
def frameReading : Reading ι (Printed ι) (EventOf ι) where
  event e := frame [e]
  own p := frame p.own
  block p style := frame (p.asBlock style)
  silent e he := by cases e <;> first | rfl | cases he

theorem frame_flatMap_events (parts : List (Part ι (Printed ι))) :
    frame (parts.flatMap Part.events) = frameReading.parts parts := by
  unfold frame Reading.parts
  rw [List.filter_flatMap]
  congr 1
  funext part
  cases part <;> rfl

theorem frame_node (n : ι) (events : List (EventOf ι)) :
    frame (.start n :: events ++ [.finish n]) = .start n :: frame events ++ [.finish n] := by
  unfold frame
  rw [List.filter_append, List.filter_cons_of_pos rfl, List.filter_cons_of_pos rfl,
    List.filter_nil]

section Node

variable (o : Options) (n : ι) (kids : List (Child (Printed ι))) (kind : Kind)

/-- A node starts, what its outline asks for follows, and it finishes. -/
theorem frame_own :
    frame (Printed.node o n kids kind).own =
      .start n :: (outline kind).flatMap (frameReading.slot o n kids) ++ [.finish n] := by
  rw [Printed.node, frame_node, frame_flatMap_events, Reading.parts_content]

/-- As the block of a construct, every node shows what a block would show. -/
theorem frame_asBlock (style : BraceStyle) :
    frame ((Printed.node o n kids kind).asBlock style) =
      .start n :: (outline .block).flatMap (frameReading.slot o n kids) ++ [.finish n] := by
  rw [Printed.node, frame_node, frame_flatMap_events, Reading.parts_blockContent, outline,
    List.flatMap_singleton]
  rfl

variable {o n kids}

/-- A place shows the children that it gets. -/
theorem slot_eq_picked {s : Slot} (hs : s.IsPlain) :
    frameReading.slot o n kids s =
      (s.picked Child.role kids).flatMap fun k => frameReading.place k (s.style? o k.kind) := by
  have hword : ∀ e : EventOf Unit, e.isFrame = false →
      frame [e.map fun _ => n] = ([] : List (EventOf ι)) := by
    intro e he
    cases e <;> first | rfl | cases he
  cases s with
  | word e => exact hword e hs
  | each wanted => rfl
  | first single lead style? =>
    have hlead : (lead.flatMap fun e => frame [e.map fun _ => n]) = ([] : List (EventOf ι)) :=
      List.flatMap_eq_nil_iff.mpr fun e he => hword e (hs e he)
    rw [Reading.slot, Slot.picked, first?]
    cases kids.find? fun k => k.role == single with
    | none => rfl
    | some k =>
      rw [Option.elim_some, Option.toList_some, List.flatMap_singleton]
      exact congrArg (· ++ _) hlead

end Node

/-! ## Tours -/

/-- The starts and finishes of a visit to a node: in between, there are visits to nodes that are
`among` its children. -/
inductive Tour (among : List NodeId → List NodeId → Prop) (t : Tree) :
    NodeId → List Event → Prop where
  | node {n : NodeId} {stops : List (NodeId × List Event)}
    (hstops : among (stops.map Prod.fst) (t.children n))
    (each : ∀ stop ∈ stops, Tour among t stop.1 stop.2) :
    Tour among t n (.start n :: stops.flatMap Prod.snd ++ [.finish n])

section Print

variable {t : Tree} {among : List NodeId → List NodeId → Prop}

theorem role_print (h : t.WellFormed) (o : Options) (c : NodeId) :
    (print o (t.branch c)).role = t.role c := by
  rw [h.branch_eq]
  rfl

theorem kind_print (h : t.WellFormed) (o : Options) (c : NodeId) :
    (print o (t.branch c)).kind = t.kind c := by
  rw [h.branch_eq]
  rfl

theorem text_print (h : t.WellFormed) (o : Options) (n : NodeId) :
    (print o (t.branch n)).text =
      .node o n ((t.children n).map fun c => print o (t.branch c)) (t.kind n) := by
  rw [h.branch_eq, print, printAll_eq, List.map_map]
  rfl

/-- What a node shows in the places of an outline is a tour, if what it shows in each of them is. -/
theorem tour_outline (h : t.WellFormed) (o : Options) (n : NodeId) {kind : Kind}
    (hstops : among ((outline kind).flatMap (Slot.picked t.role (t.children n))) (t.children n))
    (each : ∀ s ∈ outline kind, ∀ c ∈ s.picked t.role (t.children n),
      Tour among t c (frameReading.place (print o (t.branch c)) (s.style? o (t.kind c)))) :
    Tour among t n (.start n :: (outline kind).flatMap (frameReading.slot o n
      ((t.children n).map fun c => print o (t.branch c))) ++ [.finish n]) := by
  let stops := (outline kind).flatMap fun s => (s.picked t.role (t.children n)).map fun c =>
    (c, frameReading.place (print o (t.branch c)) (s.style? o (t.kind c)))
  have hfirst : stops.map Prod.fst =
      (outline kind).flatMap (Slot.picked t.role (t.children n)) := by
    simp only [stops, List.map_flatMap, List.map_map]
    exact List.flatMap_congr fun s _ => List.map_id _
  have hsecond : stops.flatMap Prod.snd = (outline kind).flatMap (frameReading.slot o n
      ((t.children n).map fun c => print o (t.branch c))) := by
    simp only [stops, List.flatMap_assoc, List.flatMap_map]
    refine List.flatMap_congr fun s hs => ?_
    rw [slot_eq_picked (outline_isPlain kind s hs), Slot.picked_map, List.flatMap_map]
    simp only [role_print h, kind_print h]
  rw [← hsecond]
  refine .node (hfirst ▸ hstops) fun stop hstop => ?_
  obtain ⟨s, hs, hin⟩ := List.mem_flatMap.mp hstop
  obtain ⟨c, hc, rfl⟩ := List.mem_map.mp hin
  exact each s hs c hc

/-- The children that a place gets are children. -/
theorem mem_of_mem_picked {s : Slot} {role : β → Role} {list : List β} {b : β}
    (hb : b ∈ s.picked role list) : b ∈ list ∧ s.takes (role b) = true :=
  List.mem_filter.mp (s.picked_sublist.subset hb)

/-- The events of a node hold a tour of some of its branch, by its own rules and as a block. -/
theorem tour_print (h : t.WellFormed) (o : Options) (n : NodeId) (style? : Option BraceStyle) :
    Tour List.Subperm t n (frameReading.place (print o (t.branch n)) style?) := by
  induction n using h.induction_down generalizing style? with
  | step n ih =>
    have houtline := fun kind : Kind => tour_outline h o n (picked_subperm kind) fun s _ c hc =>
      ih c (mem_of_mem_picked hc).1 (s.style? o (t.kind c))
    cases style? with
    | none =>
      simp only [Reading.place, frameReading, text_print h, frame_own]
      exact houtline (t.kind n)
    | some style =>
      simp only [Reading.place, frameReading, text_print h, frame_asBlock]
      exact houtline .block

/-- A node all of whose children have a place of their own in what it writes. -/
structure Placed (t : Tree) (n : NodeId) : Prop where
  hasPlace : ∀ c ∈ t.children n, hasPlace (t.kind n) (t.role c) = true
  body : Interface.losesBody (t.kind n) = true →
    ∀ c ∈ t.childrenWithRole n .body, t.kind c = .block
  single : ∀ role ∈ singleRoles (t.kind n), (t.childrenWithRole n role).length ≤ 1

instance (t : Tree) (n : NodeId) : Decidable (Placed t n) :=
  decidable_of_iff
    ((∀ c ∈ t.children n, hasPlace (t.kind n) (t.role c) = true) ∧
      (Interface.losesBody (t.kind n) = true →
        ∀ c ∈ t.childrenWithRole n .body, t.kind c = .block) ∧
      ∀ role ∈ singleRoles (t.kind n), (t.childrenWithRole n role).length ≤ 1)
    ⟨fun h => ⟨h.1, h.2.1, h.2.2⟩, fun h => ⟨h.hasPlace, h.body, h.single⟩⟩

/-- A child stands as a block if it is one, or if it is the body of a member. -/
theorem style?_cases (kind : Kind) : ∀ s ∈ outline kind, ∀ o k style, s.style? o k = some style →
    k = .block ∨
      (Interface.losesBody kind = true ∧ ∀ role, s.takes role = true → role = .body) := by
  cases kind with
  | typeDecl form m =>
    by_cases hf : form = .enumType <;> simp [outline, hf, Slot.header, or_imp, forall_and]
  | _ => simp [outline, Slot.header, or_imp, forall_and, Interface.losesBody]

/-- The events of a node hold a tour of its whole branch, if every node of it is placed. As a block
this is so for blocks. -/
theorem tour_print_all (h : t.WellFormed) (o : Options) {n : NodeId}
    (hp : ∀ m ∈ (t.branch n).ids, Placed t m) (style? : Option BraceStyle)
    (hblock : style?.isSome = true → t.kind n = .block) :
    Tour List.Perm t n (frameReading.place (print o (t.branch n)) style?) := by
  induction n using h.induction_down generalizing style? with
  | step n ih =>
    have hn : Placed t n := hp n (by rw [h.ids_branch]; exact List.mem_cons_self)
    have hchild : ∀ c ∈ t.children n, ∀ m ∈ (t.branch c).ids, Placed t m := by
      intro c hc m hm
      refine hp m ?_
      rw [h.ids_branch]
      exact List.mem_cons_of_mem _ (List.mem_flatMap.mpr ⟨c, hc, hm⟩)
    have houtline := tour_outline h o n (picked_perm hn.hasPlace hn.single) <| by
      intro s hs c hc
      obtain ⟨hmem, htakes⟩ := mem_of_mem_picked hc
      refine ih c hmem (hchild c hmem) _ fun hstyle => ?_
      obtain ⟨style, hstyle⟩ := Option.isSome_iff_exists.mp hstyle
      rcases style?_cases _ s hs _ _ _ hstyle with hk | ⟨hbody, hrole⟩
      · exact hk
      · refine hn.body hbody c (List.mem_filter.mpr ⟨hmem, ?_⟩)
        rw [hrole _ htakes]
        rfl
    cases style? with
    | none =>
      simp only [Reading.place, frameReading, text_print h, frame_own]
      exact houtline
    | some style =>
      rw [hblock rfl] at houtline
      simp only [Reading.place, frameReading, text_print h, frame_asBlock]
      exact houtline

end Print

/-! ## What a tour visits -/

/-- The node that an event starts. -/
def EventOf.started? : EventOf ι → Option ι
  | .start n => some n
  | _ => none

/-- The nodes that events start, in order. -/
def started (events : List (EventOf ι)) : List ι := events.filterMap EventOf.started?

theorem started_frame (events : List (EventOf ι)) : started (frame events) = started events := by
  unfold started frame
  rw [List.filterMap_filter]
  congr 1
  funext e
  cases e <;> rfl

theorem started_tour (n : ι) (events : List (EventOf ι)) :
    started (.start n :: events ++ [.finish n]) = n :: started events := by
  simp [started, EventOf.started?]

section Visited

variable {t : Tree}

theorem subperm_flatMap {γ : Type} {l : List β} {f g : β → List γ}
    (h : ∀ b ∈ l, (f b).Subperm (g b)) : (l.flatMap f).Subperm (l.flatMap g) := by
  induction l with
  | nil => exact List.Subperm.refl _
  | cons b l ih =>
    rw [List.flatMap_cons, List.flatMap_cons]
    exact (h b List.mem_cons_self).append (ih fun c hc => h c (List.mem_cons_of_mem _ hc))

/-- A tour of some of a branch starts some of its nodes, none twice. -/
theorem Tour.started_subperm (h : t.WellFormed) {n : NodeId} {events : List Event}
    (ht : Tour List.Subperm t n events) : (started events).Subperm (t.branch n).ids := by
  induction ht with
  | @node n stops hstops _ ih =>
    have hbelow : (stops.flatMap fun stop => started stop.2).Subperm
        ((t.children n).flatMap fun c => (t.branch c).ids) := by
      obtain ⟨some, hperm, hsub⟩ := hstops
      rw [List.perm_comm] at hperm
      refine (subperm_flatMap ih).trans ?_
      rw [← List.flatMap_map Prod.fst fun c => (t.branch c).ids]
      exact (hperm.flatMap_right _).subperm.trans (hsub.flatMap _).subperm
    rw [started_tour, h.ids_branch, List.subperm_cons, started, List.filterMap_flatMap]
    exact hbelow

/-- A tour of a whole branch starts all of its nodes, once each. -/
theorem Tour.started_perm (h : t.WellFormed) {n : NodeId} {events : List Event}
    (ht : Tour List.Perm t n events) : (started events).Perm (t.branch n).ids := by
  induction ht with
  | @node n stops hstops _ ih =>
    have hbelow : (stops.flatMap fun stop => started stop.2).Perm
        ((t.children n).flatMap fun c => (t.branch c).ids) := by
      refine (List.Perm.flatMap_left _ ih).trans ?_
      rw [← List.flatMap_map Prod.fst fun c => (t.branch c).ids]
      exact hstops.flatMap_right _
    rw [started_tour, h.ids_branch, List.perm_cons, started, List.filterMap_flatMap]
    exact hbelow

/-! ## Where a tour stops -/

/-- The open nodes after an event, innermost first. -/
def openStep (stack : List ι) : EventOf ι → List ι
  | .start n => n :: stack
  | .finish _ => stack.tail
  | _ => stack

/-- The nodes that are still open after events, innermost first. -/
def openNodes (events : List (EventOf ι)) : List ι := events.foldl openStep []

theorem foldl_openStep_frame (stack : List ι) (events : List (EventOf ι)) :
    (frame events).foldl openStep stack = events.foldl openStep stack := by
  unfold frame
  rw [List.foldl_filter]
  congr 1
  funext stack e
  cases e <;> rfl

/-- Every node that starts is a child of the innermost open one. -/
def Follows (t : Tree) : List NodeId → List Event → Prop
  | _, [] => True
  | stack, .start n :: rest =>
    (∃ q above, stack = q :: above ∧ t.parent? n = some q) ∧ Follows t (n :: stack) rest
  | stack, e :: rest => Follows t (openStep stack e) rest

theorem follows_append {stack : List NodeId} {a b : List Event} :
    Follows t stack (a ++ b) ↔ Follows t stack a ∧ Follows t (a.foldl openStep stack) b := by
  induction a generalizing stack with
  | nil => exact (and_iff_right trivial).symm
  | cons e a ih =>
    cases e with
    | start n =>
      rw [List.cons_append, Follows, Follows, ih, and_assoc]
      rfl
    | _ => exact ih

theorem Tour.eq_start {among : List NodeId → List NodeId → Prop} {n : NodeId}
    {events : List Event} (ht : Tour among t n events) : events = .start n :: events.tail := by
  cases ht
  rfl

/-- A tour leaves the open nodes as they were, and after its start it follows them. -/
theorem Tour.follows {among : List NodeId → List NodeId → Prop} (h : t.WellFormed)
    (hamong : ∀ {l l'}, among l l' → l ⊆ l') {n : NodeId} {events : List Event}
    (ht : Tour among t n events) (stack : List NodeId) :
    events.foldl openStep stack = stack ∧ Follows t (n :: stack) events.tail := by
  induction ht generalizing stack with
  | @node n stops hstops each ih =>
    have hinside : ∀ list : List (NodeId × List Event), list ⊆ stops →
        (list.flatMap Prod.snd).foldl openStep (n :: stack) = n :: stack ∧
          Follows t (n :: stack) (list.flatMap Prod.snd) := by
      intro list hlist
      induction list with
      | nil => exact ⟨rfl, trivial⟩
      | cons stop list ihl =>
        obtain ⟨hstop, hrest⟩ := List.cons_subset.mp hlist
        obtain ⟨hsame, htail⟩ := ih stop hstop (n :: stack)
        obtain ⟨hsames, htails⟩ := ihl hrest
        have hparent : t.parent? stop.1 = some n :=
          h.mem_children.mp (hamong hstops (List.mem_map_of_mem hstop))
        have hfollows : Follows t (n :: stack) stop.2 := by
          rw [(each stop hstop).eq_start, Follows]
          exact ⟨⟨n, stack, rfl, hparent⟩, htail⟩
        rw [List.flatMap_cons, List.foldl_append, follows_append, hsame]
        exact ⟨hsames, hfollows, htails⟩
    obtain ⟨hsame, hfollows⟩ := hinside stops (List.Subset.refl _)
    refine ⟨?_, ?_⟩
    · have hopen : openStep stack (.start n) = n :: stack := rfl
      rw [List.cons_append, List.foldl_cons, List.foldl_append, hopen, hsame]
      rfl
    · rw [List.cons_append, List.tail_cons, follows_append]
      exact ⟨hfollows, trivial⟩

/-- In a tour, a node that starts later is a child of the innermost open one. -/
theorem Tour.parent_of_start {among : List NodeId → List NodeId → Prop} (h : t.WellFormed)
    (hamong : ∀ {l l'}, among l l' → l ⊆ l') {n m : NodeId} {before after : List Event}
    (ht : Tour among t n (before ++ .start m :: after)) (hne : m ≠ n) :
    ∃ q above, openNodes before = q :: above ∧ t.parent? m = some q := by
  have hstart := ht.eq_start
  have hfollows := (ht.follows h hamong []).2
  cases before with
  | nil => exact absurd (EventOf.start.inj (List.cons.inj hstart).1) hne
  | cons e before =>
    rw [List.cons_append, List.tail_cons] at hstart hfollows
    obtain ⟨rfl, -⟩ := List.cons.inj hstart
    exact (follows_append.mp hfollows).2.1

end Visited

/-- **Every node once.** In the events of a node, no node is started twice, and every node but the
first is a child of the innermost node that is open when it starts. If every node at or below it is
placed, the started nodes are those at or below it. -/
theorem visit_once {t : Tree} (ht : Interface.Reached t) (o : Options) (n : NodeId) :
    (started (events o (t.branch n))).Nodup ∧
    (∀ before m after, events o (t.branch n) = before ++ .start m :: after → m ≠ n →
      ∃ q above, openNodes before = q :: above ∧ t.parent? m = some q) ∧
    ((∀ m ∈ t.descendants n, Placed t m) →
      (started (events o (t.branch n))).Perm (t.descendants n)) := by
  have h := ht.wellFormed
  have htour : Tour List.Subperm t n (frame (events o (t.branch n))) := by
    rw [events_eq]
    exact tour_print h o n none
  refine ⟨?_, fun before m after he hne => ?_, fun hplaced => ?_⟩
  · obtain ⟨some, hperm, hsub⟩ := htour.started_subperm h
    rw [started_frame] at hperm
    exact hperm.nodup (hsub.nodup (h.nodup_ids_branch n))
  · have hframe : frame (before ++ .start m :: after) = frame before ++ .start m :: frame after :=
      List.filter_append ..
    rw [he, hframe] at htour
    obtain ⟨q, above, hopen, hparent⟩ := htour.parent_of_start h List.Subperm.subset hne
    exact ⟨q, above, (foldl_openStep_frame [] before).symm.trans hopen, hparent⟩
  · rw [h.descendants_eq] at hplaced ⊢
    have hall := tour_print_all h o hplaced none fun hs => by cases hs
    have hperm := hall.started_perm h
    rwa [events_eq, ← started_frame]

/-- A method of which the body stands in front of the type, and the name behind both. -/
def turnedSample : Document :=
  .node ⟨.member, .methodDecl (.single .publicAccess), []⟩
    [.node ⟨.body, .block, []⟩
      [.node ⟨.statement, .ifElse, []⟩
        [.node ⟨.falseStatement, .block, []⟩ [],
          .node ⟨.condition, .identifierExpr, []⟩ [.node ⟨.name, .identifier "ready", []⟩ []],
          .node ⟨.trueStatement, .returnStmt, []⟩ []]],
      .node ⟨.type, .primitiveType "void", []⟩ [],
      .node ⟨.name, .identifier "Run", []⟩ []]

/-- The tree of the method. -/
def turnedTree : Tree := (Tree.ofDocument turnedSample).toOption.getD .empty

/-- All nodes of the method are written, in another order than they have in the tree. -/
theorem visit_once_turnedTree :
    (∀ m ∈ turnedTree.descendants 1, Placed turnedTree m) ∧
      started (events .usual (turnedTree.branch 1)) = [1, 8, 9, 2, 3, 5, 6, 7, 4] ∧
      (started (events .usual (turnedTree.branch 1))).Perm (turnedTree.descendants 1) := by
  have hdoc : Tree.ofDocument turnedSample = .ok turnedTree := by rfl
  have hplaced : ∀ m ∈ turnedTree.descendants 1, Placed turnedTree m := by decide +kernel
  obtain ⟨-, -, hall⟩ := visit_once (.ofDocument hdoc) .usual 1
  exact ⟨hplaced, by decide +kernel, hall hplaced⟩

end CodeView.Layout
