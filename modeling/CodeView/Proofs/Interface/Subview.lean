import CodeView.Proofs.Html.Elements
import CodeView.Proofs.Interface.Meaning

/-!
# The interface view shows nothing new

Pruning a tree takes elements away from its page and adds none, provided that no node hides a second
child behind one that pruning could remove.

* `SinglyFilled`: no node has two children where it shows only the first.
* `shownPrint_within`: what is left of a kept node shows no more than the node did, by induction
  from the leaves up.
* `elements_prune_sublist`: so the elements of the interface view are among those of the full view,
  in the same order.
-/

namespace CodeView.Interface

open CodeView.Syntax CodeView.Html CodeView.Layout

variable {p : Policy} {t : Tree} {n : NodeId}

/-- No node of a tree has two children with a role of which it shows one child only. -/
def SinglyFilled (t : Tree) : Prop :=
  ∀ n < t.size, t.isAttached n = true →
    ∀ role ∈ singleRoles (t.kind n), (t.childrenWithRole n role).length ≤ 1

instance (t : Tree) : Decidable (SinglyFilled t) :=
  inferInstanceAs (Decidable (∀ n < t.size, t.isAttached n = true →
    ∀ role ∈ singleRoles (t.kind n), (t.childrenWithRole n role).length ≤ 1))

theorem sublistForall₂_filter {α β γ : Type} {R : β → γ → Prop} {f : α → β} {g : α → γ}
    {keep : α → Bool} {l : List α} (h : ∀ a ∈ l, keep a = true → R (f a) (g a)) :
    List.SublistForall₂ R ((l.filter keep).map f) (l.map g) := by
  induction l with
  | nil => exact .nil
  | cons a l ih =>
    have hl := ih fun b hb => h b (by simp [hb])
    rw [List.filter_cons, List.map_cons]
    split
    · next ha => exact .cons (h a (by simp) ha) hl
    · exact .cons_right hl

/-- The children of a node and the prints of these children have the same roles. -/
theorem length_withRole (h : t.WellFormed) (links : Links) (o : Options) (role : Role) :
    (withRole role ((t.children n).map (shownPrint links o t))).length =
      (t.childrenWithRole n role).length := by
  have hrole : ∀ c, (shownPrint links o t c).role = t.role c := fun c => by rw [shownPrint_eq h]
  unfold withRole Tree.childrenWithRole
  rw [List.filter_map, List.length_map]
  congr 2
  funext c
  rw [Function.comp_apply, hrole]

/-- A kept node shows no more in the pruned tree than it did before. -/
theorem shownPrint_within (h : t.WellFormed) (hs : SinglyFilled t) (links : Links) (o : Options)
    (hlt : n < t.size) (hn : Kept p t n)
    (hm : marksOf links (prune p t).1 n = marksOf links t n) :
    elementReading.Within (shownPrint links o (prune p t).1 n) (shownPrint links o t n) := by
  have hw := wellFormed_prune h p
  -- The highlight is handed down: a child without annotations takes that of its parent.
  induction n using h.induction_down with
  | step n ih =>
    have hlabel := label_prune h p
    have hkids : List.SublistForall₂ elementReading.Within
        (((prune p t).1.children n).map (shownPrint links o (prune p t).1))
        ((t.children n).map (shownPrint links o t)) := by
      rw [children_prune h]
      refine sublistForall₂_filter fun c hc hcut => ?_
      have hp := h.mem_children.mp hc
      have hp' : (prune p t).1.parent? c = some n := by
        rw [← hw.mem_children, children_prune h]
        exact List.mem_filter.mpr ⟨hc, hcut⟩
      have hkept : Kept p t c := by
        refine hn.child h hp fun hd => ?_
        exact absurd ((hn.mem_cutNodes_iff h hp).mpr hd) (by simpa using hcut)
      exact ih c hc (Tree.lt_size_of_parent hp) hkept (marksOf_child hw h hp' hp (hlabel c) hm)
    have hone : ∀ role ∈ singleRoles (t.kind n),
        (withRole role ((t.children n).map (shownPrint links o t))).length ≤ 1 := by
      intro role hr
      rw [length_withRole h]
      exact hs n hlt (Tree.isAttached_iff.mpr hn.1) role hr
    have hkind : (prune p t).1.kind n = t.kind n := congrArg Label.kind (hlabel n)
    have hrole : (prune p t).1.role n = t.role n := congrArg Label.role (hlabel n)
    rw [shownPrint_eq hw, shownPrint_eq h, hm, hkind, hrole]
    refine ⟨rfl, rfl, ?_, fun style => ?_⟩
    · simp only [own_node]
      exact Reading.content_sublist hkids hone
    · simp only [block_node]
      exact Reading.blockContent_sublist hkids (some style)

/-- **Nothing new.** The elements of the interface view are a subsequence of those of the full
view. -/
theorem elements_prune_sublist (ht : t.Built) (hs : SinglyFilled t) (p : Policy) (links : Links)
    (o : Options) :
    (elements (render links o (prune p t).1).toList).Sublist
      (elements (render links o t).toList) := by
  have h := ht.wellFormed
  have hm := marksOf_root (wellFormed_prune h p) h links (label_prune h p Tree.root)
  rw [elements_render_eq_own, elements_render_eq_own]
  exact (shownPrint_within h hs links o h.root_lt (kept_root h p) hm).own

/-- A property that loses its setter and an attribute; its getter moves to the line of the
property. -/
theorem elements_prune_propertySample :
    SinglyFilled propertySample ∧
      (elements (render noLinks {} (prune ⟨"Widget", usualNoise⟩ propertySample).1).toList).Sublist
        (elements (render noLinks {} propertySample).toList) ∧
      (elements (render noLinks {} (prune ⟨"Widget", usualNoise⟩ propertySample).1).toList).length <
        (elements (render noLinks {} propertySample).toList).length := by
  have hs : SinglyFilled propertySample := by decide +kernel
  refine ⟨hs, elements_prune_sublist propertySample_built hs _ _ _, ?_⟩
  rw [elements_render, elements_render]
  decide +kernel

end CodeView.Interface
