import CodeView.Syntax.Modifier

/-!
# Sets of modifiers

A set is a word with a bit for each modifier; membership is what the other operations are told by.

* `map_bit_all`, `getElem?_bit`: the bits follow the order in which the modifiers are written.
* `contains_single`, `contains_union`, `contains_ofList`: the members of sets that are put together.
* `meets_iff`: two sets meet if they have a member in common.
-/

namespace CodeView.Syntax

namespace Modifier

theorem mem_all (m : Modifier) : m ∈ all := by
  cases m <;> decide

/-- The bits follow the order in which the modifiers are written. -/
theorem map_bit_all : all.map bit = List.range 17 := by
  decide

/-- The bit of a modifier is its row in the list of all. -/
theorem getElem?_bit (m : Modifier) : all[m.bit]? = some m := by
  cases m <;> rfl

theorem bit_lt (m : Modifier) : m.bit < 17 := by
  have hm : m.bit ∈ all.map bit := List.mem_map_of_mem (mem_all m)
  rwa [map_bit_all, List.mem_range] at hm

theorem bit_inj {a b : Modifier} (h : a.bit = b.bit) : a = b := by
  have hb := getElem?_bit b
  rw [← h, getElem?_bit a] at hb
  exact Option.some.inj hb

/-- Every bit of a set stands for a modifier. -/
theorem exists_bit {i : Nat} (hi : i < 17) : ∃ m : Modifier, m.bit = i := by
  have hm : i ∈ all.map bit := by
    rw [map_bit_all]
    exact List.mem_range.mpr hi
  obtain ⟨m, -, hp⟩ := List.mem_map.mp hm
  exact ⟨m, hp⟩

end Modifier

namespace Modifiers

@[simp] theorem contains_empty (m : Modifier) : (∅ : Modifiers).contains m = false := by
  show (0 : BitVec 17).getLsbD m.bit = false
  simp

@[simp] theorem contains_single (a m : Modifier) : (single a).contains m = decide (a = m) := by
  unfold single contains
  rw [BitVec.getLsbD_twoPow]
  have hp := m.bit_lt
  by_cases h : a = m
  · simp [h, hp]
  · have hne : a.bit ≠ m.bit := fun e => h (Modifier.bit_inj e)
    simp [h, hne]

@[simp] theorem contains_union (a b : Modifiers) (m : Modifier) :
    (a ∪ b).contains m = (a.contains m || b.contains m) := by
  show (a.mask ||| b.mask).getLsbD m.bit = _
  rw [BitVec.getLsbD_or]
  rfl

theorem contains_ofList (list : List Modifier) (m : Modifier) :
    (ofList list).contains m = true ↔ m ∈ list := by
  induction list with
  | nil => simp [ofList]
  | cons a list ih =>
    rw [ofList, contains_union, contains_single, Bool.or_eq_true, ih, List.mem_cons,
      decide_eq_true_eq]
    exact or_congr_left eq_comm

/-- Two sets meet if they have a member in common. -/
theorem meets_iff (a b : Modifiers) :
    a.meets b = true ↔ ∃ m, a.contains m = true ∧ b.contains m = true := by
  unfold meets
  rw [bne_iff_ne]
  constructor
  · intro h
    obtain ⟨i, hi⟩ : ∃ i, (a.mask &&& b.mask).getLsbD i = true := by
      refine Classical.byContradiction fun hno => h (BitVec.eq_of_getLsbD_eq fun i _ => ?_)
      have hf : (a.mask &&& b.mask).getLsbD i = false := by
        rw [← Bool.not_eq_true]
        exact fun e => hno ⟨i, e⟩
      simpa using hf
    obtain ⟨m, rfl⟩ := Modifier.exists_bit (BitVec.lt_of_getLsbD hi)
    rw [BitVec.getLsbD_and, Bool.and_eq_true] at hi
    exact ⟨m, hi⟩
  · rintro ⟨m, ha, hb⟩ h
    have hbit : (a.mask &&& b.mask).getLsbD m.bit = true := by
      rw [BitVec.getLsbD_and, Bool.and_eq_true]
      exact ⟨ha, hb⟩
    rw [h] at hbit
    simp at hbit

end Modifiers

end CodeView.Syntax
