import CodeView.Proofs.Binary64.Decimals

/-!
# The shortest decimal of a float

The search tries grids of powers of ten from coarse to fine. On one grid the two neighbours of the
value decide: if any point of the grid is in the basin, so is one of them, and the nearer of those
is nearest of all (`onGrid_picked`, `Picked.nearest`, `Picked.misses`).

* `Basin.Holds q`: the rational is in the basin. For a basin of a float these are the numbers that
  round to it (`holds_basin_iff`).
* `Holds.exists_near`: a decimal of few digits in the basin has a point of a coarse grid beside it
  that is in the basin too and no further from the value.
* `exists_found`: the seventeenth grid is finer than the basin is wide, so the search ends there at
  last.
* `isShortest_shortest`: what is found reads back, has no trailing zeros, no other decimal that
  reads back has fewer digits, and none of as many is nearer.
-/

namespace CodeView

/-! ## Trailing zeros -/

namespace Decimal

theorem trim_value (d : Decimal) (count : ℕ) : (d.trim count).value = d.value := by
  induction count generalizing d with
  | zero => rfl
  | succ count ih =>
    unfold trim
    split
    next h =>
      have hten : d.digits = 10 * (d.digits / 10) := by omega
      rw [ih]
      unfold value
      simp only
      rw [zpow_add_one₀ (by norm_num)]
      conv_rhs => rw [hten]
      push_cast
      linarith
    next => rfl

theorem trim_digits_le (d : Decimal) (count : ℕ) : (d.trim count).digits ≤ d.digits := by
  induction count generalizing d with
  | zero => exact le_rfl
  | succ count ih =>
    unfold trim
    split
    next => exact (ih _).trans (Nat.div_le_self _ _)
    next => exact le_rfl

theorem trim_digits_mod {d : Decimal} {k count : ℕ} (hpos : 0 < d.digits) (hlt : d.digits < 10 ^ k)
    (hk : k ≤ count) : (d.trim count).digits % 10 ≠ 0 := by
  induction k generalizing d count with
  | zero => omega
  | succ k ih =>
    obtain ⟨rest, rfl⟩ : ∃ rest, count = rest + 1 := ⟨count - 1, by omega⟩
    unfold trim
    split
    next h =>
      rw [pow_succ] at hlt
      exact ih (show 0 < d.digits / 10 by omega) (show d.digits / 10 < 10 ^ k by omega) (by omega)
    next h => omega

end Decimal

namespace Binary64

/-- An integer power as a fraction of natural numbers. -/
theorem zpow_eq_div {base : ℕ} (hbase : 0 < base) (step : ℤ) :
    (base : ℚ) ^ step = (base ^ step.toNat : ℕ) / (base ^ (-step).toNat : ℕ) := by
  have hpos : (0 : ℚ) < base := by exact_mod_cast hbase
  push_cast
  rw [eq_div_iff (by positivity), ← zpow_natCast, ← zpow_natCast, ← zpow_add₀ hpos.ne']
  congr 1
  omega

namespace Basin

variable {b : Basin} {step : ℤ} {n : ℕ} {q : ℚ}

/-! ## Numbers in a basin -/

/-- The value in the middle of a basin. -/
def middle (b : Basin) : ℚ :=
  b.value / b.den

/-- The numbers of a basin. -/
def Holds (b : Basin) (q : ℚ) : Prop :=
  Within b.closed (b.low / b.den) (b.high / b.den) q

/-- A basin whose value is positive and between its ends. -/
structure Regular (b : Basin) : Prop where
  den_pos : 0 < b.den
  value_pos : 0 < b.value
  low_lt : b.low < b.value
  lt_high : b.value < b.high

namespace Regular

theorem low_lt_middle (h : b.Regular) : (b.low : ℚ) / b.den < b.middle := by
  have hden : (0 : ℚ) < b.den := by exact_mod_cast h.den_pos
  exact (div_lt_div_iff_of_pos_right hden).2 (by exact_mod_cast h.low_lt)

theorem middle_lt_high (h : b.Regular) : b.middle < b.high / b.den := by
  have hden : (0 : ℚ) < b.den := by exact_mod_cast h.den_pos
  exact (div_lt_div_iff_of_pos_right hden).2 (by exact_mod_cast h.lt_high)

theorem holds_middle (h : b.Regular) : b.Holds b.middle :=
  Within.of_lt h.low_lt_middle h.middle_lt_high

theorem contains_iff (h : b.Regular) {num den : ℕ} (hden : 0 < den) :
    b.contains num den = true ↔ b.Holds (num / (b.den * den)) := by
  have hb : (0 : ℚ) < b.den := by exact_mod_cast h.den_pos
  have hd : (0 : ℚ) < den := by exact_mod_cast hden
  unfold Holds
  rw [← within_mul_iff (mul_pos hb hd), div_mul_cancel₀ _ (mul_pos hb hd).ne', ← mul_assoc,
    ← mul_assoc, div_mul_cancel₀ _ hb.ne', div_mul_cancel₀ _ hb.ne']
  unfold contains Within
  cases b.closed
  · simp only [Bool.false_eq_true, if_false, Bool.and_eq_true, decide_eq_true_eq]
    exact_mod_cast Iff.rfl
  · simp only [if_true, Bool.and_eq_true, decide_eq_true_eq]
    exact_mod_cast Iff.rfl

/-- The decimal exponent of the value. -/
theorem decimalExponent_bounds (h : b.Regular) :
    (10 : ℚ) ^ b.decimalExponent ≤ b.middle ∧ b.middle < 10 ^ (b.decimalExponent + 1) := by
  obtain ⟨hden, hvalue, -, -⟩ := h
  have hd : (0 : ℚ) < b.den := by exact_mod_cast hden
  have hv : (0 : ℚ) < b.value := by exact_mod_cast hvalue
  unfold decimalExponent middle
  split
  next hle =>
    have hq : 0 < b.value / b.den := Nat.div_pos hle hden
    have hlow : 10 ^ (digitCount (b.value / b.den) - 1) * b.den ≤ b.value :=
      (Nat.mul_le_mul_right _ (pow_digitCount_le hq)).trans (Nat.div_mul_le_self _ _)
    have hhigh : b.value < 10 ^ digitCount (b.value / b.den) * b.den :=
      (Nat.div_lt_iff_lt_mul hden).1 (lt_pow_digitCount _)
    have hpos := digitCount_pos (b.value / b.den)
    have hexp : (digitCount (b.value / b.den) : ℤ) - 1 = (digitCount (b.value / b.den) - 1 : ℕ) := by
      omega
    rw [sub_add_cancel, hexp, zpow_natCast, zpow_natCast, le_div_iff₀ hd, div_lt_iff₀ hd]
    exact ⟨by exact_mod_cast hlow, by exact_mod_cast hhigh⟩
  next hlt =>
    have hq : 0 < (b.den - 1) / b.value := Nat.div_pos (by omega) hvalue
    have hlow : 10 ^ (digitCount ((b.den - 1) / b.value) - 1) * b.value < b.den := by
      have hle := (Nat.mul_le_mul_right b.value (pow_digitCount_le hq)).trans
        (Nat.div_mul_le_self _ _)
      omega
    have hhigh : b.den ≤ 10 ^ digitCount ((b.den - 1) / b.value) * b.value := by
      have hlt := (Nat.div_lt_iff_lt_mul hvalue).1 (lt_pow_digitCount ((b.den - 1) / b.value))
      omega
    have hpos := digitCount_pos ((b.den - 1) / b.value)
    have hexp : -(digitCount ((b.den - 1) / b.value) : ℤ) + 1 =
        -((digitCount ((b.den - 1) / b.value) - 1 : ℕ) : ℤ) := by omega
    rw [hexp, zpow_neg, zpow_neg, zpow_natCast, zpow_natCast, le_div_iff₀ hd, div_lt_iff₀ hd,
      inv_mul_le_iff₀ (by positivity), ← div_eq_inv_mul, lt_div_iff₀' (by positivity)]
    exact ⟨by exact_mod_cast hhigh, by exact_mod_cast hlow⟩

end Regular

/-! ## One grid -/

/-- A point of the grid of multiples of `10 ^ step`. -/
def point (step : ℤ) (k : ℕ) : ℚ :=
  k * 10 ^ step

theorem point_mono {k l : ℕ} (h : k ≤ l) : point step k ≤ point step l :=
  mul_le_mul_of_nonneg_right (by exact_mod_cast h) (by positivity)

/-- The neighbours of the value on a grid are `n` and the next. -/
structure Neighbours (b : Basin) (step : ℤ) (n : ℕ) : Prop where
  low : point step n ≤ b.middle
  high : b.middle < point step (n + 1)

/-- What is taken from a grid on which `n` is the last point before the value: of it and the next
the one in the basin, or the nearer if both are, the next if they are equally near. -/
inductive Picked (b : Basin) (step : ℤ) (n : ℕ) : Option Decimal → Prop
  | lower (hn : n ≠ 0) (hin : b.Holds (point step n))
      (hnear : b.Holds (point step (n + 1)) →
        b.middle - point step n < point step (n + 1) - b.middle) : Picked b step n (some ⟨n, step⟩)
  | upper (hin : b.Holds (point step (n + 1)))
      (hnear : n ≠ 0 → b.Holds (point step n) →
        point step (n + 1) - b.middle ≤ b.middle - point step n) : Picked b step n (some ⟨n + 1, step⟩)
  | neither (hlower : n ≠ 0 → ¬b.Holds (point step n)) (hupper : ¬b.Holds (point step (n + 1))) :
      Picked b step n none

/-! ### A grid in integers

A grid is searched in integers, over the denominator of the basin and the power of ten that makes
the step an integer. -/

/-- The last point of a grid that is not above the value. -/
def below (b : Basin) (step : ℤ) : ℕ :=
  b.value * 10 ^ (-step).toNat / (b.den * 10 ^ step.toNat)

theorem middle_eq_div (b : Basin) (step : ℤ) :
    b.middle = ((b.value * 10 ^ (-step).toNat : ℕ) : ℚ) / (b.den * (10 ^ (-step).toNat : ℕ)) := by
  unfold middle
  push_cast
  exact (mul_div_mul_right _ _ (by positivity)).symm

theorem below_le (b : Basin) (step : ℤ) :
    b.below step * 10 ^ step.toNat * b.den ≤ b.value * 10 ^ (-step).toNat := by
  have hle : b.below step * (b.den * 10 ^ step.toNat) ≤ b.value * 10 ^ (-step).toNat :=
    Nat.div_mul_le_self _ _
  rwa [Nat.mul_comm b.den, ← Nat.mul_assoc] at hle

namespace Regular

theorem lt_above (h : b.Regular) (step : ℤ) :
    b.value * 10 ^ (-step).toNat < (b.below step + 1) * 10 ^ step.toNat * b.den := by
  have hlt : b.value * 10 ^ (-step).toNat < b.den * 10 ^ step.toNat * (b.below step + 1) :=
    Nat.lt_mul_div_succ _ (Nat.mul_pos h.den_pos (by positivity))
  rwa [Nat.mul_comm (b.den * _), Nat.mul_comm b.den, ← Nat.mul_assoc] at hlt

theorem scale_pos (h : b.Regular) (step : ℤ) : (0 : ℚ) < b.den * (10 ^ (-step).toNat : ℕ) := by
  have hden : (0 : ℚ) < b.den := by exact_mod_cast h.den_pos
  positivity

theorem point_eq_div (h : b.Regular) (step : ℤ) (k : ℕ) :
    point step k = ((k * 10 ^ step.toNat * b.den : ℕ) : ℚ) / (b.den * (10 ^ (-step).toNat : ℕ)) := by
  have hden : (0 : ℚ) < b.den := by exact_mod_cast h.den_pos
  have hpow : (10 : ℚ) ^ step = (10 ^ step.toNat : ℕ) / (10 ^ (-step).toNat : ℕ) :=
    zpow_eq_div (by decide) step
  unfold point
  rw [hpow]
  push_cast
  field_simp

theorem contains_point_iff (h : b.Regular) (step : ℤ) (k : ℕ) :
    b.contains (k * 10 ^ step.toNat * b.den) (10 ^ (-step).toNat) = true ↔
      b.Holds (point step k) := by
  rw [h.contains_iff (by positivity), h.point_eq_div]

theorem neighbours (h : b.Regular) (step : ℤ) : b.Neighbours step (b.below step) := by
  have hlow := b.below_le step
  have hhigh := h.lt_above step
  constructor
  · rw [h.point_eq_div, b.middle_eq_div step]
    exact div_le_div_of_nonneg_right (by exact_mod_cast hlow) (h.scale_pos step).le
  · rw [h.point_eq_div, b.middle_eq_div step]
    exact div_lt_div_of_pos_right (by exact_mod_cast hhigh) (h.scale_pos step)

theorem nearer_iff (h : b.Regular) (step : ℤ) :
    b.value * 10 ^ (-step).toNat - b.below step * 10 ^ step.toNat * b.den <
        (b.below step + 1) * 10 ^ step.toNat * b.den - b.value * 10 ^ (-step).toNat ↔
      b.middle - point step (b.below step) < point step (b.below step + 1) - b.middle := by
  rw [h.point_eq_div, h.point_eq_div, b.middle_eq_div step, ← sub_div, ← sub_div,
    div_lt_div_iff_of_pos_right (h.scale_pos step), ← Nat.cast_sub (b.below_le step),
    ← Nat.cast_sub (h.lt_above step).le]
  exact_mod_cast Iff.rfl

end Regular

/-- The neighbours of the value on a grid, and which is taken. -/
theorem onGrid_picked (h : b.Regular) (step : ℤ) :
    ∃ n, b.Neighbours step n ∧ b.Picked step n (b.onGrid step) := by
  refine ⟨b.below step, h.neighbours step, ?_⟩
  have hcontains := h.contains_point_iff step
  have hnearer := h.nearer_iff step
  have hbelow : b.value * 10 ^ (-step).toNat / (b.den * 10 ^ step.toNat) = b.below step := rfl
  unfold onGrid
  simp only [Nat.pow_eq, hbelow]
  generalize b.below step = n at hnearer ⊢
  cases hl : (n != 0 && b.contains (n * 10 ^ step.toNat * b.den) (10 ^ (-step).toNat)) <;>
    cases hu : b.contains ((n + 1) * 10 ^ step.toNat * b.den) (10 ^ (-step).toNat)
  · refine .neither (fun hne hin => ?_) fun hin => ?_
    · rw [(hcontains n).2 hin, Bool.and_true, bne_eq_false_iff_eq] at hl
      exact hne hl
    · rw [(hcontains (n + 1)).2 hin] at hu
      cases hu
  · refine .upper ((hcontains (n + 1)).1 hu) fun hne hin => ?_
    rw [(hcontains n).2 hin, Bool.and_true, bne_eq_false_iff_eq] at hl
    exact absurd hl hne
  · obtain ⟨hne, hin⟩ := Bool.and_eq_true_iff.1 hl
    refine .lower (bne_iff_ne.1 hne) ((hcontains n).1 hin) fun hin' => ?_
    rw [(hcontains (n + 1)).2 hin'] at hu
    cases hu
  · obtain ⟨hne, hin⟩ := Bool.and_eq_true_iff.1 hl
    simp only
    split
    next hlt => exact .lower (bne_iff_ne.1 hne) ((hcontains n).1 hin) fun _ => hnearer.1 hlt
    next hge =>
      refine .upper ((hcontains (n + 1)).1 hu) fun _ _ => ?_
      rw [hnearer, not_lt] at hge
      exact hge

variable {d : Decimal} {k : ℕ}

/-- If a point of the grid is in the basin, then so is the neighbour of the value on its side. -/
theorem Neighbours.side (hn : b.Neighbours step n) (h : b.Regular) (hin : b.Holds (point step k)) :
    (point step k ≤ point step n ∧ b.Holds (point step n)) ∨
      (point step (n + 1) ≤ point step k ∧ b.Holds (point step (n + 1))) := by
  rcases Nat.lt_or_ge n k with hlt | hge
  · have hle : point step (n + 1) ≤ point step k := point_mono hlt
    exact .inr ⟨hle, Within.between h.holds_middle hin hn.high.le hle⟩
  · have hle : point step k ≤ point step n := point_mono hge
    exact .inl ⟨hle, Within.between hin h.holds_middle hle hn.low⟩

theorem Neighbours.ne_zero (hn : b.Neighbours step n) (hstep : 10 ^ step ≤ b.middle) : n ≠ 0 := by
  rintro rfl
  have hhigh := hn.high
  unfold point at hhigh
  rw [zero_add, Nat.cast_one, one_mul] at hhigh
  linarith

namespace Picked

theorem holds (hp : b.Picked step n (some d)) :
    d.exponent = step ∧ 0 < d.digits ∧ d.digits ≤ n + 1 ∧ b.Holds d.value := by
  cases hp with
  | lower hn hin => exact ⟨rfl, Nat.pos_of_ne_zero hn, Nat.le_succ n, hin⟩
  | upper hin => exact ⟨rfl, Nat.succ_pos n, le_rfl, hin⟩

/-- A grid from which nothing is taken has no point in the basin. -/
theorem misses (hp : b.Picked step n none) (h : b.Regular) (hn : b.Neighbours step n)
    (hstep : 10 ^ step ≤ b.middle) : ¬b.Holds (point step k) := by
  intro hin
  cases hp with
  | neither hlower hupper =>
    rcases hn.side h hin with ⟨-, hin⟩ | ⟨-, hin⟩
    · exact hlower (hn.ne_zero hstep) hin
    · exact hupper hin

/-- What is taken is no further from the value than any point of the grid in the basin. -/
theorem nearest (hp : b.Picked step n (some d)) (h : b.Regular) (hn : b.Neighbours step n)
    (hstep : 10 ^ step ≤ b.middle) (hin : b.Holds (point step k)) :
    |d.value - b.middle| ≤ |point step k - b.middle| := by
  obtain ⟨hlow, hhigh⟩ := id hn
  have hdown : |point step n - b.middle| = b.middle - point step n := by
    rw [abs_sub_comm, abs_of_nonneg (by linarith)]
  have hup : |point step (n + 1) - b.middle| = point step (n + 1) - b.middle :=
    abs_of_nonneg (by linarith)
  have hleft := neg_le_abs (point step k - b.middle)
  have hright := le_abs_self (point step k - b.middle)
  have hside := hn.side h hin
  cases hp with
  | lower _ _ hnear =>
    show |point step n - b.middle| ≤ _
    rw [hdown]
    rcases hside with ⟨hle, -⟩ | ⟨hle, hin'⟩
    · linarith
    · linarith [hnear hin']
  | upper _ hnear =>
    show |point step (n + 1) - b.middle| ≤ _
    rw [hup]
    rcases hside with ⟨hle, hin'⟩ | ⟨hle, -⟩
    · linarith [hnear (hn.ne_zero hstep) hin']
    · linarith

/-- A grid from which nothing is taken is wider than the basin. -/
theorem width_le (hp : b.Picked step n none) (h : b.Regular) (hn : b.Neighbours step n)
    (hstep : 10 ^ step ≤ b.middle) : (b.high : ℚ) / b.den - b.low / b.den ≤ 10 ^ step := by
  have hnext : point step (n + 1) = point step n + 10 ^ step := by
    unfold point
    push_cast
    linarith
  cases hp with
  | neither hlower hupper =>
    have hlow : point step n ≤ b.low / b.den := by
      by_contra hlt
      exact hlower (hn.ne_zero hstep)
        (Within.of_lt (not_le.1 hlt) (hn.low.trans_lt h.middle_lt_high))
    have hhigh : (b.high : ℚ) / b.den ≤ point step (n + 1) := by
      by_contra hlt
      exact hupper (Within.of_lt (h.low_lt_middle.trans hn.high) (not_le.1 hlt))
    linarith

end Picked

/-! ## The search -/

theorem search_eq (b : Basin) (steps : List ℤ) : b.search steps = steps.findSome? b.onGrid := by
  induction steps with
  | nil => rfl
  | cons step steps ih =>
    rw [search, List.findSome?_cons, ih]
    cases b.onGrid step <;> rfl

/-- The grids that are searched are no coarser than the value is large. -/
theorem Regular.step_le (h : b.Regular) (i : ℕ) : (10 : ℚ) ^ (b.decimalExponent - i) ≤ b.middle :=
  (zpow_le_zpow_right₀ (by norm_num) (by omega)).trans h.decimalExponent_bounds.1

/-- Beside a decimal of at most `i + 1` digits that is in the basin there is a point of the grid
number `i` in the basin, no further from the value. -/
theorem Holds.exists_near (hd : b.Holds d.value) (h : b.Regular) {i : ℕ}
    (hcount : digitCount d.digits ≤ i + 1) :
    ∃ k, b.Holds (point (b.decimalExponent - i) k) ∧
      |point (b.decimalExponent - i) k - b.middle| ≤ |d.value - b.middle| := by
  obtain ⟨hlow, -⟩ := h.decimalExponent_bounds
  by_cases hfine : b.decimalExponent - i ≤ d.exponent
  · -- The decimal is a point of the grid itself.
    have hpoint : point (b.decimalExponent - i)
        (d.digits * 10 ^ (d.exponent - (b.decimalExponent - i)).toNat) = d.value := by
      unfold point Decimal.value
      push_cast
      rw [mul_assoc, ← zpow_natCast, ← zpow_add₀ (by norm_num)]
      congr 2
      omega
    exact ⟨_, hpoint.symm ▸ hd, by rw [hpoint]⟩
  · -- The decimal is below the power of ten under the value, which is on every grid.
    have hpoint : point (b.decimalExponent - i) (10 ^ i) = 10 ^ b.decimalExponent := by
      unfold point
      push_cast
      rw [← zpow_natCast, ← zpow_add₀ (by norm_num)]
      congr 1
      omega
    have hlt : d.value < 10 ^ b.decimalExponent :=
      (value_lt_pow d.digits d.exponent).trans_le (zpow_le_zpow_right₀ (by norm_num) (by omega))
    refine ⟨10 ^ i, hpoint.symm ▸ Within.between hd h.holds_middle hlt.le hlow, ?_⟩
    rw [hpoint, abs_sub_comm, abs_of_nonneg (by linarith), abs_sub_comm, abs_of_nonneg (by linarith)]
    linarith

/-- What is found on the grid number `i`, before which the search has come upon nothing. -/
structure Found (b : Basin) (i : ℕ) (d : Decimal) : Prop where
  here : b.onGrid (b.decimalExponent - i) = some d
  before : ∀ j < i, b.onGrid (b.decimalExponent - j) = none

/-- If the basin is wider than the last grid, then something is found. -/
theorem exists_found (h : b.Regular) {count : ℕ}
    (hwide : (10 : ℚ) ^ (b.decimalExponent - count) < b.high / b.den - b.low / b.den) :
    ∃ i d, i ≤ count ∧ b.Found i d ∧
      b.search ((List.range (count + 1)).map fun (n : ℕ) => b.decimalExponent - n) = some d := by
  rw [search_eq, List.findSome?_map]
  obtain ⟨n, hn, hp⟩ := onGrid_picked h (b.decimalExponent - count)
  cases hlast : b.onGrid (b.decimalExponent - count) with
  | none =>
    rw [hlast] at hp
    exact absurd hwide (not_lt.2 (hp.width_le h hn (h.step_le count)))
  | some last =>
    have hsome : ((List.range (count + 1)).findSome? (b.onGrid ∘ fun (n : ℕ) =>
        b.decimalExponent - n)).isSome :=
      List.findSome?_isSome_iff.2 ⟨count, by simp, by simp [hlast]⟩
    obtain ⟨d, hd⟩ := Option.isSome_iff_exists.1 hsome
    obtain ⟨before, i, after, hrange, hhere, hbefore⟩ := List.findSome?_eq_some_iff.1 hd
    have hi : i ∈ List.range (count + 1) := by simp [hrange]
    refine ⟨i, d, by rw [List.mem_range] at hi; omega, ⟨hhere, fun j hj => ?_⟩, hd⟩
    -- The grids are tried in order, so those before `i` have been tried.
    have hmem : j ∈ before ++ i :: after := by
      rw [← hrange, List.mem_range]
      rw [List.mem_range] at hi
      omega
    have horder : (before ++ i :: after).Pairwise (· < ·) := hrange ▸ List.pairwise_lt_range
    rcases List.mem_append.1 hmem with hj' | hj'
    · exact hbefore j hj'
    · rcases List.mem_cons.1 hj' with rfl | hafter
      · omega
      · have := List.rel_of_pairwise_cons (List.pairwise_append.1 horder).2.1 hafter
        omega

namespace Found

variable {i : ℕ}

theorem digits_le (hf : b.Found i d) (h : b.Regular) :
    0 < d.digits ∧ d.digits ≤ 10 ^ (i + 1) ∧ b.Holds d.value := by
  obtain ⟨n, hn, hp⟩ := onGrid_picked h (b.decimalExponent - i)
  rw [hf.here] at hp
  obtain ⟨-, hpos, hle, hholds⟩ := hp.holds
  refine ⟨hpos, ?_, hholds⟩
  have hlt := hn.low.trans_lt h.decimalExponent_bounds.2
  have hsplit : (10 : ℚ) ^ (b.decimalExponent + 1) =
      10 ^ (i + 1) * 10 ^ (b.decimalExponent - i) := by
    rw [← zpow_natCast, ← zpow_add₀ (by norm_num)]
    congr 1
    push_cast
    omega
  unfold point at hlt
  rw [hsplit, mul_lt_mul_iff_left₀ (by positivity)] at hlt
  have hn' : n < 10 ^ (i + 1) := by exact_mod_cast hlt
  omega

/-- What is found is nearest to the value of all decimals in the basin that are not longer. -/
theorem nearest (hf : b.Found i d) (h : b.Regular) {d' : Decimal} (hd' : b.Holds d'.value)
    (hcount : digitCount d'.digits ≤ i + 1) : |d.value - b.middle| ≤ |d'.value - b.middle| := by
  obtain ⟨n, hn, hp⟩ := onGrid_picked h (b.decimalExponent - i)
  rw [hf.here] at hp
  obtain ⟨k, hk, hle⟩ := hd'.exists_near h hcount
  exact (hp.nearest h hn (h.step_le i) hk).trans hle

/-- All decimals in the basin have more than `i` digits. -/
theorem lt_digitCount (hf : b.Found i d) (h : b.Regular) {d' : Decimal} (hd' : b.Holds d'.value) :
    i < digitCount d'.digits := by
  by_contra hle
  rw [not_lt] at hle
  have hpos := digitCount_pos d'.digits
  obtain ⟨n, hn, hp⟩ := onGrid_picked h (b.decimalExponent - (digitCount d'.digits - 1 : ℕ))
  rw [hf.before (digitCount d'.digits - 1) (by omega)] at hp
  obtain ⟨k, hk, -⟩ := hd'.exists_near h (i := digitCount d'.digits - 1) (by omega)
  exact hp.misses h hn (h.step_le _) hk

end Found

end Basin

/-! ## Basins of floats -/

variable {x : Binary64} {q : ℚ}

namespace Proper

theorem reach_eq (h : x.Proper) :
    (if x.fractionField = 0 && 1 < x.exponentField then 1 else 2) =
      reach x.significand x.exponent := by
  have hzero := h.isZero
  have hlt := fractionField_lt x
  simp only [Binary64.isZero, Bool.and_eq_false_iff, beq_eq_false_iff_ne] at hzero
  have hiff : (x.fractionField = 0 && 1 < x.exponentField) = true ↔
      x.significand = 2 ^ 52 ∧ x.exponent ≠ -1074 := by
    unfold significand exponent
    simp only [Nat.pow_eq, Bool.and_eq_true, decide_eq_true_eq]
    split <;> omega
  unfold reach
  simp only [hiff]

/-- The low end, the value and the high end of a basin over its denominator. -/
theorem basin_ends (h : x.Proper) :
    (x.basin.low : ℚ) / x.basin.den =
        (x.significand - reach x.significand x.exponent / 4) * 2 ^ x.exponent ∧
      x.basin.middle = x.size ∧
      (x.basin.high : ℚ) / x.basin.den = (x.significand + 1 / 2) * 2 ^ x.exponent := by
  have hpos := h.canonical.pos
  have hreach : reach x.significand x.exponent ≤ 4 * x.significand := by
    have hle := reach_le x.significand x.exponent
    omega
  have hunit : ((2 ^ (x.exponent - 2).toNat : ℕ) : ℚ) / (2 ^ (-(x.exponent - 2)).toNat : ℕ) =
      2 ^ x.exponent / 4 := by
    rw [← zpow_eq_div (by decide), Nat.cast_ofNat, zpow_sub₀ (by norm_num)]
    norm_num
  unfold Basin.middle basin size
  simp only [h.reach_eq, Nat.pow_eq]
  refine ⟨?_, ?_, ?_⟩
  · rw [Nat.cast_mul, mul_div_assoc, hunit, Nat.cast_sub hreach]
    push_cast
    field_simp
  · rw [Nat.cast_mul, mul_div_assoc, hunit]
    push_cast
    field_simp
  · rw [Nat.cast_mul, mul_div_assoc, hunit]
    push_cast
    field_simp
    linarith

theorem regular_basin (h : x.Proper) : x.basin.Regular := by
  have hpos := h.canonical.pos
  have hup : 0 < 2 ^ (x.exponent - 2).toNat := Nat.two_pow_pos _
  have hreach := reach_pos x.significand x.exponent
  unfold basin
  simp only [h.reach_eq, Nat.pow_eq]
  refine ⟨Nat.two_pow_pos _, Nat.mul_pos (by omega) hup, ?_, ?_⟩
  · exact Nat.mul_lt_mul_of_pos_right (by omega) hup
  · exact Nat.mul_lt_mul_of_pos_right (by omega) hup

/-- The basin of a float holds the numbers that round to it. -/
theorem holds_basin_iff (h : x.Proper) :
    x.basin.Holds q ↔ Attracts x.significand x.exponent q := by
  obtain ⟨hlow, -, hhigh⟩ := h.basin_ends
  have hunit : (0 : ℚ) < 2 ^ x.exponent := by positivity
  unfold Basin.Holds Attracts
  rw [hlow, hhigh]
  conv_rhs => rw [← within_mul_iff hunit, div_mul_cancel₀ _ hunit.ne']
  rfl

/-- A basin is wider than the sixteenth grid after that of the first digit. -/
theorem basin_wide (h : x.Proper) :
    (10 : ℚ) ^ (x.basin.decimalExponent - (16 : ℕ)) <
      x.basin.high / x.basin.den - x.basin.low / x.basin.den := by
  obtain ⟨hlow, hmiddle, hhigh⟩ := h.basin_ends
  have hunit : (0 : ℚ) < 2 ^ x.exponent := by positivity
  have hm : (x.significand : ℚ) < 2 ^ 53 := by exact_mod_cast h.canonical.lt
  have htop := h.regular_basin.decimalExponent_bounds.1
  have hsplit : (10 : ℚ) ^ x.basin.decimalExponent =
      10 ^ (x.basin.decimalExponent - (16 : ℕ)) * 10 ^ 16 := by
    rw [zpow_sub₀ (by norm_num), zpow_natCast]
    field_simp
  rw [hmiddle, hsplit] at htop
  unfold size at htop
  rw [hlow, hhigh]
  generalize (10 : ℚ) ^ (x.basin.decimalExponent - (16 : ℕ)) = spacing at htop ⊢
  unfold reach
  split
  next hpower =>
    rw [hpower.1] at htop ⊢
    push_cast at htop ⊢
    linarith
  next =>
    have hlt : (x.significand : ℚ) * 2 ^ x.exponent < 2 ^ 53 * 2 ^ x.exponent :=
      mul_lt_mul_of_pos_right hm hunit
    push_cast
    linarith

end Proper

/-! ## The shortest decimal -/

/-- The shortest decimal of a float: it reads back and has no trailing zeros, no decimal that reads
back has fewer digits, and none that has as many is nearer. -/
structure IsShortest (x : Binary64) (d : Decimal) : Prop where
  reads : ofDecimal x.isNegative d.digits d.exponent = some x
  trimmed : d.digits % 10 ≠ 0
  fewest : ∀ d' : Decimal, ofDecimal x.isNegative d'.digits d'.exponent = some x →
    digitCount d.digits ≤ digitCount d'.digits
  nearest : ∀ d' : Decimal, ofDecimal x.isNegative d'.digits d'.exponent = some x →
    digitCount d'.digits = digitCount d.digits → |d.value - x.size| ≤ |d'.value - x.size|

theorem Proper.isShortest_shortest (h : x.Proper) : x.IsShortest x.shortest := by
  have hreads : ∀ d : Decimal, ofDecimal x.isNegative d.digits d.exponent = some x ↔
      x.basin.Holds d.value := by
    intro d
    rw [h.ofDecimal_eq_some_iff, h.holds_basin_iff]
    exact and_iff_right rfl
  have hregular := h.regular_basin
  obtain ⟨i, d, hi, hf, hsearch⟩ := Basin.exists_found hregular h.basin_wide
  obtain ⟨hpos, hle, hholds⟩ := hf.digits_le hregular
  have hshortest : x.shortest = d.trim 800 := by
    unfold shortest
    simp only [hsearch, Option.getD_some]
  have hmod : (d.trim 800).digits % 10 ≠ 0 := by
    have hlt : 10 ^ (i + 1) < 10 ^ (i + 2) := Nat.pow_lt_pow_right (by decide) (by omega)
    exact Decimal.trim_digits_mod hpos (hle.trans_lt hlt) (by omega)
  -- A power of ten that has one digit too many has lost it with its zeros.
  have hcount : digitCount (d.trim 800).digits ≤ i + 1 := by
    rw [digitCount_le_iff (Nat.succ_pos i)]
    refine lt_of_le_of_ne ((d.trim_digits_le 800).trans hle) fun heq => hmod ?_
    rw [heq, pow_succ, Nat.mul_mod_left]
  rw [hshortest]
  refine ⟨?_, hmod, fun d' hd' => ?_, fun d' hd' hsame => ?_⟩
  · rw [hreads, Decimal.trim_value]
    exact hholds
  · exact hcount.trans (hf.lt_digitCount hregular ((hreads d').1 hd'))
  · rw [Decimal.trim_value, ← h.basin_ends.2.1]
    exact hf.nearest hregular ((hreads d').1 hd') (hsame.trans_le hcount)

end Binary64

end CodeView
