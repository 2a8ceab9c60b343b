import Mathlib.Algebra.Order.Field.Power
import Mathlib.Algebra.Order.Ring.Rat
import Mathlib.Data.Nat.Cast.Order.Field
import Mathlib.Data.Rat.Cast.Order
import Mathlib.Tactic.FieldSimp
import Mathlib.Tactic.Linarith
import Mathlib.Tactic.Positivity
import CodeView.Binary64.Rounding

/-!
# What rounding to a float gives

Rounding works on fractions of natural numbers; here it is told in rationals.

* `Within closed low high q`: an interval that has both its ends or neither. An integer is what the
  numbers of an interval around it are rounded to (`roundsTo_roundToEven`), and a number is rounded
  to one integer only (`RoundsTo.unique`).
* `Spaced q e`: around `q` the floats are `2 ^ e` apart. Every positive number has one such
  exponent, and `exists_rounded` is the rounding on that grid.
* `Canonical m e`: the significands and exponents of floats. `nearestMagnitude_eq_iff` says which
  numbers round to a float: those of an interval around it, which is narrower below a power of two.
-/

namespace CodeView.Binary64

/-! ## Intervals -/

/-- The interval from `low` to `high`, with its ends if it is closed. -/
def Within (closed : Bool) (low high q : ℚ) : Prop :=
  if closed then low ≤ q ∧ q ≤ high else low < q ∧ q < high

section Within

variable {closed : Bool} {low high q : ℚ}

theorem Within.le (h : Within closed low high q) : low ≤ q ∧ q ≤ high := by
  cases closed with
  | true => exact h
  | false => exact ⟨h.1.le, h.2.le⟩

theorem Within.of_lt (hlow : low < q) (hhigh : q < high) : Within closed low high q := by
  cases closed with
  | true => exact ⟨hlow.le, hhigh.le⟩
  | false => exact ⟨hlow, hhigh⟩

/-- What lies between two numbers of an interval lies in the interval. -/
theorem Within.between {a b : ℚ} (ha : Within closed low high a) (hb : Within closed low high b)
    (haq : a ≤ q) (hqb : q ≤ b) : Within closed low high q := by
  cases closed with
  | true => exact ⟨ha.1.trans haq, hqb.trans hb.2⟩
  | false => exact ⟨ha.1.trans_le haq, hqb.trans_lt hb.2⟩

theorem within_mul_iff {u : ℚ} (hu : 0 < u) :
    Within closed (low * u) (high * u) (q * u) ↔ Within closed low high q := by
  unfold Within
  simp only [mul_le_mul_iff_left₀ hu, mul_lt_mul_iff_left₀ hu]

end Within

/-! ## Rounding to integers -/

/-- `r` is the integer that `q` is rounded to: it is half a unit away at most, and even if it is
half a unit away. -/
def RoundsTo (q : ℚ) (r : ℕ) : Prop :=
  Within (r % 2 == 0) (r - 1 / 2) (r + 1 / 2) q

theorem RoundsTo.unique {q : ℚ} {r s : ℕ} (hr : RoundsTo q r) (hs : RoundsTo q s) : r = s := by
  have hrs : (r : ℚ) ≤ s + 1 := by linarith [hr.le.1, hs.le.2]
  have hsr : (s : ℚ) ≤ r + 1 := by linarith [hs.le.1, hr.le.2]
  have h₁ : r ≤ s + 1 := by exact_mod_cast hrs
  have h₂ : s ≤ r + 1 := by exact_mod_cast hsr
  -- Neighbours meet half way between them, and only one of them is even.
  have hodd : ∀ {a b : ℕ}, b = a + 1 → RoundsTo q a → RoundsTo q b → False := by
    rintro a b rfl ha hb
    have hle := ha.le.2
    have hge := hb.le.1
    push_cast at hge
    unfold RoundsTo Within at ha hb
    by_cases heven : a % 2 = 0
    · have hnot : ¬(a + 1) % 2 = 0 := by omega
      simp only [beq_iff_eq, hnot, if_false] at hb
      push_cast at hb
      linarith [hb.1]
    · simp only [beq_iff_eq, heven, if_false] at ha
      linarith [ha.2]
  rcases Nat.lt_trichotomy r s with h | h | h
  · exact (hodd (by omega) hr hs).elim
  · exact h
  · exact (hodd (by omega) hs hr).elim

theorem roundsTo_roundToEven (num : ℕ) {den : ℕ} (hden : 0 < den) :
    RoundsTo (num / den) (roundToEven num den) := by
  have hd : (0 : ℚ) < den := by exact_mod_cast hden
  have hsplit : (num : ℚ) = den * (num / den : ℕ) + (num % den : ℕ) := by
    exact_mod_cast (Nat.div_add_mod num den).symm
  have hlt : ((num % den : ℕ) : ℚ) < den := by exact_mod_cast Nat.mod_lt num hden
  have hnonneg : (0 : ℚ) ≤ (num % den : ℕ) := Nat.cast_nonneg _
  unfold roundToEven RoundsTo
  simp only
  generalize num / den = quotient at *
  generalize num % den = rest at *
  have hq : (num : ℚ) / den = quotient + rest / den := by
    rw [hsplit]
    field_simp
  rw [hq]
  have hrest : (0 : ℚ) ≤ rest / den := by positivity
  have hrest' : (rest : ℚ) / den < 1 := (div_lt_one hd).2 hlt
  split
  next h =>
    have hhalf : (rest : ℚ) / den < 1 / 2 := by
      rw [div_lt_iff₀ hd]
      have : (2 : ℚ) * rest < den := by exact_mod_cast h
      linarith
    exact Within.of_lt (by linarith) (by linarith)
  next h =>
    split
    next h' =>
      have hhalf : 1 / 2 < (rest : ℚ) / den := by
        rw [lt_div_iff₀ hd]
        have : (den : ℚ) < 2 * rest := by exact_mod_cast h'
        linarith
      push_cast
      exact Within.of_lt (by linarith) (by linarith)
    next h' =>
      have hhalf : (rest : ℚ) / den = 1 / 2 := by
        rw [div_eq_iff hd.ne']
        have : (den : ℚ) = 2 * rest := by exact_mod_cast (show den = 2 * rest by omega)
        linarith
      have heven : (quotient + quotient % 2) % 2 = 0 := by omega
      have hle : ((quotient % 2 : ℕ) : ℚ) ≤ 1 := by exact_mod_cast (show quotient % 2 ≤ 1 by omega)
      have hge : (0 : ℚ) ≤ (quotient % 2 : ℕ) := Nat.cast_nonneg _
      rw [hhalf]
      unfold Within
      simp only [heven, beq_self_eq_true, if_true]
      push_cast
      constructor <;> linarith

/-! ## Fractions and powers of two -/

theorem scaled_pos (num : ℕ) {den : ℕ} (hden : 0 < den) (shift : ℤ) :
    0 < (scaled num den shift).2 := by
  unfold scaled
  split
  · exact hden
  · exact Nat.mul_pos hden (Nat.pow_pos (by decide))

theorem scaled_eq (num den : ℕ) (shift : ℤ) :
    ((scaled num den shift).1 : ℚ) / (scaled num den shift).2 = num / den * 2 ^ shift := by
  unfold scaled
  split
  next h =>
    obtain ⟨n, rfl⟩ := Int.eq_ofNat_of_zero_le h
    simp only [Int.toNat_natCast, Nat.pow_eq, zpow_natCast]
    push_cast
    exact mul_div_right_comm _ _ _
  next h =>
    obtain ⟨n, hn⟩ := Int.eq_ofNat_of_zero_le (show 0 ≤ -shift by omega)
    obtain rfl : shift = -(n : ℤ) := by omega
    simp only [neg_neg, Int.toNat_natCast, Nat.pow_eq, zpow_neg, zpow_natCast]
    push_cast
    rw [div_mul_eq_div_div, div_eq_mul_inv ((num : ℚ) / den)]

theorem binaryExponent_bounds {num den : ℕ} (hnum : 0 < num) (hden : 0 < den) :
    (2 : ℚ) ^ binaryExponent num den ≤ num / den ∧
      (num : ℚ) / den < 2 ^ (binaryExponent num den + 1) := by
  have hd : (0 : ℚ) < den := by exact_mod_cast hden
  -- The logarithms leave two binades to choose from.
  have hnlow : (2 : ℚ) ^ num.log2 ≤ num := by exact_mod_cast Nat.log2_self_le hnum.ne'
  have hnhigh : (num : ℚ) < 2 ^ (num.log2 + 1) := by exact_mod_cast Nat.lt_log2_self (n := num)
  have hdlow : (2 : ℚ) ^ den.log2 ≤ den := by exact_mod_cast Nat.log2_self_le hden.ne'
  have hdhigh : (den : ℚ) < 2 ^ (den.log2 + 1) := by exact_mod_cast Nat.lt_log2_self (n := den)
  have hpos : (0 : ℚ) < 2 ^ den.log2 := by positivity
  set guess : ℤ := (num.log2 : ℤ) - den.log2 with hguess
  have hratio : (2 : ℚ) ^ guess = 2 ^ num.log2 / 2 ^ den.log2 := by
    rw [hguess, zpow_sub₀ (by norm_num), zpow_natCast, zpow_natCast]
  have hhigh : (num : ℚ) / den < 2 ^ (guess + 1) := by
    rw [zpow_add_one₀ (by norm_num), hratio, div_mul_eq_mul_div, ← pow_succ]
    exact div_lt_div₀ hnhigh hdlow (by positivity) hpos
  have hlow : (2 : ℚ) ^ (guess - 1) ≤ num / den := by
    rw [zpow_sub_one₀ (by norm_num), hratio, ← div_eq_mul_inv, div_div, ← pow_succ]
    exact div_le_div₀ (by positivity) hnlow hd hdhigh.le
  have hs := scaled_eq num den (-guess)
  have hsd : (0 : ℚ) < (scaled num den (-guess)).2 := by exact_mod_cast scaled_pos num hden (-guess)
  have hu : (0 : ℚ) < 2 ^ guess := by positivity
  unfold binaryExponent
  simp only [← hguess]
  split
  next h =>
    have hle : ((scaled num den (-guess)).2 : ℚ) ≤ (scaled num den (-guess)).1 := by exact_mod_cast h
    rw [← one_le_div hsd, hs, zpow_neg, ← div_eq_mul_inv, one_le_div hu] at hle
    exact ⟨hle, hhigh⟩
  next h =>
    have hlt : ((scaled num den (-guess)).1 : ℚ) < (scaled num den (-guess)).2 := by
      exact_mod_cast Nat.lt_of_not_le h
    rw [← div_lt_one hsd, hs, zpow_neg, ← div_eq_mul_inv, div_lt_one hu] at hlt
    rw [sub_add_cancel]
    exact ⟨hlow, hlt⟩

/-! ## The grid around a number -/

variable {q : ℚ} {e e' : ℤ} {m r : ℕ}

/-- Around `q` the floats are `2 ^ e` apart: `q` has 53 bits before the point if `2 ^ e` is the
unit, or fewer if there is no smaller unit. -/
structure Spaced (q : ℚ) (e : ℤ) : Prop where
  least : -1074 ≤ e
  lt : q / 2 ^ e < 2 ^ 53
  le : e = -1074 ∨ 2 ^ 52 ≤ q / 2 ^ e

theorem Spaced.unique (h : Spaced q e) (h' : Spaced q e') : e = e' := by
  have hno : ∀ {a b : ℤ}, Spaced q a → Spaced q b → ¬a < b := by
    intro a b ha hb hab
    have hpos : (0 : ℚ) < 2 ^ a := by positivity
    have hlt := (div_lt_iff₀ hpos).1 ha.lt
    have hle : (2 : ℚ) ^ 52 ≤ q / 2 ^ b := hb.le.resolve_left (by have := ha.least; omega)
    rw [le_div_iff₀ (by positivity)] at hle
    have hdouble : (2 : ℚ) ^ (a + 1) ≤ 2 ^ b := zpow_le_zpow_right₀ (by norm_num) hab
    rw [zpow_add_one₀ (by norm_num)] at hdouble
    linarith
  have h₁ := hno h h'
  have h₂ := hno h' h
  omega

/-- Rounding takes the grid around the number and rounds to one of its points. -/
theorem exists_rounded {num den : ℕ} (hnum : 0 < num) (hden : 0 < den) :
    ∃ (e : ℤ) (r : ℕ), Spaced (num / den) e ∧ RoundsTo (num / den / 2 ^ e) r ∧
      nearestMagnitude num den = (e + 1074).toNat * 2 ^ 52 + r := by
  obtain ⟨hlow, hhigh⟩ := binaryExponent_bounds hnum hden
  have hround := roundsTo_roundToEven (scaled num den (-max (binaryExponent num den - 52) (-1074))).1
    (scaled_pos num hden (-max (binaryExponent num den - 52) (-1074)))
  rw [scaled_eq, zpow_neg, ← div_eq_mul_inv] at hround
  refine ⟨max (binaryExponent num den - 52) (-1074), _, ⟨le_max_right _ _, ?_, ?_⟩, hround, rfl⟩
  · rw [div_lt_iff₀ (by positivity), ← zpow_natCast, ← zpow_add₀ (by norm_num)]
    refine hhigh.trans_le (zpow_le_zpow_right₀ (by norm_num) ?_)
    push_cast
    omega
  · rcases le_total (binaryExponent num den - 52) (-1074) with h | h
    · exact .inl (max_eq_right h)
    · refine .inr ?_
      rw [max_eq_left h, le_div_iff₀ (by positivity), ← zpow_natCast, ← zpow_add₀ (by norm_num)]
      push_cast
      rwa [add_sub_cancel]

/-- The points that a number can be rounded to. -/
theorem RoundsTo.bounds (hr : RoundsTo (q / 2 ^ e) r) (h : Spaced q e) :
    r ≤ 2 ^ 53 ∧ (e = -1074 ∨ 2 ^ 52 ≤ r) := by
  constructor
  · have hlt : (r : ℚ) < 2 ^ 53 + 1 := by linarith [hr.le.1, h.lt]
    have : r < 2 ^ 53 + 1 := by exact_mod_cast hlt
    omega
  · refine h.le.imp id fun hle => ?_
    have hlt : (2 : ℚ) ^ 52 < r + 1 := by linarith [hr.le.2]
    have : 2 ^ 52 < r + 1 := by exact_mod_cast hlt
    omega

/-! ## The numbers that round to a float -/

/-- The significands and exponents of the floats that are finite and not zero. -/
structure Canonical (m : ℕ) (e : ℤ) : Prop where
  pos : 0 < m
  lt : m < 2 ^ 53
  least : -1074 ≤ e
  normal : e = -1074 ∨ 2 ^ 52 ≤ m

/-- How far down from `m` the interval goes, in quarters: the next float below a power of two is
only half a unit away. -/
def reach (m : ℕ) (e : ℤ) : ℕ :=
  if m = 2 ^ 52 ∧ e ≠ -1074 then 1 else 2

/-- The interval around `m * 2 ^ e`, half way to the next floats. Its ends belong to it if the
significand is even. -/
def Attracts (m : ℕ) (e : ℤ) (q : ℚ) : Prop :=
  Within (m % 2 == 0) (m - reach m e / 4) (m + 1 / 2) (q / 2 ^ e)

theorem reach_pos (m : ℕ) (e : ℤ) : 0 < reach m e := by
  unfold reach
  split <;> omega

theorem reach_le (m : ℕ) (e : ℤ) : reach m e ≤ 2 := by
  unfold reach
  split <;> omega

/-- The interval of a float goes half a unit up and down at most. -/
theorem Attracts.bounds (ha : Attracts m e q) :
    (m : ℚ) - 1 / 2 ≤ q / 2 ^ e ∧ q / 2 ^ e ≤ m + 1 / 2 := by
  have hreach : (reach m e : ℚ) ≤ 2 := by exact_mod_cast reach_le m e
  obtain ⟨hlow, hhigh⟩ := ha.le
  exact ⟨by linarith, hhigh⟩

theorem attracts_of_roundsTo (hreach : ¬(m = 2 ^ 52 ∧ e ≠ -1074)) :
    Attracts m e q ↔ RoundsTo (q / 2 ^ e) m := by
  unfold Attracts RoundsTo reach
  rw [if_neg hreach]
  norm_num

theorem attracts_power (he : e ≠ -1074) :
    Attracts (2 ^ 52) e q ↔ 2 ^ 52 - 1 / 4 ≤ q / 2 ^ e ∧ q / 2 ^ e ≤ 2 ^ 52 + 1 / 2 := by
  have hreach : reach (2 ^ 52) e = 1 := if_pos ⟨rfl, he⟩
  unfold Attracts Within
  rw [hreach]
  norm_num

/-- A unit in half the size doubles the number of units. -/
theorem div_half_unit (q : ℚ) (e : ℤ) : q / 2 ^ (e - 1) = 2 * (q / 2 ^ e) := by
  rw [zpow_sub_one₀ (by norm_num)]
  field_simp

theorem Spaced.attracts (h : Spaced q e') (hr : RoundsTo (q / 2 ^ e') r) (hc : Canonical m e)
    (heq : (e' + 1074).toNat * 2 ^ 52 + r = (e + 1074).toNat * 2 ^ 52 + m) : Attracts m e q := by
  obtain ⟨hle, hnormal⟩ := hr.bounds h
  have hleast := h.least
  obtain ⟨-, hlt, hleast', hnormal'⟩ := hc
  -- Two ways to write the same bits: the same point, or the end of the grid one below.
  have hcases : e' = e ∧ r = m ∨ e' = e - 1 ∧ r = 2 ^ 53 ∧ m = 2 ^ 52 ∧ e ≠ -1074 := by omega
  rcases hcases with ⟨rfl, rfl⟩ | ⟨rfl, rfl, rfl, he⟩
  · by_cases hpower : r = 2 ^ 52 ∧ e' ≠ -1074
    · obtain ⟨rfl, he⟩ := hpower
      have hge := h.le.resolve_left he
      have hhigh := hr.le.2
      push_cast at hhigh
      exact (attracts_power he).2 ⟨by linarith, hhigh⟩
    · exact (attracts_of_roundsTo hpower).2 hr
  · have hlow := hr.le.1
    have hhigh := h.lt
    rw [div_half_unit] at hlow hhigh
    push_cast at hlow
    exact (attracts_power he).2 ⟨by linarith, by linarith⟩

theorem Attracts.magnitude_eq (ha : Attracts m e q) (hc : Canonical m e) (h : Spaced q e')
    (hr : RoundsTo (q / 2 ^ e') r) :
    (e' + 1074).toNat * 2 ^ 52 + r = (e + 1074).toNat * 2 ^ 52 + m := by
  obtain ⟨-, hlt, hleast, hnormal⟩ := hc
  have hm : (m : ℚ) + 1 ≤ 2 ^ 53 := by exact_mod_cast hlt
  obtain ⟨hdown, hup⟩ := ha.bounds
  have hhigh : q / 2 ^ e < 2 ^ 53 := by linarith
  by_cases hin : e = -1074 ∨ 2 ^ 52 ≤ q / 2 ^ e
  · -- The number lies on the float's own grid.
    obtain rfl := h.unique ⟨hleast, hhigh, hin⟩
    by_cases hpower : m = 2 ^ 52 ∧ e' ≠ -1074
    · obtain ⟨rfl, he⟩ := hpower
      have hge := hin.resolve_left he
      obtain ⟨-, hle⟩ := (attracts_power he).1 ha
      have hround : RoundsTo (q / 2 ^ e') (2 ^ 52) := by
        unfold RoundsTo Within
        norm_num
        constructor <;> linarith
      rw [hr.unique hround]
    · rw [hr.unique ((attracts_of_roundsTo hpower).1 ha)]
  · -- It lies below a power of two, where the grid is finer.
    obtain ⟨he, hbelow⟩ := not_or.1 hin
    rw [not_le] at hbelow
    have hge := hnormal.resolve_left he
    have hpower : m = 2 ^ 52 := by
      have hlt' : (m : ℚ) < 2 ^ 52 + 1 := by linarith
      have : m < 2 ^ 52 + 1 := by exact_mod_cast hlt'
      omega
    subst hpower
    obtain ⟨hlow, -⟩ := (attracts_power he).1 ha
    have hspaced : Spaced q (e - 1) := by
      refine ⟨by omega, ?_, .inr ?_⟩
      · rw [div_half_unit]
        linarith
      · rw [div_half_unit]
        linarith
    obtain rfl := h.unique hspaced
    have hround : RoundsTo (q / 2 ^ (e - 1)) (2 ^ 53) := by
      rw [div_half_unit]
      unfold RoundsTo Within
      norm_num
      constructor <;> linarith
    rw [hr.unique hround]
    omega

/-- The numbers that round to a float are those of its interval. -/
theorem nearestMagnitude_eq_iff {num den : ℕ} (hnum : 0 < num) (hden : 0 < den)
    (hc : Canonical m e) :
    nearestMagnitude num den = (e + 1074).toNat * 2 ^ 52 + m ↔ Attracts m e (num / den) := by
  obtain ⟨e', r, hspaced, hround, heq⟩ := exists_rounded hnum hden
  rw [heq]
  exact ⟨hspaced.attracts hround hc, fun ha => ha.magnitude_eq hc hspaced hround⟩

end CodeView.Binary64
