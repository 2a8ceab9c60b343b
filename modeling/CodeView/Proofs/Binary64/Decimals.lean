import CodeView.Binary64.Shortest
import CodeView.Proofs.Binary64.Nearest

/-!
# The decimals that round to a float

A float is its sign and 63 bits of magnitude, and the magnitude is the exponent and the significand
over one another (`magnitudeBits_eq`). So a decimal rounds to a float that is finite and not zero if
it has the same sign and its value is in the interval of the float (`ofDecimal_eq_some_iff`).

* `Decimal.value`: the rational that a decimal stands for. Its order of magnitude is told by the
  number of digits (`pow_digitCount_le`, `lt_pow_digitCount`).
* `Proper`: neither zero nor infinite, and a number.
-/

namespace CodeView

/-- The rational that a decimal stands for. -/
def Decimal.value (d : Decimal) : ℚ :=
  d.digits * 10 ^ d.exponent

namespace Binary64

/-! ## Numbers of digits -/

theorem digitCount_pos (n : ℕ) : 0 < digitCount n :=
  Nat.length_toDigits_pos

theorem digitCount_le_iff {n k : ℕ} (hk : 0 < k) : digitCount n ≤ k ↔ n < 10 ^ k :=
  Nat.length_toDigits_le_iff (by decide) hk

theorem lt_pow_digitCount (n : ℕ) : n < 10 ^ digitCount n :=
  (digitCount_le_iff (digitCount_pos n)).1 le_rfl

theorem pow_digitCount_le {n : ℕ} (hn : 0 < n) : 10 ^ (digitCount n - 1) ≤ n := by
  by_contra h
  rw [not_le] at h
  by_cases hone : digitCount n = 1
  · rw [hone] at h
    omega
  · have hpos := digitCount_pos n
    have hle := (digitCount_le_iff (show 0 < digitCount n - 1 by omega)).2 h
    omega

theorem pow_le_value {digits : ℕ} (hd : 0 < digits) (exponent : ℤ) :
    (10 : ℚ) ^ (exponent + digitCount digits - 1) ≤ digits * 10 ^ exponent := by
  have hle : ((10 ^ (digitCount digits - 1) : ℕ) : ℚ) ≤ digits := by
    exact_mod_cast pow_digitCount_le hd
  have hpos := digitCount_pos digits
  have hsplit :
      exponent + digitCount digits - 1 = ((digitCount digits - 1 : ℕ) : ℤ) + exponent := by
    omega
  rw [hsplit, zpow_add₀ (by norm_num), zpow_natCast]
  push_cast at hle
  gcongr

theorem value_lt_pow (digits : ℕ) (exponent : ℤ) :
    (digits : ℚ) * 10 ^ exponent < 10 ^ (exponent + digitCount digits) := by
  have hlt : (digits : ℚ) < 10 ^ digitCount digits := by exact_mod_cast lt_pow_digitCount digits
  rw [add_comm, zpow_add₀ (by norm_num), zpow_natCast]
  gcongr

/-! ## The bits of a float -/

variable {x : Binary64} {negative : Bool} {magnitude : ℕ}

/-- The bits without the sign. -/
def magnitudeBits (x : Binary64) : ℕ :=
  x.exponentField * 2 ^ 52 + x.fractionField

theorem exponentField_le (x : Binary64) : x.exponentField ≤ 2047 := by
  unfold exponentField
  simp only [Nat.pow_eq]
  omega

theorem fractionField_lt (x : Binary64) : x.fractionField < 2 ^ 52 :=
  Nat.mod_lt _ (by decide)

theorem toNat_bits (x : Binary64) :
    x.bits.toNat = (if x.isNegative then 2 ^ 63 else 0) + x.magnitudeBits := by
  have hlt : x.bits.toNat < 2 ^ 64 := x.bits.toNat_lt
  unfold isNegative magnitudeBits exponentField fractionField
  simp only [Nat.pow_eq, decide_eq_true_eq]
  split <;> omega

theorem ofMagnitude_magnitudeBits (x : Binary64) :
    ofMagnitude x.isNegative x.magnitudeBits = x := by
  have hbits := toNat_bits x
  have hnat : (if x.isNegative then 2 ^ 63 + x.magnitudeBits else x.magnitudeBits) =
      x.bits.toNat := by
    rw [hbits]
    split <;> omega
  unfold ofMagnitude
  simp only [Nat.pow_eq]
  rw [hnat, UInt64.ofNat_toNat]

theorem toNat_ofMagnitude (h : magnitude < 2 ^ 63) :
    (ofMagnitude negative magnitude).bits.toNat = (if negative then 2 ^ 63 else 0) + magnitude := by
  unfold ofMagnitude
  simp only [Nat.pow_eq]
  rw [UInt64.toNat_ofNat_of_lt']
  · split <;> omega
  · show _ < 2 ^ 64
    split <;> omega

theorem isNegative_ofMagnitude (h : magnitude < 2 ^ 63) :
    (ofMagnitude negative magnitude).isNegative = negative := by
  unfold isNegative
  rw [toNat_ofMagnitude h]
  cases negative with
  | true => simp
  | false => simpa using h

theorem magnitudeBits_ofMagnitude (h : magnitude < 2 ^ 63) :
    (ofMagnitude negative magnitude).magnitudeBits = magnitude := by
  have hbits := toNat_bits (ofMagnitude negative magnitude)
  rw [toNat_ofMagnitude h, isNegative_ofMagnitude h] at hbits
  omega

theorem eq_zero_of_isZero (h : x.isZero = true) : x = zero x.isNegative := by
  simp only [isZero, Bool.and_eq_true, beq_iff_eq] at h
  have hbits : x.magnitudeBits = 0 := by
    unfold magnitudeBits
    omega
  rw [zero, ← hbits, ofMagnitude_magnitudeBits]

theorem eq_infinity_of_isInfinite (h : x.isInfinite = true) :
    x = ofMagnitude x.isNegative infinityMagnitude := by
  simp only [isInfinite, Bool.and_eq_true, beq_iff_eq] at h
  have hbits : x.magnitudeBits = infinityMagnitude := by
    unfold magnitudeBits infinityMagnitude
    rw [h.1, h.2, Nat.pow_eq, Nat.add_zero]
  rw [← hbits, ofMagnitude_magnitudeBits]

/-! ## Finite floats other than zero -/

/-- A float that is finite and not zero. -/
structure Proper (x : Binary64) : Prop where
  isNaN : x.isNaN = false
  isInfinite : x.isInfinite = false
  isZero : x.isZero = false

/-- The magnitude of a finite float. -/
def size (x : Binary64) : ℚ :=
  x.significand * 2 ^ x.exponent

theorem magnitudeBits_eq (x : Binary64) :
    x.magnitudeBits = (x.exponent + 1074).toNat * 2 ^ 52 + x.significand := by
  unfold magnitudeBits exponent significand
  simp only [Nat.pow_eq]
  split <;> omega

theorem two_zpow_le_ten_zpow {n : ℤ} (hn : 0 ≤ n) : (2 : ℚ) ^ (3 * n) ≤ 10 ^ n := by
  rw [zpow_mul]
  exact zpow_le_zpow_left₀ hn (by norm_num) (by norm_num)

namespace Proper

theorem exponentField_lt (h : x.Proper) : x.exponentField < 2047 := by
  obtain ⟨hnan, hinf, -⟩ := h
  have hle := exponentField_le x
  simp only [Binary64.isNaN, Binary64.isInfinite, Bool.and_eq_false_iff, beq_eq_false_iff_ne,
    bne_eq_false_iff_eq] at hnan hinf
  rcases hnan with h | h
  · omega
  · exact lt_of_le_of_ne hle (hinf.resolve_right (not_not_intro h))

theorem canonical (h : x.Proper) : Canonical x.significand x.exponent := by
  have hzero := h.isZero
  have hlt := fractionField_lt x
  simp only [Binary64.isZero, Bool.and_eq_false_iff, beq_eq_false_iff_ne] at hzero
  unfold significand exponent
  simp only [Nat.pow_eq]
  constructor <;> split <;> omega

theorem exponent_le (h : x.Proper) : x.exponent ≤ 971 := by
  have hlt := h.exponentField_lt
  unfold Binary64.exponent
  split <;> omega

theorem magnitudeBits_lt (h : x.Proper) : x.magnitudeBits < infinityMagnitude := by
  have hlt := h.exponentField_lt
  have hfraction := fractionField_lt x
  unfold magnitudeBits infinityMagnitude
  simp only [Nat.pow_eq]
  omega

theorem ne_zero (h : x.Proper) (negative : Bool) : zero negative ≠ x := by
  rintro rfl
  have hzero := h.isZero
  cases negative <;> revert hzero <;> decide

/-! ## Rounding to a float -/

variable {digits num den : ℕ} {exponent : ℤ} {q : ℚ}

/-- The numbers that round to a float have 400 digits before the point at most, and 400 zeros after
it. -/
theorem attracts_bounds (h : x.Proper) (ha : Attracts x.significand x.exponent q) :
    (10 : ℚ) ^ (-400 : ℤ) ≤ q ∧ q < 10 ^ (400 : ℤ) := by
  obtain ⟨hpos, hlt, hleast, -⟩ := h.canonical
  have hle := h.exponent_le
  have hunit : (0 : ℚ) < 2 ^ x.exponent := by positivity
  obtain ⟨hlow, hhigh⟩ := ha.bounds
  have hone : (1 : ℚ) ≤ x.significand := by exact_mod_cast hpos
  have hm : (x.significand : ℚ) + 1 ≤ 2 ^ 53 := by exact_mod_cast hlt
  constructor
  · have hhalf : 2⁻¹ ≤ q / 2 ^ x.exponent := by linarith
    rw [le_div_iff₀ hunit, mul_comm, ← zpow_sub_one₀ (by norm_num)] at hhalf
    calc (10 : ℚ) ^ (-400 : ℤ) ≤ 2 ^ (-(3 * 400) : ℤ) := by
          rw [zpow_neg, zpow_neg]
          exact inv_anti₀ (by positivity) (two_zpow_le_ten_zpow (by norm_num))
      _ ≤ 2 ^ (x.exponent - 1) := zpow_le_zpow_right₀ (by norm_num) (by omega)
      _ ≤ q := hhalf
  · have hbelow : q / 2 ^ x.exponent < 2 ^ (53 : ℤ) := by
      rw [show (2 : ℚ) ^ (53 : ℤ) = 2 ^ 53 from zpow_natCast 2 53]
      linarith
    rw [div_lt_iff₀ hunit, ← zpow_add₀ (by norm_num)] at hbelow
    calc q < 2 ^ (53 + x.exponent) := hbelow
      _ ≤ 2 ^ (3 * 400 : ℤ) := zpow_le_zpow_right₀ (by norm_num) (by omega)
      _ ≤ 10 ^ (400 : ℤ) := two_zpow_le_ten_zpow (by norm_num)

theorem pos_of_attracts (h : x.Proper) (ha : Attracts x.significand x.exponent q) : 0 < q :=
  lt_of_lt_of_le (by positivity) (h.attracts_bounds ha).1

theorem ofRatio_eq_some_iff (h : x.Proper) (hden : 0 < den) :
    ofRatio negative num den = some x ↔
      negative = x.isNegative ∧ Attracts x.significand x.exponent (num / den) := by
  unfold ofRatio
  split
  next hnum =>
    subst hnum
    refine iff_of_false (fun heq => h.ne_zero negative (Option.some.inj heq)) fun ⟨_, ha⟩ => ?_
    have hpos := h.pos_of_attracts ha
    rw [Nat.cast_zero, zero_div] at hpos
    exact lt_irrefl 0 hpos
  next hnum =>
    rw [← nearestMagnitude_eq_iff (Nat.pos_of_ne_zero hnum) hden h.canonical, ← magnitudeBits_eq]
    have hinfinity : infinityMagnitude < 2 ^ 63 := by decide
    have hlt := h.magnitudeBits_lt
    simp only
    constructor
    · intro heq
      split at heq
      next hfinite =>
        obtain rfl := Option.some.inj heq
        have hsmall := hfinite.trans hinfinity
        exact ⟨(isNegative_ofMagnitude hsmall).symm, (magnitudeBits_ofMagnitude hsmall).symm⟩
      next => cases heq
    · rintro ⟨rfl, heq⟩
      rw [heq, if_pos hlt, ofMagnitude_magnitudeBits]

/-- A decimal rounds to a float if it has the sign of the float and its value is in the interval of
the float. -/
theorem ofDecimal_eq_some_iff (h : x.Proper) :
    ofDecimal negative digits exponent = some x ↔
      negative = x.isNegative ∧ Attracts x.significand x.exponent (digits * 10 ^ exponent) := by
  have hzero : digits = 0 → ¬Attracts x.significand x.exponent (digits * 10 ^ exponent) := by
    rintro rfl ha
    have hpos := h.pos_of_attracts ha
    rw [Nat.cast_zero, zero_mul] at hpos
    exact lt_irrefl 0 hpos
  unfold ofDecimal
  split
  next hd =>
    exact iff_of_false (fun heq => h.ne_zero negative (Option.some.inj heq)) fun ha => hzero hd ha.2
  next hd =>
    have hd := Nat.pos_of_ne_zero hd
    split
    next hlarge =>
      refine iff_of_false (fun heq => nomatch heq) fun ⟨_, ha⟩ => ?_
      have hlow := pow_le_value hd exponent
      have hpow : (10 : ℚ) ^ (400 : ℤ) ≤ 10 ^ (exponent + digitCount digits - 1) :=
        zpow_le_zpow_right₀ (by norm_num) (by omega)
      linarith [(h.attracts_bounds ha).2]
    next =>
      split
      next hsmall =>
        refine iff_of_false (fun heq => h.ne_zero negative (Option.some.inj heq)) fun ⟨_, ha⟩ => ?_
        have hhigh := value_lt_pow digits exponent
        have hpow : (10 : ℚ) ^ (exponent + digitCount digits) ≤ 10 ^ (-400 : ℤ) :=
          zpow_le_zpow_right₀ (by norm_num) (by omega)
        linarith [(h.attracts_bounds ha).1]
      next =>
        split
        next hexp =>
          obtain ⟨n, rfl⟩ := Int.eq_ofNat_of_zero_le hexp
          rw [h.ofRatio_eq_some_iff one_pos]
          simp only [Int.toNat_natCast, Nat.pow_eq, zpow_natCast]
          push_cast
          rw [div_one]
        next hexp =>
          obtain ⟨n, hn⟩ := Int.eq_ofNat_of_zero_le (show 0 ≤ -exponent by omega)
          obtain rfl : exponent = -(n : ℤ) := by omega
          rw [h.ofRatio_eq_some_iff (show 0 < Nat.pow 10 _ from Nat.pow_pos (by decide))]
          simp only [neg_neg, Int.toNat_natCast, Nat.pow_eq, zpow_neg, zpow_natCast]
          push_cast
          rw [div_eq_mul_inv]

end Proper

end Binary64

end CodeView
