import CodeView.Binary64.Scaling
import CodeView.Proofs.Binary64.Decimals

/-!
# Products of floats

A product or quotient of floats is the rounded product or quotient of what they stand for
(`product_eq`, `quotient_eq`). A natural number up to `2 ^ 53` and a power of ten up to `10 ^ 22`
are floats themselves (`size_ofNat`, `exists_powerOfTen`), so that a float made from such parts is
rounded only once: it is the nearest one (`ofParts_eq_ofDecimal`).
-/

namespace CodeView.Binary64

variable {num den num' den' : ℕ} {x y : Binary64} {negative : Bool}

/-! ## Rounding of equal fractions -/

/-- Rounding does not depend on how a fraction is written. -/
theorem nearestMagnitude_congr (hnum : 0 < num) (hden : 0 < den) (hnum' : 0 < num')
    (hden' : 0 < den') (h : (num : ℚ) / den = num' / den') :
    nearestMagnitude num den = nearestMagnitude num' den' := by
  obtain ⟨e, r, hspaced, hround, heq⟩ := exists_rounded hnum hden
  obtain ⟨e', r', hspaced', hround', heq'⟩ := exists_rounded hnum' hden'
  rw [← h] at hspaced' hround'
  obtain rfl := hspaced.unique hspaced'
  obtain rfl := hround.unique hround'
  rw [heq, heq']

theorem ofRatio_congr (hden : 0 < den) (hden' : 0 < den') (h : (num : ℚ) / den = num' / den')
    (negative : Bool) : ofRatio negative num den = ofRatio negative num' den' := by
  have hd : (den : ℚ) ≠ 0 := by exact_mod_cast hden.ne'
  have hd' : (den' : ℚ) ≠ 0 := by exact_mod_cast hden'.ne'
  have hzero : num = 0 ↔ num' = 0 := by
    have hiff : (num : ℚ) / den = 0 ↔ (num' : ℚ) / den' = 0 := by rw [h]
    simpa [hd, hd'] using hiff
  unfold ofRatio
  by_cases hnum : num = 0
  · rw [if_pos hnum, if_pos (hzero.1 hnum)]
  · have hnum' : num' ≠ 0 := fun h' => hnum (hzero.2 h')
    rw [if_neg hnum, if_neg hnum', nearestMagnitude_congr (Nat.pos_of_ne_zero hnum) hden
      (Nat.pos_of_ne_zero hnum') hden' h]

/-! ## Products and quotients -/

theorem ratio_pos (x : Binary64) : 0 < x.ratio.2 :=
  scaled_pos _ one_pos _

theorem ratio_eq (x : Binary64) : (x.ratio.1 : ℚ) / x.ratio.2 = x.size := by
  rw [ratio, scaled_eq, Nat.cast_one, div_one, size]

/-- A product of floats is rounded once. -/
theorem product_eq (hden : 0 < den) (h : x.size * y.size = num / den) :
    product negative x y = ofRatio negative num den := by
  have hfraction : ((x.ratio.1 * y.ratio.1 : ℕ) : ℚ) / (x.ratio.2 * y.ratio.2 : ℕ) = num / den := by
    push_cast
    rw [← div_mul_div_comm, ratio_eq, ratio_eq, h]
  exact ofRatio_congr (Nat.mul_pos x.ratio_pos y.ratio_pos) hden hfraction negative

/-- A quotient of floats is rounded once. -/
theorem quotient_eq (hy : 0 < y.size) (hden : 0 < den) (h : x.size / y.size = num / den) :
    quotient negative x y = ofRatio negative num den := by
  have hpos : 0 < y.ratio.1 := by
    rw [← ratio_eq] at hy
    refine Nat.pos_of_ne_zero fun hzero => hy.ne' ?_
    rw [hzero, Nat.cast_zero, zero_div]
  have hfraction : ((x.ratio.1 * y.ratio.2 : ℕ) : ℚ) / (x.ratio.2 * y.ratio.1 : ℕ) = num / den := by
    push_cast
    rw [← h, ← ratio_eq, ← ratio_eq, div_div_div_eq]
  exact ofRatio_congr (Nat.mul_pos x.ratio_pos hpos) hden hfraction negative

/-! ## Numbers that are floats -/

/-- The bits of a magnitude are those of one significand and one exponent. -/
theorem size_ofMagnitude {m : ℕ} {e : ℤ} (hc : Canonical m e) (he : e ≤ 971) :
    (ofMagnitude negative ((e + 1074).toNat * 2 ^ 52 + m)).size = m * 2 ^ e := by
  obtain ⟨hpos, hlt, hleast, hnormal⟩ := hc
  have hbits : (ofMagnitude negative ((e + 1074).toNat * 2 ^ 52 + m)).magnitudeBits =
      (e + 1074).toNat * 2 ^ 52 + m := magnitudeBits_ofMagnitude (by omega)
  generalize ofMagnitude negative _ = x at hbits
  have hfraction := fractionField_lt x
  rw [magnitudeBits_eq] at hbits
  have hsame : x.significand = m ∧ x.exponent = e := by
    unfold significand exponent at hbits ⊢
    simp only [Nat.pow_eq] at hbits ⊢
    split at hbits <;> simp only [*, if_true, if_false] <;> omega
  rw [size, hsame.1, hsame.2]

/-- A whole number of units is rounded to itself. -/
theorem RoundsTo.eq_of_natCast {n r : ℕ} (h : RoundsTo n r) : r = n := by
  refine h.unique (Within.of_lt ?_ ?_) <;> linarith

/-- Around a natural number of 53 bits the unit is one at most, or two for the largest. -/
theorem Spaced.exists_units {n : ℕ} {e : ℤ} (h : Spaced n e) (hn : n ≤ 2 ^ 53) :
    e ≤ 1 ∧ ∃ k : ℕ, (n : ℚ) / 2 ^ e = k := by
  have hle : (n : ℚ) ≤ 2 ^ 53 := by exact_mod_cast hn
  by_cases he : e ≤ 0
  · obtain ⟨k, hk⟩ := Int.eq_ofNat_of_zero_le (show 0 ≤ -e by omega)
    obtain rfl : e = -(k : ℤ) := by omega
    refine ⟨by omega, n * 2 ^ k, ?_⟩
    rw [zpow_neg, zpow_natCast, div_inv_eq_mul]
    push_cast
    rfl
  · have hlow := h.le.resolve_left (by omega)
    rw [le_div_iff₀ (by positivity)] at hlow
    have hone : e ≤ 1 := by
      by_contra hlarge
      have hfour : (2 : ℚ) ^ (2 : ℤ) ≤ 2 ^ e := zpow_le_zpow_right₀ (by norm_num) (by omega)
      norm_num at hfour
      linarith
    obtain rfl : e = 1 := by omega
    have hfull : (n : ℚ) = 2 ^ 53 := by
      apply le_antisymm hle
      calc (2 : ℚ) ^ 53 = 2 ^ 52 * 2 ^ (1 : ℤ) := by norm_num
        _ ≤ (n : ℚ) := hlow
    refine ⟨le_rfl, 2 ^ 52, ?_⟩
    rw [hfull]
    norm_num

/-- A whole number of units is the significand of a float. -/
theorem Spaced.canonical {q : ℚ} {e : ℤ} {k : ℕ} (h : Spaced q e) (hk : q / 2 ^ e = k)
    (hpos : 0 < k) : Canonical k e := by
  obtain ⟨hleast, hlt, hnormal⟩ := h
  rw [hk] at hlt hnormal
  refine ⟨hpos, by exact_mod_cast hlt, hleast, ?_⟩
  exact hnormal.imp id fun hle => by exact_mod_cast hle

/-- Natural numbers of 53 bits are floats. -/
theorem size_ofNat {n : ℕ} (hn : n ≤ 2 ^ 53) : (ofNat n).size = n := by
  unfold ofNat
  split
  next hzero =>
    subst hzero
    have hsignificand : (zero false).significand = 0 := by decide
    rw [size, hsignificand, Nat.cast_zero, zero_mul]
  next hne =>
    have hpos := Nat.pos_of_ne_zero hne
    obtain ⟨e, r, hspaced, hround, heq⟩ := exists_rounded hpos one_pos
    rw [Nat.cast_one, div_one] at hspaced hround
    obtain ⟨he, k, hk⟩ := hspaced.exists_units hn
    rw [hk] at hround
    obtain rfl := hround.eq_of_natCast
    have hr : 0 < r := by
      have hunits : (0 : ℚ) < n / 2 ^ e := by positivity
      rw [hk] at hunits
      exact_mod_cast hunits
    rw [heq, size_ofMagnitude (hspaced.canonical hk hr) (by omega), ← hk,
      div_mul_cancel₀ _ (by positivity)]

/-- The powers of ten up to `10 ^ 22` are floats. -/
theorem exists_powerOfTen {k : ℕ} (hk : k ≤ 22) : ∃ p, powerOfTen k = some p ∧ p.size = 10 ^ k := by
  have hall : (List.range 23).all (fun k =>
      (powerOfTen k).any fun p => p.ratio.1 == 10 ^ k * p.ratio.2) = true := by decide +kernel
  have hany := List.all_eq_true.1 hall k (List.mem_range.2 (by omega))
  cases hp : powerOfTen k with
  | none =>
    rw [hp] at hany
    cases hany
  | some p =>
    rw [hp, Option.any_some, beq_iff_eq] at hany
    have hpos : (p.ratio.2 : ℚ) ≠ 0 := by exact_mod_cast p.ratio_pos.ne'
    refine ⟨p, rfl, ?_⟩
    rw [← ratio_eq, hany, div_eq_iff hpos]
    push_cast
    rfl

/-! ## Parts -/

/-- A decimal that is neither very large nor very small is rounded as the fraction that it is. -/
theorem ofDecimal_eq_ofRatio {digits : ℕ} {exponent : ℤ}
    (hlow : -400 ≤ exponent + digitCount digits) (hhigh : exponent + digitCount digits ≤ 400)
    (hden : 0 < den)
    (h : (digits : ℚ) * 10 ^ exponent = num / den) (negative : Bool) :
    ofDecimal negative digits exponent = ofRatio negative num den := by
  have hpower : ∀ k, 0 < Nat.pow 10 k := fun k => Nat.pow_pos (by decide)
  by_cases hd : digits = 0
  · subst hd
    have hzero : ofDecimal negative 0 exponent = ofRatio negative 0 1 := rfl
    rw [Nat.cast_zero, zero_mul] at h
    rw [hzero]
    exact ofRatio_congr one_pos hden (by simpa using h) negative
  · unfold ofDecimal
    rw [if_neg hd, if_neg (by omega), if_neg (by omega)]
    split
    next hexp =>
      obtain ⟨k, rfl⟩ := Int.eq_ofNat_of_zero_le hexp
      refine ofRatio_congr one_pos hden ?_ negative
      rw [← h, zpow_natCast, Int.toNat_natCast, Nat.pow_eq, Nat.cast_one, div_one]
      push_cast
      rfl
    next hexp =>
      obtain ⟨k, hk⟩ := Int.eq_ofNat_of_zero_le (show 0 ≤ -exponent by omega)
      refine ofRatio_congr (hpower _) hden ?_ negative
      rw [← h, hk, Int.toNat_natCast, Nat.pow_eq, show exponent = -(k : ℤ) by omega, zpow_neg,
        zpow_natCast, ← div_eq_mul_inv]
      push_cast
      rfl

/-- A float made from parts that are floats themselves is the nearest one. -/
theorem ofParts_eq_ofDecimal {significand : ℕ} {exponent : ℤ} (hs : significand ≤ 2 ^ 53)
    (he : exponent.natAbs ≤ 22) (negative : Bool) :
    ofParts negative significand exponent = ofDecimal negative significand exponent := by
  obtain ⟨p, hp, hpower⟩ := exists_powerOfTen he
  have hx := size_ofNat hs
  have hcount : digitCount significand ≤ 16 :=
    (digitCount_le_iff (by decide)).2 (lt_of_le_of_lt hs (by decide))
  have hlast : exponent.natAbs ≤ lastPower := he.trans (by decide)
  by_cases hsign : 0 ≤ exponent
  · have hvalue : (significand : ℚ) * 10 ^ exponent =
        (significand * 10 ^ exponent.natAbs : ℕ) / (1 : ℕ) := by
      obtain ⟨k, rfl⟩ := Int.eq_ofNat_of_zero_le hsign
      simp
    rw [ofDecimal_eq_ofRatio (by omega) (by omega) one_pos hvalue]
    simp only [ofParts, if_pos hsign, if_pos hlast, hp]
    refine product_eq one_pos ?_
    rw [hx, hpower]
    simp
  · have hvalue : (significand : ℚ) * 10 ^ exponent = significand / (10 ^ exponent.natAbs : ℕ) := by
      obtain ⟨k, hk⟩ := Int.eq_ofNat_of_zero_le (show 0 ≤ -exponent by omega)
      obtain rfl : exponent = -(k : ℤ) := by omega
      simp [div_eq_mul_inv]
    have hsteps : (exponent.natAbs - 1) / lastPower = 0 :=
      Nat.div_eq_of_lt (lt_of_le_of_lt (Nat.sub_le _ _) (lt_of_le_of_lt he (by decide)))
    rw [ofDecimal_eq_ofRatio (by omega) (by omega) (by positivity) hvalue]
    simp only [ofParts, if_neg hsign, hsteps, descend, Nat.mul_zero, Nat.sub_zero, hp]
    refine quotient_eq ?_ (by positivity) ?_
    · rw [hpower]
      positivity
    · rw [hx, hpower]
      push_cast
      rfl

end CodeView.Binary64
