import CodeView.Proofs.Binary64.Scaling
import CodeView.Proofs.Json.Tokens

/-!
# What numerals stand for

A numeral stands for a rational, `Numeral.value`, and denotes a number: the rational itself if it is
written as an integer and has at most 64 bits, else the nearest float (`Numeral.denoted?`). What the
reader takes a numeral for is `Numeral.number?`. It rounds more than once, so it may miss the
nearest float, but not if the numeral is short (`Numeral.IsShort.number?_eq`).

* `WritesNumeral.unique`: a text writes one numeral at most, so it stands for one rational.
* `WritesPositional`, `WritesScientific`: the numerals without an exponent, and those with one digit
  other than zero before the point and an exponent of two digits or more.
-/

namespace CodeView.Json

open Binary64

/-! ## Digits -/

theorem decimalValue_eq (ds : List Char) : decimalValue ds = Nat.ofDigitChars 10 ds 0 := by
  rw [Nat.ofDigitChars_eq_foldl, decimalValue]
  congr
  funext n c
  rw [Nat.mul_comm]

@[simp]
theorem decimalValue_toDigits (n : ℕ) : decimalValue (Nat.toDigits 10 n) = n := by
  rw [decimalValue_eq, Nat.ofDigitChars_ten_toDigits]

theorem decimalValue_append_zeros (ds : List Char) (count : ℕ) :
    decimalValue (ds ++ List.replicate count '0') = decimalValue ds * 10 ^ count := by
  rw [decimalValue_eq, Nat.ofDigitChars_append, Nat.ofDigitChars_replicate_zero, ← decimalValue_eq,
    Nat.mul_comm]

theorem decimalValue_zeros_append (count : ℕ) (ds : List Char) :
    decimalValue (List.replicate count '0' ++ ds) = decimalValue ds := by
  rw [decimalValue_eq, Nat.ofDigitChars_append, Nat.ofDigitChars_replicate_zero, Nat.mul_zero,
    ← decimalValue_eq]

theorem IsDigits.append {ds es : List Char} (h : IsDigits ds) (hes : ∀ d ∈ es, d.isDigit = true) :
    IsDigits (ds ++ es) :=
  ⟨List.append_ne_nil_of_left_ne_nil h.1 es, List.forall_mem_append.2 ⟨h.2, hes⟩⟩

theorem isDigit_of_mem_zeros {count : ℕ} : ∀ d ∈ List.replicate count '0', d.isDigit = true := by
  intro d hd
  rw [List.eq_of_mem_replicate hd]
  rfl

theorem isDigits_toDigits (n : ℕ) : IsDigits (Nat.toDigits 10 n) :=
  ⟨Nat.toDigits_ne_nil, fun _ hd => Nat.isDigit_of_mem_toDigits (by decide) (by decide) hd⟩

theorem head?_toDigits {n : ℕ} (hn : 0 < n) : (Nat.toDigits 10 n).head? ≠ some '0' := by
  induction n using Nat.strongRecOn with
  | ind n ih =>
    by_cases hlt : n < 10
    · have hdigit : ∀ n < 10, 0 < n → Nat.digitChar n ≠ '0' := by decide
      rw [Nat.toDigits_of_lt_base hlt, List.head?_cons]
      exact fun h => hdigit n hlt hn (Option.some.inj h)
    · rw [Nat.toDigits_of_base_le (by decide) (by omega),
        List.head?_append_of_ne_nil _ Nat.toDigits_ne_nil]
      exact ih (n / 10) (by omega) (by omega)

theorem IsDigits.isWhole {ds : List Char} (h : IsDigits ds) (hhead : ds.head? ≠ some '0') :
    IsWhole ds :=
  ⟨h, fun hzero => absurd hzero hhead⟩

/-! ## One numeral for each text -/

/-- A sign is told from what cannot start with one. -/
theorem sign_append_inj {a b : Bool} {s t : List Char} (hs : s.head? ≠ some '-')
    (ht : t.head? ≠ some '-')
    (h : (if a then ['-'] else []) ++ s = (if b then ['-'] else []) ++ t) : a = b ∧ s = t := by
  cases a <;> cases b <;> simp at h
  · exact ⟨rfl, h⟩
  · subst h
    exact absurd rfl hs
  · subst h
    exact absurd rfl ht
  · exact ⟨rfl, h⟩

theorem IsWhole.head?_append {ds : List Char} (h : IsWhole ds) (rest : List Char) :
    (ds ++ rest).head? ≠ some '-' := by
  rw [List.head?_append_of_ne_nil _ h.1.1]
  intro hhead
  cases h.1.2 '-' (List.mem_of_head? hhead)

/-- A text writes one numeral at most. -/
theorem WritesNumeral.unique {text : List Char} {n n' : Numeral} (h : WritesNumeral text n)
    (h' : WritesNumeral text n') : n = n' := by
  obtain ⟨text', htext⟩ : ∃ text', text' = text := ⟨text, rfl⟩
  rw [← htext] at h'
  obtain ⟨hwhole, hfraction, hexponent⟩ := h
  obtain ⟨hwhole', hfraction', hexponent'⟩ := h'
  obtain ⟨rfl, hparts⟩ := sign_append_inj (hwhole'.head?_append _) (hwhole.head?_append _) htext
  -- the scanners find the same parts in both
  have hend : Ends [] := trivial
  have hlacks := hexponent.lacks hend
  have hlacks' := hexponent'.lacks hend
  rw [List.append_nil] at hlacks hlacks'
  have hscan := scanWhole_append hwhole (hfraction.lacks hlacks)
  rw [← hparts, scanWhole_append hwhole' (hfraction'.lacks hlacks')] at hscan
  obtain ⟨rfl, hafter⟩ := Prod.mk.inj (Except.ok.inj hscan)
  have hscan := scanFraction_append hfraction hlacks
  rw [← hafter, scanFraction_append hfraction' hlacks'] at hscan
  obtain ⟨rfl, rfl⟩ := Prod.mk.inj (Except.ok.inj hscan)
  obtain ⟨e, hscan, rfl⟩ := scanExponent?_append hexponent (hend.lacks rfl)
  obtain ⟨e', hscan', rfl⟩ := scanExponent?_append hexponent' (hend.lacks rfl)
  obtain ⟨rfl, -⟩ := Prod.mk.inj (Except.ok.inj (hscan.symm.trans hscan'))
  rfl

/-! ## The rational of a numeral -/

namespace Numeral

/-- The digits before and after the point. -/
def digits (n : Numeral) : List Char :=
  n.whole ++ n.fraction.getD []

/-- The exponent of the last digit. -/
def lastExponent (n : Numeral) : ℤ :=
  n.exponent.getD 0 - (n.fraction.getD []).length

/-- The rational that a numeral stands for, without its sign. -/
def magnitude (n : Numeral) : ℚ :=
  decimalValue n.digits * 10 ^ n.lastExponent

/-- The rational that a numeral stands for. -/
def value (n : Numeral) : ℚ :=
  if n.negative then -n.magnitude else n.magnitude

/-- The float nearest to what a numeral stands for, if there is a finite one. -/
def nearest? (n : Numeral) : Option Binary64 :=
  ofDecimal n.negative (decimalValue n.digits) n.lastExponent

/-- The number that a numeral denotes: an integer of at most 64 bits, else the nearest float. -/
def denoted? (n : Numeral) : Option Number :=
  n.integer? <|> n.nearest?.map .float

/-! ## Short numerals -/

/-- The digits without the point are a number of 53 bits, and all powers of ten are small. -/
def IsShort (n : Numeral) : Prop :=
  decimalValue n.digits ≤ 2 ^ 53 ∧ (n.exponent.getD 0).natAbs ≤ 22 ∧ n.lastExponent.natAbs ≤ 22

instance (n : Numeral) : Decidable n.IsShort :=
  inferInstanceAs (Decidable (_ ∧ _ ∧ _))

/-- The number that a short numeral denotes. -/
def short? (n : Numeral) : Option Number :=
  if n.IsShort then n.denoted? else none

end Numeral

theorem le_ofDigitChars (ds : List Char) (start : ℕ) : start ≤ Nat.ofDigitChars 10 ds start := by
  rw [Nat.ofDigitChars_eq_ofDigitChars_zero]
  exact (Nat.le_mul_of_pos_left start (Nat.pow_pos (by decide))).trans (Nat.le_add_right _ _)

/-- No digit is left if all of them together make a significand. -/
theorem fillSignificand_eq {ds : List Char} {start : ℕ}
    (h : Nat.ofDigitChars 10 ds start < 2 ^ 64) :
    fillSignificand start ds = (Nat.ofDigitChars 10 ds start, []) := by
  induction ds generalizing start with
  | nil => rfl
  | cons d ds ih =>
    rw [Nat.ofDigitChars_cons] at h ⊢
    have hnext := (le_ofDigitChars ds _).trans_lt h
    rw [fillSignificand, Nat.mul_comm start, Nat.pow_eq, if_pos hnext, ih h]

namespace Numeral

variable {n : Numeral} {x : Number}

/-- All digits of a numeral are taken if they make a significand. -/
theorem parts_eq (h : decimalValue n.digits < 2 ^ 64) :
    n.parts = (decimalValue n.digits, n.lastExponent) := by
  rw [digits, decimalValue_eq, Nat.ofDigitChars_append] at h ⊢
  have hwhole := fillSignificand_eq ((le_ofDigitChars _ _).trans_lt h)
  simp [parts, hwhole, fillSignificand_eq h, lastExponent]

/-- The float that is read for a short numeral is the nearest one. -/
theorem IsShort.float?_eq (h : n.IsShort) : n.float? = n.nearest? := by
  obtain ⟨hdigits, hexponent, hlast⟩ := h
  have hparts := parts_eq (hdigits.trans_lt (by decide))
  have hsmall : (n.exponent.getD 0).natAbs < Nat.pow 2 31 := hexponent.trans_lt (by decide)
  simp only [float?, hparts, if_pos hsmall]
  exact ofParts_eq_ofDecimal hdigits hlast n.negative

/-- A short numeral is read as what it denotes. -/
theorem IsShort.number?_eq (h : n.IsShort) : n.number? = n.denoted? := by
  rw [number?, denoted?, h.float?_eq]

theorem short?_eq_some (h : n.short? = some x) : n.denoted? = some x ∧ n.number? = some x := by
  unfold short? at h
  split at h
  next hshort => exact ⟨h, hshort.number?_eq.trans h⟩
  next => cases h

end Numeral

/-! ## Notations -/

/-- The text writes the numeral in positional notation: there is no exponent. -/
inductive WritesPositional : List Char → Numeral → Prop
  | mk {negative : Bool} {whole fraction : List Char} {digits : Option (List Char)}
      (hwhole : IsWhole whole) (hfraction : WritesFraction fraction digits) :
      WritesPositional ((if negative then ['-'] else []) ++ (whole ++ fraction))
        ⟨negative, whole, digits, none⟩

/-- The text writes the numeral in scientific notation: one digit before the point, which is not
zero, the mark `E`, a sign, and at least two digits of exponent. -/
inductive WritesScientific : List Char → Numeral → Prop
  | mk {negative down : Bool} {lead : Char} {fraction exponent : List Char}
      {digits : Option (List Char)} (hlead : lead.isDigit = true) (hzero : lead ≠ '0')
      (hfraction : WritesFraction fraction digits) (hexponent : IsDigits exponent)
      (hlength : 2 ≤ exponent.length) :
      WritesScientific ((if negative then ['-'] else []) ++
          (lead :: (fraction ++ 'E' :: (if down then '-' else '+') :: exponent)))
        ⟨negative, [lead], digits,
          some (if down then -decimalValue exponent else decimalValue exponent)⟩

variable {text : List Char} {n : Numeral}

theorem WritesPositional.numeral (h : WritesPositional text n) : WritesNumeral text n := by
  obtain @⟨negative, whole, fraction, digits, hwhole, hfraction⟩ := h
  have hnumeral : WritesNumeral _ ⟨negative, whole, digits, none⟩ := .mk hwhole hfraction .absent
  rwa [List.append_nil] at hnumeral

theorem WritesScientific.numeral (h : WritesScientific text n) : WritesNumeral text n := by
  obtain @⟨negative, down, lead, _, exponent, _, hlead, hzero, hfraction, hexponent, -⟩ := h
  have hdigit : IsDigits [lead] := ⟨List.cons_ne_nil _ _, by simpa using hlead⟩
  have hwhole : IsWhole [lead] := hdigit.isWhole fun h => hzero (Option.some.inj h)
  cases down with
  | true => exact .mk hwhole hfraction (.negative (.inr rfl) hexponent)
  | false => exact .mk hwhole hfraction (.positive (.inr rfl) hexponent)

/-- The notations exclude each other. -/
theorem WritesPositional.not_scientific (h : WritesPositional text n) :
    ¬WritesScientific text n := by
  intro h'
  have hnone : n.exponent = none := by cases h; rfl
  have hsome : n.exponent ≠ none := by cases h'; simp
  exact hsome hnone

/-- A point among digits. There may be a zero in front of it if no other digit is. -/
theorem point_writes {ds : List Char} {k : ℕ} (hds : IsDigits ds) (hpos : 0 < k)
    (hlt : k < ds.length) (hzero : ds.head? = some '0' → k = 1) (negative : Bool) :
    ∃ n, WritesPositional ((if negative then ['-'] else []) ++ (ds.take k ++ '.' :: ds.drop k)) n ∧
      n.negative = negative ∧
      n.magnitude = decimalValue ds * 10 ^ (-((ds.length - k : ℕ) : ℤ)) := by
  have htake : ds.take k ≠ [] := by
    rw [← List.length_pos_iff, List.length_take]
    omega
  have hdrop : ds.drop k ≠ [] := by
    rw [← List.length_pos_iff, List.length_drop]
    omega
  have hwhole : IsWhole (ds.take k) := by
    refine ⟨⟨htake, fun c hc => hds.2 c (List.mem_of_mem_take hc)⟩, fun hhead => ?_⟩
    rw [List.head?_take, if_neg hpos.ne'] at hhead
    obtain ⟨rest, rfl⟩ := List.head?_eq_some_iff.1 hhead
    rw [hzero rfl]
    rfl
  have hfraction : IsDigits (ds.drop k) :=
    ⟨hdrop, fun c hc => hds.2 c (List.mem_of_mem_drop hc)⟩
  refine ⟨_, .mk hwhole (.point hfraction), rfl, ?_⟩
  simp [Numeral.magnitude, Numeral.digits, Numeral.lastExponent]

end CodeView.Json
