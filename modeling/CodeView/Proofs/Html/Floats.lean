import CodeView.Html.Highlight
import CodeView.Proofs.Binary64.Shortest
import CodeView.Proofs.Json.Numerals

/-!
# Floats as they are shown

Both notations write every digit of a decimal and fill up with zeros, so the numeral stands for the
decimal (`positional_writes`, `scientific_writes`). A float is shown by the shortest decimal that
rounds to it, hence its text rounds back to the float (`displayFloat_rounds`), and the text tells it
from every other float.
-/

namespace CodeView.Decimal

open Json

variable {d : Decimal}

/-! ## Positional notation -/

theorem isDigits_digitChars (d : Decimal) : IsDigits d.digitChars :=
  isDigits_toDigits _

theorem head?_digitChars (hd : 0 < d.digits) : d.digitChars.head? ≠ some '0' :=
  head?_toDigits hd

theorem decimalValue_digitChars (d : Decimal) : decimalValue d.digitChars = d.digits :=
  decimalValue_toDigits _

theorem positional_writes (hd : 0 < d.digits) (negative : Bool) :
    ∃ n, WritesPositional ((if negative then ['-'] else []) ++ d.positional.toList) n ∧
      n.negative = negative ∧ n.magnitude = d.value := by
  have hdigits := isDigits_digitChars d
  have hhead := head?_digitChars hd
  have hvalue := decimalValue_digitChars d
  by_cases hexp : 0 ≤ d.exponent
  · -- the point is behind the digits
    have htext : d.positional =
        String.ofList (d.digitChars ++ List.replicate d.exponent.toNat '0') := by
      simp only [positional, if_pos hexp]
    have hwhole : IsWhole (d.digitChars ++ List.replicate d.exponent.toNat '0') := by
      apply (hdigits.append isDigit_of_mem_zeros).isWhole
      rwa [List.head?_append_of_ne_nil _ hdigits.1]
    have hwrites : WritesPositional _ ⟨negative, _, none, none⟩ := .mk hwhole .absent
    rw [List.append_nil] at hwrites
    rw [htext, String.toList_ofList]
    refine ⟨_, hwrites, rfl, ?_⟩
    obtain ⟨k, hk⟩ := Int.eq_ofNat_of_zero_le hexp
    simp [Numeral.magnitude, Numeral.digits, Numeral.lastExponent, decimalValue_append_zeros,
      hvalue, value, hk]
  · have hplaces : d.exponent = -((-d.exponent).toNat : ℤ) := by omega
    by_cases hlt : (-d.exponent).toNat < d.digitChars.length
    · -- the point is among the digits
      have htext : d.positional = String.ofList
          (d.digitChars.take (d.digitChars.length - (-d.exponent).toNat) ++
            '.' :: d.digitChars.drop (d.digitChars.length - (-d.exponent).toNat)) := by
        simp only [positional, if_neg hexp, if_pos hlt]
      obtain ⟨n, hwrites, hsign, hn⟩ :=
        point_writes hdigits (show 0 < d.digitChars.length - (-d.exponent).toNat by omega)
          (by omega) (fun h => absurd h hhead) negative
      rw [htext, String.toList_ofList]
      refine ⟨n, hwrites, hsign, ?_⟩
      rw [hn, hvalue, value, Nat.sub_sub_self hlt.le, ← hplaces]
    · -- the point is in front of the digits
      have htext : d.positional = String.ofList ('0' :: '.' ::
          (List.replicate ((-d.exponent).toNat - d.digitChars.length) '0' ++ d.digitChars)) := by
        simp only [positional, if_neg hexp, if_neg hlt]
        rfl
      have hall :
          IsDigits ('0' :: (List.replicate ((-d.exponent).toNat - d.digitChars.length) '0' ++
            d.digitChars)) :=
        ⟨List.cons_ne_nil _ _, List.forall_mem_cons.2 ⟨rfl,
          List.forall_mem_append.2 ⟨isDigit_of_mem_zeros, hdigits.2⟩⟩⟩
      have hpos := List.length_pos_iff.2 hdigits.1
      obtain ⟨n, hwrites, hsign, hn⟩ := point_writes hall one_pos
        (by rw [List.length_cons, List.length_append]; omega) (fun _ => rfl) negative
      rw [htext, String.toList_ofList]
      refine ⟨n, hwrites, hsign, ?_⟩
      have hzeros :=
        decimalValue_zeros_append ((-d.exponent).toNat - d.digitChars.length + 1) d.digitChars
      rw [List.replicate_succ, List.cons_append, hvalue] at hzeros
      rw [hn, hzeros, value, List.length_cons, Nat.add_sub_cancel, List.length_append,
        List.length_replicate, Nat.sub_add_cancel (by omega), ← hplaces]

/-! ## Scientific notation -/

theorem mantissa_writes (d : Decimal) :
    ∃ lead rest fraction digits, d.digitChars = lead :: rest ∧
      d.mantissa.toList = lead :: fraction ∧ WritesFraction fraction digits ∧
      digits.getD [] = rest := by
  have hdigits := isDigits_digitChars d
  unfold mantissa
  split
  next hnil => exact absurd hnil hdigits.1
  next lead hlead => exact ⟨lead, [], [], none, hlead, by simp, .absent, rfl⟩
  next lead rest hrest hlead =>
    have hrest : IsDigits rest := by
      refine ⟨fun hnil => hrest (by rw [hnil]), fun c hc => hdigits.2 c ?_⟩
      rw [hlead]
      exact List.mem_cons_of_mem lead hc
    exact ⟨lead, rest, '.' :: rest, some rest, hlead, by simp, .point hrest, rfl⟩

/-- An exponent has at least two digits. -/
theorem exponent_writes (k : ℕ) :
    ∃ ds, (if (toString k).length < 2 then "0" ++ toString k else toString k).toList = ds ∧
      IsDigits ds ∧ 2 ≤ ds.length ∧ decimalValue ds = k := by
  have hdigits := isDigits_toDigits k
  have hlist : (toString k).toList = Nat.toDigits 10 k := by simp
  have hlength : (toString k).length = (Nat.toDigits 10 k).length := by
    rw [← hlist, String.length_toList]
  split
  next hshort =>
    have hpad : ("0" ++ toString k).toList = '0' :: Nat.toDigits 10 k := by simp
    have hpos := List.length_pos_iff.2 hdigits.1
    refine ⟨_, hpad, ⟨List.cons_ne_nil _ _, List.forall_mem_cons.2 ⟨rfl, hdigits.2⟩⟩, ?_, ?_⟩
    · rw [List.length_cons]
      omega
    · exact (decimalValue_zeros_append 1 _).trans (decimalValue_toDigits k)
  next hlong => exact ⟨_, hlist, hdigits, by omega, decimalValue_toDigits k⟩

theorem scientific_writes (hd : 0 < d.digits) (negative : Bool) :
    ∃ n, WritesScientific ((if negative then ['-'] else []) ++ d.scientific.toList) n ∧
      n.negative = negative ∧ n.magnitude = d.value := by
  obtain ⟨lead, rest, fraction, digits, hchars, hmantissa, hfraction, hrest⟩ := mantissa_writes d
  obtain ⟨ds, hds, hexponent, hlength, hvalue⟩ := exponent_writes d.leadingExponent.natAbs
  have hlead : lead.isDigit = true := by
    apply (isDigits_digitChars d).2
    rw [hchars]
    exact List.mem_cons_self
  have hzero : lead ≠ '0' := by
    have hhead := head?_digitChars hd
    rw [hchars] at hhead
    exact fun h => hhead (congrArg some h)
  have htext : d.scientific.toList = lead :: (fraction ++
      'E' :: (if decide (d.leadingExponent < 0) then '-' else '+') :: ds) := by
    unfold scientific
    simp only [String.toList_append, hmantissa, hds]
    split <;> simp_all
  rw [htext]
  refine ⟨_, .mk hlead hzero hfraction hexponent hlength, rfl, ?_⟩
  have hall := decimalValue_digitChars d
  rw [hchars] at hall
  have hexp : (if decide (d.leadingExponent < 0) then -(decimalValue ds : ℤ)
      else decimalValue ds) = d.leadingExponent := by
    simp only [hvalue, decide_eq_true_eq]
    split <;> omega
  have hlast : d.leadingExponent - rest.length = d.exponent := by
    rw [leadingExponent, hchars, List.length_cons]
    omega
  simp only [Numeral.magnitude, Numeral.digits, Numeral.lastExponent, hrest, Option.getD_some, hexp,
    hlast, List.singleton_append, hall, value]

end CodeView.Decimal

namespace CodeView.Html

open Json Binary64

variable {x y : Binary64}

/-! ## The text of a float -/

theorem toList_sign (negative : Bool) :
    (if negative then "-" else "").toList = if negative then ['-'] else [] := by
  cases negative <;> rfl

theorem toList_displayFloat_infinite (hnan : x.isNaN = false) (h : x.isInfinite = true) :
    (displayFloat x).toList = (if x.isNegative then ['-'] else []) ++ "Infinity".toList := by
  simp only [displayFloat, hnan, h, Bool.false_eq_true, if_false, if_true, String.toList_append,
    toList_sign]

theorem toList_displayFloat_zero (hnan : x.isNaN = false) (hfinite : x.isInfinite = false)
    (h : x.isZero = true) :
    (displayFloat x).toList = (if x.isNegative then ['-'] else []) ++ "0".toList := by
  simp only [displayFloat, hnan, hfinite, h, Bool.false_eq_true, if_false, if_true,
    String.toList_append, toList_sign]

theorem toList_displayFloat (h : x.Proper) :
    (displayFloat x).toList = (if x.isNegative then ['-'] else []) ++
      (if x.shortest.leadingExponent < -4 ∨ 15 ≤ x.shortest.leadingExponent
        then x.shortest.scientific else x.shortest.positional).toList := by
  simp only [displayFloat, h.isNaN, h.isInfinite, h.isZero, Bool.false_eq_true, if_false,
    String.toList_append, toList_sign]

theorem shortest_digits_pos (h : x.Proper) : 0 < x.shortest.digits :=
  Nat.pos_of_ne_zero fun hzero => h.isShortest_shortest.trimmed (by rw [hzero])

/-- The leading exponent is the order of magnitude. -/
theorem leadingExponent_bounds {d : Decimal} (hd : 0 < d.digits) :
    (10 : ℚ) ^ d.leadingExponent ≤ d.value ∧ d.value < 10 ^ (d.leadingExponent + 1) := by
  refine ⟨pow_le_value hd d.exponent, ?_⟩
  rw [Decimal.leadingExponent, Int.sub_add_cancel]
  exact value_lt_pow d.digits d.exponent

/-- The text of a float is a numeral with the sign of the float and the value of its shortest
decimal. Very large and very small floats are in scientific notation, the others in positional
notation. -/
theorem displayFloat_writes (h : x.Proper) :
    ∃ n, WritesNumeral (displayFloat x).toList n ∧ n.negative = x.isNegative ∧
      n.magnitude = x.shortest.value ∧
      (WritesScientific (displayFloat x).toList n ↔
        x.shortest.leadingExponent < -4 ∨ 15 ≤ x.shortest.leadingExponent) ∧
      (WritesPositional (displayFloat x).toList n ↔
        -4 ≤ x.shortest.leadingExponent ∧ x.shortest.leadingExponent < 15) := by
  have hd := shortest_digits_pos h
  rw [toList_displayFloat h]
  by_cases hfar : x.shortest.leadingExponent < -4 ∨ 15 ≤ x.shortest.leadingExponent
  · obtain ⟨n, hwrites, hsign, hvalue⟩ := Decimal.scientific_writes hd x.isNegative
    rw [if_pos hfar]
    exact ⟨n, hwrites.numeral, hsign, hvalue, iff_of_true hwrites hfar,
      iff_of_false (fun hpositional => hpositional.not_scientific hwrites) (by omega)⟩
  · obtain ⟨n, hwrites, hsign, hvalue⟩ := Decimal.positional_writes hd x.isNegative
    rw [if_neg hfar]
    exact ⟨n, hwrites.numeral, hsign, hvalue, iff_of_false hwrites.not_scientific hfar,
      iff_of_true hwrites (by omega)⟩

example : displayFloat ⟨0x430c6bf526340000⟩ = "1E+15" := by decide +kernel

example : displayFloat ⟨0x430c6bf52633ffff⟩ = "999999999999999.9" := by decide +kernel

/-! ## Rounding the text -/

/-- A numeral with the sign of a float and the value of its shortest decimal rounds to the float. -/
theorem nearest?_of_magnitude {n : Numeral} (h : x.Proper) (hsign : n.negative = x.isNegative)
    (hvalue : n.magnitude = x.shortest.value) : n.nearest? = some x := by
  obtain ⟨-, ha⟩ := h.ofDecimal_eq_some_iff.1 h.isShortest_shortest.reads
  refine h.ofDecimal_eq_some_iff.2 ⟨hsign, ?_⟩
  show Attracts x.significand x.exponent n.magnitude
  rwa [hvalue]

/-- The text of a finite float rounds to the float. -/
theorem displayFloat_rounds (hnan : x.isNaN = false) (hfinite : x.isInfinite = false) :
    ∃ n, WritesNumeral (displayFloat x).toList n ∧ n.nearest? = some x := by
  cases hzero : x.isZero with
  | true =>
    have hwhole : IsWhole ['0'] := by simp [IsWhole, IsDigits, Char.isDigit]
    have hwrites : WritesNumeral _ ⟨x.isNegative, ['0'], none, none⟩ :=
      .mk hwhole .absent .absent
    have hround : Numeral.nearest? ⟨x.isNegative, ['0'], none, none⟩ = some (zero x.isNegative) :=
      rfl
    rw [toList_displayFloat_zero hnan hfinite hzero]
    refine ⟨_, hwrites, ?_⟩
    rw [hround, ← eq_zero_of_isZero hzero]
  | false =>
    have h : x.Proper := ⟨hnan, hfinite, hzero⟩
    obtain ⟨n, hwrites, hsign, hvalue, -, -⟩ := displayFloat_writes h
    exact ⟨n, hwrites, nearest?_of_magnitude h hsign hvalue⟩

/-- No numeral is written as an infinity is. -/
theorem not_writesNumeral_infinity (negative : Bool) (n : Numeral) :
    ¬WritesNumeral ((if negative then ['-'] else []) ++ "Infinity".toList) n := by
  intro h
  generalize htext : (if negative then ['-'] else []) ++ "Infinity".toList = text at h
  obtain ⟨hwhole, -, -⟩ := h
  obtain ⟨-, hparts⟩ := sign_append_inj (by decide) (hwhole.head?_append _) htext
  have hhead := congrArg List.head? hparts
  rw [List.head?_append_of_ne_nil _ hwhole.1.1] at hhead
  cases hwhole.1.2 'I' (List.mem_of_head? hhead.symm)

/-- A text belongs to one float at most, apart from those that are no numbers. -/
theorem eq_of_displayFloat_eq (hx : x.isNaN = false) (hy : y.isNaN = false)
    (h : displayFloat x = displayFloat y) : x = y := by
  have hlist := congrArg String.toList h
  cases hxinf : x.isInfinite with
  | true =>
    rw [toList_displayFloat_infinite hx hxinf] at hlist
    cases hyinf : y.isInfinite with
    | true =>
      rw [toList_displayFloat_infinite hy hyinf] at hlist
      obtain ⟨hsign, -⟩ := sign_append_inj (by decide) (by decide) hlist
      rw [eq_infinity_of_isInfinite hxinf, eq_infinity_of_isInfinite hyinf, hsign]
    | false =>
      obtain ⟨n, hn, -⟩ := displayFloat_rounds hy hyinf
      rw [← hlist] at hn
      exact absurd hn (not_writesNumeral_infinity _ n)
  | false =>
    obtain ⟨n, hn, hround⟩ := displayFloat_rounds hx hxinf
    cases hyinf : y.isInfinite with
    | true =>
      rw [hlist, toList_displayFloat_infinite hy hyinf] at hn
      exact absurd hn (not_writesNumeral_infinity _ n)
    | false =>
      obtain ⟨n', hn', hround'⟩ := displayFloat_rounds hy hyinf
      rw [hlist] at hn
      obtain rfl := hn.unique hn'
      exact Option.some.inj (hround.symm.trans hround')

/-- A float keeps its value in its text. Take the shortest decimal that rounds to it and the order
of magnitude of this decimal: the text is in scientific notation if the order is below -4 or at
least 15, else in positional notation; as a numeral it stands for the decimal, and rounds to the
float. Different floats have different texts, the zeros and infinities included. -/
theorem displayFloat_keeps_value :
    (∀ x : Binary64, x.Proper → ∃ (d : Decimal) (e : ℤ) (n : Numeral),
      x.IsShortest d ∧ (10 : ℚ) ^ e ≤ d.value ∧ d.value < 10 ^ (e + 1) ∧
      (∀ n', WritesNumeral (displayFloat x).toList n' ↔ n' = n) ∧
      (WritesScientific (displayFloat x).toList n ↔ e < -4 ∨ 15 ≤ e) ∧
      (WritesPositional (displayFloat x).toList n ↔ -4 ≤ e ∧ e < 15) ∧
      n.value = (if x.isNegative then -d.value else d.value) ∧
      ofDecimal n.negative (decimalValue n.digits) n.lastExponent = some x) ∧
    ∀ x y : Binary64, x.isNaN = false → y.isNaN = false → x ≠ y →
      displayFloat x ≠ displayFloat y := by
  refine ⟨fun x h => ?_, fun x y hx hy hne heq => hne (eq_of_displayFloat_eq hx hy heq)⟩
  obtain ⟨n, hwrites, hsign, hvalue, hscientific, hpositional⟩ := displayFloat_writes h
  obtain ⟨hlow, hhigh⟩ := leadingExponent_bounds (shortest_digits_pos h)
  refine ⟨x.shortest, x.shortest.leadingExponent, n, h.isShortest_shortest, hlow, hhigh,
    fun m => ⟨fun hm => hm.unique hwrites, fun hm => hm ▸ hwrites⟩, hscientific, hpositional, ?_,
    nearest?_of_magnitude h hsign hvalue⟩
  rw [Numeral.value, hsign, hvalue]

/-- The float nearest to minus a hundred-thousandth. -/
def smallNegative : Binary64 := ⟨0xbee4f8b588e368f1⟩

theorem displayFloat_keeps_value_small :
    smallNegative.Proper ∧ displayFloat smallNegative = "-1E-05" ∧
    (∃ (d : Decimal) (e : ℤ) (n : Numeral),
      smallNegative.IsShortest d ∧ (10 : ℚ) ^ e ≤ d.value ∧ d.value < 10 ^ (e + 1) ∧
      (∀ n', WritesNumeral (displayFloat smallNegative).toList n' ↔ n' = n) ∧
      (WritesScientific (displayFloat smallNegative).toList n ↔ e < -4 ∨ 15 ≤ e) ∧
      (WritesPositional (displayFloat smallNegative).toList n ↔ -4 ≤ e ∧ e < 15) ∧
      n.value = (if smallNegative.isNegative then -d.value else d.value) ∧
      ofDecimal n.negative (decimalValue n.digits) n.lastExponent = some smallNegative) ∧
    (zero false).isNaN = false ∧ (zero true).isNaN = false ∧ zero false ≠ zero true ∧
    displayFloat (zero false) ≠ displayFloat (zero true) := by
  have hproper : smallNegative.Proper := ⟨by decide, by decide, by decide⟩
  have hne : zero false ≠ zero true := by decide
  exact ⟨hproper, by decide +kernel, displayFloat_keeps_value.1 smallNegative hproper, rfl, rfl,
    hne, displayFloat_keeps_value.2 _ _ rfl rfl hne⟩

end CodeView.Html
