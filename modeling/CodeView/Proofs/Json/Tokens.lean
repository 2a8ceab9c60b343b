import CodeView.Proofs.Json.Shows

/-!
# How strings and numbers are written

The grammar of strings and numerals, as relations between a text and what it stands for, and the
proof that the scanners accept whatever the grammar allows and give what it stands for.

* `octets` is how a reader sees a text: byte by byte. Only the characters of a string can have more
  than one byte;
* `Spells text chars` is the text between two quotes. It is put together from stretches, and so are
  the parts that the scanner finds and the bytes that it joins (`Scans`), which gives
  `scanString_append`;
* `WritesNumeral text n` is the text of a numeral. It is read to its end if what follows cannot
  belong to it (`Ends`), which gives `scanNumber_append`.
-/

namespace CodeView.Json

open Text

/-- What a value is read as does not depend on the blanks in front of it. -/
theorem readValue_congr {a b : List Char} (h : skipBlank a = skipBlank b) (fuel : Nat) :
    readValue (fuel + 1) a = readValue (fuel + 1) b := by
  simp only [readValue, h]

/-! ## Characters as bytes -/

/-- How a reader sees characters: their bytes, each as the character of its number. -/
def octets (text : List Char) : List Char :=
  Utf8.wide (text.flatMap Utf8.encode)

theorem bytes_eq (s : String) : Utf8.bytes s = s.toList.flatMap Utf8.encode := by
  have h : s.toUTF8 = s.toList.utf8Encode := String.utf8Encode_toList.symm
  rw [Utf8.bytes, h, List.utf8Encode, List.data_toByteArray]
  rfl

theorem wide_bytes (s : String) : Utf8.wide (Utf8.bytes s) = octets s.toList := by
  rw [bytes_eq, octets]

theorem octets_cons (c : Char) (text : List Char) :
    octets (c :: text) = Utf8.wide (Utf8.encode c) ++ octets text := by
  simp [octets, Utf8.wide]

@[simp]
theorem octets_append (text more : List Char) :
    octets (text ++ more) = octets text ++ octets more := by
  simp [octets, Utf8.wide]

theorem encode_ascii {c : Char} (h : c.toNat < 128) : Utf8.encode c = [c.toUInt8] := by
  have hle : c.val.toNat ≤ 127 := Nat.le_of_lt_succ h
  rw [Utf8.encode, String.utf8EncodeChar, if_pos hle]
  rfl

theorem encode_high {c : Char} (h : 128 ≤ c.toNat) : ∀ b ∈ Utf8.encode c, 128 ≤ b.toNat := by
  have hlt : ¬ c.val.toNat ≤ 127 := Nat.not_le_of_lt h
  rw [Utf8.encode, String.utf8EncodeChar, if_neg hlt]
  intro b hb
  split at hb
  · simp only [List.mem_cons, List.not_mem_nil, or_false] at hb
    rcases hb with rfl | rfl <;> simp <;> omega
  · split at hb
    · simp only [List.mem_cons, List.not_mem_nil, or_false] at hb
      rcases hb with rfl | rfl | rfl <;> simp <;> omega
    · simp only [List.mem_cons, List.not_mem_nil, or_false] at hb
      rcases hb with rfl | rfl | rfl | rfl <;> simp <;> omega

theorem ofUInt8_toUInt8 {c : Char} (h : c.toNat < 128) : Char.ofUInt8 c.toUInt8 = c := by
  have hlt : c.val.toNat < 128 := h
  apply Char.ext
  apply UInt32.toNat_inj.1
  show c.val.toUInt8.toUInt32.toNat = c.val.toNat
  rw [UInt8.toNat_toUInt32, UInt32.toNat_toUInt8]
  omega

/-- A character of one byte is seen as it is. -/
theorem octets_cons_ascii {c : Char} (h : c.toNat < 128) (text : List Char) :
    octets (c :: text) = c :: octets text := by
  rw [octets_cons, encode_ascii h, Utf8.wide, List.map_singleton, ofUInt8_toUInt8 h]
  rfl

theorem octets_ascii {text : List Char} (h : ∀ c ∈ text, c.toNat < 128) : octets text = text := by
  induction text with
  | nil => rfl
  | cons c text ih =>
    rw [List.forall_mem_cons] at h
    rw [octets_cons_ascii h.1, ih h.2]

/-! ## Strings -/

/-- The text between two quotes spells the characters: as they are, or escaped. -/
inductive Spells : List Char → List Char → Prop
  | nil : Spells [] []
  | plain {c : Char} {text chars : List Char} (quote : c ≠ '"') (backslash : c ≠ '\\')
      (control : ' ' ≤ c) (rest : Spells text chars) : Spells (c :: text) (c :: chars)
  | short {e c : Char} {text chars : List Char} (escape : shortEscape? e = some c)
      (rest : Spells text chars) : Spells ('\\' :: e :: text) (c :: chars)
  | unit {a b c d : Char} {n : Nat} {text chars : List Char} (hex : hexUnit? a b c d = some n)
      (low : isLowSurrogate n = false) (high : isHighSurrogate n = false)
      (rest : Spells text chars) :
      Spells ('\\' :: 'u' :: a :: b :: c :: d :: text) (Char.ofNat n :: chars)
  | pair {a b c d e f g h : Char} {n m : Nat} {text chars : List Char}
      (first : hexUnit? a b c d = some n) (second : hexUnit? e f g h = some m)
      (high : isHighSurrogate n = true) (low : isLowSurrogate m = true)
      (rest : Spells text chars) :
      Spells ('\\' :: 'u' :: a :: b :: c :: d :: '\\' :: 'u' :: e :: f :: g :: h :: text)
        (pairedChar n m :: chars)

/-- The characters that may stand in a string as they are. -/
def isPlain (c : Char) : Bool :=
  c != '"' && c != '\\' && decide (' ' ≤ c)

/-- What has nothing to escape is spelled as it is. -/
theorem Spells.self {text : List Char} (h : text.all isPlain = true) : Spells text text := by
  induction text with
  | nil => exact .nil
  | cons c text ih =>
    obtain ⟨⟨⟨hquote, hbackslash⟩, hcontrol⟩, hrest⟩ :
        ((c ≠ '"' ∧ c ≠ '\\') ∧ ' ' ≤ c) ∧ text.all isPlain = true := by
      simpa [isPlain] using h
    exact .plain hquote hbackslash hcontrol (ih hrest)

/-- A stretch of a string, as a reader sees it, gives the bytes: whatever stands around it, its
parts are those that the stretch adds, and they add these bytes. -/
def Scans (text : List Char) (bytes : List UInt8) : Prop :=
  ∀ rest, ∃ (pieces : List Piece) (marked : List MarkedByte),
    (∀ taken, scanPieces (text ++ rest) taken = scanPieces rest (pieces.reverse ++ taken)) ∧
    (∀ more taken, joinPieces (pieces ++ more) taken = joinPieces more (marked.reverse ++ taken)) ∧
    marked.map (·.1) = bytes

theorem isLowSurrogate_of_high {n : Nat} (h : isHighSurrogate n = true) :
    isLowSurrogate n = false := by
  simp only [isHighSurrogate, isLowSurrogate, Bool.and_eq_true, decide_eq_true_eq,
    Bool.and_eq_false_imp, decide_eq_false_iff_not] at h ⊢
  omega

theorem map_marked (bytes : List UInt8) (rest : List Char) :
    (bytes.map fun b => (b, rest)).map (·.1) = bytes := by
  simp [Function.comp_def]

namespace Scans

theorem nil : Scans [] [] :=
  fun _ => ⟨[], [], fun _ => rfl, fun _ _ => rfl, rfl⟩

theorem append {text more : List Char} {bytes bytes' : List UInt8} (h : Scans text bytes)
    (h' : Scans more bytes') : Scans (text ++ more) (bytes ++ bytes') := by
  intro rest
  obtain ⟨pieces, marked, hscan, hjoin, hbytes⟩ := h (more ++ rest)
  obtain ⟨pieces', marked', hscan', hjoin', hbytes'⟩ := h' rest
  refine ⟨pieces ++ pieces', marked ++ marked', fun taken => ?_, fun tail taken => ?_, ?_⟩
  · rw [List.append_assoc, hscan, hscan', List.reverse_append, List.append_assoc]
  · rw [List.append_assoc, hjoin, hjoin', List.reverse_append, List.append_assoc]
  · rw [List.map_append, hbytes, hbytes']

/-- A byte that is neither a quote, a backslash nor a control character. -/
theorem byte {c : Char} (hquote : c ≠ '"') (hbackslash : c ≠ '\\') (hcontrol : ¬ c < ' ') :
    Scans [c] [c.toUInt8] := by
  intro rest
  refine ⟨[.byte c.toUInt8 rest], [(c.toUInt8, rest)], fun taken => ?_, fun _ _ => rfl, rfl⟩
  simp [scanPieces, hbackslash, hcontrol]

/-- Bytes of which none is a quote, a backslash or a control character. -/
theorem bytes {bytes : List UInt8}
    (h : ∀ b ∈ bytes, Char.ofUInt8 b ≠ '"' ∧ Char.ofUInt8 b ≠ '\\' ∧ ¬ Char.ofUInt8 b < ' ') :
    Scans (Utf8.wide bytes) bytes := by
  induction bytes with
  | nil => exact nil
  | cons b bytes ih =>
    rw [List.forall_mem_cons] at h
    have hbyte := byte h.1.1 h.1.2.1 h.1.2.2
    rw [Utf8.toUInt8_ofUInt8] at hbyte
    exact hbyte.append (ih h.2)

theorem plain {c : Char} (hquote : c ≠ '"') (hbackslash : c ≠ '\\') (hcontrol : ' ' ≤ c) :
    Scans (Utf8.wide (Utf8.encode c)) (Utf8.encode c) := by
  by_cases hascii : c.toNat < 128
  · rw [encode_ascii hascii, Utf8.wide, List.map_singleton, ofUInt8_toUInt8 hascii]
    exact byte hquote hbackslash (Char.not_lt.2 hcontrol)
  · refine bytes fun b hb => ?_
    have hhigh : 128 ≤ (Char.ofUInt8 b).toNat := encode_high (Nat.le_of_not_lt hascii) b hb
    refine ⟨?_, ?_, fun hlt => ?_⟩
    · rintro h
      simp [h] at hhigh
    · rintro h
      simp [h] at hhigh
    · have : (Char.ofUInt8 b).toNat < 32 := hlt
      omega

theorem short {e c : Char} (h : shortEscape? e = some c) : Scans ['\\', e] (Utf8.encode c) := by
  intro rest
  have hascii : c.toNat < 128 := by
    unfold shortEscape? at h
    split at h <;> cases h <;> decide
  refine ⟨[.byte c.toUInt8 rest], [(c.toUInt8, rest)], fun taken => ?_, fun _ _ => rfl, ?_⟩
  · have hu : e ≠ 'u' := by
      rintro rfl
      cases h
    simp [scanPieces, hu, h]
  · rw [encode_ascii hascii]
    rfl

theorem unit {a b c d : Char} {n : Nat} (hex : hexUnit? a b c d = some n)
    (low : isLowSurrogate n = false) (high : isHighSurrogate n = false) :
    Scans ['\\', 'u', a, b, c, d] (Utf8.encode (Char.ofNat n)) := by
  intro rest
  refine ⟨[.unit n rest], (Utf8.encode (Char.ofNat n)).map (·, rest), fun taken => ?_,
    fun more taken => ?_, ?_⟩
  · simp [scanPieces, hex]
  · rw [joinPieces.eq_def]
    simp [low, high, lastFirst]
  · exact map_marked _ rest

theorem pair {a b c d e f g h : Char} {n m : Nat} (first : hexUnit? a b c d = some n)
    (second : hexUnit? e f g h = some m) (high : isHighSurrogate n = true)
    (low : isLowSurrogate m = true) :
    Scans ['\\', 'u', a, b, c, d, '\\', 'u', e, f, g, h] (Utf8.encode (pairedChar n m)) := by
  intro rest
  have hlow := isLowSurrogate_of_high high
  refine ⟨[.unit n ('\\' :: 'u' :: e :: f :: g :: h :: rest), .unit m rest],
    (Utf8.encode (pairedChar n m)).map (·, rest), fun taken => ?_, fun more taken => ?_, ?_⟩
  · simp [scanPieces, first, second]
  · rw [joinPieces.eq_def]
    simp [hlow, high, low, lastFirst]
  · exact map_marked _ rest

end Scans

theorem hexDigit?_ascii {c : Char} {n : Nat} (h : hexDigit? c = some n) : c.toNat < 128 := by
  unfold hexDigit? at h
  split at h
  · next hc => exact Nat.lt_of_le_of_lt hc.2 (by decide)
  · split at h
    · next hc => exact Nat.lt_of_le_of_lt hc.2 (by decide)
    · split at h
      · next hc => exact Nat.lt_of_le_of_lt hc.2 (by decide)
      · cases h

theorem octets_hex {a b c d : Char} {n : Nat} (h : hexUnit? a b c d = some n) (text : List Char) :
    octets ('\\' :: 'u' :: a :: b :: c :: d :: text) =
      ['\\', 'u', a, b, c, d] ++ octets text := by
  unfold hexUnit? at h
  split at h
  · next ha hb hc hd =>
    rw [octets_cons_ascii (by decide), octets_cons_ascii (by decide),
      octets_cons_ascii (hexDigit?_ascii ha), octets_cons_ascii (hexDigit?_ascii hb),
      octets_cons_ascii (hexDigit?_ascii hc), octets_cons_ascii (hexDigit?_ascii hd)]
    rfl
  · cases h

/-- What spells characters is scanned to their bytes. -/
theorem Spells.scans {text chars : List Char} (h : Spells text chars) :
    Scans (octets text) (chars.flatMap Utf8.encode) := by
  induction h with
  | nil => exact .nil
  | plain quote backslash control _ ih =>
    rw [octets_cons]
    exact (Scans.plain quote backslash control).append ih
  | @short e c _ _ escape _ ih =>
    have hascii : e.toNat < 128 := by
      unfold shortEscape? at escape
      split at escape <;> first | decide | cases escape
    rw [octets_cons_ascii (by decide), octets_cons_ascii hascii]
    exact (Scans.short escape).append ih
  | unit hex low high _ ih =>
    rw [octets_hex hex]
    exact (Scans.unit hex low high).append ih
  | pair first second high low _ ih =>
    rw [octets_hex first, octets_hex second, ← List.append_assoc]
    exact (Scans.pair first second high low).append ih

/-- A string that is spelled out is read. -/
theorem scanString_append {text chars : List Char} (h : Spells text chars) (rest : List Char) :
    scanString (octets text ++ '"' :: rest) = .ok (.ok (String.ofList chars), rest) := by
  obtain ⟨pieces, marked, hscan, hjoin, hbytes⟩ := h.scans ('"' :: rest)
  have hpieces : scanPieces (octets text ++ '"' :: rest) [] = (pieces, .ok rest) := by
    rw [hscan]
    simp [scanPieces]
  have hjoined : joinPieces pieces [] = .ok marked := by
    have := hjoin [] []
    simpa [joinPieces] using this
  have hdecoded : Utf8.decode? (marked.map (·.1)) = some (String.ofList chars) := by
    have hencoded := bytes_eq (String.ofList chars)
    rw [String.toList_ofList] at hencoded
    rw [hbytes, ← hencoded, Utf8.decode?_bytes]
  simp [scanString, hpieces, stringOf, hjoined, hdecoded, bind, Except.bind, pure, Except.pure]

/-! ## Numbers -/

/-- Decimal digits, at least one. -/
def IsDigits (ds : List Char) : Prop :=
  ds ≠ [] ∧ ∀ d ∈ ds, d.isDigit = true

/-- The digits before the point: a single zero, or digits that start with another. -/
def IsWhole (ds : List Char) : Prop :=
  IsDigits ds ∧ (ds.head? = some '0' → ds = ['0'])

/-- What may follow the digits before the point: nothing, or a point and digits. -/
inductive WritesFraction : List Char → Option (List Char) → Prop
  | absent : WritesFraction [] none
  | point {ds : List Char} (digits : IsDigits ds) : WritesFraction ('.' :: ds) (some ds)

/-- What may end a numeral: nothing, or a mark and an integer that may have a sign. -/
inductive WritesExponent : List Char → Option Int → Prop
  | absent : WritesExponent [] none
  | unsigned {mark : Char} {ds : List Char} (isMark : mark = 'e' ∨ mark = 'E')
      (digits : IsDigits ds) : WritesExponent (mark :: ds) (some (decimalValue ds))
  | positive {mark : Char} {ds : List Char} (isMark : mark = 'e' ∨ mark = 'E')
      (digits : IsDigits ds) : WritesExponent (mark :: '+' :: ds) (some (decimalValue ds))
  | negative {mark : Char} {ds : List Char} (isMark : mark = 'e' ∨ mark = 'E')
      (digits : IsDigits ds) : WritesExponent (mark :: '-' :: ds) (some (-decimalValue ds))

/-- The text writes the numeral. -/
inductive WritesNumeral : List Char → Numeral → Prop
  | mk {negative : Bool} {whole fraction exponent : List Char} {digits : Option (List Char)}
      {value : Option Int} (hwhole : IsWhole whole) (hfraction : WritesFraction fraction digits)
      (hexponent : WritesExponent exponent value) :
      WritesNumeral ((if negative then ['-'] else []) ++ (whole ++ (fraction ++ exponent)))
        ⟨negative, whole, digits, value⟩

/-- The text does not start with such a character. -/
def Lacks (p : Char → Bool) : List Char → Prop
  | [] => True
  | c :: _ => p c = false

theorem Lacks.mono {p q : Char → Bool} {text : List Char} (h : Lacks p text)
    (hpq : ∀ c, p c = false → q c = false) : Lacks q text := by
  cases text with
  | nil => trivial
  | cons c text => exact hpq c h

/-- The characters that may follow a value. -/
def isEnd (c : Char) : Bool :=
  isBlank c || c == ',' || c == ']' || c == '\x7d'

/-- The text is empty or starts with what may follow a value. -/
abbrev Ends (text : List Char) : Prop :=
  Lacks (!isEnd ·) text

theorem Ends.lacks {p : Char → Bool} {text : List Char} (h : Ends text)
    (hp : [' ', '\n', '\t', '\r', ',', ']', '\x7d'].all (!p ·) = true) : Lacks p text := by
  refine Lacks.mono h fun c hc => (Bool.not_eq_true' _).mp (List.all_eq_true.1 hp c ?_)
  rw [Bool.not_eq_false'] at hc
  simpa [isEnd, isBlank, or_assoc] using hc

theorem isEnd_eq_false_of_isDigit {c : Char} (h : c.isDigit = true) : isEnd c = false := by
  cases hc : isEnd c with
  | false => rfl
  | true =>
    have hends : Ends [c] := by simp [Ends, Lacks, hc]
    have hdigit : c.isDigit = false := hends.lacks rfl
    cases hdigit.symm.trans h

theorem takeDigits_append {ds rest : List Char} (hds : ∀ d ∈ ds, d.isDigit = true)
    (hrest : Lacks Char.isDigit rest) : takeDigits (ds ++ rest) = (ds, rest) := by
  have hnone : rest.takeWhile Char.isDigit = [] ∧ rest.dropWhile Char.isDigit = rest := by
    cases rest with
    | nil => exact ⟨rfl, rfl⟩
    | cons c rest =>
      have hc : c.isDigit = false := hrest
      simp [hc]
  simp [takeDigits, List.takeWhile_append_of_pos hds, List.dropWhile_append_of_pos hds, hnone]

theorem scanWhole_append {ds rest : List Char} (h : IsWhole ds) (hrest : Lacks Char.isDigit rest) :
    scanWhole (ds ++ rest) = .ok (ds, rest) := by
  obtain ⟨⟨hne, hdigits⟩, hzero⟩ := h
  rw [scanWhole, takeDigits_append hdigits hrest]
  split
  · next heq => exact absurd (Prod.mk.inj heq).1 hne
  · next heq => exact absurd (Prod.mk.inj heq).1 hne
  · next heq =>
    obtain ⟨rfl, -⟩ := Prod.mk.inj heq
    cases hzero rfl
  · next heq =>
    cases heq
    rfl

theorem scanFraction_append {fraction rest : List Char} {digits : Option (List Char)}
    (h : WritesFraction fraction digits) (hrest : Lacks (fun c => c.isDigit || c == '.') rest) :
    scanFraction (fraction ++ rest) = .ok (digits, rest) := by
  cases h with
  | absent =>
    cases rest with
    | nil => rfl
    | cons c rest =>
      have hc : c ≠ '.' := by simpa using (Bool.or_eq_false_iff.1 hrest).2
      simp [scanFraction, hc]
  | @point ds digits =>
    have hlacks := Lacks.mono hrest fun c hc => (Bool.or_eq_false_iff.1 hc).1
    rw [List.cons_append, scanFraction, takeDigits_append digits.2 hlacks]
    split
    · next heq => exact absurd (Prod.mk.inj heq).1 digits.1
    · next heq => exact absurd (Prod.mk.inj heq).1 digits.1
    · next heq =>
      cases heq
      rfl

/-- The digits of an exponent go up to its end, and what stands before them is its sign. -/
theorem scanExponent_digits {ds rest : List Char} (hds : IsDigits ds)
    (hrest : Lacks Char.isDigit rest) :
    scanExponent (ds ++ rest) = .ok (⟨false, ds, ds ++ rest⟩, rest) ∧
      scanExponent ('+' :: (ds ++ rest)) = .ok (⟨false, ds, ds ++ rest⟩, rest) ∧
      scanExponent ('-' :: (ds ++ rest)) = .ok (⟨true, ds, ds ++ rest⟩, rest) := by
  have hdigits := takeDigits_append hds.2 hrest
  cases ds with
  | nil => exact absurd rfl hds.1
  | cons d ds =>
    have hd := hds.2 d List.mem_cons_self
    have hplus : d ≠ '+' := by rintro rfl; cases hd
    have hminus : d ≠ '-' := by rintro rfl; cases hd
    rw [List.cons_append] at hdigits ⊢
    refine ⟨?_, ?_, ?_⟩ <;> simp [scanExponent, hdigits, hplus, hminus]

theorem scanExponent?_append {exponent rest : List Char} {value : Option Int}
    (h : WritesExponent exponent value)
    (hrest : Lacks (fun c => c.isDigit || (c == 'e' || c == 'E')) rest) :
    ∃ e : Option Exponent, scanExponent? (exponent ++ rest) = .ok (e, rest) ∧
      e.map Exponent.value = value := by
  have hlacks := Lacks.mono hrest fun c hc => (Bool.or_eq_false_iff.1 hc).1
  have hmark : ∀ {mark : Char} {text : List Char}, mark = 'e' ∨ mark = 'E' →
      scanExponent? (mark :: text) = (scanExponent text).map fun read => (some read.1, read.2) := by
    rintro mark text (rfl | rfl) <;> rfl
  cases h with
  | absent =>
    refine ⟨none, ?_, rfl⟩
    cases rest with
    | nil => rfl
    | cons c rest =>
      have hc : c ≠ 'e' ∧ c ≠ 'E' := by simpa using (Bool.or_eq_false_iff.1 hrest).2
      simp [scanExponent?, hc]
  | @unsigned mark ds isMark digits =>
    refine ⟨some ⟨false, ds, ds ++ rest⟩, ?_, rfl⟩
    rw [List.cons_append, hmark isMark, (scanExponent_digits digits hlacks).1, Except.map]
  | @positive mark ds isMark digits =>
    refine ⟨some ⟨false, ds, ds ++ rest⟩, ?_, rfl⟩
    rw [List.cons_append, List.cons_append, hmark isMark,
      (scanExponent_digits digits hlacks).2.1, Except.map]
  | @negative mark ds isMark digits =>
    refine ⟨some ⟨true, ds, ds ++ rest⟩, ?_, rfl⟩
    rw [List.cons_append, List.cons_append, hmark isMark,
      (scanExponent_digits digits hlacks).2.2, Except.map]

theorem WritesExponent.lacks {exponent rest : List Char} {value : Option Int}
    (h : WritesExponent exponent value) (hrest : Ends rest) :
    Lacks (fun c => c.isDigit || c == '.') (exponent ++ rest) := by
  cases h with
  | absent => exact hrest.lacks rfl
  | unsigned isMark => obtain rfl | rfl := isMark <;> rfl
  | positive isMark => obtain rfl | rfl := isMark <;> rfl
  | negative isMark => obtain rfl | rfl := isMark <;> rfl

theorem WritesFraction.lacks {fraction rest : List Char} {digits : Option (List Char)}
    (h : WritesFraction fraction digits) (hrest : Lacks (fun c => c.isDigit || c == '.') rest) :
    Lacks Char.isDigit (fraction ++ rest) := by
  cases h with
  | absent => exact Lacks.mono hrest fun c hc => (Bool.or_eq_false_iff.1 hc).1
  | point => rfl

/-- A numeral is read up to what may follow a value. -/
theorem scanNumber_append {text rest : List Char} {n : Numeral} {x : Number}
    (h : WritesNumeral text n) (hx : n.number? = some x) (hrest : Ends rest) :
    scanNumber (text ++ rest) = .ok (.ok x, rest) := by
  obtain @⟨negative, whole, fraction, exponent, _, _, hwhole, hfraction, hexponent⟩ := h
  have hlacks := hexponent.lacks hrest
  obtain ⟨e, hscan, rfl⟩ := scanExponent?_append hexponent (hrest.lacks rfl)
  have hscanWhole := scanWhole_append hwhole (hfraction.lacks hlacks)
  have hscanFraction := scanFraction_append hfraction hlacks
  unfold scanNumber
  cases negative with
  | true =>
    simp [hscanWhole, hscanFraction, hscan, hx, bind, Except.bind, pure, Except.pure]
  | false =>
    cases whole with
    | nil => exact absurd rfl hwhole.1.1
    | cons d whole =>
      have hminus : d ≠ '-' := by
        rintro rfl
        cases hwhole.1.2 _ List.mem_cons_self
      rw [List.cons_append] at hscanWhole
      simp [hscanWhole, hscanFraction, hscan, hx, bind, Except.bind, pure, Except.pure, hminus]

theorem isDigit_ascii {c : Char} (h : c.isDigit = true) : c.toNat < 128 := by
  simp only [Char.isDigit, Bool.and_eq_true, decide_eq_true_eq] at h
  exact Nat.lt_of_le_of_lt h.2 (by decide)

/-- All characters of a numeral have one byte. -/
theorem WritesNumeral.octets_eq {text : List Char} {n : Numeral} (h : WritesNumeral text n) :
    octets text = text := by
  obtain ⟨hwhole, hfraction, hexponent⟩ := h
  have hdigits : ∀ {ds : List Char}, IsDigits ds → octets ds = ds :=
    fun hds => octets_ascii fun d hd => isDigit_ascii (hds.2 d hd)
  rw [octets_append, octets_append, octets_append, hdigits hwhole.1]
  congr 1
  · split <;> rfl
  · congr 2
    · cases hfraction with
      | absent => rfl
      | point digits => rw [octets_cons_ascii (by decide), hdigits digits]
    · cases hexponent with
      | absent => rfl
      | unsigned isMark digits =>
        rw [octets_cons_ascii (by obtain rfl | rfl := isMark <;> decide), hdigits digits]
      | positive isMark digits =>
        rw [octets_cons_ascii (by obtain rfl | rfl := isMark <;> decide),
          octets_cons_ascii (by decide), hdigits digits]
      | negative isMark digits =>
        rw [octets_cons_ascii (by obtain rfl | rfl := isMark <;> decide),
          octets_cons_ascii (by decide), hdigits digits]

/-- A numeral starts with its sign or a digit. -/
theorem WritesNumeral.head {text : List Char} {n : Numeral} (h : WritesNumeral text n) :
    ∃ c more, text = c :: more ∧ (c = '-' ∨ c.isDigit = true) := by
  obtain @⟨negative, whole, _, _, _, _, hwhole, -, -⟩ := h
  cases negative with
  | true => exact ⟨'-', _, rfl, .inl rfl⟩
  | false =>
    cases whole with
    | nil => exact absurd rfl hwhole.1.1
    | cons d whole => exact ⟨d, _, rfl, .inr (hwhole.1.2 d List.mem_cons_self)⟩

end CodeView.Json
