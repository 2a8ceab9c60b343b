import CodeView.Proofs.Json.Tokens

/-!
# Texts of values

The grammar of JSON texts, and the proof that the reader accepts every text of a value and that
what it reads shows the value. The grammar takes from outside what number a numeral is for: there is
what numerals denote, and what the reader takes them for.

* `Writes numbers (.value v) text`: the text writes the value, with blanks wherever they may stand
  and with the members of every object in any order;
* `Writes.reads`: the reader takes such a text up to its end, whatever follows that may follow a
  value, if the numerals are for the numbers that it takes them for;
* `IsText numbers v text` is the same for a whole text, with blanks around the value, and
  `IsText.reading` says what reading it gives.
-/

namespace CodeView.Json

/-! ## Grammar -/

/-- Nothing but blanks. -/
def IsBlank (text : List Char) : Prop :=
  ∀ c ∈ text, isBlank c = true

/-- What a stretch of text can stand for: a value, the items of a list, or the members of an
object. -/
inductive Phrase where
  | value (v : Value)
  | items (vs : List Value)
  | members (ms : List (String × Value))

/-- The text writes a value, or items or members that are separated by commas. The members of an
object are written in any order. A numeral is for the number that `numbers` says. -/
inductive Writes (numbers : Numeral → Option Number) : Phrase → List Char → Prop
  | null : Writes numbers (.value .null) ['n', 'u', 'l', 'l']
  | isTrue : Writes numbers (.value (.scalar (.bool true))) ['t', 'r', 'u', 'e']
  | isFalse : Writes numbers (.value (.scalar (.bool false))) ['f', 'a', 'l', 's', 'e']
  | string {text chars : List Char} (spells : Spells text chars) :
      Writes numbers (.value (.scalar (.string (.ofList chars)))) ('"' :: (text ++ ['"']))
  | number {text : List Char} {n : Numeral} {x : Number} (numeral : WritesNumeral text n)
      (number : numbers n = some x) :
      Writes numbers (.value (.scalar (.number x))) text
  | emptyArray {blank : List Char} (hblank : IsBlank blank) :
      Writes numbers (.value (.array [])) ('[' :: (blank ++ [']']))
  | array {blank text : List Char} {vs : List Value} (hblank : IsBlank blank)
      (items : Writes numbers (.items vs) text) :
      Writes numbers (.value (.array vs)) ('[' :: (blank ++ (text ++ [']'])))
  | emptyObject {blank : List Char} (hblank : IsBlank blank) :
      Writes numbers (.value (.object [])) ('\x7b' :: (blank ++ ['\x7d']))
  | object {blank text : List Char} {ms entries : List (String × Value)} (hblank : IsBlank blank)
      (members : Writes numbers (.members ms) text) (order : ms.Perm entries) :
      Writes numbers (.value (.object entries)) ('\x7b' :: (blank ++ (text ++ ['\x7d'])))
  | lastItem {text blank : List Char} {v : Value} (value : Writes numbers (.value v) text)
      (hblank : IsBlank blank) : Writes numbers (.items [v]) (text ++ blank)
  | item {text blank blank' more : List Char} {v : Value} {vs : List Value}
      (value : Writes numbers (.value v) text) (hblank : IsBlank blank) (hblank' : IsBlank blank')
      (rest : Writes numbers (.items vs) more) :
      Writes numbers (.items (v :: vs)) (text ++ (blank ++ ',' :: (blank' ++ more)))
  | lastMember {key chars blank₁ blank₂ text blank : List Char} {v : Value}
      (spells : Spells key chars) (hblank₁ : IsBlank blank₁) (hblank₂ : IsBlank blank₂)
      (value : Writes numbers (.value v) text) (hblank : IsBlank blank) :
      Writes numbers (.members [(.ofList chars, v)])
        ('"' :: (key ++ '"' :: (blank₁ ++ ':' :: (blank₂ ++ (text ++ blank)))))
  | member {key chars blank₁ blank₂ text blank blank' more : List Char} {v : Value}
      {ms : List (String × Value)} (spells : Spells key chars) (hblank₁ : IsBlank blank₁)
      (hblank₂ : IsBlank blank₂) (value : Writes numbers (.value v) text) (hblank : IsBlank blank)
      (hblank' : IsBlank blank') (rest : Writes numbers (.members ms) more) :
      Writes numbers (.members ((.ofList chars, v) :: ms))
        ('"' :: (key ++ '"' :: (blank₁ ++ ':' :: (blank₂ ++ (text ++ (blank ++
          ',' :: (blank' ++ more)))))))

/-- The text is one value between blanks. -/
def IsText (numbers : Numeral → Option Number) (v : Value) (text : List Char) : Prop :=
  ∃ before inside after, IsBlank before ∧ Writes numbers (.value v) inside ∧ IsBlank after ∧
    text = before ++ (inside ++ after)

variable {numbers numbers' : Numeral → Option Number}

/-- A text stays one if the numerals in it are for the same numbers. -/
theorem Writes.mono {phrase : Phrase} {text : List Char}
    (hnumbers : ∀ n x, numbers n = some x → numbers' n = some x) (h : Writes numbers phrase text) :
    Writes numbers' phrase text := by
  induction h with
  | null => exact .null
  | isTrue => exact .isTrue
  | isFalse => exact .isFalse
  | string spells => exact .string spells
  | number numeral number => exact .number numeral (hnumbers _ _ number)
  | emptyArray hblank => exact .emptyArray hblank
  | array hblank _ ih => exact .array hblank ih
  | emptyObject hblank => exact .emptyObject hblank
  | object hblank _ order ih => exact .object hblank ih order
  | lastItem _ hblank ih => exact .lastItem ih hblank
  | item _ hblank hblank' _ ih ihRest => exact .item ih hblank hblank' ihRest
  | lastMember spells hblank₁ hblank₂ _ hblank ih =>
    exact .lastMember spells hblank₁ hblank₂ ih hblank
  | member spells hblank₁ hblank₂ _ hblank hblank' _ ih ihRest =>
    exact .member spells hblank₁ hblank₂ ih hblank hblank' ihRest

theorem IsText.mono {v : Value} {text : List Char}
    (hnumbers : ∀ n x, numbers n = some x → numbers' n = some x) (h : IsText numbers v text) :
    IsText numbers' v text := by
  obtain ⟨before, inside, after, hbefore, hinside, hafter, rfl⟩ := h
  exact ⟨before, inside, after, hbefore, hinside.mono hnumbers, hafter, rfl⟩

/-! ## Blanks -/

theorem IsBlank.octets {blank : List Char} (h : IsBlank blank) : Json.octets blank = blank := by
  refine octets_ascii fun c hc => ?_
  have hblank := h c hc
  simp only [isBlank, Bool.or_eq_true, decide_eq_true_eq] at hblank
  obtain ((rfl | rfl) | rfl) | rfl := hblank <;> decide

theorem IsBlank.skip {blank : List Char} (h : IsBlank blank) (text : List Char) :
    skipBlank (blank ++ text) = skipBlank text :=
  List.dropWhile_append_of_pos h

theorem skipBlank_cons {c : Char} (h : isBlank c = false) (text : List Char) :
    skipBlank (c :: text) = c :: text := by
  simp [skipBlank, h]

/-- A mark of the grammar after blanks may follow a value. -/
theorem IsBlank.ends {blank : List Char} (h : IsBlank blank) {c : Char} (hc : isEnd c = true)
    (text : List Char) : Ends (blank ++ c :: text) := by
  cases blank with
  | nil => simpa [Ends, Lacks] using hc
  | cons b blank =>
    have hb := h b List.mem_cons_self
    simp [Ends, Lacks, isEnd, hb]

/-! ## Reading -/

/-- The reading shows the value, in a text that is deep enough for it. -/
def Stands (r : Reading) (v : Value) : Prop :=
  ∀ depth, v.Distinct → v.nesting ≤ depth → Shows ⟨.text, depth⟩ r v

/-- The reader takes the text of a phrase to its end, and what it reads stands for the phrase. -/
def Phrase.Reads : Phrase → List Char → Prop
  | .value v, text => ∀ fuel rest, (octets text).length < fuel → Ends rest →
    ∃ r, readValue fuel (octets text ++ rest) = (r, .ok rest) ∧ r.after = rest ∧ Stands r v
  | .items vs, text => ∀ fuel rest, (octets text).length + 1 < fuel →
    ∃ pairs : List (Reading × Value),
      readItems fuel (octets text ++ ']' :: rest) = (pairs.map (·.1), .ok rest) ∧
      pairs.map (·.2) = vs ∧ ∀ p ∈ pairs, Stands p.1 p.2
  | .members ms, text => ∀ fuel rest, (octets text).length + 1 < fuel →
    ∃ pairs : List (Member × String × Value),
      readMembers fuel (octets text ++ '\x7d' :: rest) = (pairs.map (·.1), .ok rest) ∧
      pairs.map (·.2) = ms ∧ (∀ p ∈ pairs, p.1.key = .ok p.2.1 ∧ Stands p.1.value p.2.2) ∧
      Closes (pairs.map (·.1))

/-- The text of a phrase starts with a character that is neither blank nor closes anything. -/
theorem Writes.head {phrase : Phrase} {text : List Char} (h : Writes numbers phrase text) :
    ∃ c more, octets text = c :: more ∧ isEnd c = false := by
  induction h with
  | null => exact ⟨_, _, rfl, rfl⟩
  | isTrue => exact ⟨_, _, rfl, rfl⟩
  | isFalse => exact ⟨_, _, rfl, rfl⟩
  | string => exact ⟨_, _, octets_cons_ascii (by decide) _, rfl⟩
  | number numeral =>
    obtain ⟨c, more, rfl, hc⟩ := numeral.head
    refine ⟨c, more, numeral.octets_eq, ?_⟩
    obtain rfl | hdigit := hc
    · rfl
    · exact isEnd_eq_false_of_isDigit hdigit
  | emptyArray => exact ⟨_, _, octets_cons_ascii (by decide) _, rfl⟩
  | array => exact ⟨_, _, octets_cons_ascii (by decide) _, rfl⟩
  | emptyObject => exact ⟨_, _, octets_cons_ascii (by decide) _, rfl⟩
  | object => exact ⟨_, _, octets_cons_ascii (by decide) _, rfl⟩
  | lastItem _ _ ih =>
    obtain ⟨c, more, heq, hc⟩ := ih
    exact ⟨c, _, by rw [octets_append, heq, List.cons_append], hc⟩
  | item _ _ _ _ ih =>
    obtain ⟨c, more, heq, hc⟩ := ih
    exact ⟨c, _, by rw [octets_append, heq, List.cons_append], hc⟩
  | lastMember => exact ⟨_, _, octets_cons_ascii (by decide) _, rfl⟩
  | member => exact ⟨_, _, octets_cons_ascii (by decide) _, rfl⟩

/-- There is at least one member between braces that are not empty. -/
theorem Writes.members_ne_nil {ms : List (String × Value)} {text : List Char}
    (h : Writes numbers (.members ms) text) : ms ≠ [] := by
  cases h <;> exact List.cons_ne_nil _ _

theorem expectLetters_append (letters rest : List Char) :
    expectLetters letters (letters ++ rest) = .ok rest := by
  induction letters with
  | nil => rfl
  | cons l letters ih => simp [expectLetters, ih]

theorem readLiteral_append (before rest : List Char) (letters : String) (value : Scalar) :
    readLiteral before (letters.toList ++ rest) letters value =
      (.scalar ⟨before, rest⟩ value, .ok rest) := by
  rw [readLiteral, expectLetters_append]

/-- A scalar that was read stands for its value. -/
theorem reads_scalar {text : List Char} {s : Scalar}
    (h : ∀ fuel rest, Ends rest → readValue (fuel + 1) (octets text ++ rest) =
      (.scalar ⟨octets text ++ rest, rest⟩ s, .ok rest)) :
    (Phrase.value (.scalar s)).Reads text := by
  intro fuel rest hfuel hrest
  cases fuel with
  | zero => cases hfuel
  | succ fuel => exact ⟨_, h fuel rest hrest, rfl, fun _ _ _ => .scalar _ _ _⟩

theorem reads_null : (Phrase.value .null).Reads ['n', 'u', 'l', 'l'] := by
  refine reads_scalar fun fuel rest _ => ?_
  rw [readValue]
  exact readLiteral_append _ rest "ull" .null

theorem reads_true : (Phrase.value (.scalar (.bool true))).Reads ['t', 'r', 'u', 'e'] := by
  refine reads_scalar fun fuel rest _ => ?_
  rw [readValue]
  exact readLiteral_append _ rest "rue" (.bool true)

theorem reads_false : (Phrase.value (.scalar (.bool false))).Reads ['f', 'a', 'l', 's', 'e'] := by
  refine reads_scalar fun fuel rest _ => ?_
  rw [readValue]
  exact readLiteral_append _ rest "alse" (.bool false)

theorem reads_string {text chars : List Char} (h : Spells text chars) :
    (Phrase.value (.scalar (.string (.ofList chars)))).Reads ('"' :: (text ++ ['"'])) := by
  refine reads_scalar fun fuel rest _ => ?_
  have hseen : octets ('"' :: (text ++ ['"'])) ++ rest = '"' :: (octets text ++ '"' :: rest) := by
    rw [octets_cons_ascii (by decide), octets_append, List.cons_append, List.append_assoc]
    rfl
  rw [hseen, readValue, skipBlank_cons rfl]
  simp [readString, scanString_append h, scalarOf, Except.map]

/-- What starts like a numeral is read as one. -/
theorem readValue_number {c : Char} (h : c = '-' ∨ c.isDigit = true) (fuel : Nat)
    (text : List Char) : readValue (fuel + 1) (c :: text) = readNumber (c :: text) := by
  have hall : [' ', '\n', '\t', '\r', 'n', 't', 'f', '"', '[', '\x7b'].all
      (fun x => x != '-' && !x.isDigit) = true := rfl
  have hne : ∀ x ∈ [' ', '\n', '\t', '\r', 'n', 't', 'f', '"', '[', '\x7b'], c ≠ x := by
    intro x hx
    obtain ⟨hminus, hdigit⟩ : x ≠ '-' ∧ x.isDigit = false := by
      simpa using List.all_eq_true.1 hall x hx
    rintro rfl
    obtain rfl | hc := h
    · exact hminus rfl
    · cases hdigit.symm.trans hc
  simp only [List.forall_mem_cons, List.not_mem_nil, false_imp_iff, implies_true] at hne
  have hblank : isBlank c = false := by simp [isBlank, hne]
  rw [readValue, skipBlank_cons hblank]
  simp [hne, h]

theorem reads_number {text : List Char} {n : Numeral} {x : Number} (h : WritesNumeral text n)
    (hx : n.number? = some x) : (Phrase.value (.scalar (.number x))).Reads text := by
  refine reads_scalar fun fuel rest hrest => ?_
  obtain ⟨c, more, heq, hc⟩ := h.head
  have hread := readValue_number hc fuel (more ++ rest)
  rw [← List.cons_append, ← heq] at hread
  rw [h.octets_eq, hread, readNumber, scanNumber_append h hx hrest]
  rfl

/-! ### Lists -/

/-- The start of a phrase behind blanks is where the blanks end, and it closes nothing. -/
theorem Writes.skip {phrase : Phrase} {text blank : List Char} (h : Writes numbers phrase text)
    (hblank : IsBlank blank) (rest : List Char) :
    ∃ c more, skipBlank (blank ++ (octets text ++ rest)) = c :: more ∧
      octets text ++ rest = c :: more ∧ c ≠ ']' ∧ c ≠ '\x7d' := by
  obtain ⟨c, more, heq, hc⟩ := h.head
  obtain ⟨⟨⟨hblankc, -⟩, hbracket⟩, hbrace⟩ :
      ((isBlank c = false ∧ c ≠ ',') ∧ c ≠ ']') ∧ c ≠ '\x7d' := by
    simpa [isEnd] using hc
  refine ⟨c, more ++ rest, ?_, by rw [heq, List.cons_append], hbracket, hbrace⟩
  rw [hblank.skip, heq, List.cons_append, skipBlank_cons hblankc]

theorem stands_array {span : Span} {pairs : List (Reading × Value)}
    (h : ∀ p ∈ pairs, Stands p.1 p.2) :
    Stands (.array span (pairs.map (·.1)) none) (.array (pairs.map (·.2))) := by
  intro depth hdistinct hnesting
  obtain ⟨k, rfl, hk⟩ := Value.nesting_array_le.1 hnesting
  refine .array rfl fun p hp => ?_
  have hmem : p.2 ∈ pairs.map (·.2) := List.mem_map_of_mem hp
  exact h p hp k (Value.distinct_array.1 hdistinct _ hmem) (hk _ hmem)

theorem reads_emptyArray {blank : List Char} (hblank : IsBlank blank) :
    (Phrase.value (.array [])).Reads ('[' :: (blank ++ [']'])) := by
  intro fuel rest hfuel _
  have hseen : octets ('[' :: (blank ++ [']'])) = '[' :: (blank ++ [']']) := by
    rw [octets_cons_ascii (by decide), octets_append, hblank.octets]
    rfl
  cases fuel with
  | zero => cases hfuel
  | succ fuel =>
    refine ⟨.array ⟨'[' :: (blank ++ ']' :: rest), rest⟩ [] none, ?_, rfl, ?_⟩
    · rw [hseen, readValue, List.cons_append, skipBlank_cons rfl, List.append_assoc]
      simp [hblank.skip, skipBlank_cons, isBlank, closeArray]
    · exact @stands_array _ [] (List.forall_mem_nil _)

theorem reads_array {blank text : List Char} {vs : List Value} (hblank : IsBlank blank)
    (h : Writes numbers (.items vs) text) (hitems : (Phrase.items vs).Reads text) :
    (Phrase.value (.array vs)).Reads ('[' :: (blank ++ (text ++ [']']))) := by
  intro fuel rest hfuel _
  have hseen : octets ('[' :: (blank ++ (text ++ [']']))) =
      '[' :: (blank ++ (octets text ++ [']'])) := by
    rw [octets_cons_ascii (by decide), octets_append, hblank.octets, octets_append]
    rfl
  rw [hseen] at hfuel ⊢
  cases fuel with
  | zero => cases hfuel
  | succ fuel =>
    simp only [List.length_cons, List.length_append, List.length_nil] at hfuel
    obtain ⟨pairs, hread, rfl, hpairs⟩ := hitems fuel rest (by omega)
    obtain ⟨c, more, hskip, heq, hbracket, -⟩ := h.skip hblank (']' :: rest)
    rw [heq] at hread
    refine ⟨.array ⟨'[' :: (blank ++ (octets text ++ ']' :: rest)), rest⟩ _ none, ?_, rfl,
      stands_array hpairs⟩
    simp only [List.cons_append, List.append_assoc, List.nil_append]
    rw [readValue, skipBlank_cons rfl]
    simp [hskip, hbracket, hread, closeArray]

theorem reads_lastItem {text blank : List Char} {v : Value} (hv : (Phrase.value v).Reads text)
    (hblank : IsBlank blank) : (Phrase.items [v]).Reads (text ++ blank) := by
  intro fuel rest hfuel
  rw [octets_append, hblank.octets, List.length_append] at hfuel
  cases fuel with
  | zero => cases hfuel
  | succ fuel =>
    obtain ⟨r, hread, -, hstands⟩ :=
      hv fuel (blank ++ ']' :: rest) (by omega) (hblank.ends rfl rest)
    refine ⟨[(r, v)], ?_, rfl, List.forall_mem_singleton.2 hstands⟩
    rw [octets_append, hblank.octets, List.append_assoc, readItems, hread]
    simp [hblank.skip, skipBlank_cons, isBlank]

theorem reads_item {text blank blank' more : List Char} {v : Value} {vs : List Value}
    (hv : (Phrase.value v).Reads text) (hblank : IsBlank blank) (hblank' : IsBlank blank')
    (hmore : Writes numbers (.items vs) more) (hvs : (Phrase.items vs).Reads more) :
    (Phrase.items (v :: vs)).Reads (text ++ (blank ++ ',' :: (blank' ++ more))) := by
  intro fuel rest hfuel
  have hseen : octets (text ++ (blank ++ ',' :: (blank' ++ more))) =
      octets text ++ (blank ++ ',' :: (blank' ++ octets more)) := by
    rw [octets_append, octets_append, octets_cons_ascii (by decide), octets_append, hblank.octets,
      hblank'.octets]
  rw [hseen] at hfuel ⊢
  cases fuel with
  | zero => cases hfuel
  | succ fuel =>
    simp only [List.length_cons, List.length_append] at hfuel
    obtain ⟨c, start, hskip, heq, hbracket, -⟩ := hmore.skip hblank' (']' :: rest)
    let tail := blank ++ ',' :: (blank' ++ (octets more ++ ']' :: rest))
    obtain ⟨r, hread, -, hstands⟩ := hv fuel tail (by omega) (hblank.ends rfl _)
    obtain ⟨pairs, hreadMore, rfl, hpairs⟩ := hvs fuel rest (by omega)
    rw [heq] at hreadMore
    refine ⟨(r, v) :: pairs, ?_, rfl, List.forall_mem_cons.2 ⟨hstands, hpairs⟩⟩
    simp only [List.cons_append, List.append_assoc]
    rw [readItems, hread]
    simp [tail, hblank.skip, skipBlank_cons, isBlank, hskip, hbracket, hreadMore]

/-! ### Objects -/

theorem stands_object {span : Span} {pairs : List (Member × String × Value)}
    {entries : List (String × Value)}
    (h : ∀ p ∈ pairs, p.1.key = .ok p.2.1 ∧ Stands p.1.value p.2.2)
    (hcloses : Closes (pairs.map (·.1))) (hperm : (pairs.map (·.2)).Perm entries) :
    Stands (.object span (pairs.map (·.1)) none) (.object entries) := by
  intro depth hdistinct hnesting
  obtain ⟨k, rfl, hk⟩ := Value.nesting_object_le.1 hnesting
  obtain ⟨hkeys, hvalues⟩ := Value.distinct_object.1 hdistinct
  refine .object rfl (fun p hp => (h p hp).1) (fun p hp => ?_) hperm hkeys fun _ => hcloses
  have hmem : p.2 ∈ entries := hperm.subset (List.mem_map_of_mem hp)
  exact (h p hp).2 k (hvalues _ hmem) (hk _ hmem)

theorem reads_emptyObject {blank : List Char} (hblank : IsBlank blank) :
    (Phrase.value (.object [])).Reads ('\x7b' :: (blank ++ ['\x7d'])) := by
  intro fuel rest hfuel _
  have hseen : octets ('\x7b' :: (blank ++ ['\x7d'])) = '\x7b' :: (blank ++ ['\x7d']) := by
    rw [octets_cons_ascii (by decide), octets_append, hblank.octets]
    rfl
  cases fuel with
  | zero => cases hfuel
  | succ fuel =>
    refine ⟨.object ⟨'\x7b' :: (blank ++ '\x7d' :: rest), rest⟩ [] none, ?_, rfl, ?_⟩
    · rw [hseen, readValue, List.cons_append, skipBlank_cons rfl, List.append_assoc]
      simp [hblank.skip, skipBlank_cons, isBlank, closeObject]
    · exact @stands_object _ [] _ (List.forall_mem_nil _) trivial (.refl _)

theorem reads_object {blank text : List Char} {ms entries : List (String × Value)}
    (hblank : IsBlank blank) (h : Writes numbers (.members ms) text)
    (hmembers : (Phrase.members ms).Reads text) (horder : ms.Perm entries) :
    (Phrase.value (.object entries)).Reads ('\x7b' :: (blank ++ (text ++ ['\x7d']))) := by
  intro fuel rest hfuel _
  have hseen : octets ('\x7b' :: (blank ++ (text ++ ['\x7d']))) =
      '\x7b' :: (blank ++ (octets text ++ ['\x7d'])) := by
    rw [octets_cons_ascii (by decide), octets_append, hblank.octets, octets_append]
    rfl
  rw [hseen] at hfuel ⊢
  cases fuel with
  | zero => cases hfuel
  | succ fuel =>
    simp only [List.length_cons, List.length_append, List.length_nil] at hfuel
    obtain ⟨pairs, hread, rfl, hpairs, hcloses⟩ := hmembers fuel rest (by omega)
    obtain ⟨c, more, hskip, heq, -, hbrace⟩ := h.skip hblank ('\x7d' :: rest)
    rw [heq] at hread
    refine ⟨.object ⟨'\x7b' :: (blank ++ (octets text ++ '\x7d' :: rest)), rest⟩ _ none, ?_, rfl,
      stands_object hpairs hcloses horder⟩
    simp only [List.cons_append, List.append_assoc, List.nil_append]
    rw [readValue, skipBlank_cons rfl]
    simp [hskip, hbrace, hread, closeObject]

theorem readColon_append {blank : List Char} (hblank : IsBlank blank) (rest : List Char) :
    readColon (blank ++ ':' :: rest) = .ok rest := by
  simp [readColon, hblank.skip, skipBlank_cons, isBlank]

theorem readValue_blank {blank : List Char} (hblank : IsBlank blank) {fuel : Nat} (hfuel : 0 < fuel)
    (text : List Char) : readValue fuel (blank ++ text) = readValue fuel text := by
  obtain ⟨fuel, rfl⟩ := Nat.exists_eq_add_one_of_ne_zero (Nat.ne_of_gt hfuel)
  exact readValue_congr (hblank.skip text) fuel

theorem octets_member {key blank₁ blank₂ : List Char} (hblank₁ : IsBlank blank₁)
    (hblank₂ : IsBlank blank₂) (text : List Char) :
    octets ('"' :: (key ++ '"' :: (blank₁ ++ ':' :: (blank₂ ++ text)))) =
      '"' :: (octets key ++ '"' :: (blank₁ ++ ':' :: (blank₂ ++ octets text))) := by
  rw [octets_cons_ascii (by decide), octets_append, octets_cons_ascii (by decide), octets_append,
    hblank₁.octets, octets_cons_ascii (by decide), octets_append, hblank₂.octets]

theorem reads_lastMember {key chars blank₁ blank₂ text blank : List Char} {v : Value}
    (hkey : Spells key chars) (hblank₁ : IsBlank blank₁) (hblank₂ : IsBlank blank₂)
    (hv : (Phrase.value v).Reads text) (hblank : IsBlank blank) :
    (Phrase.members [(.ofList chars, v)]).Reads
      ('"' :: (key ++ '"' :: (blank₁ ++ ':' :: (blank₂ ++ (text ++ blank))))) := by
  intro fuel rest hfuel
  rw [octets_member hblank₁ hblank₂, octets_append, hblank.octets] at hfuel ⊢
  cases fuel with
  | zero => cases hfuel
  | succ fuel =>
    simp only [List.length_cons, List.length_append] at hfuel
    obtain ⟨r, hread, hafter, hstands⟩ :=
      hv fuel (blank ++ '\x7d' :: rest) (by omega) (hblank.ends rfl rest)
    let keyEnd := blank₁ ++ ':' :: (blank₂ ++ (octets text ++ (blank ++ '\x7d' :: rest)))
    refine ⟨[(.mk (.ok (.ofList chars)) keyEnd r, .ofList chars, v)], ?_, rfl, ?_, ?_⟩
    · simp only [List.cons_append, List.append_assoc]
      rw [readMembers, scanString_append hkey]
      simp [readColon_append hblank₁, readValue_blank hblank₂ (by omega : 0 < fuel), hread,
        hblank.skip, skipBlank_cons, isBlank, keyEnd]
    · exact List.forall_mem_singleton.2 ⟨rfl, hstands⟩
    · simp [Closes, Member.value, hafter, openFault?, hblank.skip, skipBlank_cons, isBlank]

theorem reads_member {key chars blank₁ blank₂ text blank blank' more : List Char} {v : Value}
    {ms : List (String × Value)} (hkey : Spells key chars) (hblank₁ : IsBlank blank₁)
    (hblank₂ : IsBlank blank₂) (hv : (Phrase.value v).Reads text) (hblank : IsBlank blank)
    (hblank' : IsBlank blank') (hmore : Writes numbers (.members ms) more)
    (hms : (Phrase.members ms).Reads more) :
    (Phrase.members ((.ofList chars, v) :: ms)).Reads
      ('"' :: (key ++ '"' :: (blank₁ ++ ':' :: (blank₂ ++ (text ++ (blank ++
        ',' :: (blank' ++ more))))))) := by
  intro fuel rest hfuel
  rw [octets_member hblank₁ hblank₂, octets_append, octets_append, hblank.octets,
    octets_cons_ascii (by decide), octets_append, hblank'.octets] at hfuel ⊢
  cases fuel with
  | zero => cases hfuel
  | succ fuel =>
    simp only [List.length_cons, List.length_append] at hfuel
    obtain ⟨c, start, hskip, heq, -, hbrace⟩ := hmore.skip hblank' ('\x7d' :: rest)
    let tail := blank ++ ',' :: (blank' ++ (octets more ++ '\x7d' :: rest))
    obtain ⟨r, hread, hafter, hstands⟩ := hv fuel tail (by omega) (hblank.ends rfl _)
    obtain ⟨pairs, hreadMore, rfl, hpairs, -⟩ := hms fuel rest (by omega)
    let keyEnd := blank₁ ++ ':' :: (blank₂ ++ (octets text ++ tail))
    refine ⟨(.mk (.ok (.ofList chars)) keyEnd r, .ofList chars, v) :: pairs, ?_, rfl, ?_, ?_⟩
    · rw [heq] at hreadMore
      simp only [List.cons_append, List.append_assoc]
      rw [readMembers, scanString_append hkey]
      simp [readColon_append hblank₁, readValue_blank hblank₂ (by omega : 0 < fuel), hread,
        hblank.skip, skipBlank_cons, isBlank, hskip, hbrace, hreadMore, keyEnd, tail]
    · exact List.forall_mem_cons.2 ⟨⟨rfl, hstands⟩, hpairs⟩
    · have hne : pairs ≠ [] := by simpa using hmore.members_ne_nil
      simp [Closes, Member.value, hafter, tail, openFault?, hblank.skip, skipBlank_cons, isBlank,
        hne]

/-- The reader takes every text of a phrase, and what it reads stands for the phrase. -/
theorem Writes.reads {phrase : Phrase} {text : List Char}
    (h : Writes Numeral.number? phrase text) : phrase.Reads text := by
  induction h with
  | null => exact reads_null
  | isTrue => exact reads_true
  | isFalse => exact reads_false
  | string spells => exact reads_string spells
  | number numeral number => exact reads_number numeral number
  | emptyArray hblank => exact reads_emptyArray hblank
  | array hblank items ih => exact reads_array hblank items ih
  | emptyObject hblank => exact reads_emptyObject hblank
  | object hblank members order ih => exact reads_object hblank members ih order
  | lastItem _ hblank ih => exact reads_lastItem ih hblank
  | item _ hblank hblank' rest ih ihRest => exact reads_item ih hblank hblank' rest ihRest
  | lastMember spells hblank₁ hblank₂ _ hblank ih =>
    exact reads_lastMember spells hblank₁ hblank₂ ih hblank
  | member spells hblank₁ hblank₂ _ hblank hblank' rest ih ihRest =>
    exact reads_member spells hblank₁ hblank₂ ih hblank hblank' rest ihRest

/-- A text of a value is read to its end, and what is read shows the value if no member is repeated
and the value is not too deep. -/
theorem IsText.reading {v : Value} {text : List Char} (h : IsText Numeral.number? v text) :
    ∃ r rest,
      Reading.ofText (octets text) = (r, .ok rest) ∧ endFault? rest = none ∧ Stands r v := by
  obtain ⟨before, inside, after, hbefore, hinside, hafter, rfl⟩ := h
  have hseen : octets (before ++ (inside ++ after)) = before ++ (octets inside ++ after) := by
    rw [octets_append, octets_append, hbefore.octets, hafter.octets]
  have hends : Ends after := by
    cases after with
    | nil => trivial
    | cons c after => simp [Ends, Lacks, isEnd, hafter c List.mem_cons_self]
  have hlength : (octets inside).length < (before ++ (octets inside ++ after)).length + 1 := by
    simp only [List.length_append]
    omega
  obtain ⟨r, hread, -, hstands⟩ := hinside.reads _ after hlength hends
  refine ⟨r, after, ?_, ?_, hstands⟩
  · rw [hseen, Reading.ofText, readValue_blank hbefore (Nat.succ_pos _), hread]
  · have hskip := hafter.skip []
    rw [List.append_nil] at hskip
    rw [endFault?, hskip]
    rfl

end CodeView.Json
