import CodeView.Proofs.Html.Fidelity

/-!
# Encoded texts and their readings

What `encodeText` and `encodeAttribute` write can be read in one way only, whatever the text looks
like; `&amp;lt;` is a text like any other.

* `decodeText` reads entities in one pass from left to right (`decodeEntities`).
* `encodeAttributeChars_eq`: the quotes of an attribute value are encoded in a second pass, over
  entities that stand there already. One pass with a table of four characters does the same.
* `encodeChars_decodeEntities`: a text in which no bracket stands and every ampersand starts an
  entity is the encoding of its reading. So these texts, and no others, are encodings.
-/

namespace CodeView.Html

/-- A text with its entities read as the characters that they stand for. -/
def decodeText (text : String) : String :=
  String.ofList (decodeEntities text.toList)

/-! ## Attribute values in one pass -/

/-- How a character is written in an attribute value. -/
def attributeEntity : Char → List Char
  | '&' => ['&', 'a', 'm', 'p', ';']
  | '<' => ['&', 'l', 't', ';']
  | '>' => ['&', 'g', 't', ';']
  | '"' => ['&', 'q', 'u', 'o', 't', ';']
  | c => [c]

theorem encodeChars_cons (c : Char) (cs : List Char) :
    encodeChars (c :: cs) = entity c ++ encodeChars cs :=
  List.flatMap_cons

theorem entity_eq_self {c : Char} (h : c ∉ ['&', '<', '>']) : entity c = [c] := by
  unfold entity
  split <;> simp_all

/-- The second pass finds no quote in an entity of the first. -/
theorem flatMap_quoteEntity (c : Char) : (entity c).flatMap quoteEntity = attributeEntity c := by
  unfold attributeEntity
  split
  · rfl
  · rfl
  · rfl
  · rfl
  · next h1 h2 h3 h4 =>
    rw [entity_eq_self (by simpa using ⟨h1, h2, h3⟩), List.flatMap_singleton]
    unfold quoteEntity
    split
    · next => exact absurd rfl h4
    · rfl

theorem encodeAttributeChars_eq (cs : List Char) :
    encodeAttributeChars cs = cs.flatMap attributeEntity := by
  unfold encodeAttributeChars encodeChars
  rw [List.flatMap_assoc]
  exact congrArg (cs.flatMap ·) (funext flatMap_quoteEntity)

theorem encodeAttributeChars_append (a b : List Char) :
    encodeAttributeChars (a ++ b) = encodeAttributeChars a ++ encodeAttributeChars b := by
  unfold encodeAttributeChars
  rw [encodeChars_append, List.flatMap_append]

/-! ## Reading attribute values -/

theorem decodeEntities_attributeEntity (c : Char) (rest : List Char) :
    decodeEntities (attributeEntity c ++ rest) = c :: decodeEntities rest := by
  unfold attributeEntity
  split
  · rfl
  · rfl
  · rfl
  · rfl
  · next h1 _ _ _ =>
    rw [List.singleton_append]
    rw [decodeEntities] <;> simp_all

theorem decodeEntities_encodeAttribute (cs : List Char) :
    decodeEntities (encodeAttributeChars cs) = cs := by
  rw [encodeAttributeChars_eq]
  induction cs with
  | nil => rfl
  | cons c cs ih => rw [List.flatMap_cons, decodeEntities_attributeEntity, ih]

/-! ## The texts that are encodings -/

theorem EntitiesOnly.of_append {names : List String} {a cs : List Char}
    (h : EntitiesOnly names (a ++ cs)) : EntitiesOnly names cs := by
  intro u v e
  refine h (a ++ u) v ?_
  rw [e, List.append_assoc]

/-- The rest of a safe text is safe. -/
theorem SafeText.of_append (a : List Char) {cs : List Char} (h : SafeText (a ++ cs)) :
    SafeText cs :=
  ⟨fun hm => h.1 (List.mem_append_right a hm), fun hm => h.2.1 (List.mem_append_right a hm),
    h.2.2.of_append⟩

/-- An ampersand of a safe text starts one of the three entities. -/
theorem SafeText.entity_cases {cs : List Char} (h : SafeText ('&' :: cs)) :
    ∃ rest, cs = ['a', 'm', 'p', ';'] ++ rest ∨ cs = ['l', 't', ';'] ++ rest ∨
      cs = ['g', 't', ';'] ++ rest := by
  obtain ⟨name, hn, rest, e⟩ := h.2.2 [] cs rfl
  refine ⟨rest, ?_⟩
  simp only [List.mem_cons, List.not_mem_nil, or_false] at hn
  rcases hn with rfl | rfl | rfl
  · exact .inl e.symm
  · exact .inr (.inl e.symm)
  · exact .inr (.inr e.symm)

/-- A safe text is the encoding of its reading. -/
theorem encodeChars_decodeEntities {cs : List Char} (h : SafeText cs) :
    encodeChars (decodeEntities cs) = cs := by
  fun_induction decodeEntities cs with
  | case1 rest ih =>
    rw [encodeChars_cons, ih (h.of_append ['&', 'a', 'm', 'p', ';'])]
    rfl
  | case2 rest ih =>
    rw [encodeChars_cons, ih (h.of_append ['&', 'l', 't', ';'])]
    rfl
  | case3 rest ih =>
    rw [encodeChars_cons, ih (h.of_append ['&', 'g', 't', ';'])]
    rfl
  | case4 rest ih =>
    -- Running text has no entity for quotes.
    obtain ⟨rest', e | e | e⟩ := h.entity_cases <;> simp at e
  | case5 c rest hamp hlt hgt _ ih =>
    have hc : c ≠ '&' := by
      rintro rfl
      obtain ⟨rest', e | e | e⟩ := h.entity_cases
      · exact hamp rest' rfl e
      · exact hlt rest' rfl e
      · exact hgt rest' rfl e
    have hopen : c ≠ '<' := fun e => h.1 (e ▸ List.mem_cons_self)
    have hclose : c ≠ '>' := fun e => h.2.1 (e ▸ List.mem_cons_self)
    rw [encodeChars_cons, entity_eq_self (by simp [hc, hopen, hclose]), ih (h.of_append [c])]
    rfl
  | case6 => rfl

/-! ## Texts -/

theorem decodeText_encodeText (text : String) : decodeText (encodeText text) = text := by
  unfold decodeText
  rw [toList_encodeText, decodeEntities_encode, String.ofList_toList]

theorem decodeText_encodeAttribute (text : String) : decodeText (encodeAttribute text) = text := by
  unfold decodeText
  rw [toList_encodeAttribute, decodeEntities_encodeAttribute, String.ofList_toList]

/-- A text that looks like an entity is encoded and read like any other. -/
example : encodeText "&lt;" = "&amp;lt;" ∧ decodeText "&amp;lt;" = "&lt;" := by decide

theorem safeText_encodeText (text : String) : SafeText (encodeText text).toList := by
  rw [toList_encodeText]
  exact safeText_encode _

theorem encodeText_decodeText {text : String} (h : SafeText text.toList) :
    encodeText (decodeText text) = text := by
  unfold encodeText decodeText
  rw [String.toList_ofList, encodeChars_decodeEntities h, String.ofList_toList]

/-- **Encoding loses nothing and leaves nothing open.** Running text and attribute values read back
as the text that was encoded. A text is an encoding if and only if it has no bracket and each of its
ampersands starts an entity, and then it is the encoding of its reading. The two passes over an
attribute value are one, and texts can be encoded piece by piece. -/
theorem encoders_invertible :
    (∀ s, decodeText (encodeText s) = s ∧ decodeText (encodeAttribute s) = s) ∧
    (∀ t, ((∃ s, encodeText s = t) ↔ SafeText t.toList) ∧
      (SafeText t.toList ↔ encodeText (decodeText t) = t)) ∧
    (∀ s, encodeAttribute s = String.ofList (s.toList.flatMap attributeEntity)) ∧
    ∀ s t, encodeText (s ++ t) = encodeText s ++ encodeText t ∧
      encodeAttribute (s ++ t) = encodeAttribute s ++ encodeAttribute t := by
  refine ⟨fun s => ⟨decodeText_encodeText s, decodeText_encodeAttribute s⟩,
    fun t => ⟨⟨?_, fun h => ⟨_, encodeText_decodeText h⟩⟩, encodeText_decodeText, fun e => ?_⟩,
    fun s => ?_, fun s t => ⟨?_, ?_⟩⟩
  · rintro ⟨s, rfl⟩
    exact safeText_encodeText s
  · rw [← e]
    exact safeText_encodeText _
  · unfold encodeAttribute
    rw [encodeAttributeChars_eq]
  · unfold encodeText
    rw [String.toList_append, encodeChars_append, String.ofList_append]
  · unfold encodeAttribute
    rw [String.toList_append, encodeAttributeChars_append, String.ofList_append]

end CodeView.Html
