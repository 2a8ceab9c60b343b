import CodeView.Html.Highlight
import CodeView.Html.Entity

/-!
# Flat markup

A page of code is a row of pieces: runs of text, and elements that hold a text and nothing else.

* `Piece.Safe`: the texts of a piece end no tag and open none, and its class is that of a highlight.
  Encoded texts are safe (`safeText_encode`, `safeAttribute_encode`).
* `stripTags` deletes what stands between angle brackets, `decodeEntities` reads entities back, and
  `elements` finds the elements; all three read characters and know nothing of pieces.
* `stripTags_pieces`, `elements_pieces`: on a row of safe pieces they find the texts and the
  elements. `decodeEntities_encode`: an encoded text reads back.
-/

namespace CodeView.Html

/-! ## Pieces -/

/-- A run of text, or an element with its class, its link and its text, as they are written. -/
inductive Piece where
  | text (run : List Char)
  | span (cls inner : List Char)
  | anchor (cls href inner : List Char)

namespace Piece

/-- A piece as it is written. -/
def chars : Piece → List Char
  | .text run => run
  | .span cls inner => "<span class=\"".toList ++ cls ++ "\">".toList ++ inner ++ "</span>".toList
  | .anchor cls href inner =>
    "<a class=\"".toList ++ cls ++ "\" href=\"".toList ++ href ++ "\">".toList ++ inner ++
      "</a>".toList

/-- The text of a piece, without tags. -/
def body : Piece → List Char
  | .text run => run
  | .span _ inner => inner
  | .anchor _ _ inner => inner

end Piece

/-- Every ampersand is followed by one of the given names. -/
def EntitiesOnly (names : List String) (cs : List Char) : Prop :=
  ∀ u v, cs = u ++ '&' :: v → ∃ name ∈ names, name.toList <+: v

/-- Text in which nothing but an entity has a meaning. -/
def SafeText (cs : List Char) : Prop :=
  '<' ∉ cs ∧ '>' ∉ cs ∧ EntitiesOnly ["amp;", "lt;", "gt;"] cs

/-- Text that can also stand between double quotes. -/
def SafeAttribute (cs : List Char) : Prop :=
  '<' ∉ cs ∧ '>' ∉ cs ∧ '"' ∉ cs ∧ EntitiesOnly ["amp;", "lt;", "gt;", "quot;"] cs

/-- A class is that of a highlight. -/
def IsClass (cls : List Char) : Prop :=
  ∃ h : Highlight, cls = h.cssClass.toList

/-- The texts of a piece cannot break out of it. -/
def Piece.Safe : Piece → Prop
  | .text run => SafeText run
  | .span cls inner => IsClass cls ∧ SafeText inner
  | .anchor cls href inner => IsClass cls ∧ SafeAttribute href ∧ SafeText inner

/-! ## Encoded texts are safe -/

theorem EntitiesOnly.nil (names : List String) : EntitiesOnly names [] := by
  intro u v h
  simp at h

/-- A character that is no ampersand may stand before any such text. -/
theorem EntitiesOnly.cons {names : List String} {c : Char} {cs : List Char} (hc : c ≠ '&')
    (h : EntitiesOnly names cs) : EntitiesOnly names (c :: cs) := by
  intro u v e
  cases u with
  | nil => exact absurd (List.cons.inj e).1 hc
  | cons d u => exact h u v (List.cons.inj e).2

theorem EntitiesOnly.append {names : List String} {a cs : List Char} (ha : '&' ∉ a)
    (h : EntitiesOnly names cs) : EntitiesOnly names (a ++ cs) := by
  induction a with
  | nil => exact h
  | cons c a ih =>
    rw [List.mem_cons, not_or] at ha
    exact (ih ha.2).cons (Ne.symm ha.1)

/-- An entity may stand before any such text. -/
theorem EntitiesOnly.entity {names : List String} {name : String} {cs : List Char}
    (hn : name ∈ names) (ha : '&' ∉ name.toList) (h : EntitiesOnly names cs) :
    EntitiesOnly names ('&' :: name.toList ++ cs) := by
  intro u v e
  cases u with
  | nil =>
    refine ⟨name, hn, cs, ?_⟩
    exact (List.cons.inj e).2
  | cons d u => exact h.append ha u v (List.cons.inj e).2

/-- Each character is written as an entity with one of the names, or as itself if it is not
special. -/
def Escapes (names : List String) (special : List Char) (f : Char → List Char) : Prop :=
  ∀ c, (∃ name ∈ names, f c = '&' :: name.toList) ∨ (c ∉ special ∧ f c = [c])

section Escapes

variable {names : List String} {special : List Char} {f : Char → List Char}

theorem Escapes.not_mem (hf : Escapes names special f) {x : Char} (hx : x ∈ special) (hne : x ≠ '&')
    (hn : ∀ name ∈ names, x ∉ name.toList) (cs : List Char) : x ∉ cs.flatMap f := by
  rw [List.mem_flatMap]
  rintro ⟨c, -, hc⟩
  rcases hf c with ⟨name, hm, e⟩ | ⟨hs, e⟩
  · rw [e, List.mem_cons] at hc
    exact hc.elim hne (hn name hm)
  · rw [e, List.mem_singleton] at hc
    exact hs (hc ▸ hx)

theorem Escapes.entitiesOnly (hf : Escapes names special f) (hx : '&' ∈ special)
    (hn : ∀ name ∈ names, '&' ∉ name.toList) (cs : List Char) :
    EntitiesOnly names (cs.flatMap f) := by
  induction cs with
  | nil => exact EntitiesOnly.nil _
  | cons c cs ih =>
    rw [List.flatMap_cons]
    rcases hf c with ⟨name, hm, e⟩ | ⟨hs, e⟩
    · rw [e]
      exact ih.entity hm (hn name hm)
    · rw [e]
      exact ih.cons fun h => hs (h ▸ hx)

end Escapes

theorem escapes_entity : Escapes ["amp;", "lt;", "gt;"] ['&', '<', '>'] entity := by
  intro c
  unfold entity
  split
  · exact .inl ⟨"amp;", by simp, rfl⟩
  · exact .inl ⟨"lt;", by simp, rfl⟩
  · exact .inl ⟨"gt;", by simp, rfl⟩
  · next h1 h2 h3 => exact .inr ⟨by simp_all, rfl⟩

/-- Quotes are encoded after the rest; the entities that stand already have none. -/
theorem escapes_attribute :
    Escapes ["amp;", "lt;", "gt;", "quot;"] ['&', '<', '>', '"']
      fun c => (entity c).flatMap quoteEntity := by
  intro c
  show (∃ name ∈ _, (entity c).flatMap quoteEntity = _) ∨ _ ∧ (entity c).flatMap quoteEntity = _
  unfold entity
  split
  · exact .inl ⟨"amp;", by simp, rfl⟩
  · exact .inl ⟨"lt;", by simp, rfl⟩
  · exact .inl ⟨"gt;", by simp, rfl⟩
  · next h1 h2 h3 =>
    rw [List.flatMap_singleton]
    unfold quoteEntity
    split
    · exact .inl ⟨"quot;", by simp, rfl⟩
    · next h4 => exact .inr ⟨by simp_all, rfl⟩

theorem safeText_encode (cs : List Char) : SafeText (encodeChars cs) :=
  ⟨escapes_entity.not_mem (by decide) (by decide) (by decide) cs,
    escapes_entity.not_mem (by decide) (by decide) (by decide) cs,
    escapes_entity.entitiesOnly (by decide) (by decide) cs⟩

theorem safeAttribute_encode (cs : List Char) : SafeAttribute (encodeAttributeChars cs) := by
  unfold encodeAttributeChars encodeChars
  rw [List.flatMap_assoc]
  exact ⟨escapes_attribute.not_mem (by decide) (by decide) (by decide) cs,
    escapes_attribute.not_mem (by decide) (by decide) (by decide) cs,
    escapes_attribute.not_mem (by decide) (by decide) (by decide) cs,
    escapes_attribute.entitiesOnly (by decide) (by decide) cs⟩

/-- A text without special characters is its own encoding. -/
theorem encodeChars_eq_self {cs : List Char} (h : ∀ c ∈ cs, c ∉ ['&', '<', '>']) :
    encodeChars cs = cs := by
  unfold encodeChars
  induction cs with
  | nil => rfl
  | cons c cs ih =>
    have hc : entity c = [c] := by
      rcases escapes_entity c with ⟨name, hm, e⟩ | ⟨-, e⟩
      · have hs := h c (by simp)
        unfold entity at e
        split at e <;> simp_all
      · exact e
    rw [List.flatMap_cons, hc, ih fun d hd => h d (by simp [hd])]
    rfl

/-! ## Reading entities back -/

/-- Reads entities as the characters that they stand for. -/
def decodeEntities : List Char → List Char
  | '&' :: 'a' :: 'm' :: 'p' :: ';' :: rest => '&' :: decodeEntities rest
  | '&' :: 'l' :: 't' :: ';' :: rest => '<' :: decodeEntities rest
  | '&' :: 'g' :: 't' :: ';' :: rest => '>' :: decodeEntities rest
  | '&' :: 'q' :: 'u' :: 'o' :: 't' :: ';' :: rest => '"' :: decodeEntities rest
  | c :: rest => c :: decodeEntities rest
  | [] => []

theorem decodeEntities_entity (c : Char) (rest : List Char) :
    decodeEntities (entity c ++ rest) = c :: decodeEntities rest := by
  unfold entity
  split
  · rfl
  · rfl
  · rfl
  · next h1 _ _ =>
    rw [List.singleton_append]
    rw [decodeEntities] <;> simp_all

/-- An encoded text reads back. -/
theorem decodeEntities_encode (cs : List Char) : decodeEntities (encodeChars cs) = cs := by
  unfold encodeChars
  induction cs with
  | nil => rfl
  | cons c cs ih => rw [List.flatMap_cons, decodeEntities_entity, ih]

/-! ## Deleting tags -/

/-- Deletes everything from `<` to the next `>`, where `inside` says that a tag is open. -/
def stripTags : Bool → List Char → List Char
  | _, [] => []
  | false, c :: cs => if c = '<' then stripTags true cs else c :: stripTags false cs
  | true, c :: cs => stripTags (c != '>') cs

theorem stripTags_text {a : List Char} (ha : '<' ∉ a) (cs : List Char) :
    stripTags false (a ++ cs) = a ++ stripTags false cs := by
  induction a with
  | nil => rfl
  | cons c a ih =>
    rw [List.mem_cons, not_or] at ha
    rw [List.cons_append, stripTags, if_neg (Ne.symm ha.1), ih ha.2, List.cons_append]

theorem stripTags_tag {a : List Char} (ha : '>' ∉ a) (cs : List Char) :
    stripTags false ('<' :: a ++ '>' :: cs) = stripTags false cs := by
  have hin : stripTags true (a ++ '>' :: cs) = stripTags false cs := by
    induction a with
    | nil => rfl
    | cons c a ih =>
      rw [List.mem_cons, not_or] at ha
      have hc : (c != '>') = true := by simpa using Ne.symm ha.1
      rw [List.cons_append, stripTags, hc, ih ha.2]
  rw [List.cons_append, stripTags, if_pos rfl, hin]

/-! ## Finding elements -/

/-- An element of a page: its class, its link if it has one, and its text. -/
structure Element where
  cls : List Char
  href : Option (List Char)
  inner : List Char
  deriving DecidableEq, Repr

/-- The class and the link of an opening tag, if it is one of a span or an anchor. -/
def openingTag? (tag : List Char) : Option (List Char × Option (List Char)) :=
  match tag.splitOn '"' with
  | [word, cls, []] => if word = "span class=".toList then some (cls, none) else none
  | [word, cls, between, href, []] =>
    if word = "a class=".toList ∧ between = " href=".toList then some (cls, some href) else none
  | _ => none

/-- The element that starts after a `<`, if one does: a tag up to the next `>`, then text up to the
next `<`. -/
def elementAt? (cs : List Char) : Option Element :=
  match openingTag? (cs.takeWhile (· != '>')) with
  | none => none
  | some (cls, href) =>
    some ⟨cls, href, (cs.dropWhile (· != '>')).tail.takeWhile (· != '<')⟩

/-- The elements of a page, in order. -/
def elements : List Char → List Element
  | [] => []
  | c :: cs => (if c = '<' then (elementAt? cs).toList else []) ++ elements cs

/-- The element that a piece is. -/
def Piece.element? : Piece → Option Element
  | .text _ => none
  | .span cls inner => some ⟨cls, none, inner⟩
  | .anchor cls href inner => some ⟨cls, some href, inner⟩

theorem elements_text {a : List Char} (ha : '<' ∉ a) (cs : List Char) :
    elements (a ++ cs) = elements cs := by
  induction a with
  | nil => rfl
  | cons c a ih =>
    rw [List.mem_cons, not_or] at ha
    rw [List.cons_append, elements, if_neg (Ne.symm ha.1), List.nil_append, ih ha.2]

theorem takeWhile_ne {x : Char} {a : List Char} (ha : x ∉ a) (cs : List Char) :
    (a ++ x :: cs).takeWhile (· != x) = a := by
  rw [List.takeWhile_append_of_pos fun c hc => by simpa using fun e : c = x => ha (e ▸ hc)]
  simp

theorem dropWhile_ne {x : Char} {a : List Char} (ha : x ∉ a) (cs : List Char) :
    (a ++ x :: cs).dropWhile (· != x) = x :: cs := by
  rw [List.dropWhile_append_of_pos fun c hc => by simpa using fun e : c = x => ha (e ▸ hc)]
  simp

/-- A tag and the text up to the next tag. -/
theorem elements_tag {tag inner : List Char} (ht : '<' ∉ tag) (ht' : '>' ∉ tag) (hi : '<' ∉ inner)
    (cs : List Char) :
    elements ('<' :: tag ++ '>' :: inner ++ '<' :: cs) =
      ((openingTag? tag).map fun o => ⟨o.1, o.2, inner⟩).toList ++ elements ('<' :: cs) := by
  have hat : elementAt? (tag ++ '>' :: inner ++ '<' :: cs) =
      (openingTag? tag).map fun o => ⟨o.1, o.2, inner⟩ := by
    unfold elementAt?
    rw [List.append_assoc, List.cons_append, takeWhile_ne ht', dropWhile_ne ht', List.tail_cons,
      takeWhile_ne hi]
    cases openingTag? tag <;> rfl
  have hskip : elements (tag ++ '>' :: inner ++ '<' :: cs) = elements ('<' :: cs) := by
    rw [elements_text]
    simp [ht, hi]
  rw [List.cons_append, List.cons_append, elements, if_pos rfl, hat, hskip]

/-- A tag that opens no element. -/
theorem elements_closing {tag : List Char} (ht : '<' ∉ tag) (ht' : '>' ∉ tag)
    (ho : openingTag? tag = none) (cs : List Char) :
    elements ('<' :: tag ++ '>' :: cs) = elements cs := by
  have hat : elementAt? (tag ++ '>' :: cs) = none := by
    unfold elementAt?
    rw [takeWhile_ne ht', ho]
  have hskip : elements (tag ++ '>' :: cs) = elements cs := by
    rw [List.append_cons, elements_text]
    simp [ht]
  rw [List.cons_append, elements, if_pos rfl, hat, hskip]
  rfl

/-! ## Rows of safe pieces -/

theorem IsClass.not_mem {cls : List Char} (h : IsClass cls) :
    '<' ∉ cls ∧ '>' ∉ cls ∧ '"' ∉ cls := by
  obtain ⟨h, rfl⟩ := h
  cases h <;> decide

theorem openingTag?_span {cls : List Char} (hc : '"' ∉ cls) :
    openingTag? ("span class=".toList ++ '"' :: cls ++ ['"']) = some (cls, none) := by
  unfold openingTag?
  rw [List.append_assoc, List.cons_append, List.splitOn_append_cons_self_of_not_mem (by decide),
    List.splitOn_append_cons_self_of_not_mem hc]
  rfl

theorem openingTag?_anchor {cls href : List Char} (hc : '"' ∉ cls) (hh : '"' ∉ href) :
    openingTag?
        ("a class=".toList ++ '"' :: cls ++ '"' :: " href=".toList ++ '"' :: href ++ ['"']) =
      some (cls, some href) := by
  unfold openingTag?
  simp only [List.append_assoc, List.cons_append]
  rw [List.splitOn_append_cons_self_of_not_mem (by decide),
    List.splitOn_append_cons_self_of_not_mem hc,
    List.splitOn_append_cons_self_of_not_mem (by decide),
    List.splitOn_append_cons_self_of_not_mem hh]
  rfl

namespace Piece

theorem chars_span (cls inner cs : List Char) :
    (span cls inner).chars ++ cs =
      '<' :: ("span class=".toList ++ '"' :: cls ++ ['"']) ++ '>' :: inner ++
        '<' :: ("/span".toList ++ '>' :: cs) := by
  have h1 : "<span class=\"".toList = '<' :: "span class=".toList ++ ['"'] := by decide
  have h2 : "\">".toList = ['"', '>'] := by decide
  have h3 : "</span>".toList = '<' :: "/span".toList ++ ['>'] := by decide
  unfold chars
  rw [h1, h2, h3]
  simp only [List.append_assoc, List.cons_append, List.nil_append]

theorem chars_anchor (cls href inner cs : List Char) :
    (anchor cls href inner).chars ++ cs =
      '<' :: ("a class=".toList ++ '"' :: cls ++ '"' :: " href=".toList ++ '"' :: href ++ ['"']) ++
        '>' :: inner ++ '<' :: ("/a".toList ++ '>' :: cs) := by
  have h1 : "<a class=\"".toList = '<' :: "a class=".toList ++ ['"'] := by decide
  have h2 : "\" href=\"".toList = '"' :: " href=".toList ++ ['"'] := by decide
  have h3 : "\">".toList = ['"', '>'] := by decide
  have h4 : "</a>".toList = '<' :: "/a".toList ++ ['>'] := by decide
  unfold chars
  rw [h1, h2, h3, h4]
  simp only [List.append_assoc, List.cons_append, List.nil_append]

theorem stripTags_chars {piece : Piece} (hs : piece.Safe) (cs : List Char) :
    stripTags false (piece.chars ++ cs) = piece.body ++ stripTags false cs := by
  cases piece with
  | text run => exact stripTags_text hs.1 cs
  | span cls inner =>
    obtain ⟨hc, hi⟩ := hs
    rw [chars_span, List.append_assoc, List.cons_append (a := '>'), stripTags_tag,
      stripTags_text hi.1, ← List.cons_append, stripTags_tag (by decide)]
    · rfl
    · simp [hc.not_mem]
  | anchor cls href inner =>
    obtain ⟨hc, hh, hi⟩ := hs
    rw [chars_anchor, List.append_assoc, List.cons_append (a := '>'), stripTags_tag,
      stripTags_text hi.1, ← List.cons_append, stripTags_tag (by decide)]
    · rfl
    · simp [hc.not_mem, hh.2.1]

theorem elements_chars {piece : Piece} (hs : piece.Safe) (cs : List Char) :
    elements (piece.chars ++ cs) = piece.element?.toList ++ elements cs := by
  cases piece with
  | text run => exact elements_text hs.1 cs
  | span cls inner =>
    obtain ⟨hc, hi⟩ := hs
    rw [chars_span, elements_tag _ _ hi.1, openingTag?_span hc.not_mem.2.2, ← List.cons_append,
      elements_closing (by decide) (by decide) (by decide)]
    · rfl
    · simp [hc.not_mem]
    · simp [hc.not_mem]
  | anchor cls href inner =>
    obtain ⟨hc, hh, hi⟩ := hs
    rw [chars_anchor, elements_tag _ _ hi.1, openingTag?_anchor hc.not_mem.2.2 hh.2.2.1,
      ← List.cons_append, elements_closing (by decide) (by decide) (by decide)]
    · rfl
    · simp [hc.not_mem, hh.1]
    · simp [hc.not_mem, hh.2.1]

end Piece

/-- Without its tags, a row of safe pieces is the row of their texts. -/
theorem stripTags_pieces {pieces : List Piece} (hs : ∀ piece ∈ pieces, piece.Safe)
    (cs : List Char) :
    stripTags false (pieces.flatMap Piece.chars ++ cs) =
      pieces.flatMap Piece.body ++ stripTags false cs := by
  induction pieces with
  | nil => rfl
  | cons piece pieces ih =>
    rw [List.flatMap_cons, List.append_assoc, Piece.stripTags_chars (hs piece (by simp)),
      ih fun q hq => hs q (by simp [hq]), List.flatMap_cons, List.append_assoc]

/-- The elements found in a row of safe pieces are those that it was made of. -/
theorem elements_pieces {pieces : List Piece} (hs : ∀ piece ∈ pieces, piece.Safe)
    (cs : List Char) :
    elements (pieces.flatMap Piece.chars ++ cs) =
      pieces.filterMap Piece.element? ++ elements cs := by
  induction pieces with
  | nil => rfl
  | cons piece pieces ih =>
    rw [List.flatMap_cons, List.append_assoc, Piece.elements_chars (hs piece (by simp)),
      ih fun q hq => hs q (by simp [hq])]
    cases he : piece.element? <;> simp [he]

end CodeView.Html
