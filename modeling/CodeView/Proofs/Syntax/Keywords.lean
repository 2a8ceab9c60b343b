import CodeView.Proofs.Json.Carries
import CodeView.Proofs.Syntax.Modifiers
import CodeView.Syntax.Format

/-!
# Lists of modifier keywords

A list of keywords is read as the set of the modifiers that it names, so order and repetition are
gone once it is read, and a set has one list that is written for it.

* `ofKeyword?_eq_some_iff`: no two modifiers have the same keyword.
* `ofKeywords_eq_ok_iff`, `ofKeywords_eq_error_iff`: what one pass over a list gives, the set of the
  named modifiers or the first word that is no keyword.
* `ext_contains`, `contains_of_keywords`: a set is its members, and a member is a word of the list.
* `modifiers_of_list`: wherever a list of words is read from, that is what is made of it.
-/

namespace CodeView.Syntax

open CodeView.Json

namespace Modifier

/-- The keywords, in the order in which they are written. -/
def keywordTable : List String :=
  all.map keyword

theorem ofKeyword?_keyword (m : Modifier) : ofKeyword? m.keyword = some m := by
  cases m <;> rfl

theorem keyword_inj {a b : Modifier} (h : a.keyword = b.keyword) : a = b := by
  have ha := ofKeyword?_keyword a
  rw [h, ofKeyword?_keyword b] at ha
  exact (Option.some.inj ha).symm

theorem ofKeyword?_eq_some_iff {word : String} {m : Modifier} :
    ofKeyword? word = some m ↔ m.keyword = word := by
  constructor
  · intro h
    simpa using List.find?_some h
  · rintro rfl
    exact ofKeyword?_keyword m

theorem mem_keywordTable {word : String} :
    word ∈ keywordTable ↔ ∃ m : Modifier, m.keyword = word := by
  unfold keywordTable
  rw [List.mem_map]
  exact ⟨fun ⟨m, _, h⟩ => ⟨m, h⟩, fun ⟨m, h⟩ => ⟨m, mem_all m, h⟩⟩

theorem ofKeyword?_eq_none_iff {word : String} : ofKeyword? word = none ↔ word ∉ keywordTable := by
  rw [mem_keywordTable]
  constructor
  · rintro h ⟨m, hm⟩
    rw [ofKeyword?_eq_some_iff.2 hm] at h
    cases h
  · intro h
    cases hword : ofKeyword? word with
    | none => rfl
    | some m => exact absurd ⟨m, ofKeyword?_eq_some_iff.1 hword⟩ h

theorem nodup_keywordTable : keywordTable.Nodup := by
  have hall : all.Nodup := by decide
  exact hall.map fun _ _ h => keyword_inj h

end Modifier

namespace Modifiers

open Modifier (keywordTable)

/-! ## Sets by their members -/

/-- A set is given by its members. -/
theorem ext_contains {a b : Modifiers} (h : ∀ m, a.contains m = b.contains m) : a = b := by
  have hmask : a.mask = b.mask := by
    refine BitVec.eq_of_getLsbD_eq fun i hi => ?_
    obtain ⟨m, rfl⟩ := Modifier.exists_bit hi
    exact h m
  cases a
  cases b
  exact congrArg Modifiers.mk hmask

theorem ofList_append (a b : List Modifier) : ofList (a ++ b) = ofList a ∪ ofList b := by
  refine ext_contains fun m => ?_
  rw [contains_union, Bool.eq_iff_iff, Bool.or_eq_true, contains_ofList, contains_ofList,
    contains_ofList, List.mem_append]

theorem ofList_toList (s : Modifiers) : ofList s.toList = s := by
  refine ext_contains fun m => ?_
  rw [Bool.eq_iff_iff, contains_ofList]
  unfold toList
  rw [List.mem_filter]
  exact and_iff_right (Modifier.mem_all m)

/-! ## One pass over a list -/

/-- A list that can be read lists the keywords of modifiers, and is read as their set. -/
theorem ofKeywords_eq_ok_iff {words : List String} {s : Modifiers} :
    ofKeywords words = .ok s ↔ ∃ list, words = list.map Modifier.keyword ∧ s = ofList list := by
  induction words generalizing s with
  | nil =>
    constructor
    · intro h
      cases h
      exact ⟨[], rfl, rfl⟩
    · rintro ⟨list, hnil, rfl⟩
      rw [List.map_eq_nil_iff.1 hnil.symm]
      rfl
  | cons word rest ih =>
    constructor
    · intro h
      unfold ofKeywords at h
      cases hword : Modifier.ofKeyword? word with
      | none => simp [hword] at h
      | some m =>
        simp only [hword] at h
        obtain ⟨t, ht, rfl⟩ := map_eq_ok.1 h
        obtain ⟨list, hrest, rfl⟩ := ih.1 ht
        have hkeyword := Modifier.ofKeyword?_eq_some_iff.1 hword
        exact ⟨m :: list, by rw [List.map_cons, hkeyword, hrest], rfl⟩
    · rintro ⟨list, hlist, rfl⟩
      obtain ⟨m, others, rfl, hkeyword, hrest⟩ := List.map_eq_cons_iff.1 hlist.symm
      have hword := Modifier.ofKeyword?_eq_some_iff.2 hkeyword
      unfold ofKeywords
      simp only [hword, ih.2 ⟨others, hrest.symm, rfl⟩]
      rfl

/-- A list that cannot be read has a word that is no keyword, and the first is named. -/
theorem ofKeywords_eq_error_iff {words : List String} {word : String} :
    ofKeywords words = .error word ↔ words.find? (fun w => w ∉ keywordTable) = some word := by
  induction words with
  | nil => constructor <;> intro h <;> cases h
  | cons first rest ih =>
    unfold ofKeywords
    cases hfirst : Modifier.ofKeyword? first with
    | none =>
      rw [List.find?_cons_of_pos (by simpa using Modifier.ofKeyword?_eq_none_iff.1 hfirst)]
      simp
    | some m =>
      have hmem : first ∈ keywordTable :=
        Modifier.mem_keywordTable.2 ⟨m, Modifier.ofKeyword?_eq_some_iff.1 hfirst⟩
      rw [List.find?_cons_of_neg (by simpa using hmem), ← ih]
      cases ofKeywords rest <;> simp [Except.map]

theorem exists_ofKeywords_iff (words : List String) :
    (∃ s, ofKeywords words = .ok s) ↔ ∀ word ∈ words, word ∈ keywordTable := by
  constructor
  · rintro ⟨s, h⟩ word hword
    obtain ⟨list, rfl, -⟩ := ofKeywords_eq_ok_iff.1 h
    obtain ⟨m, -, hm⟩ := List.mem_map.1 hword
    exact Modifier.mem_keywordTable.2 ⟨m, hm⟩
  · intro h
    cases hread : ofKeywords words with
    | ok s => exact ⟨s, rfl⟩
    | error word =>
      have hfind := ofKeywords_eq_error_iff.1 hread
      have hmem := h word (List.mem_of_find?_eq_some hfind)
      have hnot := List.find?_some hfind
      simp [hmem] at hnot

/-! ## What a list that is read gives -/

variable {words more : List String} {s t : Modifiers}

theorem contains_of_keywords (h : ofKeywords words = .ok s) (m : Modifier) :
    s.contains m = true ↔ m.keyword ∈ words := by
  obtain ⟨list, rfl, rfl⟩ := ofKeywords_eq_ok_iff.1 h
  rw [contains_ofList, List.mem_map]
  constructor
  · exact fun hm => ⟨m, hm, rfl⟩
  · rintro ⟨a, ha, hkeyword⟩
    exact Modifier.keyword_inj hkeyword ▸ ha

theorem keywords_of_ofKeywords (h : ofKeywords words = .ok s) :
    s.keywords = keywordTable.filter (· ∈ words) := by
  unfold keywords toList keywordTable
  rw [List.filter_map]
  congr 1
  refine List.filter_congr fun m _ => ?_
  rw [Bool.eq_iff_iff, contains_of_keywords h]
  simp

theorem ofKeywords_congr (h : ofKeywords words = .ok s) (hmem : ∀ w, w ∈ more ↔ w ∈ words) :
    ofKeywords more = .ok s := by
  obtain ⟨t, ht⟩ := (exists_ofKeywords_iff more).2 fun w hw =>
    (exists_ofKeywords_iff words).1 ⟨s, h⟩ w ((hmem w).1 hw)
  have hsame : t = s := by
    refine ext_contains fun m => ?_
    rw [Bool.eq_iff_iff, contains_of_keywords ht, contains_of_keywords h]
    exact hmem _
  rw [ht, hsame]

theorem ofKeywords_append (h : ofKeywords words = .ok s) (hmore : ofKeywords more = .ok t) :
    ofKeywords (words ++ more) = .ok (s ∪ t) := by
  obtain ⟨a, rfl, rfl⟩ := ofKeywords_eq_ok_iff.1 h
  obtain ⟨b, rfl, rfl⟩ := ofKeywords_eq_ok_iff.1 hmore
  exact ofKeywords_eq_ok_iff.2 ⟨a ++ b, List.map_append.symm, (ofList_append a b).symm⟩

theorem ofKeywords_keywords (s : Modifiers) : ofKeywords s.keywords = .ok s :=
  ofKeywords_eq_ok_iff.2 ⟨s.toList, rfl, (ofList_toList s).symm⟩

/-! ## Reading -/

/-- The fault of a word that is no keyword. -/
def unknownModifier (word : String) : Fault :=
  .unplaced (.rejected ("unknown modifier `" ++ word ++ "`"))

/-- A list of words as a value in memory. -/
def wordList (words : List String) : Value :=
  .array (words.map fun word => .scalar (.string word))

/-- Reads modifiers from a list of words in memory. -/
def read (words : List String) : Except ReadError Modifiers :=
  decodeValue Format.modifiers (wordList words)

theorem modifiers_of_list {ctx : Context} {r : Reading} (h : list string ctx r = .ok words) :
    Format.modifiers ctx r = (ofKeywords words).mapError unknownModifier := by
  unfold Format.modifiers
  rw [h, ok_bind]
  cases ofKeywords words with
  | ok s => rfl
  | error word =>
    have hticked : "unknown modifier " ++ ticked word = "unknown modifier `" ++ word ++ "`" := by
      unfold ticked
      rw [← String.append_assoc, ← String.append_assoc]
      rfl
    simp only [hticked]
    rfl

theorem list_wordList (words : List String) :
    list string Context.value (Reading.ofValue (wordList words).canonical) = .ok words := by
  refine list_eq_ok.2 ⟨Context.value, Span.none, _, rfl, rfl, ?_⟩
  rw [Reading.ofItems_eq, Value.canonicalItems_eq]
  induction words with
  | nil => rfl
  | cons word rest ih =>
    simp only [List.map_cons, List.mapM_cons, bind_eq_ok]
    exact ⟨word, rfl, rest, ih, rfl⟩

theorem read_eq (words : List String) :
    read words = (ofKeywords words).mapError fun word => ⟨(unknownModifier word).cause, none⟩ := by
  unfold read decodeValue
  rw [modifiers_of_list (list_wordList words)]
  cases ofKeywords words <;> rfl

theorem read_eq_ok : read words = .ok s ↔ ofKeywords words = .ok s := by
  rw [read_eq, mapError_eq_ok]

/-- **Lists of modifiers have one form.** A list is read if all its words are keywords; else the
error names the first that is not. The set that is read lists the keywords of the list, each once
and in writing order. It does not change with the order and the repetition of the words, two lists
after one another give the union of their sets, and what a set lists is read as this set. Lists of
words in texts and among held members are read like those in memory. -/
theorem read_canonical (words : List String) :
    ((∃ s, read words = .ok s) ↔ ∀ word ∈ words, word ∈ keywordTable) ∧
    (∀ e, read words = .error e ↔ ∃ word, words.find? (fun w => w ∉ keywordTable) = some word ∧
      e = ⟨.rejected ("unknown modifier `" ++ word ++ "`"), none⟩) ∧
    (∀ s, read words = .ok s →
      (s.keywords = keywordTable.filter (· ∈ words) ∧ s.keywords.Nodup) ∧
      (∀ others, (∀ word, word ∈ others ↔ word ∈ words) → read others = .ok s) ∧
      ∀ more t, read more = .ok t → read (words ++ more) = .ok (s ∪ t)) ∧
    (∀ s : Modifiers, read s.keywords = .ok s) ∧
    ∀ ctx r, list string ctx r = .ok words →
      Format.modifiers ctx r = (read words).mapError fun e => .unplaced e.cause := by
  simp only [read_eq_ok]
  refine ⟨exists_ofKeywords_iff words, fun e => ?_, fun s h => ⟨⟨keywords_of_ofKeywords h, ?_⟩,
    fun others hsame => ofKeywords_congr h hsame, fun more t hmore => ofKeywords_append h hmore⟩,
    ofKeywords_keywords, fun ctx r h => ?_⟩
  · simp only [← ofKeywords_eq_error_iff, read_eq]
    cases ofKeywords words with
    | ok s => simp [Except.mapError]
    | error word => simp [Except.mapError, unknownModifier, Fault.unplaced, eq_comm]
  · rw [keywords_of_ofKeywords h]
    exact Modifier.nodup_keywordTable.filter _
  · rw [modifiers_of_list h, read_eq]
    cases ofKeywords words <;> rfl

/-- The items `["static", "public", "static"]` of a list in a text. -/
def staticItems : List Reading :=
  [.scalar .none (.string "static"), .scalar .none (.string "public"),
    .scalar .none (.string "static")]

/-- A keyword twice and out of order. One more list adds to the set, and of two strange words the
first is named. -/
theorem read_canonical_static :
    read ["static", "public", "static"] = .ok (.ofList [.publicAccess, .staticMember]) ∧
    read ["public", "static"] = .ok (.ofList [.publicAccess, .staticMember]) ∧
    read (["static", "public", "static"] ++ ["new"]) =
      .ok (.ofList [.publicAccess, .staticMember] ∪ .single .hiding) ∧
    Format.modifiers Context.text (.array .none staticItems none) =
      .ok (.ofList [.publicAccess, .staticMember]) ∧
    read ["public", "friend", "let"] = .error ⟨.rejected "unknown modifier `friend`", none⟩ := by
  have hread : read ["static", "public", "static"] =
      .ok (.ofList [.publicAccess, .staticMember]) := rfl
  obtain ⟨-, -, hset, -, helsewhere⟩ := read_canonical ["static", "public", "static"]
  obtain ⟨-, hsame, happend⟩ := hset _ hread
  refine ⟨hread, hsame _ (fun word => ?_), happend _ _ rfl, ?_, ?_⟩
  · simp only [List.mem_cons, List.not_mem_nil, or_false]
    tauto
  · rw [helsewhere Context.text (.array .none staticItems none) rfl, hread]
    rfl
  · exact ((read_canonical ["public", "friend", "let"]).2.1 _).2 ⟨"friend", by decide +kernel, rfl⟩

end Modifiers

end CodeView.Syntax
