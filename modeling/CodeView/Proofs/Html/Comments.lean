import Mathlib.Data.Nat.Find
import Mathlib.Logic.Function.Iterate
import CodeView.Html.Comment
import CodeView.Proofs.Html.Entities

/-!
# Comments that end where they should

A message may hold dashes and brackets in any number and place. What stands in the comment is the
encoded message with a space between every two dashes that were neighbours.

* `spaced` puts these spaces in one pass. A round of replacing changes nothing about it
  (`spaced_replacePairs`), and it does nothing to a text without pairs (`spaced_eq_self`), so the
  loop that repeats the rounds arrives there (`splitDashes_eq`).
* `splitDashes_rounds`: the loop ends after two rounds at the latest. The first leaves no three
  dashes in a row (`not_triple_replacePairs`), and of such a text the second leaves no two
  (`not_hasPair_replacePairs`).
* `pair_prefix_drop_enclosed`: between delimiters, a text without pairs adds none to theirs.
-/

namespace CodeView.Html

/-! ## Pairs of dashes -/

theorem pair_prefix_cons {c : Char} {rest : List Char} :
    ['-', '-'] <+: c :: rest ↔ c = '-' ∧ rest.head? = some '-' := by
  cases rest with
  | nil => simp
  | cons d rest => simp [eq_comm]

theorem hasPair_iff {text : List Char} : hasPair text = true ↔ ['-', '-'] <:+: text := by
  induction text with
  | nil => simp [hasPair]
  | cons c rest ih => rw [hasPair_cons, ih, List.infix_cons_iff, pair_prefix_cons]

/-! ## One pass in place of all rounds -/

/-- A text with one space between every two dashes that are neighbours. -/
def spaced : List Char → List Char
  | [] => []
  | c :: rest =>
    if c = '-' ∧ rest.head? = some '-' then c :: ' ' :: spaced rest else c :: spaced rest

/-- What spacing does to a character depends on the next one only. -/
theorem spaced_cons_congr {c : Char} {a b : List Char} (hd : a.head? = b.head?)
    (h : spaced a = spaced b) : spaced (c :: a) = spaced (c :: b) := by
  rw [spaced, spaced, hd, h]

/-- The spaces that a round puts are among those of the single pass. -/
theorem spaced_replacePairs (text : List Char) : spaced (replacePairs text) = spaced text := by
  fun_induction replacePairs text with
  | case1 rest ih =>
    calc spaced ('-' :: ' ' :: '-' :: replacePairs rest)
        = '-' :: ' ' :: spaced ('-' :: replacePairs rest) := by
          rw [spaced, if_neg (by simp), spaced, if_neg (by simp)]
      _ = '-' :: ' ' :: spaced ('-' :: rest) := by
          rw [spaced_cons_congr (head?_replacePairs rest) ih]
      _ = spaced ('-' :: '-' :: rest) := (if_pos ⟨rfl, rfl⟩).symm
  | case2 c rest _ ih => exact spaced_cons_congr (head?_replacePairs rest) ih
  | case3 => rfl

theorem spaced_eq_self {text : List Char} (h : ¬hasPair text = true) : spaced text = text := by
  induction text with
  | nil => rfl
  | cons c rest ih =>
    rw [hasPair_cons, not_or] at h
    rw [spaced, if_neg h.1, ih h.2]

/-- The loop arrives at the single pass. -/
theorem splitDashes_eq (text : List Char) : splitDashes text = spaced text := by
  fun_induction splitDashes text with
  | case1 text _ ih => rw [ih, spaced_replacePairs]
  | case2 text h => exact (spaced_eq_self h).symm

theorem not_hasPair_spaced (text : List Char) : ¬hasPair (spaced text) = true := by
  rw [← splitDashes_eq]
  fun_induction splitDashes text with
  | case1 _ _ ih => exact ih
  | case2 _ h => exact h

/-! ## How many rounds there are -/

theorem triple_prefix_cons {c : Char} {rest : List Char} :
    ['-', '-', '-'] <+: c :: rest ↔ c = '-' ∧ ['-', '-'] <+: rest := by
  rw [List.cons_prefix_cons, eq_comm]

theorem not_pair_prefix_replacePairs (text : List Char) : ¬['-', '-'] <+: replacePairs text := by
  fun_cases replacePairs text with
  | case1 rest => simp
  | case2 c rest hc =>
    rw [pair_prefix_cons, head?_replacePairs]
    exact not_pair_of_passed hc
  | case3 => simp

/-- A round leaves no three dashes in a row. -/
theorem not_triple_replacePairs (text : List Char) :
    ¬['-', '-', '-'] <:+: replacePairs text := by
  fun_induction replacePairs text with
  | case1 rest ih =>
    have hstart := not_pair_prefix_replacePairs rest
    simp [List.infix_cons_iff, hstart, ih]
  | case2 c rest _ ih =>
    rw [List.infix_cons_iff, triple_prefix_cons, not_or, not_and]
    exact ⟨fun _ => not_pair_prefix_replacePairs rest, ih⟩
  | case3 => simp

/-- Of a text without three dashes in a row, a round leaves no two. -/
theorem not_hasPair_replacePairs {text : List Char} (h : ¬['-', '-', '-'] <:+: text) :
    ¬hasPair (replacePairs text) = true := by
  fun_induction replacePairs text with
  | case1 rest ih =>
    have hnext : ¬rest.head? = some '-' := by
      intro hd
      refine h (List.infix_cons_iff.mpr (.inl ?_))
      rw [triple_prefix_cons, pair_prefix_cons]
      exact ⟨rfl, rfl, hd⟩
    have hrest : ¬['-', '-', '-'] <:+: rest := fun hi => h (List.infix_cons (List.infix_cons hi))
    simp [hasPair_cons, head?_replacePairs, hnext, ih hrest]
  | case2 c rest hc ih =>
    rw [List.infix_cons_iff, not_or] at h
    rw [hasPair_cons, head?_replacePairs, not_or]
    exact ⟨not_pair_of_passed hc, ih h.2⟩
  | case3 => simp [hasPair]

theorem splitDashes_of_rounds {n : Nat} {text : List Char}
    (hlast : ¬hasPair (replacePairs^[n] text) = true)
    (hbefore : ∀ k < n, hasPair (replacePairs^[k] text) = true) :
    splitDashes text = replacePairs^[n] text := by
  induction n generalizing text with
  | zero =>
    rw [Function.iterate_zero, id_eq] at hlast ⊢
    rw [splitDashes, if_neg hlast]
  | succ n ih =>
    have hfirst : hasPair text = true := hbefore 0 (Nat.succ_pos n)
    rw [splitDashes, if_pos hfirst, Function.iterate_succ_apply]
    refine ih hlast fun k hk => ?_
    exact hbefore (k + 1) (Nat.succ_lt_succ hk)

/-- The loop runs for two rounds at the most, each of which finds a pair, and ends when there is
none. -/
theorem splitDashes_rounds (text : List Char) :
    ∃ n ≤ 2, splitDashes text = replacePairs^[n] text ∧
      ¬hasPair (replacePairs^[n] text) = true ∧
      ∀ k < n, hasPair (replacePairs^[k] text) = true := by
  have htwo : ¬hasPair (replacePairs^[2] text) = true :=
    not_hasPair_replacePairs (not_triple_replacePairs text)
  have hends : ∃ n, ¬hasPair (replacePairs^[n] text) = true := ⟨2, htwo⟩
  have hbefore : ∀ k < Nat.find hends, hasPair (replacePairs^[k] text) = true :=
    fun k hk => not_not.mp (Nat.find_min hends hk)
  exact ⟨Nat.find hends, Nat.find_min' hends htwo,
    splitDashes_of_rounds (Nat.find_spec hends) hbefore, Nat.find_spec hends, hbefore⟩

/-- Three dashes take two rounds. -/
example : hasPair (replacePairs ['-', '-', '-']) = true := by decide

/-! ## Where pairs stand in a comment -/

/-- Behind a text without pairs, the only pair is that of the closing delimiter. -/
theorem pair_prefix_drop_closing {text : List Char} (h : ¬hasPair text = true) (j : Nat) :
    ['-', '-'] <+: (text ++ " -->".toList).drop j ↔ j = text.length + 1 := by
  induction text generalizing j with
  | nil =>
    match j with
    | 0 | 1 | 2 | 3 => decide
    | j + 4 => simp
  | cons c rest ih =>
    rw [hasPair_cons, not_or] at h
    cases j with
    | zero =>
      have hno : ¬(c = '-' ∧ (rest ++ " -->".toList).head? = some '-') := by
        cases rest with
        | nil => simp
        | cons d rest => exact h.1
      rw [List.cons_append, List.drop_zero, pair_prefix_cons]
      exact iff_of_false hno (by simp)
    | succ j => rw [List.cons_append, List.drop_succ_cons, ih h.2, List.length_cons, Nat.succ_inj]

/-- Around a text without pairs, the only pairs are those of the delimiters. -/
theorem pair_prefix_drop_enclosed {text : List Char} (h : ¬hasPair text = true) (i : Nat) :
    ['-', '-'] <+: ("<!-- ".toList ++ text ++ " -->".toList).drop i ↔
      i = 2 ∨ i + 3 = ("<!-- ".toList ++ text ++ " -->".toList).length := by
  have hopen : "<!-- ".toList = ['<', '!', '-', '-', ' '] := by decide
  have hclose : " -->".toList.length = 4 := by decide
  have hlength : ("<!-- ".toList ++ text ++ " -->".toList).length = text.length + 9 := by
    simp only [List.length_append, hopen, hclose, List.length_cons, List.length_nil]
    omega
  rw [hlength, hopen, List.append_assoc]
  match i with
  | 0 | 1 | 2 | 3 | 4 => simp
  | j + 5 =>
    rw [show j + 5 = ['<', '!', '-', '-', ' '].length + j from Nat.add_comm j 5,
      List.drop_length_add_append, pair_prefix_drop_closing h]
    simp only [List.length_cons, List.length_nil]
    omega

theorem mem_spaced {c : Char} {text : List Char} (h : c ∈ spaced text) : c = ' ' ∨ c ∈ text := by
  fun_induction spaced text with
  | case1 => exact .inr h
  | case2 d rest _ ih =>
    rw [List.mem_cons, List.mem_cons] at h
    rcases h with rfl | rfl | h
    · exact .inr List.mem_cons_self
    · exact .inl rfl
    · exact (ih h).imp_right (List.mem_cons_of_mem d)
  | case3 d rest _ ih =>
    rcases List.mem_cons.mp h with rfl | h
    · exact .inr List.mem_cons_self
    · exact (ih h).imp_right (List.mem_cons_of_mem d)

theorem not_mem_spaced {c : Char} (hc : c ≠ ' ') {text : List Char} (h : c ∉ text) :
    c ∉ spaced text :=
  fun hm => (mem_spaced hm).elim hc h

/-! ## Comments -/

theorem toList_commentOf (message : String) :
    (commentOf message).toList =
      "<!-- ".toList ++ spaced (encodeText message).toList ++ " -->".toList := by
  unfold commentOf
  rw [splitDashes_eq, ← toList_encodeText, String.toList_append, String.toList_append,
    String.toList_ofList (l := spaced _)]

/-- **A comment ends at its end.** The loop that separates the dashes of an encoded message ends,
after two rounds at the latest, and has put one space between every two neighbours and done nothing
else. What it leaves has no two dashes in a row and no brackets, so the two dashes of the opening
and of the closing delimiter are the only ones that stand together in the comment. -/
theorem commentOf_closes_once (message : String) :
    (∃ rounds ≤ 2,
      splitDashes (encodeText message).toList = replacePairs^[rounds] (encodeText message).toList ∧
      ¬hasPair (replacePairs^[rounds] (encodeText message).toList) = true ∧
      ∀ k < rounds, hasPair (replacePairs^[k] (encodeText message).toList) = true) ∧
    commentOf message = "<!-- " ++ String.ofList (spaced (encodeText message).toList) ++ " -->" ∧
    (¬['-', '-'] <:+: spaced (encodeText message).toList ∧
      '<' ∉ spaced (encodeText message).toList ∧ '>' ∉ spaced (encodeText message).toList) ∧
    ∀ i, ['-', '-'] <+: (commentOf message).toList.drop i ↔
      i = 2 ∨ i + 3 = (commentOf message).toList.length := by
  obtain ⟨hopen, hclose, -⟩ := safeText_encodeText message
  have hpairs := not_hasPair_spaced (encodeText message).toList
  refine ⟨splitDashes_rounds _, ?_, ⟨?_, ?_, ?_⟩, fun i => ?_⟩
  · rw [← String.toList_inj, toList_commentOf, String.toList_append, String.toList_append,
      String.toList_ofList (l := spaced _)]
  · rwa [← hasPair_iff]
  · exact not_mem_spaced (by decide) hopen
  · exact not_mem_spaced (by decide) hclose
  · rw [toList_commentOf]
    exact pair_prefix_drop_enclosed hpairs i

end CodeView.Html
