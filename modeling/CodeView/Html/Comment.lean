import CodeView.Html.Entity

/-!
# Messages as comments

A comment of a page ends at the first `-->`, and two dashes in a row are not allowed inside. So a
message is encoded as running text and its dashes are separated by a space until no two stand
together.

Replacing pairs of dashes from left to right leaves pairs behind (`---` gives `- --`), so
`splitDashes` repeats the replacement. Each round leaves fewer places where two dashes stand
together (`pairCount_replacePairs_lt`).
-/

namespace CodeView.Html

/-- Replaces every pair of dashes, from left to right, by dashes with a space between. -/
def replacePairs : List Char → List Char
  | '-' :: '-' :: rest => '-' :: ' ' :: '-' :: replacePairs rest
  | c :: rest => c :: replacePairs rest
  | [] => []

/-- Whether two dashes stand together. -/
def hasPair : List Char → Bool
  | [] => false
  | c :: rest => c == '-' && rest.head? == some '-' || hasPair rest

theorem hasPair_cons {c : Char} {rest : List Char} :
    hasPair (c :: rest) = true ↔ (c = '-' ∧ rest.head? = some '-') ∨ hasPair rest = true := by
  simp [hasPair]

/-! ## Rounds end -/

/-- In how many places two dashes stand together. -/
def pairCount : List Char → Nat
  | [] => 0
  | c :: rest => (if c = '-' ∧ rest.head? = some '-' then 1 else 0) + pairCount rest

/-- A round leaves the first character. -/
theorem head?_replacePairs (text : List Char) : (replacePairs text).head? = text.head? := by
  fun_cases replacePairs text <;> rfl

/-- A round passes over a character that starts no pair. -/
theorem not_pair_of_passed {c : Char} {rest : List Char}
    (hc : ∀ others, c = '-' → rest = '-' :: others → False) :
    ¬(c = '-' ∧ rest.head? = some '-') := by
  rintro ⟨rfl, hd⟩
  obtain ⟨others, rfl⟩ := List.head?_eq_some_iff.mp hd
  exact hc others rfl rfl

theorem pairCount_replacePairs_le (text : List Char) :
    pairCount (replacePairs text) ≤ pairCount text := by
  fun_induction replacePairs text with
  | case1 rest ih =>
    simp only [pairCount, head?_replacePairs, List.head?_cons]
    grind
  | case2 c rest _ ih =>
    simp only [pairCount, head?_replacePairs]
    omega
  | case3 => exact Nat.le_refl 0

/-- A round that finds a pair leaves fewer. -/
theorem pairCount_replacePairs_lt {text : List Char} (h : hasPair text = true) :
    pairCount (replacePairs text) < pairCount text := by
  fun_induction replacePairs text with
  | case1 rest =>
    have hle := pairCount_replacePairs_le rest
    simp only [pairCount, head?_replacePairs, List.head?_cons]
    grind
  | case2 c rest hc ih =>
    have hno := not_pair_of_passed hc
    have hrest : hasPair rest = true := (hasPair_cons.mp h).resolve_left hno
    simp only [pairCount, head?_replacePairs, if_neg hno, Nat.zero_add]
    exact ih hrest
  | case3 => exact absurd h (by decide)

/-- Replaces pairs of dashes until none is left. -/
def splitDashes (text : List Char) : List Char :=
  if hasPair text then splitDashes (replacePairs text) else text
termination_by pairCount text
decreasing_by exact pairCount_replacePairs_lt ‹_›

/-- A message as a comment that cannot end early. -/
def commentOf (message : String) : String :=
  "<!-- " ++ String.ofList (splitDashes (encodeChars message.toList)) ++ " -->"

end CodeView.Html
