import CodeView.View.Render

/-!
# Simple names within full names

The simple name of a type is cut out of its full name: after the last separator, up to the first
mark of an arity. There is one such cut in every text, and in a full name that is put together from
segments it is the name of the last one.

* `Cut full before name suffix`: what a cut is. `exists_cut` finds one, `Cut.name_eq` says that the
  name of any other is the same.
* `Segment`, `joined`: full names as they are put together. A separator in front moves the start of
  a cut (`Cut.after`), so the cut of the last segment is the cut of all (`cut_joined`).
-/

namespace CodeView.Package

/-! ## Cuts -/

/-- A full name in three parts: up to a separator or nothing, a name without separators and marks,
and an arity or nothing. -/
structure Cut (full before name suffix : List Char) : Prop where
  joins : full = before ++ name ++ suffix
  opens : before = [] ∨ ∃ front c, before = front ++ [c] ∧ isSeparator c = true
  plain : ∀ c ∈ name, isSeparator c = false ∧ c ≠ arityMark
  closes : suffix = [] ∨ ∃ arity, suffix = arityMark :: arity
  inside : ∀ c ∈ suffix, isSeparator c = false

section

variable {full before name suffix : List Char}

theorem isSeparator_of_mem_lastSegment {c : Char} (h : c ∈ lastSegment full) :
    isSeparator c = false := by
  have hall := List.all_eq_true.1
    (List.all_takeWhile (p := fun c => !isSeparator c) (l := full.reverse))
  simpa using hall c (List.mem_reverse.1 h)

/-- What stands in front of the last segment ends in a separator. -/
theorem exists_front (full : List Char) :
    ∃ before, full = before ++ lastSegment full ∧
      (before = [] ∨ ∃ front c, before = front ++ [c] ∧ isSeparator c = true) := by
  refine ⟨(full.reverse.dropWhile fun c => !isSeparator c).reverse, ?_, ?_⟩
  · unfold lastSegment
    rw [← List.reverse_append, List.takeWhile_append_dropWhile, List.reverse_reverse]
  · have hhead := List.head?_dropWhile_not (fun c => !isSeparator c) full.reverse
    cases hrest : full.reverse.dropWhile fun c => !isSeparator c with
    | nil => exact .inl rfl
    | cons c rest =>
      rw [hrest] at hhead
      exact .inr ⟨rest.reverse, c, List.reverse_cons, by simpa using hhead⟩

/-- Every text has a cut, and its name is the simple name. -/
theorem exists_cut (full : List Char) :
    ∃ before suffix, Cut full before (simpleNameChars full) suffix := by
  obtain ⟨before, hfull, hopens⟩ := exists_front full
  have hsplit : simpleNameChars full ++ (lastSegment full).dropWhile (· != arityMark) =
      lastSegment full := List.takeWhile_append_dropWhile
  refine ⟨before, (lastSegment full).dropWhile (· != arityMark), ?_, hopens, ?_, ?_, ?_⟩
  · rw [List.append_assoc, hsplit]
    exact hfull
  · intro c hc
    have hall := List.all_eq_true.1
      (List.all_takeWhile (p := (· != arityMark)) (l := lastSegment full))
    have hlast : c ∈ lastSegment full := hsplit ▸ List.mem_append_left _ hc
    exact ⟨isSeparator_of_mem_lastSegment hlast, by simpa using hall c hc⟩
  · have hhead := List.head?_dropWhile_not (· != arityMark) (lastSegment full)
    cases hrest : (lastSegment full).dropWhile (· != arityMark) with
    | nil => exact .inl rfl
    | cons c rest =>
      rw [hrest] at hhead
      have hc : c = arityMark := by simpa using hhead
      exact .inr ⟨rest, by rw [hc]⟩
  · intro c hc
    have hlast : c ∈ lastSegment full := hsplit ▸ List.mem_append_right _ hc
    exact isSeparator_of_mem_lastSegment hlast

namespace Cut

theorem lastSegment_eq (h : Cut full before name suffix) : lastSegment full = name ++ suffix := by
  have hplain : ∀ c ∈ (name ++ suffix).reverse, (!isSeparator c) = true := by
    intro c hc
    rcases List.mem_append.1 (List.mem_reverse.1 hc) with hc | hc
    · rw [(h.plain c hc).1]; rfl
    · rw [h.inside c hc]; rfl
  have hstop : before.reverse.takeWhile (fun c => !isSeparator c) = [] := by
    rcases h.opens with rfl | ⟨front, c, rfl, hc⟩
    · rfl
    · simp [hc]
  unfold lastSegment
  rw [h.joins, List.append_assoc, List.reverse_append, List.takeWhile_append_of_pos hplain, hstop,
    List.append_nil, List.reverse_reverse]

/-- All cuts of a text have the same name. -/
theorem name_eq (h : Cut full before name suffix) : simpleNameChars full = name := by
  have hplain : ∀ c ∈ name, (c != arityMark) = true := fun c hc => by simpa using (h.plain c hc).2
  have hstop : suffix.takeWhile (· != arityMark) = [] := by
    rcases h.closes with rfl | ⟨arity, rfl⟩
    · rfl
    · simp
  unfold simpleNameChars
  rw [h.lastSegment_eq, List.takeWhile_append_of_pos hplain, hstop, List.append_nil]

/-- A text and a separator in front of a full name leave the name as it is. -/
theorem after (h : Cut full before name suffix) (front : List Char) {c : Char}
    (hc : isSeparator c = true) :
    Cut (front ++ c :: full) (front ++ c :: before) name suffix := by
  refine ⟨by rw [h.joins]; simp, ?_, h.plain, h.closes, h.inside⟩
  rcases h.opens with rfl | ⟨inner, d, rfl, hd⟩
  · exact .inr ⟨front, c, rfl, hc⟩
  · exact .inr ⟨front ++ c :: inner, d, by simp, hd⟩

end Cut

end

/-! ## Segments -/

/-- A segment of a full name: a simple name, and what follows the mark if there is one. -/
structure Segment where
  name : List Char
  arity : Option (List Char)
  name_plain : ∀ c ∈ name, isSeparator c = false ∧ c ≠ arityMark
  arity_inside : ∀ digits ∈ arity, ∀ c ∈ digits, isSeparator c = false

/-- What stands between two segments. -/
inductive Separator where
  | dot
  | plus
  | slash
  deriving DecidableEq, Repr

/-- The character of a separator. -/
def Separator.char : Separator → Char
  | .dot => '.'
  | .plus => '+'
  | .slash => '/'

/-- The arity of a segment with its mark. -/
def Segment.suffix (s : Segment) : List Char :=
  match s.arity with
  | none => []
  | some digits => arityMark :: digits

/-- The full name of a type that is given by its segments, each but the first with the separator in
front of it. -/
def joined (first : Segment) : List (Separator × Segment) → List Char
  | [] => first.name ++ first.suffix
  | (separator, next) :: rest => first.name ++ first.suffix ++ separator.char :: joined next rest

/-- The last of the segments. -/
def lastOf (first : Segment) : List (Separator × Segment) → Segment
  | [] => first
  | (_, next) :: rest => lastOf next rest

theorem isSeparator_char (separator : Separator) : isSeparator separator.char = true := by
  cases separator <;> rfl

theorem Segment.cut (s : Segment) : Cut (s.name ++ s.suffix) [] s.name s.suffix := by
  refine ⟨rfl, .inl rfl, s.name_plain, ?_, ?_⟩
  · unfold Segment.suffix
    cases s.arity with
    | none => exact .inl rfl
    | some digits => exact .inr ⟨digits, rfl⟩
  · intro c hc
    unfold Segment.suffix at hc
    cases harity : s.arity with
    | none =>
      rw [harity] at hc
      cases hc
    | some digits =>
      rw [harity] at hc
      rcases List.mem_cons.1 hc with rfl | hc
      · rfl
      · exact s.arity_inside digits harity c hc

/-- The cut of a full name is the cut of its last segment. -/
theorem cut_joined (first : Segment) (rest : List (Separator × Segment)) :
    ∃ before, Cut (joined first rest) before (lastOf first rest).name
      (lastOf first rest).suffix := by
  induction rest generalizing first with
  | nil => exact ⟨[], first.cut⟩
  | cons step rest ih =>
    obtain ⟨before, hcut⟩ := ih step.2
    exact ⟨_, hcut.after (first.name ++ first.suffix) (isSeparator_char step.1)⟩

/-! ## Simple names -/

/-- **The simple name is that of the last segment.** Every text at all is cut: what ends in a
separator, the simple name, and an arity. In a full name that is joined from segments the simple
name is the name of the last of them, and the interface view of the type exempts that name. -/
theorem simpleName_exact (full : String) :
    (∃ before suffix : String, full = before ++ simpleName full ++ suffix ∧
      (before = "" ∨ ∃ front c, before.toList = front ++ [c] ∧ isSeparator c = true) ∧
      (∀ c ∈ (simpleName full).toList, isSeparator c = false ∧ c ≠ arityMark) ∧
      (suffix = "" ∨ ∃ arity, suffix.toList = arityMark :: arity) ∧
      ∀ c ∈ suffix.toList, isSeparator c = false) ∧
    ∀ first rest, full.toList = joined first rest →
      simpleName full = String.ofList (lastOf first rest).name ∧
      ∀ (s : View.Services) (source : View.Source) (files : Files) (tree : Syntax.Tree),
        source files full = .ok tree →
        View.showInterface s (some source) files full =
          .ok (Html.render s.links s.settings.layout (Interface.prune
            ⟨String.ofList (lastOf first rest).name, s.settings.noise⟩ tree).1) := by
  have hname : (simpleName full).toList = simpleNameChars full.toList := String.toList_ofList
  constructor
  · obtain ⟨before, suffix, hcut⟩ := exists_cut full.toList
    refine ⟨.ofList before, .ofList suffix, ?_, ?_, ?_, ?_, ?_⟩
    · rw [← String.toList_inj, String.toList_append, String.toList_append, hname]
      simpa using hcut.joins
    · rcases hcut.opens with rfl | ⟨front, c, hbefore, hc⟩
      · exact .inl rfl
      · exact .inr ⟨front, c, by rw [String.toList_ofList, hbefore], hc⟩
    · rw [hname]
      exact hcut.plain
    · rcases hcut.closes with rfl | ⟨arity, harity⟩
      · exact .inl rfl
      · exact .inr ⟨arity, by rw [String.toList_ofList, harity]⟩
    · rw [String.toList_ofList]
      exact hcut.inside
  · intro first rest hfull
    obtain ⟨before, hcut⟩ := cut_joined first rest
    have hsimple : simpleName full = String.ofList (lastOf first rest).name := by
      unfold simpleName
      rw [hfull, hcut.name_eq]
    refine ⟨hsimple, fun s source files tree hsource => ?_⟩
    unfold View.showInterface Settings.policy
    simp only [hsource, hsimple]

/-- The segments of a type within a type: an arity on both, with a mark inside the last one. -/
def partSegments : Segment × List (Separator × Segment) :=
  (⟨"Widgets".toList, none, by simp [isSeparator, arityMark], by simp⟩,
    [(.dot, ⟨"Box".toList, some ['1'], by simp [isSeparator, arityMark],
        by simp [isSeparator]⟩),
      (.plus, ⟨"Part".toList, some [arityMark, '2', 'x'], by simp [isSeparator, arityMark],
        by simp [isSeparator, arityMark]⟩)])

/-- A private type of the name `Part`. -/
def privatePart : Syntax.Tree :=
  let declared := Syntax.Tree.empty.append 0 .member (.typeDecl .classType (.single .privateAccess))
  declared.appendIdentifier 1 .name "Part"

/-- The interface view of the type keeps it, private as it is. -/
theorem simpleName_exact_part :
    ("Widgets.Box`1+Part``2x".toList = joined partSegments.1 partSegments.2 ∧
      simpleName "Widgets.Box`1+Part``2x" = "Part") ∧
    ((Interface.prune ⟨"Part", []⟩ privatePart).1.isAttached 1 = true ∧
      (Interface.prune ⟨"Box", []⟩ privatePart).1.isAttached 1 = false) ∧
    View.showInterface ⟨Html.noLinks, { noise := [] }⟩ (some fun _ _ => .ok privatePart)
      ⟨fun _ => .error .notFound⟩ "Widgets.Box`1+Part``2x" =
        .ok (Html.render Html.noLinks .usual (Interface.prune ⟨"Part", []⟩ privatePart).1) := by
  have hfull : "Widgets.Box`1+Part``2x".toList = joined partSegments.1 partSegments.2 := rfl
  obtain ⟨hname, hview⟩ := (simpleName_exact "Widgets.Box`1+Part``2x").2 _ _ hfull
  exact ⟨⟨hfull, hname⟩, by decide +kernel, hview _ _ _ _ rfl⟩

end CodeView.Package
