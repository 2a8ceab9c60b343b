import CodeView.View.Render

/-!
# Views that are asked for one after the other

The slots are the only thing that one view leaves behind for the next. A slot that has been used
gives what it gave the first time, and files do not change, so no view shows what was asked for
before. The journal of the recipes that are followed grows by one label when a slot is filled, and
never again for that slot.

* `Slot.Settled`: a slot is as it was before any use, or is filled with what the first use gives,
  and the journal says the same of its recipe. Every use keeps this (`Slot.Settled.get`).
* `Slots.Settled`: both slots are settled, also if they are one. Every request keeps this and gets
  the answer that it would get first (`Request.render_settled`).
* `renderAll_independent`: so every request of a sequence gets that answer, and no recipe is
  followed twice.
-/

namespace CodeView.View

/-- The journal goes from one piece of work to the next. -/
theorem run_bind {α β : Type} (x : Journal α) (f : α → Journal β) (journal : List String) :
    (x >>= f).run journal = (f (x.run journal).1).run (x.run journal).2 :=
  rfl

/-! ## One slot -/

namespace Slot

variable {files : Files} {label : String} {a b : Slot} {journal : List String}

/-- A slot that has not been used: one whose recipe depends on the files alone, or one that holds a
source. -/
inductive Fresh (label : String) : Slot → Prop where
  | ofRecipe (make : Files → Option Source) : Fresh label (.ofRecipe label make)
  | ready (source : Source) : Fresh label (.ready label source)

/-- What the first use of a slot gives. -/
def source (a : Slot) (files : Files) : Option Source :=
  ((a.get files).run []).1.1

/-- How often the recipe of a slot is followed if the slot is used at all. -/
def cost (a : Slot) : Nat :=
  if a.isFilled then 0 else 1

/-- `b` is what some uses have made of the fresh slot `a`, and the journal is from after them. -/
structure Settled (files : Files) (label : String) (a b : Slot) (journal : List String) : Prop where
  fresh : a.Fresh label
  state : b = a ∧ journal.count label = 0 ∨
    b.filled = some (a.source files) ∧ journal.count label = a.cost

theorem Fresh.settled (h : a.Fresh label) (files : Files) : Settled files label a a [] :=
  ⟨h, .inl ⟨rfl, rfl⟩⟩

theorem get_filled {source : Option Source} (h : b.filled = some source) (files : Files)
    (journal : List String) : (b.get files).run journal = ((source, b), journal) := by
  unfold get
  rw [h]
  rfl

/-- The first use of a slot. -/
theorem Fresh.get (h : a.Fresh label) (files : Files) (hnew : journal.count label = 0) :
    ∃ b journal', (a.get files).run journal = ((a.source files, b), journal') ∧
      b.filled = some (a.source files) ∧ journal'.count label = a.cost ∧
      ∀ other, other ≠ label → journal'.count other = journal.count other := by
  cases h with
  | ofRecipe make =>
    refine ⟨_, label :: journal, rfl, rfl, ?_, fun other hne => ?_⟩
    · rw [List.count_cons_self, hnew]
      rfl
    · rw [List.count_cons_of_ne hne.symm]
  | ready source => exact ⟨_, journal, rfl, rfl, hnew, fun _ _ => rfl⟩

/-- Every use gives what the first gives, and notes the recipe only if it is the first. -/
theorem Settled.get (h : Settled files label a b journal) :
    ∃ b' journal', (b.get files).run journal = ((a.source files, b'), journal') ∧
      Settled files label a b' journal' ∧
      ∀ other, other ≠ label → journal'.count other = journal.count other := by
  obtain ⟨hfresh, ⟨rfl, hnew⟩ | ⟨hfilled, hcount⟩⟩ := h
  · obtain ⟨b', journal', hrun, hfilled, hcount, hothers⟩ := hfresh.get files hnew
    exact ⟨b', journal', hrun, ⟨hfresh, .inr ⟨hfilled, hcount⟩⟩, hothers⟩
  · exact ⟨b, journal, get_filled hfilled files journal, ⟨hfresh, .inr ⟨hfilled, hcount⟩⟩,
      fun _ _ => rfl⟩

theorem Settled.of_count (h : Settled files label a b journal) {journal' : List String}
    (hcount : journal'.count label = journal.count label) : Settled files label a b journal' :=
  ⟨h.fresh, by rw [hcount]; exact h.state⟩

/-- The recipe of a slot is followed at most once. -/
theorem Settled.count_le_one (h : Settled files label a b journal) : journal.count label ≤ 1 := by
  have hcost : a.cost ≤ 1 := by
    unfold cost
    split <;> omega
  rcases h.state with ⟨-, h⟩ | ⟨-, h⟩ <;> omega

/-- A slot that holds a source from the start has no recipe to follow. -/
theorem Settled.count_ready {source : Source}
    (h : Settled files label (.ready label source) b journal) : journal.count label = 0 := by
  rcases h.state with ⟨-, h⟩ | ⟨-, h⟩
  · exact h
  · exact h

end Slot

/-! ## The slots of both views -/

namespace Slots

variable {files : Files} {l m : String} {a b : Slots} {journal : List String}

/-- Slots that have not been used, with the labels of their recipes. -/
inductive Fresh : String → String → Slots → Prop where
  | apart {l m : String} {full interface : Slot} (hfull : full.Fresh l)
      (hinterface : interface.Fresh m) (hne : l ≠ m) : Fresh l m (.apart full interface)
  | shared {l : String} {slot : Slot} (h : slot.Fresh l) : Fresh l l (.shared slot)

/-- The slots `b` are what some uses have made of the fresh slots `a`, and the journal is from after
them. -/
inductive Settled (files : Files) : String → String → Slots → Slots → List String → Prop where
  | apart {l m : String} {full full' interface interface' : Slot} {journal : List String}
      (hfull : full.Settled files l full' journal)
      (hinterface : interface.Settled files m interface' journal) (hne : l ≠ m) :
      Settled files l m (.apart full interface) (.apart full' interface') journal
  | shared {l : String} {slot slot' : Slot} {journal : List String}
      (h : slot.Settled files l slot' journal) :
      Settled files l l (.shared slot) (.shared slot') journal

theorem Fresh.settled (h : Fresh l m a) (files : Files) :
    Settled files l m a a [] := by
  cases h with
  | apart hfull hinterface hne => exact .apart (hfull.settled files) (hinterface.settled files) hne
  | shared h => exact .shared (h.settled files)

theorem Settled.full (h : Settled files l m a b journal) :
    a.full.Settled files l b.full journal := by
  cases h with
  | apart hfull hinterface hne => exact hfull
  | shared h => exact h

theorem Settled.interface (h : Settled files l m a b journal) :
    a.interface.Settled files m b.interface journal := by
  cases h with
  | apart hfull hinterface hne => exact hinterface
  | shared h => exact h

/-- The full view uses the slot of the interface view only if there is but one. -/
theorem Settled.getFull (h : Settled files l m a b journal) :
    ∃ b' journal', (b.getFull files).run journal = ((a.full.source files, b'), journal') ∧
      Settled files l m a b' journal' := by
  cases h with
  | apart hfull hinterface hne =>
    obtain ⟨full, journal', hrun, hsettled, hothers⟩ := hfull.get
    refine ⟨.apart full _, journal', ?_,
      .apart hsettled (hinterface.of_count (hothers _ hne.symm)) hne⟩
    rw [Slots.getFull, run_bind, hrun]
    rfl
  | shared h =>
    obtain ⟨slot, journal', hrun, hsettled, -⟩ := h.get
    refine ⟨.shared slot, journal', ?_, .shared hsettled⟩
    rw [Slots.getFull, run_bind, hrun]
    rfl

theorem Settled.getInterface (h : Settled files l m a b journal) :
    ∃ b' journal', (b.getInterface files).run journal = ((a.interface.source files, b'), journal') ∧
      Settled files l m a b' journal' := by
  cases h with
  | apart hfull hinterface hne =>
    obtain ⟨interface, journal', hrun, hsettled, hothers⟩ := hinterface.get
    refine ⟨.apart _ interface, journal', ?_,
      .apart (hfull.of_count (hothers _ hne)) hsettled hne⟩
    rw [Slots.getInterface, run_bind, hrun]
    rfl
  | shared h =>
    obtain ⟨slot, journal', hrun, hsettled, -⟩ := h.get
    refine ⟨.shared slot, journal', ?_, .shared hsettled⟩
    rw [Slots.getInterface, run_bind, hrun]
    rfl

end Slots

/-! ## Requests -/

/-- The two views of a type. -/
inductive Aspect where
  | full
  | interface
  deriving DecidableEq, Repr

/-- A view of a type that is asked for, and the task that makes it. Documentations of types and
their clones share the services and the slots, so the name of the type is all that tells them
apart. -/
structure Request where
  aspect : Aspect
  name : String
  task : String
  deriving DecidableEq, Repr

namespace Request

/-- Answers a request, and the slots after that. -/
def render (r : Request) (s : Services) (slots : Slots) (files : Files) :
    Journal (String × Slots) :=
  match r.aspect with
  | .full => renderFull s slots files r.task r.name
  | .interface => renderInterface s slots files r.task r.name

/-- The answer to a request that is the only one. -/
def alone (r : Request) (s : Services) (slots : Slots) (files : Files) : String :=
  ((r.render s slots files).run []).1.1

end Request

/-- Answers requests one after the other. Each finds the slots as those before it have left them. -/
def renderAll (s : Services) (files : Files) : Slots → List Request → Journal (List String × Slots)
  | slots, [] => return ([], slots)
  | slots, r :: rest => do
    let (view, slots) ← r.render s slots files
    let (views, slots) ← renderAll s files slots rest
    return (view :: views, slots)

section Run

variable {files : Files} {l m : String} {a b : Slots} {journal : List String}

/-- What the task of a request does, with the sources that the slots give. -/
def Request.outcome (r : Request) (s : Services) (slots : Slots) (files : Files) :
    Except Panic String :=
  match r.aspect with
  | .full => showFull s (slots.full.source files) files r.name
  | .interface => showInterface s (slots.interface.source files) files r.name

/-- One request on settled slots. -/
theorem Request.render_settled (r : Request) (s : Services)
    (h : Slots.Settled files l m a b journal) :
    ∃ b' journal',
      (r.render s b files).run journal = ((shownBy r.task (r.outcome s a files), b'), journal') ∧
      Slots.Settled files l m a b' journal' := by
  obtain ⟨aspect, name, task⟩ := r
  cases aspect with
  | full =>
    obtain ⟨b', journal', hrun, hsettled⟩ := h.getFull
    refine ⟨b', journal', ?_, hsettled⟩
    rw [render, renderFull, run_bind, hrun]
    rfl
  | interface =>
    obtain ⟨b', journal', hrun, hsettled⟩ := h.getInterface
    refine ⟨b', journal', ?_, hsettled⟩
    rw [render, renderInterface, run_bind, hrun]
    rfl

theorem Request.alone_eq (r : Request) (s : Services) (h : Slots.Fresh l m a)
    (files : Files) : r.alone s a files = shownBy r.task (r.outcome s a files) := by
  obtain ⟨b, journal, hrun, -⟩ := r.render_settled s (h.settled files)
  rw [alone, hrun]

/-- A sequence of requests on settled slots. -/
theorem renderAll_settled (s : Services) (requests : List Request)
    (h : Slots.Settled files l m a b journal) :
    ∃ b' journal', (renderAll s files b requests).run journal =
        ((requests.map fun r => shownBy r.task (r.outcome s a files), b'), journal') ∧
      Slots.Settled files l m a b' journal' := by
  induction requests generalizing b journal with
  | nil => exact ⟨b, journal, rfl, h⟩
  | cons r rest ih =>
    obtain ⟨_, _, hfirst, hnext⟩ := r.render_settled s h
    obtain ⟨b', journal', hothers, hlast⟩ := ih hnext
    refine ⟨b', journal', ?_, hlast⟩
    rw [renderAll, run_bind, hfirst, run_bind, hothers]
    rfl

end Run

/-! ## Panics -/

/-- The source does not panic on the files. -/
def Quiet (files : Files) (source : Source) : Prop :=
  ∀ name p, source files name ≠ .error (.panic p)

/-- No source that the slots give panics. -/
def Slots.Quiet (files : Files) (slots : Slots) : Prop :=
  ∀ source, slots.full.source files = some source ∨ slots.interface.source files = some source →
    View.Quiet files source

theorem quiet_dumpOf (directory : String) (files : Files) : Quiet files (dumpOf directory) := by
  intro name p h
  unfold dumpOf at h
  cases hread : readDump directory files name with
  | ok tree =>
    rw [hread] at h
    cases h
  | error e =>
    rw [hread] at h
    cases h

/-- Slots for directories of dumps give sources that do not panic. -/
theorem quiet_dumps (l m directory directory' : String) (files : Files) :
    (Slots.apart (.dumps l directory) (.dumps m directory')).Quiet files := by
  have hdumps : ∀ label directory source, (Slot.dumps label directory).source files = some source →
      Quiet files source := by
    intro label directory source h
    change (if files.isDirectory directory then some (dumpOf directory) else none) = _ at h
    split at h
    · obtain rfl := Option.some.inj h
      exact quiet_dumpOf directory files
    · cases h
  rintro source (h | h)
  · exact hdumps l directory source h
  · exact hdumps m directory' source h

/-- Only a source can make a task panic. -/
theorem Request.outcome_ne_error {slots : Slots} {files : Files} (h : slots.Quiet files)
    (r : Request) (s : Services) (p : Panic) : r.outcome s slots files ≠ .error p := by
  obtain ⟨aspect, name, task⟩ := r
  intro herror
  cases aspect with
  | full =>
    simp only [outcome, showFull] at herror
    split at herror
    · cases herror
    next source hsource =>
      split at herror
      next p' hp => exact h source (.inl hsource) name p' hp
      all_goals cases herror
  | interface =>
    simp only [outcome, showInterface] at herror
    split at herror
    · cases herror
    next source hsource =>
      split at herror
      next p' hp => exact h source (.inr hsource) name p' hp
      all_goals cases herror

/-- Only a panic is told with the number of the task. -/
theorem Request.shownBy_outcome {slots : Slots} {files : Files} (h : slots.Quiet files)
    (r : Request) (s : Services) (task task' : String) :
    shownBy task (r.outcome s slots files) = shownBy task' (r.outcome s slots files) := by
  cases houtcome : r.outcome s slots files with
  | ok view => rfl
  | error p => exact absurd houtcome (r.outcome_ne_error h s p)

/-! ## Independence -/

/-- **Views do not influence each other.** In a sequence of requests for either view of any types,
from slots that have not been used and may be one, each is answered as if it were the only one, and,
unless a source panics, whatever the numbers of the tasks. The recipe of a slot is followed at most
once, and never if the slot held a source from the start. -/
theorem renderAll_independent (s : Services) (files : Files) {slots : Slots} {l m : String}
    (hfresh : slots.Fresh l m) (requests : List Request) :
    ((renderAll s files slots requests).run []).1.1 =
      requests.map (fun r => r.alone s slots files) ∧
    (slots.Quiet files → ∀ task : Request → String,
      ((renderAll s files slots requests).run []).1.1 =
        requests.map fun r => { r with task := task r }.alone s slots files) ∧
    (((renderAll s files slots requests).run []).2.count l ≤ 1 ∧
      ((renderAll s files slots requests).run []).2.count m ≤ 1) ∧
    (∀ source, slots.full = .ready l source →
      ((renderAll s files slots requests).run []).2.count l = 0) ∧
    ∀ source, slots.interface = .ready m source →
      ((renderAll s files slots requests).run []).2.count m = 0 := by
  obtain ⟨last, journal, hrun, hlast⟩ := renderAll_settled s requests (hfresh.settled files)
  rw [hrun]
  refine ⟨?_, fun hquiet task => ?_, ⟨hlast.full.count_le_one, hlast.interface.count_le_one⟩,
    fun source hs => ?_, fun source hs => ?_⟩
  · exact List.map_congr_left fun r _ => (r.alone_eq s hfresh files).symm
  · refine List.map_congr_left fun r _ => ?_
    rw [Request.alone_eq _ s hfresh files]
    exact r.shownBy_outcome hquiet s _ _
  · have h := hlast.full
    rw [hs] at h
    exact h.count_ready
  · have h := hlast.interface
    rw [hs] at h
    exact h.count_ready

/-- One slot for both views, whose recipe gives every type as a class with a private field. -/
def fieldSlots : Slots :=
  .shared (.ofRecipe "both" fun _ => some fun _ _ =>
    .ok ((Syntax.Tree.empty.append 0 .member (.typeDecl .classType ∅)).append 1 .member
      (.fieldDecl (.single .privateAccess))))

/-- Two slots for a directory of dumps. -/
def dumpSlots : Slots :=
  .apart (.dumps "full" "dumps") (.dumps "interface" "dumps")

/-- Without links, with the usual settings. -/
def plainServices : Services := ⟨Html.noLinks, .usual⟩

/-- There are no files. -/
def noFiles : Files := ⟨fun _ => .error .notFound⟩

theorem quiet_fieldSlots : fieldSlots.Quiet noFiles := by
  rintro source (h | h) name p hp
  all_goals
    obtain rfl := Option.some.inj h
    cases hp

/-- The interface view leaves the field out, and the full view after it still shows it. -/
theorem renderAll_independent_fieldSlots :
    (fieldSlots.Fresh "both" "both" ∧ fieldSlots.Quiet noFiles ∧ ∃ cut whole, cut ≠ whole ∧
      ((renderAll plainServices noFiles fieldSlots [⟨.interface, "Widget", "1"⟩,
        ⟨.full, "Widget", "2"⟩, ⟨.interface, "Widget", "3"⟩]).run []).1.1 = [cut, whole, cut] ∧
      ((renderAll plainServices noFiles fieldSlots [⟨.interface, "Widget", "1"⟩,
        ⟨.full, "Widget", "2"⟩, ⟨.interface, "Widget", "3"⟩]).run []).2.count "both" ≤ 1) ∧
    dumpSlots.Fresh "full" "interface" ∧ dumpSlots.Quiet noFiles ∧
      ((renderAll plainServices noFiles dumpSlots [⟨.interface, "Widget", "1"⟩]).run []).1.1 =
        [Request.alone ⟨.interface, "Widget", "9"⟩ plainServices dumpSlots noFiles] := by
  have hfield : fieldSlots.Fresh "both" "both" := .shared (.ofRecipe _)
  have hdump : dumpSlots.Fresh "full" "interface" := .apart (.ofRecipe _) (.ofRecipe _) (by decide)
  have hquiet : dumpSlots.Quiet noFiles := quiet_dumps _ _ _ _ _
  obtain ⟨-, hviews, ⟨hcount, -⟩, -, -⟩ := renderAll_independent plainServices noFiles hfield
    [⟨.interface, "Widget", "1"⟩, ⟨.full, "Widget", "2"⟩, ⟨.interface, "Widget", "3"⟩]
  obtain ⟨-, hdumps, -, -, -⟩ := renderAll_independent plainServices noFiles hdump
    [⟨.interface, "Widget", "1"⟩]
  refine ⟨⟨hfield, quiet_fieldSlots, _, _, ?_, hviews quiet_fieldSlots fun _ => "9", hcount⟩, hdump,
    hquiet, hdumps hquiet fun _ => "9"⟩
  decide +kernel

end CodeView.View
