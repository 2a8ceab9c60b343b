import CodeView.View.Dump

/-!
# Slots

A `Slot` holds a source of trees, or the lack of one. It is filled on first use, from what the files
are then, and keeps what it was filled with. The full view and the interface view have a slot each,
or share one. What fills a slot is its recipe, and each time a recipe is followed its label is noted
in a journal.
-/

namespace CodeView.View

/-- Work that keeps a journal of the recipes that are followed, last first. -/
abbrev Journal := StateM (List String)

/-- A source that is made on first use. -/
structure Slot where
  /-- Makes the source, if there is one to make. -/
  recipe : Files → Journal (Option Source)
  /-- What the slot was filled with. -/
  filled : Option (Option Source)

namespace Slot

/-- A slot to be filled by a recipe with the given label. -/
def ofRecipe (label : String) (make : Files → Option Source) : Slot where
  recipe files := do
    modify (label :: ·)
    return make files
  filled := none

/-- A slot that holds a source from the start. Its recipe would make none. -/
def ready (label : String) (source : Source) : Slot :=
  { ofRecipe label fun _ => none with filled := some (some source) }

/-- A slot that never holds a source. -/
def unavailable (label : String) : Slot :=
  .ofRecipe label fun _ => none

/-- A slot for a directory of dumps, if it is there on first use. -/
def dumps (label directory : String) : Slot :=
  .ofRecipe label fun files =>
    if files.isDirectory directory then some (dumpOf directory) else none

/-- Whether the slot has been filled. -/
def isFilled (s : Slot) : Bool :=
  s.filled.isSome

/-- The source of a slot, which is filled by this if it was not before. -/
def get (s : Slot) (files : Files) : Journal (Option Source × Slot) :=
  match s.filled with
  | some source => return (source, s)
  | none => do
    let source ← s.recipe files
    return (source, { s with filled := some source })

/-- The state of a slot in words. -/
def describe (s : Slot) : String :=
  "LazyDecompiler \x7b initialized: " ++ (if s.isFilled then "true" else "false") ++ " \x7d"

end Slot

/-- The slots of the two views. -/
inductive Slots where
  | apart (full interface : Slot)
  | shared (slot : Slot)

namespace Slots

/-- The slot of the full view. -/
def full : Slots → Slot
  | .apart full _ => full
  | .shared slot => slot

/-- The slot of the interface view. -/
def interface : Slots → Slot
  | .apart _ interface => interface
  | .shared slot => slot

/-- The source of the full view. -/
def getFull (s : Slots) (files : Files) : Journal (Option Source × Slots) :=
  match s with
  | .apart full interface => do
    let (source, full) ← full.get files
    return (source, .apart full interface)
  | .shared slot => do
    let (source, slot) ← slot.get files
    return (source, .shared slot)

/-- The source of the interface view. -/
def getInterface (s : Slots) (files : Files) : Journal (Option Source × Slots) :=
  match s with
  | .apart full interface => do
    let (source, interface) ← interface.get files
    return (source, .apart full interface)
  | .shared slot => do
    let (source, slot) ← slot.get files
    return (source, .shared slot)

end Slots

end CodeView.View
