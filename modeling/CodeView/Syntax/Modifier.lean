/-!
# Modifiers of declarations

A `Modifier` is one keyword such as `public`; `Modifiers` is a set of them. A set is a word of 17
bits, one for each modifier, so that a set has one form whatever the order or repetition of the
keywords it was made from.

* `Modifiers.toList` lists a set in writing order;
* `Modifiers.ofKeywords` makes a set from keywords, or names the first word that is none.
-/

namespace CodeView.Syntax

/-- A keyword in front of a declaration. -/
inductive Modifier where
  | hiding
  | publicAccess
  | protectedAccess
  | privateAccess
  | internalAccess
  | abstractMember
  | virtualMember
  | sealedMember
  | staticMember
  | overriding
  | readonlyField
  | volatileField
  | external
  | partialPart
  | constant
  | asynchronous
  | unmanaged
  deriving DecidableEq, Repr

namespace Modifier

/-- The modifiers, in the order in which they are written. -/
def all : List Modifier :=
  [.hiding, .publicAccess, .protectedAccess, .privateAccess, .internalAccess, .abstractMember,
    .virtualMember, .sealedMember, .staticMember, .overriding, .readonlyField, .volatileField,
    .external, .partialPart, .constant, .asynchronous, .unmanaged]

/-- The keyword of a modifier. -/
def keyword : Modifier → String
  | .hiding => "new"
  | .publicAccess => "public"
  | .protectedAccess => "protected"
  | .privateAccess => "private"
  | .internalAccess => "internal"
  | .abstractMember => "abstract"
  | .virtualMember => "virtual"
  | .sealedMember => "sealed"
  | .staticMember => "static"
  | .overriding => "override"
  | .readonlyField => "readonly"
  | .volatileField => "volatile"
  | .external => "extern"
  | .partialPart => "partial"
  | .constant => "const"
  | .asynchronous => "async"
  | .unmanaged => "unsafe"

/-- The modifier that a keyword stands for. -/
def ofKeyword? (word : String) : Option Modifier :=
  all.find? fun m => m.keyword == word

/-- The bit of a modifier in a set. -/
def bit : Modifier → Nat
  | .hiding => 0
  | .publicAccess => 1
  | .protectedAccess => 2
  | .privateAccess => 3
  | .internalAccess => 4
  | .abstractMember => 5
  | .virtualMember => 6
  | .sealedMember => 7
  | .staticMember => 8
  | .overriding => 9
  | .readonlyField => 10
  | .volatileField => 11
  | .external => 12
  | .partialPart => 13
  | .constant => 14
  | .asynchronous => 15
  | .unmanaged => 16

end Modifier

/-- A set of modifiers: each stands for its bit. -/
structure Modifiers where
  mask : BitVec 17
  deriving DecidableEq, Repr

namespace Modifiers

/-- No modifiers. -/
def empty : Modifiers := ⟨0⟩

instance : EmptyCollection Modifiers := ⟨empty⟩

instance : Inhabited Modifiers := ⟨empty⟩

/-- The set of one modifier. -/
def single (m : Modifier) : Modifiers :=
  ⟨BitVec.twoPow 17 m.bit⟩

/-- The modifiers of either set. -/
def union (a b : Modifiers) : Modifiers :=
  ⟨a.mask ||| b.mask⟩

instance : Union Modifiers := ⟨union⟩

/-- Whether a modifier is in the set. -/
def contains (s : Modifiers) (m : Modifier) : Bool :=
  s.mask.getLsbD m.bit

/-- Whether two sets have a modifier in common. -/
def meets (a b : Modifiers) : Bool :=
  a.mask &&& b.mask != 0

/-- The set as a number. -/
def bits (s : Modifiers) : Nat :=
  s.mask.toNat

/-- The modifiers of a set, in writing order. -/
def toList (s : Modifiers) : List Modifier :=
  Modifier.all.filter s.contains

/-- The set of the listed modifiers. -/
def ofList : List Modifier → Modifiers
  | [] => ∅
  | m :: rest => single m ∪ ofList rest

/-- The keywords of a set, in writing order. -/
def keywords (s : Modifiers) : List String :=
  s.toList.map Modifier.keyword

/-- The set that a list of keywords stands for, or the first word that is no keyword. -/
def ofKeywords : List String → Except String Modifiers
  | [] => .ok ∅
  | word :: rest =>
    match Modifier.ofKeyword? word with
    | none => .error word
    | some m => (ofKeywords rest).map (single m ∪ ·)

end Modifiers

end CodeView.Syntax
