import CodeView.Binary64.Basic

/-!
# JSON values

A value in memory. Objects keep their members as a list, so that order and repetition are visible;
`Value.canonical` is the form in which every object is sorted by key and holds each key once, the
last of repeated members winning.
-/

namespace CodeView.Json

/-- A number: an integer of 64 bits, or a float. Only integers below zero are `negative`. -/
inductive Number where
  | natural (n : UInt64)
  | negative (n : Int64)
  | float (x : Binary64)
  deriving DecidableEq, Repr

/-- A value without parts. -/
inductive Scalar where
  | null
  | bool (b : Bool)
  | number (n : Number)
  | string (s : String)
  deriving DecidableEq, Repr

/-- A JSON value. -/
inductive Value where
  | scalar (s : Scalar)
  | array (items : List Value)
  | object (members : List (String × Value))
  deriving Repr

namespace Value

/-- The value `null`. -/
abbrev null : Value := .scalar .null

instance : Inhabited Value := ⟨null⟩

/-- Puts a member into a list sorted by key, in place of one of the same key. -/
def insertMember (key : String) (value : Value) :
    List (String × Value) → List (String × Value)
  | [] => [(key, value)]
  | (k, v) :: rest =>
    if key = k then (key, value) :: rest
    else if key < k then (key, value) :: (k, v) :: rest
    else (k, v) :: insertMember key value rest

mutual

/-- The value with every object sorted by key and free of repeated keys; the last of repeated
members wins. -/
def canonical : Value → Value
  | .scalar s => .scalar s
  | .array items => .array (canonicalItems items)
  | .object members => .object (canonicalMembers members [])

/-- The canonical forms of a list of values. -/
def canonicalItems : List Value → List Value
  | [] => []
  | v :: rest => canonical v :: canonicalItems rest

/-- Inserts the canonical forms of the members, one after the other, into a sorted list. -/
def canonicalMembers : List (String × Value) → List (String × Value) → List (String × Value)
  | [], sorted => sorted
  | (k, v) :: rest, sorted => canonicalMembers rest (insertMember k (canonical v) sorted)

end

/-- The value of the last member with the given key. -/
def member? (key : String) : Value → Option Value
  | .object members => (members.reverse.find? fun m => m.1 == key).map (·.2)
  | _ => none

end Value

end CodeView.Json
