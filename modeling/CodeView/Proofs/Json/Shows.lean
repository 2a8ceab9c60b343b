import CodeView.Json.Decode
import Mathlib.Data.List.Nodup
import Mathlib.Data.List.Perm.Basic

/-!
# What a reading shows

`Shows ctx r v` says that the reading `r`, met in the context `ctx`, holds the value `v` in full: it
has no flaw and no repeated member, it is not too deep for `ctx`, and the members of its objects
stand in any order.

* `Value.Distinct` and `Value.nesting` are what a value needs for that, apart from any reading;
* a reading without flaws can be skipped and held back (`Shows.skim`, `Shows.hold`), and shows the
  same among held members (`Shows.held`);
* `ShowsMembers` is the same for the members of an object: they can be looked up by name, whatever
  their order (`ShowsMembers.find_cases`);
* the sorted form of a value shows that value (`shows_canonical`).
-/

namespace CodeView.Json

/-! ## Values -/

namespace Value

mutual

/-- A value and all values in it. -/
def parts : Value → List Value
  | .scalar s => [.scalar s]
  | .array items => .array items :: partsOfItems items
  | .object members => .object members :: partsOfMembers members

/-- The values of a list and all values in them. -/
def partsOfItems : List Value → List Value
  | [] => []
  | v :: rest => parts v ++ partsOfItems rest

/-- The values of the members of an object and all values in them. -/
def partsOfMembers : List (String × Value) → List Value
  | [] => []
  | (_, v) :: rest => parts v ++ partsOfMembers rest

end

mutual

/-- How many lists and objects are open at once at the deepest point of a value. -/
def nesting : Value → Nat
  | .scalar _ => 0
  | .array items => nestingOfItems items + 1
  | .object members => nestingOfMembers members + 1

/-- The greatest nesting in a list of values. -/
def nestingOfItems : List Value → Nat
  | [] => 0
  | v :: rest => max (nesting v) (nestingOfItems rest)

/-- The greatest nesting in the members of an object. -/
def nestingOfMembers : List (String × Value) → Nat
  | [] => 0
  | (_, v) :: rest => max (nesting v) (nestingOfMembers rest)

end

/-- The keys of an object. -/
def keys : Value → List String
  | .object members => members.map (·.1)
  | _ => []

/-- No object in the value has a repeated member. -/
def Distinct (v : Value) : Prop :=
  ∀ part ∈ v.parts, part.keys.Nodup

instance (v : Value) : Decidable v.Distinct :=
  inferInstanceAs (Decidable (∀ part ∈ v.parts, part.keys.Nodup))

theorem mem_partsOfItems {p : Value} {items : List Value} :
    p ∈ partsOfItems items ↔ ∃ v ∈ items, p ∈ v.parts := by
  induction items with
  | nil => simp [partsOfItems]
  | cons v rest ih => simp [partsOfItems, ih]

theorem mem_partsOfMembers {p : Value} {members : List (String × Value)} :
    p ∈ partsOfMembers members ↔ ∃ m ∈ members, p ∈ m.2.parts := by
  induction members with
  | nil => simp [partsOfMembers]
  | cons m rest ih => simp [partsOfMembers, ih]

theorem nestingOfItems_le {n : Nat} {items : List Value} :
    nestingOfItems items ≤ n ↔ ∀ v ∈ items, v.nesting ≤ n := by
  induction items with
  | nil => simp [nestingOfItems]
  | cons v rest ih => rw [nestingOfItems, Nat.max_le, ih, List.forall_mem_cons]

theorem nestingOfMembers_le {n : Nat} {members : List (String × Value)} :
    nestingOfMembers members ≤ n ↔ ∀ m ∈ members, m.2.nesting ≤ n := by
  induction members with
  | nil => simp [nestingOfMembers]
  | cons m rest ih => rw [nestingOfMembers, Nat.max_le, ih, List.forall_mem_cons]

theorem distinct_array {items : List Value} :
    (array items).Distinct ↔ ∀ v ∈ items, v.Distinct := by
  simp only [Distinct, parts, List.forall_mem_cons, keys, List.nodup_nil, true_and,
    mem_partsOfItems]
  exact ⟨fun h v hv p hp => h p ⟨v, hv, hp⟩, fun h p ⟨v, hv, hp⟩ => h v hv p hp⟩

theorem distinct_object {members : List (String × Value)} :
    (object members).Distinct ↔ (members.map (·.1)).Nodup ∧ ∀ m ∈ members, m.2.Distinct := by
  simp only [Distinct, parts, List.forall_mem_cons, keys, mem_partsOfMembers]
  refine and_congr_right fun _ => ?_
  exact ⟨fun h m hm p hp => h p ⟨m, hm, hp⟩, fun h p ⟨m, hm, hp⟩ => h m hm p hp⟩

theorem nesting_array_le {n : Nat} {items : List Value} :
    (array items).nesting ≤ n ↔ ∃ k, n = k + 1 ∧ ∀ v ∈ items, v.nesting ≤ k := by
  cases n with
  | zero => simp [nesting]
  | succ k => simp [nesting, nestingOfItems_le]

theorem nesting_object_le {n : Nat} {members : List (String × Value)} :
    (object members).nesting ≤ n ↔ ∃ k, n = k + 1 ∧ ∀ m ∈ members, m.2.nesting ≤ k := by
  cases n with
  | zero => simp [nesting]
  | succ k => simp [nesting, nestingOfMembers_le]

end Value

/-! ## Readings that show values -/

/-- The text after the first of some members ends their object exactly if there is no other. -/
def Closes : List Member → Prop
  | [] => True
  | m :: rest => openFault? m.value.after = none ↔ rest = []

/-- The reading, met in the context, holds the value in full. Its parts are paired with the parts of
the value; the members of an object stand in any order. -/
inductive Shows : Context → Reading → Value → Prop
  | scalar (ctx : Context) (span : Span) (s : Scalar) : Shows ctx (.scalar span s) (.scalar s)
  | array {ctx inner : Context} {span : Span} {pairs : List (Reading × Value)}
      (enter : ctx.enter span.before = .ok inner) (shows : ∀ p ∈ pairs, Shows inner p.1 p.2) :
      Shows ctx (.array span (pairs.map (·.1)) none) (.array (pairs.map (·.2)))
  | object {ctx inner : Context} {span : Span} {pairs : List (Member × String × Value)}
      {entries : List (String × Value)} (enter : ctx.enter span.before = .ok inner)
      (keys : ∀ p ∈ pairs, p.1.key = .ok p.2.1) (shows : ∀ p ∈ pairs, Shows inner p.1.value p.2.2)
      (perm : (pairs.map (·.2)).Perm entries) (distinct : (entries.map (·.1)).Nodup)
      (closes : ctx.origin = .text → Closes (pairs.map (·.1))) :
      Shows ctx (.object span (pairs.map (·.1)) none) (.object entries)

/-- The members, met in the context, show the entries of an object in some order. -/
structure ShowsMembers (ctx : Context) (members : List Member)
    (entries : List (String × Value)) : Prop where
  paired : ∃ pairs : List (Member × String × Value), pairs.map (·.1) = members ∧
    (pairs.map (·.2)).Perm entries ∧ ∀ p ∈ pairs, p.1.key = .ok p.2.1 ∧ Shows ctx p.1.value p.2.2
  distinct : (entries.map (·.1)).Nodup

/-- Entering a list or object keeps the origin and, in a text, takes one from the depth. -/
theorem Context.enter_ok {ctx inner : Context} {start : List Char}
    (h : ctx.enter start = .ok inner) :
    inner.origin = ctx.origin ∧ (ctx.origin = .text → ctx.depth = inner.depth + 1) := by
  obtain ⟨origin, depth⟩ := ctx
  cases origin <;> cases depth <;> cases h <;> simp

theorem Member.isNamed_iff {m : Member} {name : String} :
    m.isNamed name = true ↔ m.key = .ok name := by
  cases h : m.key <;> simp [Member.isNamed, h]

namespace Reading

theorem skimItems?_eq_none {items : List Reading} :
    skimItems? items = none ↔ ∀ r ∈ items, r.skimFault? = none := by
  induction items with
  | nil => simp [skimItems?]
  | cons r rest ih => simp [skimItems?, ih]

theorem skimMembers?_eq_none {members : List Member} :
    skimMembers? members = none ↔ ∀ m ∈ members, m.value.skimFault? = none := by
  induction members with
  | nil => simp [skimMembers?]
  | cons m rest ih =>
    obtain ⟨key, keyEnd, value⟩ := m
    simp [skimMembers?, Member.value, ih]

theorem holdItems?_eq_none {depth : Nat} {items : List Reading} :
    holdItems? depth items = none ↔ ∀ r ∈ items, r.holdFault? depth = none := by
  induction items with
  | nil => simp [holdItems?]
  | cons r rest ih => simp [holdItems?, ih]

theorem holdMembers?_eq_none {depth : Nat} {members : List Member} :
    holdMembers? depth members = none ↔
      ∀ m ∈ members, (∃ key, m.key = .ok key) ∧ m.value.holdFault? depth = none := by
  induction members with
  | nil => simp [holdMembers?]
  | cons m rest ih =>
    obtain ⟨key, keyEnd, value⟩ := m
    cases key <;> simp [holdMembers?, Member.key, Member.value, ih]

end Reading

namespace Shows

variable {ctx : Context} {r : Reading} {v : Value}

theorem of_scalar {s : Scalar} (h : Shows ctx r (.scalar s)) : ∃ span, r = .scalar span s := by
  cases h
  exact ⟨_, rfl⟩

theorem of_array {vs : List Value} (h : Shows ctx r (.array vs)) :
    ∃ inner span, ∃ pairs : List (Reading × Value), r = .array span (pairs.map (·.1)) none ∧
      ctx.enter span.before = .ok inner ∧ pairs.map (·.2) = vs ∧
      ∀ p ∈ pairs, Shows inner p.1 p.2 := by
  cases h with
  | array enter shows => exact ⟨_, _, _, rfl, enter, rfl, shows⟩

theorem of_object {entries : List (String × Value)} (h : Shows ctx r (.object entries)) :
    ∃ inner span members, r = .object span members none ∧ ctx.enter span.before = .ok inner ∧
      ShowsMembers inner members entries ∧ (ctx.origin = .text → Closes members) := by
  cases h with
  | object enter keys shows perm distinct closes =>
    have hpaired := fun p hp => And.intro (keys p hp) (shows p hp)
    exact ⟨_, _, _, rfl, enter, ⟨⟨_, rfl, perm, hpaired⟩, distinct⟩, closes⟩

/-- A part that shows a value can be skipped. -/
theorem skim (h : Shows ctx r v) : ctx.skim r = .ok () := by
  suffices hr : r.skimFault? = none by cases hctx : ctx.origin <;> simp [Context.skim, hctx, hr]
  induction h with
  | scalar => rfl
  | array _ _ ih =>
    have hitems := Reading.skimItems?_eq_none.2 (List.forall_mem_map.2 ih)
    simp [Reading.skimFault?, hitems]
  | object _ _ _ _ _ _ ih =>
    have hmembers := Reading.skimMembers?_eq_none.2 (List.forall_mem_map.2 ih)
    simp [Reading.skimFault?, hmembers]

/-- A part that shows a value can be held back. -/
theorem hold (h : Shows ctx r v) : ctx.hold r = .ok () := by
  -- only a text refuses, and there each list and object that is entered takes one from the depth
  suffices hr : ctx.origin = .text → r.holdFault? ctx.depth = none by
    cases hctx : ctx.origin with
    | text => simp [Context.hold, hctx, hr hctx]
    | value => simp [Context.hold, hctx]
    | held => simp [Context.hold, hctx]
  induction h with
  | scalar => intro; rfl
  | array enter _ ih =>
    intro hctx
    obtain ⟨horigin, hdepth⟩ := Context.enter_ok enter
    have hitems := Reading.holdItems?_eq_none.2 <|
      List.forall_mem_map.2 fun p hp => ih p hp (horigin.trans hctx)
    simp [Reading.holdFault?, hdepth hctx, hitems]
  | object enter keys _ _ _ _ ih =>
    intro hctx
    obtain ⟨horigin, hdepth⟩ := Context.enter_ok enter
    have hmembers := Reading.holdMembers?_eq_none.2 <|
      List.forall_mem_map.2 fun p hp => ⟨⟨_, keys p hp⟩, ih p hp (horigin.trans hctx)⟩
    simp [Reading.holdFault?, hdepth hctx, hmembers]

/-- A part that was held back shows the value that it showed where it was met. -/
theorem held (h : Shows ctx r v) : Shows Context.held r v := by
  induction h with
  | scalar => exact .scalar _ _ _
  | array _ _ ih => exact .array rfl ih
  | object _ keys _ perm distinct _ ih => exact .object rfl keys ih perm distinct nofun

end Shows

/-! ## Members -/

namespace Fields

variable {m : Member} {rest : List Member} {name : String}

theorem find_cons_self (h : m.isNamed name = true) : find (m :: rest) name = some m.value := by
  simp [find, h]

theorem find_cons_of_other (h : m.isNamed name = false) :
    find (m :: rest) name = find rest name := by
  simp [find, h]

/-- A member that is not repeated is not found behind itself. -/
theorem find_eq_none_of_notMem (hm : m.key ∉ rest.map Member.key) (h : m.isNamed name = true) :
    find rest name = none := by
  refine Option.map_eq_none_iff.2 (List.find?_eq_none.2 fun m' hm' hnamed => hm ?_)
  rw [Member.isNamed_iff.1 h, ← Member.isNamed_iff.1 hnamed]
  exact List.mem_map_of_mem hm'

end Fields

namespace ShowsMembers

variable {ctx : Context} {members : List Member} {entries : List (String × Value)}

/-- Members that were held back show the entries that they showed where they were met. -/
theorem held (h : ShowsMembers ctx members entries) :
    ShowsMembers Context.held members entries := by
  obtain ⟨⟨pairs, hmembers, hperm, hpairs⟩, hdistinct⟩ := h
  exact ⟨⟨pairs, hmembers, hperm, fun p hp => ⟨(hpairs p hp).1, (hpairs p hp).2.held⟩⟩, hdistinct⟩

theorem length_eq (h : ShowsMembers ctx members entries) : members.length = entries.length := by
  obtain ⟨⟨pairs, rfl, hperm, -⟩, -⟩ := h
  simpa using hperm.length_eq

/-- Every member shows an entry. -/
theorem exists_entry (h : ShowsMembers ctx members entries) {m : Member} (hm : m ∈ members) :
    ∃ e ∈ entries, m.key = .ok e.1 ∧ Shows ctx m.value e.2 := by
  obtain ⟨⟨pairs, rfl, hperm, hpairs⟩, -⟩ := h
  obtain ⟨p, hp, rfl⟩ := List.mem_map.1 hm
  exact ⟨p.2, hperm.subset (List.mem_map_of_mem hp), hpairs p hp⟩

/-- Every entry is shown by a member. -/
theorem exists_member (h : ShowsMembers ctx members entries) {e : String × Value}
    (he : e ∈ entries) : ∃ m ∈ members, m.key = .ok e.1 ∧ Shows ctx m.value e.2 := by
  obtain ⟨⟨pairs, rfl, hperm, hpairs⟩, -⟩ := h
  obtain ⟨p, hp, rfl⟩ := List.mem_map.1 (hperm.symm.subset he)
  exact ⟨p.1, List.mem_map_of_mem hp, hpairs p hp⟩

/-- No key is repeated. -/
theorem nodup (h : ShowsMembers ctx members entries) : (members.map Member.key).Nodup := by
  obtain ⟨⟨pairs, rfl, hperm, hpairs⟩, hdistinct⟩ := h
  have hkeys : (pairs.map (·.1)).map Member.key = ((pairs.map (·.2)).map (·.1)).map .ok := by
    simp only [List.map_map]
    exact List.map_congr_left fun p hp => (hpairs p hp).1
  rw [hkeys]
  exact List.Nodup.map (fun _ _ => Except.ok.inj) ((hperm.map _).nodup_iff.2 hdistinct)

/-- The members whose keys are wanted show the entries whose keys are. -/
theorem filter (h : ShowsMembers ctx members entries) {p : Member → Bool} {q : String → Bool}
    (hpq : ∀ m key, m.key = .ok key → p m = q key) :
    ShowsMembers ctx (members.filter p) (entries.filter (q ·.1)) := by
  obtain ⟨⟨pairs, rfl, hperm, hpairs⟩, hdistinct⟩ := h
  refine ⟨⟨pairs.filter (q ·.2.1), ?_, ?_, fun x hx => hpairs x (List.mem_filter.1 hx).1⟩, ?_⟩
  · rw [List.filter_map]
    congr 1
    exact List.filter_congr fun x hx => (hpq _ _ (hpairs x hx).1).symm
  · simpa [List.filter_map, Function.comp_def] using hperm.filter (q ·.1)
  · exact hdistinct.sublist (List.filter_sublist.map _)

/-- What is found under a name: nothing if there is no such entry, else what shows it. -/
theorem find_cases (h : ShowsMembers ctx members entries) (name : String) :
    (Fields.find members name = none ∧ ∀ v, (name, v) ∉ entries) ∨
      ∃ r v, Fields.find members name = some r ∧ (name, v) ∈ entries ∧ Shows ctx r v := by
  cases hfind : members.find? fun m => m.isNamed name with
  | none =>
    refine .inl ⟨by simp [Fields.find, hfind], fun v he => ?_⟩
    obtain ⟨m, hm, hkey, -⟩ := h.exists_member he
    exact List.find?_eq_none.1 hfind m hm (Member.isNamed_iff.2 hkey)
  | some m =>
    obtain ⟨⟨key, v⟩, he, hkey, hshows⟩ := h.exists_entry (List.mem_of_find?_eq_some hfind)
    have hname : m.key = .ok name :=
      Member.isNamed_iff.1 (List.find?_some (p := fun m : Member => m.isNamed name) hfind)
    obtain rfl : key = name := Except.ok.inj (hkey.symm.trans hname)
    exact .inr ⟨m.value, v, by simp [Fields.find, hfind], he, hshows⟩

end ShowsMembers

/-! ## Values in memory -/

namespace Value

theorem canonicalItems_eq (items : List Value) : canonicalItems items = items.map canonical := by
  induction items with
  | nil => rfl
  | cons v rest ih => simp [canonicalItems, ih]

theorem insertMember_perm {key : String} {value : Value} {sorted : List (String × Value)}
    (hkey : key ∉ sorted.map (·.1)) :
    (insertMember key value sorted).Perm ((key, value) :: sorted) := by
  induction sorted with
  | nil => exact .refl _
  | cons m rest ih =>
    obtain ⟨hne, hrest⟩ := not_or.1 (List.mem_cons.not.1 hkey)
    rw [insertMember, if_neg hne]
    split
    · exact .refl _
    · exact ((ih hrest).cons _).trans (.swap _ _ _)

/-- Sorting loses no member if no key is repeated. -/
theorem canonicalMembers_perm {members sorted : List (String × Value)}
    (h : ((members ++ sorted).map (·.1)).Nodup) :
    (canonicalMembers members sorted).Perm
      (members.map (fun m => (m.1, m.2.canonical)) ++ sorted) := by
  induction members generalizing sorted with
  | nil => exact .refl _
  | cons m rest ih =>
    have hm : m.1 ∉ sorted.map (·.1) := by
      have hmem := (List.nodup_cons.1 h).1
      exact fun hkey => hmem (List.map_subset _ (List.subset_append_right _ _) hkey)
    have hinsert : (insertMember m.1 m.2.canonical sorted).Perm _ := insertMember_perm hm
    have hnodup : ((rest ++ insertMember m.1 m.2.canonical sorted).map (·.1)).Nodup :=
      (((hinsert.append_left rest).trans List.perm_middle).map _).nodup_iff.2 h
    have hsorted := (ih hnodup).trans (hinsert.append_left _)
    exact hsorted.trans List.perm_middle

end Value

namespace Reading

theorem ofItems_eq (items : List Value) : ofItems items = items.map ofValue := by
  induction items with
  | nil => rfl
  | cons v rest ih => simp [ofItems, ih]

theorem ofMembers_eq (members : List (String × Value)) :
    ofMembers members = members.map fun m => .mk (.ok m.1) [] (ofValue m.2) := by
  induction members with
  | nil => rfl
  | cons m rest ih => simp [ofMembers, ih]

end Reading

mutual

/-- The sorted form of a value shows the value. -/
theorem shows_canonical : ∀ v : Value, v.Distinct →
    Shows Context.value (Reading.ofValue v.canonical) v
  | .scalar s, _ => .scalar _ _ s
  | .array items, h => by
    have hitems := shows_canonicalItems items (Value.distinct_array.1 h)
    let pairs := items.map fun v => (Reading.ofValue v.canonical, v)
    have hshows : Shows Context.value (.array .none (pairs.map (·.1)) none)
        (.array (pairs.map (·.2))) := .array rfl (List.forall_mem_map.2 hitems)
    simpa [pairs, Value.canonical, Reading.ofValue, Value.canonicalItems_eq, Reading.ofItems_eq,
      Function.comp_def] using hshows
  | .object members, h => by
    obtain ⟨hkeys, hvalues⟩ := Value.distinct_object.1 h
    have hperm : (Value.canonicalMembers members []).Perm
        (members.map fun m => (m.1, m.2.canonical)) := by
      rw [← List.append_nil members] at hkeys
      simpa using Value.canonicalMembers_perm hkeys
    -- the members in sorted order, before their values are sorted
    obtain ⟨order, horder, hmembers⟩ :=
      (congrFun (congrFun (List.eq_map_comp_perm _) _) _).mpr hperm
    let pairs := order.map fun m => (Member.mk (.ok m.1) [] (.ofValue m.2.canonical), m)
    have hshows : Shows Context.value (.object .none (pairs.map (·.1)) none) (.object members) := by
      refine .object rfl ?_ ?_ ?_ hkeys nofun
      · exact List.forall_mem_map.2 fun m _ => rfl
      · refine List.forall_mem_map.2 fun m hm => ?_
        exact shows_canonicalMembers members hvalues m (hmembers.subset hm)
      · simpa [pairs, Function.comp_def] using hmembers
    simpa [pairs, Value.canonical, Reading.ofValue, horder, Reading.ofMembers_eq,
      Function.comp_def] using hshows

theorem shows_canonicalItems : ∀ items : List Value, (∀ v ∈ items, v.Distinct) →
    ∀ v ∈ items, Shows Context.value (Reading.ofValue v.canonical) v
  | [], _ => by simp
  | v :: rest, h => by
    rw [List.forall_mem_cons] at h ⊢
    exact ⟨shows_canonical v h.1, shows_canonicalItems rest h.2⟩

theorem shows_canonicalMembers : ∀ members : List (String × Value), (∀ m ∈ members, m.2.Distinct) →
    ∀ m ∈ members, Shows Context.value (Reading.ofValue m.2.canonical) m.2
  | [], _ => by simp
  | (key, v) :: rest, h => by
    rw [List.forall_mem_cons] at h ⊢
    exact ⟨shows_canonical v h.1, shows_canonicalMembers rest h.2⟩

end

end CodeView.Json
