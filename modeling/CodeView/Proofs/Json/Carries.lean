import CodeView.Proofs.Json.Shows

/-!
# Decoders that look at values only

A decoder meets a value in a text, in memory or among held members, with the members of its objects
in this or that order. `Carries o₁ o₂ Q decode` says that this makes no difference to what it
accepts: what it makes of a reading of origin `o₁` it also makes of any reading of origin `o₂` that
shows the same value, if the value satisfies `Q`.

* scalars, `nullable` and `list` carry what their parts carry;
* known fields are checked and looked up by name, so the order of the members does not count
  (`checkMembers_eq_ok`, `FieldsCarry.ofMembers`);
* named alternatives carry what their payloads carry (`carries_variant`). Records are the exception
  that `Q` is for: a text may write one as an array, which nobody else accepts.
-/

namespace CodeView.Json

/-! ## Results -/

section Results

variable {ε ε' α β : Type}

theorem ok_bind (a : α) (f : α → Except ε β) : (Except.ok a >>= f) = f a :=
  rfl

theorem bind_eq_ok {x : Except ε α} {f : α → Except ε β} {b : β} :
    (x >>= f) = .ok b ↔ ∃ a, x = .ok a ∧ f a = .ok b := by
  cases x <;> simp [bind, Except.bind]

theorem seq_eq_ok {x : Except ε Unit} {f : Unit → Except ε β} {b : β} :
    (x >>= f) = .ok b ↔ x = .ok () ∧ f () = .ok b :=
  bind_eq_ok.trans ⟨fun ⟨(), h⟩ => h, fun h => ⟨(), h⟩⟩

theorem map_eq_ok {x : Except ε α} {f : α → β} {b : β} :
    x.map f = .ok b ↔ ∃ a, x = .ok a ∧ f a = b := by
  cases x <;> simp [Except.map]

theorem mapError_eq_ok {x : Except ε α} {f : ε → ε'} {a : α} :
    x.mapError f = .ok a ↔ x = .ok a := by
  cases x <;> simp [Except.mapError]

theorem raiseCut_eq_ok {cut : Option Break} : raiseCut cut = .ok () ↔ cut = none := by
  cases cut <;> simp [raiseCut, raise]

end Results

/-- What the decoder makes of a reading of origin `o₁`, it makes of every reading of origin `o₂`
that shows the same value. -/
def Carries {α : Type} (o₁ o₂ : Origin) (Q : Value → Prop) (decode : Decoder α) : Prop :=
  ∀ ⦃c₁ c₂ r₁ r₂ v a⦄, c₁.origin = o₁ → c₂.origin = o₂ → Q v → Shows c₁ r₁ v → Shows c₂ r₂ v →
    decode c₁ r₁ = .ok a → decode c₂ r₂ = .ok a

variable {α β : Type} {o₁ o₂ : Origin} {Q Q' : Value → Prop} {decode : Decoder α}

theorem Carries.mono (h : Carries o₁ o₂ Q decode) (hQ : ∀ v, Q' v → Q v) :
    Carries o₁ o₂ Q' decode :=
  fun _ _ _ _ v _ h₁ h₂ hv => h h₁ h₂ (hQ v hv)

theorem Carries.map (h : Carries o₁ o₂ Q decode) (f : α → β) :
    Carries o₁ o₂ Q fun ctx r => (decode ctx r).map f := by
  intro c₁ c₂ r₁ r₂ v b ho₁ ho₂ hv h₁ h₂ hb
  obtain ⟨a, ha, rfl⟩ := map_eq_ok.1 hb
  exact map_eq_ok.2 ⟨a, h ho₁ ho₂ hv h₁ h₂ ha, rfl⟩

/-! ## Scalars and lists -/

theorem scalar_eq_ok {expected : String} {fit : Scalar → Fit α} {ctx : Context} {r : Reading}
    {a : α} :
    scalar expected fit ctx r = .ok a ↔ ∃ span s, r = .scalar span s ∧ fit s = .good a := by
  cases r with
  | scalar span s => cases h : fit s <;> simp [scalar, h]
  | _ => simp [scalar]

theorem carries_scalar (expected : String) (fit : Scalar → Fit α) :
    Carries o₁ o₂ Q (scalar expected fit) := by
  intro c₁ c₂ r₁ r₂ v a _ _ _ h₁ h₂ h
  obtain ⟨span, s, rfl, hfit⟩ := scalar_eq_ok.1 h
  cases h₁
  obtain ⟨span, rfl⟩ := h₂.of_scalar
  exact scalar_eq_ok.2 ⟨span, s, rfl, hfit⟩

theorem carries_nullable (h : Carries o₁ o₂ Q decode) : Carries o₁ o₂ Q (nullable decode) := by
  intro c₁ c₂ r₁ r₂ v a ho₁ ho₂ hv h₁ h₂ ha
  by_cases hnull : v = .null
  · subst hnull
    obtain ⟨span₁, rfl⟩ := h₁.of_scalar
    obtain ⟨span₂, rfl⟩ := h₂.of_scalar
    exact ha
  · have hother : ∀ {c r}, Shows c r v → nullable decode c r = (decode c r).map some := by
      intro c r hr
      unfold nullable
      split
      · cases hr
        exact absurd rfl hnull
      · rfl
    rw [hother h₁] at ha
    rw [hother h₂]
    exact h.map some ho₁ ho₂ hv h₁ h₂ ha

/-- The items of a list. -/
def Value.items : Value → List Value
  | .array items => items
  | _ => []

theorem Value.nesting_lt_of_mem_items {v w : Value} (h : w ∈ v.items) : w.nesting < v.nesting := by
  cases v with
  | array items => exact Nat.lt_succ_of_le (nestingOfItems_le.1 (Nat.le_refl _) w h)
  | _ => cases h

theorem list_eq_ok {ctx : Context} {r : Reading} {values : List α} :
    list decode ctx r = .ok values ↔ ∃ inner span items, r = .array span items none ∧
      ctx.enter span.before = .ok inner ∧ items.mapM (decode inner) = .ok values := by
  cases r with
  | array span items cut =>
    simp only [list, bind_eq_ok, mapError_eq_ok]
    constructor
    · rintro ⟨inner, henter, as, has, ⟨⟩, hcut, ⟨⟩⟩
      cases raiseCut_eq_ok.1 hcut
      exact ⟨inner, span, items, rfl, henter, has⟩
    · rintro ⟨inner, _, _, ⟨⟩, henter, has⟩
      exact ⟨inner, henter, values, has, (), rfl, rfl⟩
  | _ => simp [list]

/-- What a decoder makes of the items of a list one after the other. -/
theorem Carries.mapM (h : Carries o₁ o₂ Q decode) {c₁ c₂ : Context} (ho₁ : c₁.origin = o₁)
    (ho₂ : c₂.origin = o₂) {pairs₁ pairs₂ : List (Reading × Value)} {values : List α}
    (heq : pairs₁.map (·.2) = pairs₂.map (·.2)) (hQ : ∀ p ∈ pairs₁, Q p.2)
    (h₁ : ∀ p ∈ pairs₁, Shows c₁ p.1 p.2) (h₂ : ∀ p ∈ pairs₂, Shows c₂ p.1 p.2)
    (hvalues : (pairs₁.map (·.1)).mapM (decode c₁) = .ok values) :
    (pairs₂.map (·.1)).mapM (decode c₂) = .ok values := by
  induction pairs₁ generalizing pairs₂ values with
  | nil =>
    cases pairs₂ with
    | nil => exact hvalues
    | cons => simp at heq
  | cons p₁ pairs₁ ih =>
    cases pairs₂ with
    | nil => simp at heq
    | cons p₂ pairs₂ =>
      simp only [List.map_cons, List.cons.injEq, List.forall_mem_cons] at heq hQ h₁ h₂
      simp only [List.map_cons, List.mapM_cons, bind_eq_ok] at hvalues ⊢
      obtain ⟨a, ha, as, has, hcons⟩ := hvalues
      exact ⟨a, h ho₁ ho₂ hQ.1 h₁.1 (heq.1 ▸ h₂.1) ha, as, ih heq.2 hQ.2 h₁.2 h₂.2 has, hcons⟩

theorem carries_list (h : Carries o₁ o₂ Q decode) :
    Carries o₁ o₂ (fun v => ∀ w ∈ v.items, Q w) (list decode) := by
  intro c₁ c₂ r₁ r₂ v values ho₁ ho₂ hQ h₁ h₂ hvalues
  obtain ⟨inner₁, span₁, items, rfl, henter₁, hvalues⟩ := list_eq_ok.1 hvalues
  cases h₁ with
  | @array _ inner _ pairs₁ henter h₁ =>
    cases henter₁.symm.trans henter
    obtain ⟨inner₂, span₂, pairs₂, rfl, henter₂, heq, h₂⟩ := h₂.of_array
    have horigin₁ := (Context.enter_ok henter).1.trans ho₁
    have horigin₂ := (Context.enter_ok henter₂).1.trans ho₂
    have hQ : ∀ p ∈ pairs₁, Q p.2 := fun p hp => hQ _ (List.mem_map_of_mem hp)
    have hmapM := h.mapM horigin₁ horigin₂ heq.symm hQ h₁ h₂ hvalues
    exact list_eq_ok.2 ⟨inner₂, span₂, _, rfl, henter₂, hmapM⟩

/-! ## Known fields -/

/-- Two look-ups find the same: under each name both nothing, or both a reading of one value. -/
def SameFound (c₁ c₂ : Context) (find₁ find₂ : String → Option Reading) : Prop :=
  ∀ name, find₁ name = none ∧ find₂ name = none ∨
    ∃ r₁ r₂ v, find₁ name = some r₁ ∧ find₂ name = some r₂ ∧ Shows c₁ r₁ v ∧ Shows c₂ r₂ v

/-- The members of two readings of one object, looked up by name. -/
theorem ShowsMembers.find_both {c₁ c₂ : Context} {members₁ members₂ : List Member}
    {entries : List (String × Value)} (h₁ : ShowsMembers c₁ members₁ entries)
    (h₂ : ShowsMembers c₂ members₂ entries) (name : String) :
    Fields.find members₁ name = none ∧ Fields.find members₂ name = none ∨
      ∃ r₁ r₂ v, Fields.find members₁ name = some r₁ ∧ Fields.find members₂ name = some r₂ ∧
        (name, v) ∈ entries ∧ Shows c₁ r₁ v ∧ Shows c₂ r₂ v := by
  obtain ⟨hnone₁, habsent⟩ | ⟨r₁, v, hsome₁, hv, hr₁⟩ := h₁.find_cases name
  · obtain ⟨hnone₂, -⟩ | ⟨_, w, _, hw, _⟩ := h₂.find_cases name
    · exact .inl ⟨hnone₁, hnone₂⟩
    · exact absurd hw (habsent w)
  · obtain ⟨-, habsent⟩ | ⟨r₂, w, hsome₂, hw, hr₂⟩ := h₂.find_cases name
    · exact absurd hv (habsent v)
    · obtain rfl : v = w := by simpa using List.inj_on_of_nodup_map h₁.distinct hv hw rfl
      exact .inr ⟨r₁, r₂, v, hsome₁, hsome₂, hv, hr₁, hr₂⟩

theorem ShowsMembers.sameFound {c₁ c₂ : Context} {members₁ members₂ : List Member}
    {entries : List (String × Value)} (h₁ : ShowsMembers c₁ members₁ entries)
    (h₂ : ShowsMembers c₂ members₂ entries) :
    SameFound c₁ c₂ (Fields.find members₁) (Fields.find members₂) := by
  intro name
  refine (h₁.find_both h₂ name).imp_right ?_
  rintro ⟨r₁, r₂, v, hsome₁, hsome₂, -, hr₁, hr₂⟩
  exact ⟨r₁, r₂, v, hsome₁, hsome₂, hr₁, hr₂⟩

/-- Members without repetition pass the check if each passes by itself, so their order does not
count. -/
theorem checkMembers_eq_ok {known : List Field} {ctx : Context} {seen : List String}
    {members : List Member} (hkeys : ∀ m ∈ members, ∃ key, m.key = .ok key ∧ key ∉ seen)
    (hnodup : (members.map Member.key).Nodup) (hskim : ∀ m ∈ members, ctx.skim m.value = .ok ()) :
    Fields.checkMembers known ctx seen members = .ok () ↔
      ∀ m ∈ members, ∀ key, m.key = .ok key → ∀ f, known.find? (·.name == key) = some f →
        f.check ctx m.value = .ok () := by
  induction members generalizing seen with
  | nil => simp [Fields.checkMembers]
  | cons m rest ih =>
    rw [List.forall_mem_cons] at hkeys hskim ⊢
    obtain ⟨⟨key, hkey, hseen⟩, hrest⟩ := hkeys
    obtain ⟨hm, hnodup⟩ := List.nodup_cons.1 hnodup
    -- the keys of the rest are new also after this one
    have hfresh : ∀ m' ∈ rest, ∃ key', m'.key = .ok key' ∧ key' ∉ key :: seen := by
      intro m' hm'
      obtain ⟨key', hkey', hseen'⟩ := hrest m' hm'
      refine ⟨key', hkey', List.not_mem_cons_of_ne_of_not_mem ?_ hseen'⟩
      rintro rfl
      exact hm (hkey ▸ hkey' ▸ List.mem_map_of_mem hm')
    cases hfind : known.find? (·.name == key) with
    | none =>
      simp [Fields.checkMembers, ok_bind, hkey, hfind, hskim.1, ih hrest hnodup hskim.2]
    | some f =>
      simp [Fields.checkMembers, ok_bind, seq_eq_ok, hkey, hfind, hseen, ih hfresh hnodup hskim.2]

/-- What an object with known fields gives carries over if each of its fields does. -/
structure FieldsCarry (o₁ o₂ : Origin) (fields : Fields α) : Prop where
  check : ∀ f ∈ fields.known, Carries o₁ o₂ (fun _ => True) f.check
  build : ∀ {c₁ c₂ find₁ find₂ a}, c₁.origin = o₁ → c₂.origin = o₂ →
    SameFound c₁ c₂ find₁ find₂ → fields.build c₁ find₁ = .ok a → fields.build c₂ find₂ = .ok a

namespace FieldsCarry

theorem pure (a : α) : FieldsCarry o₁ o₂ (.pure a) :=
  ⟨nofun, fun _ _ _ h => h⟩

theorem map {fields : Fields α} (h : FieldsCarry o₁ o₂ fields) (f : α → β) :
    FieldsCarry o₁ o₂ (f <$> fields) := by
  refine ⟨h.check, fun ho₁ ho₂ hfound hb => ?_⟩
  obtain ⟨a, ha, rfl⟩ := map_eq_ok.1 hb
  exact map_eq_ok.2 ⟨a, h.build ho₁ ho₂ hfound ha, rfl⟩

theorem seq {f : Fields (α → β)} {fields : Fields α} (hf : FieldsCarry o₁ o₂ f)
    (h : FieldsCarry o₁ o₂ fields) : FieldsCarry o₁ o₂ (f <*> fields) := by
  refine ⟨List.forall_mem_append.2 ⟨hf.check, h.check⟩, fun ho₁ ho₂ hfound hb => ?_⟩
  obtain ⟨g, hg, hb⟩ := bind_eq_ok.1 hb
  obtain ⟨a, ha, hb⟩ := bind_eq_ok.1 hb
  exact bind_eq_ok.2 ⟨g, hf.build ho₁ ho₂ hfound hg,
    bind_eq_ok.2 ⟨a, h.build ho₁ ho₂ hfound ha, hb⟩⟩

theorem required (name : String) (h : Carries o₁ o₂ (fun _ => True) decode) :
    FieldsCarry o₁ o₂ (.required name decode) := by
  refine ⟨List.forall_mem_singleton.2 (h.map _), fun ho₁ ho₂ hfound ha => ?_⟩
  obtain ⟨hnone, -⟩ | ⟨r₁, r₂, v, hr₁, hr₂, h₁, h₂⟩ := hfound name
  · simp [Fields.required, hnone] at ha
  · simp only [Fields.required, hr₁, hr₂] at ha ⊢
    exact h ho₁ ho₂ trivial h₁ h₂ ha

theorem optional (name : String) (h : Carries o₁ o₂ (fun _ => True) decode) (default : α) :
    FieldsCarry o₁ o₂ (.optional name decode default) := by
  refine ⟨List.forall_mem_singleton.2 (h.map _), fun ho₁ ho₂ hfound ha => ?_⟩
  obtain ⟨hnone₁, hnone₂⟩ | ⟨r₁, r₂, v, hr₁, hr₂, h₁, h₂⟩ := hfound name
  · simpa [Fields.optional, hnone₁, hnone₂] using ha
  · simp only [Fields.optional, hr₁, hr₂] at ha ⊢
    exact h ho₁ ho₂ trivial h₁ h₂ ha

variable {fields : Fields α} {c₁ c₂ : Context} {members₁ members₂ : List Member}
  {entries : List (String × Value)}

/-- The checks of the members of one reading carry over to those of the other, in whatever order
they are made. -/
theorem checkMembers (h : FieldsCarry o₁ o₂ fields) (ho₁ : c₁.origin = o₁) (ho₂ : c₂.origin = o₂)
    (h₁ : ShowsMembers c₁ members₁ entries) (h₂ : ShowsMembers c₂ members₂ entries)
    (hok : Fields.checkMembers fields.known c₁ [] members₁ = .ok ()) :
    Fields.checkMembers fields.known c₂ [] members₂ = .ok () := by
  have hkeys : ∀ {c members}, ShowsMembers c members entries →
      ∀ m ∈ members, ∃ key, m.key = .ok key ∧ key ∉ [] := by
    intro c members h m hm
    obtain ⟨e, -, hkey, -⟩ := h.exists_entry hm
    exact ⟨e.1, hkey, List.not_mem_nil⟩
  have hskim : ∀ {c members}, ShowsMembers c members entries →
      ∀ m ∈ members, c.skim m.value = .ok () := by
    intro c members h m hm
    obtain ⟨e, -, -, hshows⟩ := h.exists_entry hm
    exact hshows.skim
  rw [checkMembers_eq_ok (hkeys h₁) h₁.nodup (hskim h₁)] at hok
  rw [checkMembers_eq_ok (hkeys h₂) h₂.nodup (hskim h₂)]
  intro m₂ hm₂ key hkey f hf
  obtain ⟨e, he, hkey₂, hshows₂⟩ := h₂.exists_entry hm₂
  obtain ⟨m₁, hm₁, hkey₁, hshows₁⟩ := h₁.exists_member he
  have hcheck := hok m₁ hm₁ key (hkey₁.trans (hkey₂.symm.trans hkey)) f hf
  exact h.check f (List.mem_of_find?_eq_some hf) ho₁ ho₂ trivial hshows₁ hshows₂ hcheck

theorem ofMembers (h : FieldsCarry o₁ o₂ fields) (ho₁ : c₁.origin = o₁) (ho₂ : c₂.origin = o₂)
    (h₁ : ShowsMembers c₁ members₁ entries) (h₂ : ShowsMembers c₂ members₂ entries) {a : α}
    (ha : fields.ofMembers c₁ members₁ none = .ok a) :
    fields.ofMembers c₂ members₂ none = .ok a := by
  obtain ⟨hcheck, hbuild⟩ := seq_eq_ok.1 ha
  have hbuild := h.build ho₁ ho₂ (h₁.sameFound h₂) hbuild
  exact seq_eq_ok.2 ⟨h.checkMembers ho₁ ho₂ h₁ h₂ hcheck, hbuild⟩

end FieldsCarry

/-! ## Named alternatives -/

/-- What comes with the name in a value that stands for a named alternative. -/
def Value.payloads : Value → List Value
  | .object [(_, payload)] => [payload]
  | _ => []

/-- Whether a value is a list. -/
def Value.isArray : Value → Bool
  | .array _ => true
  | _ => false

/-- A value stands for the absence of a payload if it is `null`; among held members an empty object
does so too. -/
theorem isUnitPayload_iff {ctx : Context} {r : Reading} {v : Value} (h : Shows ctx r v) :
    isUnitPayload ctx r = true ↔ v = .null ∨ v = .object [] ∧ ctx.origin = .held := by
  cases h with
  | scalar _ span s => cases s <;> simp [isUnitPayload]
  | array => simp [isUnitPayload]
  | @object _ _ _ pairs entries _ _ _ perm =>
    cases pairs with
    | nil =>
      cases perm.nil_eq
      simp [isUnitPayload]
    | cons p rest =>
      have hne : entries ≠ [] := by
        rintro rfl
        simpa using perm.length_eq
      simp [isUnitPayload, hne]

/-- What comes with a name carries over. A record must not be written as an array in a text. -/
def PayloadCarries (o₁ o₂ : Origin) (Q : Value → Prop) : Payload α → Prop
  | .unit _ => True
  | .value decode => Carries o₁ o₂ Q decode
  | .record _ fields => FieldsCarry o₁ o₂ fields ∧ (o₁ = .text → ∀ items, ¬ Q (.array items))

theorem decode_record_object {wording : String} {fields : Fields α} {ctx : Context} {span : Span}
    {members : List Member} {a : α} :
    (Payload.record wording fields).decode ctx (.object span members none) = .ok a ↔
      ∃ inner, ctx.enter span.before = .ok inner ∧ fields.ofMembers inner members none = .ok a := by
  have hfields : (Payload.record wording fields).decode ctx (.object span members none) =
      fields.decode wording ctx (.object span members none) := by
    cases horigin : ctx.origin <;> simp [Payload.decode, horigin]
  simp only [hfields, Fields.decode, bind_eq_ok, mapError_eq_ok]

theorem carries_payload {payload : Payload α} (ho : o₁ = .held ↔ o₂ = .held)
    (h : PayloadCarries o₁ o₂ Q payload) : Carries o₁ o₂ Q payload.decode := by
  intro c₁ c₂ r₁ r₂ v a ho₁ ho₂ hv h₁ h₂ ha
  cases payload with
  | unit b =>
    have hunit : isUnitPayload c₁ r₁ = isUnitPayload c₂ r₂ := by
      rw [Bool.eq_iff_iff, isUnitPayload_iff h₁, isUnitPayload_iff h₂, ho₁, ho₂, ho]
    simp only [Payload.decode, hunit] at ha ⊢
    split at ha
    · next hnone => simpa [hnone] using ha
    · cases ha
  | value decode => exact h ho₁ ho₂ hv h₁ h₂ ha
  | record wording fields =>
    cases v with
    | scalar s =>
      obtain ⟨span, rfl⟩ := h₁.of_scalar
      cases horigin : c₁.origin <;> simp [Payload.decode, horigin, Fields.decode] at ha
    | array items =>
      obtain ⟨_, span, pairs, rfl, -⟩ := h₁.of_array
      cases horigin : c₁.origin with
      | text => exact absurd hv (h.2 (ho₁.symm.trans horigin) items)
      | value => simp [Payload.decode, horigin] at ha
      | held => simp [Payload.decode, horigin] at ha
    | object entries =>
      obtain ⟨inner₁, span₁, members₁, rfl, henter₁, hmembers₁, -⟩ := h₁.of_object
      obtain ⟨inner₂, span₂, members₂, rfl, henter₂, hmembers₂, -⟩ := h₂.of_object
      obtain ⟨inner, henter, ha⟩ := decode_record_object.1 ha
      cases henter.symm.trans henter₁
      have horigin₁ := (Context.enter_ok henter₁).1.trans ho₁
      have horigin₂ := (Context.enter_ok henter₂).1.trans ho₂
      have hfields := h.1.ofMembers horigin₁ horigin₂ hmembers₁ hmembers₂ ha
      exact decode_record_object.2 ⟨inner₂, henter₂, hfields⟩

variable {variants : List (String × Payload α)}

theorem variant_scalar_eq_ok {ctx : Context} {span : Span} {s : Scalar} {a : α} :
    variant variants ctx (.scalar span s) = .ok a ↔
      ∃ name, s = .string name ∧ findVariant variants name = .ok (.unit a) := by
  cases s with
  | string name =>
    cases hfind : findVariant variants name with
    | error => simp [variant, hfind]
    | ok payload => cases payload <;> simp [variant, hfind]
  | _ => cases horigin : ctx.origin <;> simp [variant, horigin]

/-- An object stands for an alternative if it has exactly one member, wherever it is met. -/
theorem variant_object_eq_ok {ctx : Context} {span : Span} {members : List Member} {a : α}
    (hcloses : ctx.origin = .text → Closes members) :
    variant variants ctx (.object span members none) = .ok a ↔
      ∃ inner m name payload, ctx.enter span.before = .ok inner ∧ members = [m] ∧
        m.key = .ok name ∧ findVariant variants name = .ok payload ∧
        payload.decode inner m.value = .ok a := by
  cases members with
  | nil => cases horigin : ctx.origin <;> simp [variant, horigin, bind_eq_ok]
  | cons m rest =>
    cases horigin : ctx.origin with
    | text =>
      have hclosed : openFault? m.value.after = none ↔ rest = [] := hcloses horigin
      cases rest with
      | nil => simp [variant, horigin, bind_eq_ok, mapError_eq_ok, hclosed.2, raise]
      | cons =>
        have hopen := hclosed.not.2 (List.cons_ne_nil _ _)
        obtain ⟨fault, hfault⟩ := Option.ne_none_iff_exists'.1 hopen
        simp [variant, horigin, bind_eq_ok, mapError_eq_ok, hfault, raise]
    | value => cases rest <;> simp [variant, horigin, bind_eq_ok, mapError_eq_ok]
    | held => cases rest <;> simp [variant, horigin, bind_eq_ok, mapError_eq_ok]

theorem carries_variant (ho : o₁ = .held ↔ o₂ = .held)
    (h : ∀ p ∈ variants, PayloadCarries o₁ o₂ Q p.2) :
    Carries o₁ o₂ (fun v => ∀ w ∈ v.payloads, Q w) (variant variants) := by
  intro c₁ c₂ r₁ r₂ v a ho₁ ho₂ hv h₁ h₂ ha
  cases v with
  | scalar s =>
    obtain ⟨span₁, rfl⟩ := h₁.of_scalar
    obtain ⟨span₂, rfl⟩ := h₂.of_scalar
    exact variant_scalar_eq_ok.2 (variant_scalar_eq_ok.1 ha)
  | array items =>
    obtain ⟨_, span, pairs, rfl, -⟩ := h₁.of_array
    cases horigin : c₁.origin <;> simp [variant, horigin] at ha
  | object entries =>
    obtain ⟨inner₁, span₁, members₁, rfl, henter₁, hmembers₁, hcloses₁⟩ := h₁.of_object
    obtain ⟨inner₂, span₂, members₂, rfl, henter₂, hmembers₂, hcloses₂⟩ := h₂.of_object
    obtain ⟨inner, m₁, name, payload, henter, rfl, hkey, hfind, ha⟩ :=
      (variant_object_eq_ok hcloses₁).1 ha
    cases henter.symm.trans henter₁
    -- the one member shows the one entry, and so does the member of the other reading
    obtain ⟨e, rfl⟩ := List.length_eq_one_iff.1 hmembers₁.length_eq.symm
    obtain ⟨m₂, rfl⟩ := List.length_eq_one_iff.1 hmembers₂.length_eq
    obtain ⟨_, he₁, hkey₁, hshows₁⟩ := hmembers₁.exists_entry (List.mem_singleton_self m₁)
    obtain ⟨_, he₂, hkey₂, hshows₂⟩ := hmembers₂.exists_entry (List.mem_singleton_self m₂)
    cases List.mem_singleton.1 he₁
    cases List.mem_singleton.1 he₂
    have horigin₁ := (Context.enter_ok henter₁).1.trans ho₁
    have horigin₂ := (Context.enter_ok henter₂).1.trans ho₂
    have hpayload : PayloadCarries o₁ o₂ Q payload := by
      unfold findVariant at hfind
      split at hfind
      · next p hp =>
        cases hfind
        exact h p (List.mem_of_find?_eq_some hp)
      · cases hfind
    have ha := carries_payload ho hpayload horigin₁ horigin₂ (hv _ (by simp [Value.payloads]))
      hshows₁ hshows₂ ha
    have hname := hkey₂.trans (hkey₁.symm.trans hkey)
    exact (variant_object_eq_ok hcloses₂).2
      ⟨inner₂, m₂, name, payload, henter₂, rfl, hname, hfind, ha⟩

theorem carries_name (ho : o₁ = .held ↔ o₂ = .held) (variants : List (String × α)) :
    Carries o₁ o₂ (fun _ => True) (name variants) := by
  have hunits : ∀ p ∈ variants.map fun v => (v.1, Payload.unit v.2),
      PayloadCarries o₁ o₂ (fun _ => True) p.2 := List.forall_mem_map.2 fun _ _ => trivial
  exact (carries_variant ho hunits).mono fun _ _ _ _ => trivial

end CodeView.Json
