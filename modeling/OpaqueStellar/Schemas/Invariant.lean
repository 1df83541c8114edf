import OpaqueStellar.Schemas.Registry

/-! # The schema registry in every run

`Effect` says what a successful call did. A schema record is written when it is registered and when
it is deprecated; a delegate list is edited by the two delegate calls only, which ask for the
authority's signature. `Lawful` is the invariant, `Kept` what happens to one record along a run. -/

namespace OpaqueStellar.Schemas

open OpaqueStellar.Lib OpaqueStellar.Soroban

variable {host : Host} {env : Env}

/-! ## Effects -/

def Signed (host : Host) (env : Env) (a : Address) : Prop := a ∈ env.auths ∧ a ≠ host.self

theorem requireAuth_eq_ok {a : Address} {u : Unit} :
    (env.requireAuth host.self a : Result SchemaError Unit) = .ok u ↔ Signed host env a :=
  Env.requireAuth_eq_ok

theorem readSchema_eq_ok {w : World} {id : BytesN 32} {s : Schema} :
    readSchema w id = .ok s ↔ w.registry.schemas.lookup id = some s := expect_eq_ok

theorem deriveSchemaId_eq_ok {key id : BytesN 32} {name canonical : List UInt8} {version : ℕ} :
    deriveSchemaId host key name version canonical = .ok id ↔
      name.length ≤ MAX_FIELD_DEFS_STR_LEN ∧
        coreDeriveSchemaId host key ((fromUtf8 name).getD []) version canonical = id := by
  simp only [deriveSchemaId, bind_eq_ok, ensure_eq_ok, exists_const, pure_eq_ok]

/-- The identifier of the schema that these arguments describe. -/
def SchemaArgs.derivedId (args : SchemaArgs) (host : Host) (fields : List FieldDef) : BytesN 32 :=
  coreDeriveSchemaId host args.authorityKey ((fromUtf8 args.name).getD []) args.version
    (encodeCanonicalFieldDefs fields)

/-- The world after a registration. -/
def World.register (w : World) (args : SchemaArgs) (fields : List FieldDef) (sequence : ℕ) :
    World where
  registry := {
    schemas := w.registry.schemas.insert args.schemaId (args.schema fields sequence)
    delegates := w.registry.delegates.insert args.schemaId []
    schemaIds := w.registry.schemaIds ++ [args.schemaId] }
  events := w.events ++ [.SchemaRegistered args.schemaId args.authority args.name]

/-- What a delegate call of `authority` makes of the list `ds`. -/
inductive Edit (authority : Address) (id : BytesN 32) (ds : List Address) :
    Call → List Address → Prop
  | added {delegate : Address} (room : ds.length < 10) (new : delegate ∉ ds) :
      Edit authority id ds (.addDelegate authority id delegate) (ds ++ [delegate])
  | removed {delegate : Address} {idx : ℕ} (found : ds.idxOf? delegate = some idx) :
      Edit authority id ds (.removeDelegate authority id delegate) (ds.eraseIdx idx)

inductive Effect (host : Host) (env : Env) (w : World) : Call → World → Prop
  | registered {args : SchemaArgs} {fields : List FieldDef} (signed : Signed host env args.authority)
      (short : args.name.length ≤ 64) (parsed : readFieldDefs args.fieldDefinitions = .ok fields)
      (derived : args.schemaId = args.derivedId host fields)
      (fresh : w.registry.schemas.lookup args.schemaId = none)
      (unexpired : args.schemaExpiryLedger = 0 ∨ env.sequence < args.schemaExpiryLedger) :
      Effect host env w (.registerSchema args) (w.register args fields env.sequence)
  | edited {call : Call} {id : BytesN 32} {s : Schema} {ds : List Address} {event : SchemaEvent}
      (read : w.registry.schemas.lookup id = some s) (signed : Signed host env s.authority)
      (edit : Edit s.authority id (delegatesOf w id) call ds) :
      Effect host env w call (World.publish (writeDelegates w id ds) event)
  | deprecated {id : BytesN 32} {s : Schema} (read : w.registry.schemas.lookup id = some s)
      (signed : Signed host env s.authority) :
      Effect host env w (.deprecateSchema s.authority id)
        { w with
          registry.schemas := w.registry.schemas.insert id { s with deprecated := true } }

theorem Edit.call_eq {authority : Address} {id : BytesN 32} {ds ds' : List Address} {call : Call}
    (h : Edit authority id ds call ds') :
    ∃ delegate, call = .addDelegate authority id delegate ∨
      call = .removeDelegate authority id delegate := by
  cases h with
  | @added delegate hroom hnew => exact ⟨delegate, .inl rfl⟩
  | @removed delegate idx hfound => exact ⟨delegate, .inr rfl⟩

theorem registerSchema_eq_ok {w w' : World} {args : SchemaArgs} :
    registerSchema host env w args = .ok w' ↔
      Signed host env args.authority ∧ args.name.length ≤ 64 ∧
        ∃ fields, readFieldDefs args.fieldDefinitions = .ok fields ∧
          args.schemaId = args.derivedId host fields ∧
          w.registry.schemas.lookup args.schemaId = none ∧
          (args.schemaExpiryLedger = 0 ∨ env.sequence < args.schemaExpiryLedger) ∧
          w' = w.register args fields env.sequence := by
  simp only [registerSchema, bind_eq_ok, requireAuth_eq_ok, ensure_eq_ok, exists_const,
    deriveSchemaId_eq_ok, Option.isSome_eq_false_iff, Option.isNone_iff_eq_none, pure_eq_ok]
  constructor
  · rintro ⟨hsigned, hshort, fields, hparsed, id, ⟨-, rfl⟩, hid, hfresh, hunexpired, rfl⟩
    exact ⟨hsigned, hshort, fields, hparsed, hid, hfresh, hunexpired, rfl⟩
  · rintro ⟨hsigned, hshort, fields, hparsed, hid, hfresh, hunexpired, rfl⟩
    have hbuffer : args.name.length ≤ MAX_FIELD_DEFS_STR_LEN := le_trans hshort (by decide)
    exact ⟨hsigned, hshort, fields, hparsed, _, ⟨hbuffer, rfl⟩, hid, hfresh, hunexpired, rfl⟩

/-- **Every successful call has the effect of its call.** -/
theorem effect_of_exec {w w' : World} {call : Call} (h : exec host env w call = .ok w') :
    Effect host env w call w' := by
  cases call with
  | registerSchema args =>
      obtain ⟨hsigned, hshort, fields, hparsed, hid, hfresh, hunexpired, rfl⟩ :=
        registerSchema_eq_ok.mp h
      exact .registered hsigned hshort hparsed hid hfresh hunexpired
  | addDelegate authority id delegate =>
      simp only [exec, addDelegate, bind_eq_ok, requireAuth_eq_ok, exists_const, readSchema_eq_ok,
        ensure_eq_ok, pure_eq_ok] at h
      obtain ⟨hsigned, s, hread, rfl, hroom, hnew, rfl⟩ := h
      exact .edited hread hsigned (.added hroom hnew)
  | removeDelegate authority id delegate =>
      simp only [exec, removeDelegate, bind_eq_ok, requireAuth_eq_ok, exists_const, readSchema_eq_ok,
        ensure_eq_ok, okOr_eq_ok, pure_eq_ok] at h
      obtain ⟨hsigned, s, hread, rfl, idx, hfound, rfl⟩ := h
      exact .edited hread hsigned (.removed hfound)
  | deprecateSchema authority id =>
      simp only [exec, deprecateSchema, bind_eq_ok, requireAuth_eq_ok, exists_const,
        readSchema_eq_ok, ensure_eq_ok, pure_eq_ok] at h
      obtain ⟨hsigned, s, hread, rfl, rfl⟩ := h
      exact .deprecated hread hsigned

theorem step_cases (host : Host) (w : World) (inv : Invocation) :
    (∃ e, (machine host).step w inv = (w, .error e)) ∨
      ∃ w', (machine host).step w inv = (w', .ok ()) ∧ Effect host inv.env w inv.call w' := by
  rcases Machine.transactional_cases (fun w (inv : Invocation) => do
    let w ← exec host inv.env w inv.call
    pure (w, ())) w inv with ⟨e, hstep⟩ | ⟨w', u, hstep, hexec⟩
  · exact .inl ⟨e, hstep⟩
  · obtain ⟨w₁, hcalled, heq⟩ := bind_eq_ok.mp hexec
    cases heq
    exact .inr ⟨w', hstep, effect_of_exec hcalled⟩

/-- What survives every effect holds after every run. -/
theorem run_stable {J : World → Prop}
    (hok : ∀ w (inv : Invocation) w', J w → Effect host inv.env w inv.call w' → J w') {w : World}
    (h : J w) (invs : List Invocation) : J ((machine host).final w invs) := by
  apply Machine.stable _ _ h
  intro w inv h
  rcases step_cases host w inv with ⟨e, hstep⟩ | ⟨w', hstep, heffect⟩
  · rw [hstep]
    exact h
  · rw [hstep]
    exact hok w inv w' h heffect

/-! ## Delegates -/

theorem delegatesOf_writeDelegates (w : World) (id id' : BytesN 32) (ds : List Address) :
    delegatesOf (writeDelegates w id ds) id' = if id' = id then ds else delegatesOf w id' := by
  unfold delegatesOf writeDelegates
  split
  · next h =>
      subst h
      simp [Finmap.lookup_insert]
  · next h => simp [Finmap.lookup_insert_of_ne _ h]

/-- A list of delegates: no one twice, at most ten. -/
structure Listed (ds : List Address) : Prop where
  nodup : ds.Nodup
  length_le : ds.length ≤ 10

theorem Listed.edit {authority : Address} {id : BytesN 32} {ds ds' : List Address} {call : Call}
    (h : Listed ds) (hedit : Edit authority id ds call ds') : Listed ds' := by
  cases hedit with
  | @added delegate hroom hnew =>
      refine ⟨?_, ?_⟩
      · apply List.Nodup.append h.nodup (List.nodup_singleton delegate)
        simpa using hnew
      · rw [List.length_append]
        exact hroom
  | @removed delegate idx hfound =>
      have hsub := List.eraseIdx_sublist ds idx
      exact ⟨h.nodup.sublist hsub, le_trans hsub.length_le h.length_le⟩

/-- What holds of the stored records. -/
structure Lawful (w : World) : Prop where
  identified : ∀ id s, w.registry.schemas.lookup id = some s → s.schemaId = id
  listed : ∀ id, Listed (delegatesOf w id)
  unregistered : ∀ id, w.registry.schemas.lookup id = none → delegatesOf w id = []

theorem lawful_initial : Lawful {} := by
  refine ⟨?_, ?_, ?_⟩
  · intro id s hread
    cases hread
  · intro id
    exact ⟨List.nodup_nil, Nat.zero_le _⟩
  · intro id _
    rfl

theorem delegatesOf_register (w : World) (args : SchemaArgs) (fields : List FieldDef)
    (sequence : ℕ) (id : BytesN 32) :
    delegatesOf (w.register args fields sequence) id =
      if id = args.schemaId then [] else delegatesOf w id :=
  delegatesOf_writeDelegates w args.schemaId id []

theorem lawful_effect {w w' : World} {call : Call} (h : Lawful w)
    (heffect : Effect host env w call w') : Lawful w' := by
  cases heffect with
  | @registered args fields hsigned hshort hparsed hid hfresh hunexpired =>
      refine ⟨?_, ?_, ?_⟩
      · intro id s hread
        rcases Store.lookup_insert_cases hread with ⟨rfl, rfl⟩ | hread
        · rfl
        · exact h.identified id s hread
      · intro id
        rw [delegatesOf_register]
        split
        · exact ⟨List.nodup_nil, Nat.zero_le _⟩
        · exact h.listed id
      · intro id hnone
        obtain ⟨hne, hnone⟩ := Store.lookup_of_insert_none hnone
        rw [delegatesOf_register, if_neg hne]
        exact h.unregistered id hnone
  | @edited _ id s ds event hread hsigned hedit =>
      refine ⟨h.identified, ?_, ?_⟩
      · intro id'
        show Listed (delegatesOf (writeDelegates w id ds) id')
        rw [delegatesOf_writeDelegates]
        split
        · exact (h.listed id).edit hedit
        · exact h.listed id'
      · intro id' hnone
        have hne : id' ≠ id := by
          rintro rfl
          exact Option.some_ne_none s (hread.symm.trans hnone)
        show delegatesOf (writeDelegates w id ds) id' = []
        rw [delegatesOf_writeDelegates, if_neg hne]
        exact h.unregistered id' hnone
  | @deprecated id s hread hsigned =>
      refine ⟨?_, h.listed, ?_⟩
      · intro id' s' hread'
        rcases Store.lookup_insert_cases hread' with ⟨rfl, rfl⟩ | hread'
        · exact h.identified _ s hread
        · exact h.identified id' s' hread'
      · intro id' hnone
        exact h.unregistered id' (Store.lookup_of_insert_none hnone).2

theorem lawful_run (host : Host) (invs : List Invocation) :
    Lawful ((machine host).final {} invs) := by
  apply run_stable _ lawful_initial
  intro w inv w' h heffect
  exact lawful_effect h heffect

/-! ## Records -/

/-- The record that `s` became: nothing but the deprecation mark may differ, and it is never taken
back. -/
structure Kept (s s' : Schema) : Prop where
  same : s' = { s with deprecated := s'.deprecated }
  deprecated : s.deprecated = true → s'.deprecated = true

theorem Kept.refl (s : Schema) : Kept s s := ⟨rfl, id⟩

theorem Kept.trans {s s' s'' : Schema} (h : Kept s s') (h' : Kept s' s'') : Kept s s'' := by
  refine ⟨?_, fun hd => h'.deprecated (h.deprecated hd)⟩
  rw [h'.same, h.same]

/-- A registered schema is still registered after any call, and kept. -/
theorem kept_effect {w w' : World} {call : Call} {id : BytesN 32} {s : Schema}
    (hread : w.registry.schemas.lookup id = some s) (heffect : Effect host env w call w') :
    ∃ s', w'.registry.schemas.lookup id = some s' ∧ Kept s s' := by
  cases heffect with
  | @registered args fields hsigned hshort hparsed hid hfresh hunexpired =>
      have hne : id ≠ args.schemaId := by
        rintro rfl
        exact Option.some_ne_none s (hread.symm.trans hfresh)
      exact ⟨s, (Finmap.lookup_insert_of_ne _ hne).trans hread, .refl s⟩
  | edited hread' hsigned hedit => exact ⟨s, hread, .refl s⟩
  | @deprecated id' s' hread' hsigned =>
      by_cases hid : id = id'
      · subst hid
        obtain rfl := Option.some.inj (hread.symm.trans hread')
        exact ⟨_, Finmap.lookup_insert _, rfl, fun _ => rfl⟩
      · exact ⟨s, (Finmap.lookup_insert_of_ne _ hid).trans hread, .refl s⟩

theorem kept_run (host : Host) {w : World} {id : BytesN 32} {s : Schema}
    (hread : w.registry.schemas.lookup id = some s) (invs : List Invocation) :
    ∃ s', ((machine host).final w invs).registry.schemas.lookup id = some s' ∧ Kept s s' := by
  refine run_stable (J := fun w => ∃ s', w.registry.schemas.lookup id = some s' ∧ Kept s s') ?_
    ⟨s, hread, .refl s⟩ invs
  rintro w inv w' ⟨s', hread', hkept⟩ heffect
  obtain ⟨s'', hread'', hkept'⟩ := kept_effect hread' heffect
  exact ⟨s'', hread'', hkept.trans hkept'⟩

/-- Only a delegate call signed by the schema's authority changes its list. -/
theorem authorised_of_delegates_ne {w w' : World} {call : Call} {id : BytesN 32} (h : Lawful w)
    (heffect : Effect host env w call w') (hne : delegatesOf w' id ≠ delegatesOf w id) :
    ∃ s, w.registry.schemas.lookup id = some s ∧ Signed host env s.authority ∧
      Edit s.authority id (delegatesOf w id) call (delegatesOf w' id) := by
  cases heffect with
  | @registered args fields hsigned hshort hparsed hid hfresh hunexpired =>
      exfalso
      apply hne
      rw [delegatesOf_register]
      split
      · next heq => rw [heq, h.unregistered _ hfresh]
      · rfl
  | @edited _ id' s ds event hread hsigned hedit =>
      have hafter : delegatesOf (World.publish (writeDelegates w id' ds) event) id =
          if id = id' then ds else delegatesOf w id := delegatesOf_writeDelegates w id' id ds
      rw [hafter] at hne ⊢
      by_cases hid : id = id'
      · subst hid
        rw [if_pos rfl]
        exact ⟨s, hread, hsigned, hedit⟩
      · rw [if_neg hid] at hne
        exact absurd rfl hne
  | deprecated hread hsigned => exact absurd rfl hne

/-! ## Issuing -/

theorem issuerInAuthorizedSet_iff {w : World} {id : BytesN 32} {s : Schema} {x : Address} :
    issuerInAuthorizedSet w id s x = true ↔ x = s.authority ∨ x ∈ delegatesOf w id := by
  unfold issuerInAuthorizedSet
  rw [Bool.or_eq_true, beq_iff_eq, List.contains_iff_mem, eq_comm]

theorem isSchemaActive_iff {s : Schema} :
    isSchemaActive env s = true ↔
      s.deprecated = false ∧ (s.schemaExpiryLedger = 0 ∨ env.sequence < s.schemaExpiryLedger) := by
  simp [isSchemaActive]

/-- Who may issue under a schema. -/
theorem canIssue_iff {w : World} {id : BytesN 32} {x : Address} :
    canIssue env w id x = .ok true ↔
      ∃ s, w.registry.schemas.lookup id = some s ∧ s.deprecated = false ∧
        (s.schemaExpiryLedger = 0 ∨ env.sequence < s.schemaExpiryLedger) ∧
        (x = s.authority ∨ x ∈ delegatesOf w id) := by
  unfold canIssue
  rw [bind_eq_ok]
  simp only [readSchema_eq_ok, pure_eq_ok, Bool.and_eq_true, isSchemaActive_iff,
    issuerInAuthorizedSet_iff, and_assoc]

/-! ## Every run -/

/-- What holds after the run `before` and from there on. -/
structure RegistryLawful (host : Host) (before later : List Invocation) : Prop where
  kept : ∀ id s, ((machine host).final {} before).registry.schemas.lookup id = some s →
    ∃ s', ((machine host).final {} (before ++ later)).registry.schemas.lookup id = some s' ∧
      s'.authority = s.authority ∧ s'.name = s.name ∧ s'.version = s.version ∧
      s'.fieldDefinitions = s.fieldDefinitions ∧ s'.resolver = s.resolver ∧
      s'.schemaExpiryLedger = s.schemaExpiryLedger ∧ s'.revocable = s.revocable ∧
      (s.deprecated = true → s'.deprecated = true)
  delegates : ∀ id, (delegatesOf ((machine host).final {} before) id).Nodup ∧
    (delegatesOf ((machine host).final {} before) id).length ≤ 10
  edits : ∀ inv id, delegatesOf ((machine host).final {} (before ++ [inv])) id ≠
      delegatesOf ((machine host).final {} before) id →
    ∃ s, ((machine host).final {} before).registry.schemas.lookup id = some s ∧
      Signed host inv.env s.authority ∧
      ∃ delegate, inv.call = .addDelegate s.authority id delegate ∨
        inv.call = .removeDelegate s.authority id delegate
  issuers : ∀ env id x, canIssue env ((machine host).final {} before) id x = .ok true ↔
    ∃ s, ((machine host).final {} before).registry.schemas.lookup id = some s ∧
      s.deprecated = false ∧ (s.schemaExpiryLedger = 0 ∨ env.sequence < s.schemaExpiryLedger) ∧
      (x = s.authority ∨ x ∈ delegatesOf ((machine host).final {} before) id)

/-- **The schema registry over every run.** Registered schemas are immutable but for their
deprecation, delegate lists are short, without repetition and edited by the authority only, and who
may issue is decided by the record and the list. -/
theorem registry_lawful (host : Host) (before later : List Invocation) :
    RegistryLawful host before later := by
  have hlawful := lawful_run host before
  refine ⟨?_, ?_, ?_, ?_⟩
  · intro id s hread
    obtain ⟨s', hread', hkept⟩ := kept_run host hread later
    rw [← Machine.final_append] at hread'
    refine ⟨s', hread', ?_⟩
    rw [hkept.same]
    exact ⟨rfl, rfl, rfl, rfl, rfl, rfl, rfl, hkept.deprecated⟩
  · intro id
    exact ⟨(hlawful.listed id).nodup, (hlawful.listed id).length_le⟩
  · intro inv id hne
    rw [Machine.final_snoc] at hne
    rcases step_cases host ((machine host).final {} before) inv with
      ⟨e, hstep⟩ | ⟨w', hstep, heffect⟩
    · rw [hstep] at hne
      exact absurd rfl hne
    · rw [hstep] at hne
      obtain ⟨s, hread, hsigned, hedit⟩ := authorised_of_delegates_ne hlawful heffect hne
      exact ⟨s, hread, hsigned, hedit.call_eq⟩
  · intro env id x
    exact canIssue_iff

end OpaqueStellar.Schemas
