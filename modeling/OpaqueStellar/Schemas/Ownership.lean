import OpaqueStellar.Schemas.Invariant

/-! # Whose identifier it is

The identifier of a schema is derived from a key, and the call that registers it is authorised by an
address. Nothing ties the two: whoever registers an identifier first becomes its authority, whatever
key it was derived from. -/

namespace OpaqueStellar.Schemas

open OpaqueStellar.Lib OpaqueStellar.Soroban

variable {host : Host} {env : Env}

/-- In this state only the account with this key can register the identifier, and only by naming its
own key. -/
def Reserved (host : Host) (w : World) (key id : BytesN 32) : Prop :=
  ∀ env args w', registerSchema host env w args = .ok w' → args.schemaId = id →
    args.authority = .account key ∧ args.authority = .account args.authorityKey

theorem computeSchemaId_eq_ok {key id : BytesN 32} {name defs : List UInt8} {version : ℕ} :
    computeSchemaId host key name defs version = .ok id ↔
      ∃ fields, readFieldDefs defs = .ok fields ∧ name.length ≤ MAX_FIELD_DEFS_STR_LEN ∧
        coreDeriveSchemaId host key ((fromUtf8 name).getD []) version
          (encodeCanonicalFieldDefs fields) = id := by
  simp only [computeSchemaId, bind_eq_ok, deriveSchemaId_eq_ok]

/-! ## A free identifier can be taken by anyone -/

theorem register_free {w : World} {key id : BytesN 32} {name defs : List UInt8} {version : ℕ}
    {a : Address} (ha : a ≠ host.self) (hshort : name.length ≤ 64)
    (hid : computeSchemaId host key name defs version = .ok id)
    (hfree : w.registry.schemas.lookup id = none) :
    ∃ env args w', registerSchema host env w args = .ok w' ∧ args.schemaId = id ∧
      args.authority = a := by
  obtain ⟨fields, hparsed, -, hderived⟩ := computeSchemaId_eq_ok.mp hid
  refine ⟨⟨1, 1, [a], fun _ _ _ => false⟩, ⟨a, key, id, name, defs, true, version, none, 0⟩, _,
    registerSchema_eq_ok.mpr ⟨⟨List.mem_singleton.mpr rfl, ha⟩, hshort, fields, hparsed,
      hderived.symm, hfree, .inl rfl, rfl⟩, rfl, rfl⟩

/-- Another account, which is not the registry itself. -/
theorem exists_other_account (self : Address) (key : BytesN 32) :
    ∃ key', key' ≠ key ∧ Address.account key' ≠ self := by
  -- of three keys, one is `key` and one may be the registry's
  by_contra hnone
  push Not at hnone
  have h₁ : BytesN.ofNat 32 1 ≠ BytesN.ofNat 32 2 := by decide +kernel
  have h₂ : BytesN.ofNat 32 1 ≠ BytesN.ofNat 32 3 := by decide +kernel
  have h₃ : BytesN.ofNat 32 2 ≠ BytesN.ofNat 32 3 := by decide +kernel
  by_cases hk₁ : BytesN.ofNat 32 1 = key
  · have hs₂ := hnone _ fun h => h₁ (hk₁.trans h.symm)
    have hs₃ := hnone _ fun h => h₂ (hk₁.trans h.symm)
    exact h₃ (Address.account.inj (hs₂.trans hs₃.symm))
  · have hs₁ := hnone _ hk₁
    by_cases hk₂ : BytesN.ofNat 32 2 = key
    · have hs₃ := hnone _ fun h => h₃ (hk₂.trans h.symm)
      exact h₂ (Address.account.inj (hs₁.trans hs₃.symm))
    · have hs₂ := hnone _ hk₂
      exact h₁ (Address.account.inj (hs₁.trans hs₂.symm))

theorem reserved_iff {w : World} {key id : BytesN 32} {name defs : List UInt8} {version : ℕ}
    (hshort : name.length ≤ 64) (hid : computeSchemaId host key name defs version = .ok id) :
    Reserved host w key id ↔ (w.registry.schemas.lookup id).isSome = true := by
  constructor
  · intro hreserved
    by_contra hfree
    have hnone : w.registry.schemas.lookup id = none := by simpa using hfree
    obtain ⟨key', hne, hself⟩ := exists_other_account host.self key
    obtain ⟨env, args, w', hok, hargs, hauthority⟩ := register_free hself hshort hid hnone
    have hkey := (hreserved env args w' hok hargs).1
    rw [hauthority] at hkey
    exact hne (Address.account.inj hkey)
  · intro htaken env args w' hok hargs
    obtain ⟨-, -, fields, -, -, hfresh, -⟩ := registerSchema_eq_ok.mp hok
    rw [hargs] at hfresh
    rw [hfresh] at htaken
    cases htaken

/-! ## Where every caller names its own key -/

/-- What `register_schema` hashes for these arguments. -/
def SchemaArgs.preimage (args : SchemaArgs) (fields : List FieldDef) : List UInt8 :=
  schemaIdPreimage args.authorityKey ((fromUtf8 args.name).getD []) args.version
    (encodeCanonicalFieldDefs fields)

/-- The step registered `s` under `id`. -/
def Registers (host : Host) (e : SchemaStep) (id : BytesN 32) (s : Schema) : Prop :=
  ∃ args fields, e.input.call = .registerSchema args ∧ e.output = .ok () ∧
    readFieldDefs args.fieldDefinitions = .ok fields ∧ args.schemaId = id ∧
    id = host.sha256 (args.preimage fields) ∧ s.authority = args.authority

/-- Every stored schema was registered. -/
theorem registered_run (host : Host) (invs : List Invocation) :
    ∀ id s, ((machine host).final {} invs).registry.schemas.lookup id = some s →
      ∃ e ∈ (machine host).trace {} invs, Registers host e id s := by
  refine (machine host).invariant (I := fun t w => ∀ id s, w.registry.schemas.lookup id = some s →
    ∃ e ∈ t, Registers host e id s) ?_ ?_ invs
  · intro id s hread
    cases hread
  · intro t w inv h
    have hearlier : ∀ {id s}, w.registry.schemas.lookup id = some s →
        ∃ e ∈ t ++ [(machine host).stepAt w inv], Registers host e id s := by
      intro id s hread
      obtain ⟨e, he, hregisters⟩ := h id s hread
      exact ⟨e, List.mem_append_left _ he, hregisters⟩
    intro id s hread
    rcases step_cases host w inv with ⟨e, hstep⟩ | ⟨w', hstep, heffect⟩
    · rw [hstep] at hread
      exact hearlier hread
    · rw [hstep] at hread
      obtain ⟨env, call⟩ := inv
      cases heffect with
      | @registered args fields hsigned hshort hparsed hid hfresh hunexpired =>
          rcases Store.lookup_insert_cases hread with ⟨rfl, rfl⟩ | hread
          · refine ⟨_, List.mem_append_right _ (List.mem_singleton.mpr rfl), args, fields, rfl, ?_,
              hparsed, rfl, hid, rfl⟩
            exact congrArg Prod.snd hstep
          · exact hearlier hread
      | edited hread' hsigned hedit => exact hearlier hread
      | @deprecated id' s' hread' hsigned =>
          rcases Store.lookup_insert_cases hread with ⟨rfl, rfl⟩ | hread
          · obtain ⟨e, he, hregisters⟩ := hearlier hread'
            exact ⟨e, he, hregisters⟩
          · exact hearlier hread

/-- A step that registers a schema names the key of the account that authorises it. -/
def NamesOwnKey (e : SchemaStep) : Prop :=
  ∀ args, e.input.call = .registerSchema args → args.authority = .account args.authorityKey

/-- Nothing else that was hashed in these steps has the hash of `preimage`. -/
def NoCollision (host : Host) (t : List SchemaStep) (preimage : List UInt8) : Prop :=
  ∀ e ∈ t, ∀ args fields, e.input.call = .registerSchema args →
    readFieldDefs args.fieldDefinitions = .ok fields →
    host.sha256 (args.preimage fields) = host.sha256 preimage → args.preimage fields = preimage

/-- The key is what a preimage starts with. -/
theorem key_of_preimage {args : SchemaArgs} {fields : List FieldDef} {key : BytesN 32} {name : Str}
    {version : ℕ} {canonical : List UInt8}
    (h : args.preimage fields = schemaIdPreimage key name version canonical) :
    args.authorityKey = key := by
  apply Subtype.ext
  have hinitial := congrArg (List.take 32) h
  simp only [SchemaArgs.preimage, schemaIdPreimage, List.append_assoc] at hinitial
  rwa [List.take_append_of_le_length (by rw [args.authorityKey.2]),
    List.take_append_of_le_length (by rw [key.2]),
    List.take_of_length_le (by rw [args.authorityKey.2]),
    List.take_of_length_le (by rw [key.2])] at hinitial

theorem authority_of_own_keys {invs : List Invocation} {key id : BytesN 32} {name : Str}
    {version : ℕ} {canonical : List UInt8}
    (hid : coreDeriveSchemaId host key name version canonical = id)
    (hown : ∀ e ∈ (machine host).trace {} invs, NamesOwnKey e)
    (hsha : NoCollision host ((machine host).trace {} invs)
      (schemaIdPreimage key name version canonical)) {s : Schema}
    (hread : ((machine host).final {} invs).registry.schemas.lookup id = some s) :
    s.authority = .account key := by
  obtain ⟨e, he, args, fields, hcall, -, hparsed, -, hhash, hauthority⟩ :=
    registered_run host invs id s hread
  have hsame := hsha e he args fields hcall hparsed (hhash.symm.trans hid.symm)
  rw [hauthority, hown e he args hcall, key_of_preimage hsame]

/-- **Who can register a schema's identifier.** After any run, it is reserved for the holder of the
key it is derived from exactly when it is registered already. If every call of the run named its own
authority's key, the account with that key is the one that registered it. -/
theorem schema_id_reserved_iff (host : Host) (key id : BytesN 32) (name defs : List UInt8)
    (version : ℕ) (fields : List FieldDef) (hshort : name.length ≤ 64)
    (hparsed : readFieldDefs defs = .ok fields)
    (hid : computeSchemaId host key name defs version = .ok id) (invs : List Invocation) :
    (Reserved host ((machine host).final {} invs) key id ↔
      (((machine host).final {} invs).registry.schemas.lookup id).isSome = true) ∧
    ((∀ e ∈ (machine host).trace {} invs, NamesOwnKey e) →
      NoCollision host ((machine host).trace {} invs)
        (schemaIdPreimage key ((fromUtf8 name).getD []) version (encodeCanonicalFieldDefs fields)) →
      ∀ s, ((machine host).final {} invs).registry.schemas.lookup id = some s →
        s.authority = .account key) := by
  refine ⟨reserved_iff hshort hid, ?_⟩
  intro hown hsha s hread
  obtain ⟨fields', hparsed', -, hderived⟩ := computeSchemaId_eq_ok.mp hid
  obtain rfl : fields = fields' := Except.ok.inj (hparsed.symm.trans hparsed')
  exact authority_of_own_keys hderived hown hsha hread

/-- In the empty registry the first account's identifier is not reserved; once that account has
registered it, it is. -/
theorem schema_id_reserved_iff_demo :
    ¬ Reserved Demo.host ((machine Demo.host).final {} []) (BytesN.ofNat 32 1) Demo.schemaId ∧
      Reserved Demo.host ((machine Demo.host).final {} [Demo.registers (Demo.account 1)])
        (BytesN.ofNat 32 1) Demo.schemaId := by
  have hshort : Demo.name.length ≤ 64 := by decide +kernel
  have hparsed : readFieldDefs Demo.defs = .ok Demo.fields := by decide +kernel
  have hid : computeSchemaId Demo.host (BytesN.ofNat 32 1) Demo.name Demo.defs 1 =
      .ok Demo.schemaId := by decide +kernel
  have hiff := fun invs =>
    (schema_id_reserved_iff Demo.host _ _ _ _ 1 _ hshort hparsed hid invs).1
  refine ⟨?_, (hiff _).mpr (by decide +kernel)⟩
  intro hreserved
  have htaken := (hiff []).mp hreserved
  cases htaken

/-- The second account registers the identifier derived from the first account's key. -/
theorem schema_id_taken :
    ¬ ∀ (host : Host) (invs : List Invocation), ∀ e ∈ (machine host).trace {} invs, ∀ args,
      e.input.call = .registerSchema args → e.output = .ok () →
        args.authority = .account args.authorityKey := by
  intro hclaim
  have hok : ((machine Demo.host).stepAt {} (Demo.registers (Demo.account 2))).output = .ok () := by
    decide +kernel
  have hmem : (machine Demo.host).stepAt {} (Demo.registers (Demo.account 2)) ∈
      (machine Demo.host).trace {} [Demo.registers (Demo.account 2)] := by
    rw [Machine.trace]
    exact List.mem_cons_self
  have hcall : ((machine Demo.host).stepAt {} (Demo.registers (Demo.account 2))).input.call =
    .registerSchema (Demo.args (Demo.account 2)) := rfl
  have hauthority := hclaim Demo.host _ _ hmem _ hcall hok
  have hkey : BytesN.ofNat 32 2 = BytesN.ofNat 32 1 := Address.account.inj hauthority
  exact absurd hkey (by decide +kernel)

end OpaqueStellar.Schemas
