import OpaqueStellar.Attestations.Engine
import OpaqueStellar.Schemas.Invariant

/-! # What a successful invocation of the attestation engine did

`Effect` has one constructor for `attest`, one for `revoke_attestation`, one for all calls that write
the configuration and one for a call of a registry. -/

namespace OpaqueStellar.Attestations

open OpaqueStellar.Lib OpaqueStellar.Soroban OpaqueStellar.Schemas

variable {host : Host} {env : Env}

def Signed (host : Host) (env : Env) (a : Address) : Prop := a ∈ env.auths ∧ a ≠ host.self

theorem requireAuth_eq_ok {a : Address} {u : Unit} :
    (env.requireAuth host.self a : Result AttestationError Unit) = .ok u ↔ Signed host env a :=
  Env.requireAuth_eq_ok

theorem loadConfig_eq_ok {w : World} {cfg : GovernanceConfig} :
    loadConfig w = .ok cfg ↔ w.engine.config = some cfg := okOr_eq_ok

theorem loadRegistry_eq_ok {w : World} {registry : Address} :
    loadRegistry w = .ok registry ↔
      ∃ cfg, w.engine.config = some cfg ∧ cfg.schemaRegistry = registry := by
  simp only [loadRegistry, bind_eq_ok, loadConfig_eq_ok, pure_eq_ok]

/-- The data was checked against this schema. -/
structure Validated (env : Env) (s : Schema) (fields : List FieldDef) (data : List UInt8) :
    Prop where
  active : s.deprecated = false
  unexpired : s.schemaExpiryLedger = 0 ∨ env.sequence < s.schemaExpiryLedger
  parsed : schemaFields s = .ok fields
  accepted : validateAttestationData fields data = .ok ()

theorem validated_of_ok {w : World} {registry : Address} {schemaId : BytesN 32} {data : List UInt8}
    {u : Unit} (h : validateAttestationAgainstSchema env w registry schemaId data = .ok u) :
    ∃ s fields, (w.registries registry).registry.schemas.lookup schemaId = some s ∧
      Validated env s fields data := by
  simp only [validateAttestationAgainstSchema, getSchema, bind_eq_ok, invoke_eq_ok,
    readSchema_eq_ok, ensure_eq_ok, exists_const, mapError_eq_ok] at h
  obtain ⟨s, hread, hactive, hunexpired, fields, hparsed, -, haccepted⟩ := h
  exact ⟨s, fields, hread, hactive, hunexpired, hparsed, haccepted⟩

/-- The number that the next attestation for a schema and a stealth address gets. -/
def nextSequence (w : World) (args : AttestArgs) : ℕ :=
  saturatingAdd64 (sequenceOf w args.schemaId args.stealthAddressHash) 1

def nextUid (host : Host) (w : World) (args : AttestArgs) : BytesN 32 :=
  computeAttestationUid host args.schemaId args.stealthAddressHash (nextSequence w args)

/-- The record that attesting with these arguments stores. -/
def AttestArgs.attestation (args : AttestArgs) (host : Host) (env : Env) (w : World) :
    Attestation where
  uid := nextUid host w args
  schemaId := args.schemaId
  issuer := args.issuer
  stealthAddressHash := args.stealthAddressHash
  data := args.data
  createdAt := env.sequence
  expirationLedger := args.expirationLedger
  revocationLedger := 0
  refUid := args.refUid
  issuanceSequence := nextSequence w args

/-- The world after an attestation. -/
def World.issue (w : World) (host : Host) (env : Env) (args : AttestArgs) : World where
  engine := {
    config := w.engine.config
    attestations :=
      w.engine.attestations.insert (nextUid host w args) (args.attestation host env w)
    sequences := w.engine.sequences.insert (args.schemaId, args.stealthAddressHash)
      (nextSequence w args) }
  registries := w.registries
  events := w.events ++ [.AttestationCreated (nextUid host w args) args.schemaId args.issuer
    args.stealthAddressHash]

/-- The world after a revocation. -/
def World.revoke (w : World) (uid : BytesN 32) (a : Attestation) (sequence : ℕ) (revoker : Address) :
    World where
  engine := {
    config := w.engine.config
    attestations := w.engine.attestations.insert uid { a with revocationLedger := sequence }
    sequences := w.engine.sequences }
  registries := w.registries
  events := w.events ++ [.AttestationRevoked uid revoker]

inductive Effect (host : Host) (env : Env) (w : World) : Call → World → Returned → Prop
  | attested {args : AttestArgs} {cfg : GovernanceConfig} {s : Schema} {fields : List FieldDef}
      (signed : Signed host env args.issuer) (stored : w.engine.config = some cfg)
      (unpaused : cfg.pausedAttestation = false)
      (unexpired : args.expirationLedger = 0 ∨ env.sequence < args.expirationLedger)
      (authorised : canIssue env (w.registries cfg.schemaRegistry) args.schemaId args.issuer =
        .ok true)
      (read : (w.registries cfg.schemaRegistry).registry.schemas.lookup args.schemaId = some s)
      (validated : Validated env s fields args.data)
      (fresh : w.engine.attestations.lookup (nextUid host w args) = none) :
      Effect host env w (.attest args) (w.issue host env args) (.uid (nextUid host w args))
  | revoked {revoker : Address} {uid : BytesN 32} {cfg : GovernanceConfig} {a : Attestation}
      {authorized : Bool} (signed : Signed host env revoker) (stored : w.engine.config = some cfg)
      (read : w.engine.attestations.lookup uid = some a) (unrevoked : a.revocationLedger = 0)
      (revocable : isRevocable (w.registries cfg.schemaRegistry) a.schemaId = .ok true)
      (asked : isAuthorizedIssuer (w.registries cfg.schemaRegistry) a.schemaId revoker =
        .ok authorized)
      (authorised : authorized = true ∨ revoker = a.issuer) :
      Effect host env w (.revokeAttestation revoker uid) (w.revoke uid a env.sequence revoker) .unit
  | configured {call : ConfigCall} {cfg : GovernanceConfig} {w' : World}
      (written : w' = { w with engine.config := some cfg, events := w'.events }) :
      Effect host env w (.config call) w' .unit
  | registry {address : Address} {call : Schemas.Call} {r : Schemas.World}
      (called : Schemas.exec ⟨address, host.sha256⟩ env (w.registries address) call = .ok r) :
      Effect host env w (.registry address call)
        { w with registries := Function.update w.registries address r } .unit

theorem attested_of_ok {w w' : World} {args : AttestArgs} {uid : BytesN 32}
    (h : attest host env w args = .ok (w', uid)) :
    Effect host env w (.attest args) w' (.uid uid) := by
  simp only [attest, bind_eq_ok, requireAuth_eq_ok, exists_const, loadConfig_eq_ok, ensure_eq_ok,
    loadRegistry_eq_ok, invoke_eq_ok, Option.isSome_eq_false_iff, Option.isNone_iff_eq_none,
    pure_eq_ok, Prod.mk.injEq] at h
  obtain ⟨hsigned, cfg, hstored, hunpaused, -, hunexpired, registry, ⟨cfg', hstored', rfl⟩,
    authorized, hauthorised, rfl, u, hvalidated, hfresh, rfl, rfl⟩ := h
  obtain rfl := Option.some.inj (hstored.symm.trans hstored')
  obtain ⟨s, fields, hread, hvalidated⟩ := validated_of_ok hvalidated
  exact .attested hsigned hstored hunpaused hunexpired hauthorised hread hvalidated hfresh

theorem revoked_of_ok {w w' : World} {revoker : Address} {uid : BytesN 32}
    (h : revokeAttestation host env w revoker uid = .ok w') :
    Effect host env w (.revokeAttestation revoker uid) w' .unit := by
  simp only [revokeAttestation, bind_eq_ok, requireAuth_eq_ok, exists_const, loadRegistry_eq_ok,
    okOr_eq_ok, ensure_eq_ok, invoke_eq_ok, pure_eq_ok] at h
  obtain ⟨hsigned, registry, ⟨cfg, hstored, rfl⟩, a, hread, hunrevoked, revocable, hrevocable, rfl,
    authorized, hasked, hauthorised, rfl⟩ := h
  exact .revoked hsigned hstored hread hunrevoked hrevocable hasked hauthorised

theorem govern_eq_ok {w w' : World} {caller : Address}
    {update : GovernanceConfig → GovernanceConfig} :
    govern host env w caller update = .ok w' ↔
      ∃ cfg, Signed host env caller ∧ w.engine.config = some cfg ∧
        (caller = cfg.admin ∨ caller = cfg.governance) ∧ w' = saveConfig w (update cfg) := by
  simp only [govern, bind_eq_ok, requireAuth_eq_ok, exists_const, loadConfig_eq_ok,
    requireGovernance, ensure_eq_ok, pure_eq_ok]
  constructor
  · rintro ⟨hsigned, cfg, hstored, hgoverns, rfl⟩
    exact ⟨cfg, hsigned, hstored, hgoverns, rfl⟩
  · rintro ⟨cfg, hsigned, hstored, hgoverns, rfl⟩
    exact ⟨hsigned, cfg, hstored, hgoverns, rfl⟩

/-- A governance call followed by an event writes the configuration only. -/
theorem written_of_govern {w w' : World} {caller : Address} {event : EngineEvent}
    {update : GovernanceConfig → GovernanceConfig}
    (h : (do let w ← govern host env w caller update; pure (w.publish event)) = .ok w') :
    ∃ cfg, w' = { w with engine.config := some cfg, events := w'.events } := by
  obtain ⟨w₁, hgovern, heq⟩ := bind_eq_ok.mp h
  obtain ⟨cfg, -, -, -, rfl⟩ := govern_eq_ok.mp hgovern
  cases heq
  exact ⟨update cfg, rfl⟩

theorem configured_of_ok {w w' : World} {call : ConfigCall}
    (h : execConfig host env w call = .ok w') : Effect host env w (.config call) w' .unit := by
  have hwritten : ∃ cfg, w' = { w with engine.config := some cfg, events := w'.events } := by
    cases call with
    | initializeEngine admin governance schemaRegistry version =>
        simp only [execConfig, initializeEngine, bind_eq_ok, requireAuth_eq_ok, exists_const,
          ensure_eq_ok, pure_eq_ok] at h
        obtain ⟨-, -, rfl⟩ := h
        exact ⟨_, rfl⟩
    | updateConfig caller schemaRegistry version upgradeInfo =>
        obtain ⟨cfg, -, -, -, rfl⟩ := govern_eq_ok.mp h
        exact ⟨_, rfl⟩
    | transferAdmin caller newAdmin =>
        obtain ⟨cfg, -, -, -, rfl⟩ := govern_eq_ok.mp h
        exact ⟨_, rfl⟩
    | transferGovernance caller newGovernance =>
        obtain ⟨cfg, -, -, -, rfl⟩ := govern_eq_ok.mp h
        exact ⟨_, rfl⟩
    | pauseAttestation caller => exact written_of_govern h
    | unpauseAttestation caller => exact written_of_govern h
    | pauseMerkleUpdates caller => exact written_of_govern h
    | unpauseMerkleUpdates caller => exact written_of_govern h
    | pauseProofVerification caller => exact written_of_govern h
    | unpauseProofVerification caller => exact written_of_govern h
  obtain ⟨cfg, hwritten⟩ := hwritten
  exact .configured hwritten

/-- **Every successful invocation has the effect of its call.** -/
theorem effect_of_exec {w w' : World} {call : Call} {r : Returned}
    (h : exec host env w call = .ok (w', r)) : Effect host env w call w' r := by
  cases call with
  | attest args =>
      obtain ⟨⟨w₁, uid⟩, hattest, heq⟩ := bind_eq_ok.mp h
      cases heq
      exact attested_of_ok hattest
  | revokeAttestation revoker uid =>
      obtain ⟨w₁, hrevoke, heq⟩ := bind_eq_ok.mp h
      cases heq
      exact revoked_of_ok hrevoke
  | config call =>
      obtain ⟨w₁, hconfig, heq⟩ := bind_eq_ok.mp h
      cases heq
      exact configured_of_ok hconfig
  | registry address call =>
      simp only [exec, execRegistry, bind_eq_ok, invoke_eq_ok, pure_eq_ok, Prod.mk.injEq] at h
      obtain ⟨w₁, ⟨r, hcalled, rfl⟩, rfl, rfl⟩ := h
      exact .registry hcalled

/-! ## Runs -/

/-- What holds at the start and survives a failed call and the effect of a successful one whose step
satisfies `P` holds after every run whose steps satisfy `P`. -/
theorem run_invariant_of_steps {P : EngineStep → Prop} {I : List EngineStep → World → Prop}
    {w₀ : World} (h₀ : I [] w₀)
    (hfail : ∀ t w inv e, I t w → I (t ++ [⟨w, inv, .error e⟩]) w)
    (hok : ∀ t w inv w' r, I t w → P ⟨w, inv, .ok r⟩ →
      Effect host inv.env w inv.call w' r → I (t ++ [⟨w, inv, .ok r⟩]) w')
    (invs : List Invocation) (hP : ∀ e ∈ (machine host).trace w₀ invs, P e) :
    I ((machine host).trace w₀ invs) ((machine host).final w₀ invs) :=
  Machine.transactional_invariant_of_steps h₀ (fun t w inv e h _ => hfail t w inv e h)
    (fun t w inv w' r h hp hexec => hok t w inv w' r h hp (effect_of_exec hexec)) invs hP

/-- What survives every effect holds after every run. -/
theorem run_stable {J : World → Prop}
    (hok : ∀ w (inv : Invocation) w' r, J w → Effect host inv.env w inv.call w' r → J w')
    {w : World} (h : J w) (invs : List Invocation) : J ((machine host).final w invs) :=
  Machine.transactional_stable
    (fun w inv w' r h hexec => hok w inv w' r h (effect_of_exec hexec)) h invs

end OpaqueStellar.Attestations
