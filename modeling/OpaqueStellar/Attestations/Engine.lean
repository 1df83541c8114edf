import OpaqueStellar.Schemas.Registry

/-! # The attestation engine

`contracts/attestation-engine-v2/src/lib.rs`: issuers attest data about stealth addresses under the
schemas of a registry, and revoke what they attested. The identifier of an attestation is hashed from
its schema, its stealth address and a counter kept for the two.

The engine asks the registry it is configured with. The configured address is that of a schema
registry, and there may be several of them; `World.registries` is the state of each. -/

namespace OpaqueStellar.Attestations

open OpaqueStellar.Lib OpaqueStellar.Soroban OpaqueStellar.Schemas

/-! ## Storage -/

structure Attestation where
  uid : BytesN 32
  schemaId : BytesN 32
  issuer : Address
  stealthAddressHash : BytesN 32
  data : List UInt8
  createdAt : ℕ
  expirationLedger : ℕ
  revocationLedger : ℕ
  refUid : BytesN 32
  issuanceSequence : ℕ
  deriving DecidableEq

inductive AttestationError where
  | DataTooLarge
  | UnauthorizedIssuer
  | ExpirationInPast
  | AttestationNotFound
  | AlreadyRevoked
  | NotRevocable
  | Unauthorized
  | AttestationAlreadyExists
  | NotInitialized
  | AlreadyInitialized
  | Paused
  | InvalidAttestationData
  | SchemaDeprecated
  | SchemaExpired
  | SchemaNotFound
  deriving DecidableEq

structure GovernanceConfig where
  admin : Address
  governance : Address
  schemaRegistry : Address
  version : ℕ
  pausedAttestation : Bool
  pausedMerkleUpdates : Bool
  pausedProofVerification : Bool
  upgradeInfo : Option (List UInt8)
  deriving DecidableEq

structure EngineState where
  config : Option GovernanceConfig := none
  attestations : Store (BytesN 32) Attestation := ∅
  -- the counter of each schema and stealth address
  sequences : Store (BytesN 32 × BytesN 32) ℕ := ∅

inductive EngineEvent where
  | AttestationCreated (uid schemaId : BytesN 32) (issuer : Address) (stealthAddressHash : BytesN 32)
  | AttestationRevoked (uid : BytesN 32) (revoker : Address)
  | Paused (scope : String)
  | Unpaused (scope : String)
  deriving DecidableEq

structure World where
  engine : EngineState := {}
  registries : Address → Schemas.World := fun _ => {}
  events : List EngineEvent := []

def World.publish (w : World) (e : EngineEvent) : World := { w with events := w.events ++ [e] }

/-- The contract's own address and the hash function it uses. -/
structure Host where
  self : Address
  sha256 : List UInt8 → BytesN 32

/-! ## Helpers -/

def loadConfig (w : World) : Result AttestationError GovernanceConfig :=
  okOr w.engine.config .NotInitialized

def loadRegistry (w : World) : Result AttestationError Address := do
  let cfg ← loadConfig w
  pure cfg.schemaRegistry

def saveConfig (w : World) (cfg : GovernanceConfig) : World := { w with engine.config := some cfg }

def requireGovernance (cfg : GovernanceConfig) (caller : Address) : Result AttestationError Unit :=
  ensure (caller = cfg.admin ∨ caller = cfg.governance) (.err .Unauthorized)

def sorobanStringToStr (s : List UInt8) : Option Str :=
  if s.length ≤ MAX_FIELD_DEFS_STR_LEN then fromUtf8 s else none

def dataError : AttestationDataError → AttestationError
  | .TooLarge => .DataTooLarge
  | _ => .InvalidAttestationData

/-- The fields that a schema's stored definitions stand for. -/
def schemaFields (schema : Schema) : Result AttestationError (List FieldDef) := do
  let defsStr ← okOr (sorobanStringToStr schema.fieldDefinitions) .InvalidAttestationData
  (parseFieldDefinitions defsStr).mapError fun _ => .err .InvalidAttestationData

section EntryPoints

variable (host : Host) (env : Env)

def computeAttestationUid (schemaId stealthHash : BytesN 32) (issuanceSequence : ℕ) : BytesN 32 :=
  host.sha256 (schemaId.1 ++ stealthHash.1 ++ beBytes 8 issuanceSequence)

def validateAttestationAgainstSchema (w : World) (schemaRegistry : Address) (schemaId : BytesN 32)
    (data : List UInt8) : Result AttestationError Unit := do
  let schema ← invoke (getSchema (w.registries schemaRegistry) schemaId)
  ensure (schema.deprecated = false) (.err .SchemaDeprecated)
  ensure (schema.schemaExpiryLedger = 0 ∨ env.sequence < schema.schemaExpiryLedger)
    (.err .SchemaExpired)
  let fields ← schemaFields schema
  ensure (data.length ≤ MAX_ATTESTATION_DATA_LEN) (.err .DataTooLarge)
  (validateAttestationData fields data).mapError (.err ∘ dataError)

/-- `u64::saturating_add` -/
def saturatingAdd64 (n m : ℕ) : ℕ := min (n + m) (2 ^ 64 - 1)

def sequenceOf (w : World) (schemaId stealthHash : BytesN 32) : ℕ :=
  (w.engine.sequences.lookup (schemaId, stealthHash)).getD 0

def nextIssuanceSequence (w : World) (schemaId stealthHash : BytesN 32) : World × ℕ :=
  let next := saturatingAdd64 (sequenceOf w schemaId stealthHash) 1
  ({ w with engine.sequences := w.engine.sequences.insert (schemaId, stealthHash) next }, next)

/-- What the governance calls share: they change the configuration. -/
def govern (w : World) (caller : Address) (update : GovernanceConfig → GovernanceConfig) :
    Result AttestationError World := do
  env.requireAuth host.self caller
  let cfg ← loadConfig w
  requireGovernance cfg caller
  pure (saveConfig w (update cfg))

/-! ## Entry points -/

/-- `initialize` -/
def initializeEngine (w : World) (admin governance schemaRegistry : Address) (version : ℕ) :
    Result AttestationError World := do
  env.requireAuth host.self admin
  ensure (w.engine.config.isSome = false) (.err .AlreadyInitialized)
  pure (saveConfig w ⟨admin, governance, schemaRegistry, version, false, false, false, none⟩)

def updateConfig (w : World) (caller : Address) (schemaRegistry : Option Address)
    (version : Option ℕ) (upgradeInfo : Option (List UInt8)) : Result AttestationError World :=
  govern host env w caller fun cfg =>
    { cfg with
      schemaRegistry := schemaRegistry.getD cfg.schemaRegistry
      version := version.getD cfg.version
      upgradeInfo := upgradeInfo }

def transferAdmin (w : World) (caller newAdmin : Address) : Result AttestationError World :=
  govern host env w caller fun cfg => { cfg with admin := newAdmin }

def transferGovernance (w : World) (caller newGovernance : Address) :
    Result AttestationError World :=
  govern host env w caller fun cfg => { cfg with governance := newGovernance }

/-- The arguments of `attest`. -/
structure AttestArgs where
  issuer : Address
  schemaId : BytesN 32
  stealthAddressHash : BytesN 32
  data : List UInt8
  expirationLedger : ℕ
  refUid : BytesN 32
  deriving DecidableEq

def attest (w : World) (args : AttestArgs) : Result AttestationError (World × BytesN 32) := do
  env.requireAuth host.self args.issuer
  let cfg ← loadConfig w
  ensure (cfg.pausedAttestation = false) (.err .Paused)
  ensure (args.data.length ≤ 512) (.err .DataTooLarge)
  ensure (args.expirationLedger = 0 ∨ env.sequence < args.expirationLedger) (.err .ExpirationInPast)
  let schemaRegistry ← loadRegistry w
  let authorized ← invoke (canIssue env (w.registries schemaRegistry) args.schemaId args.issuer)
  ensure (authorized = true) (.err .UnauthorizedIssuer)
  validateAttestationAgainstSchema env w schemaRegistry args.schemaId args.data
  let (w, issuanceSequence) := nextIssuanceSequence w args.schemaId args.stealthAddressHash
  let uid := computeAttestationUid host args.schemaId args.stealthAddressHash issuanceSequence
  ensure ((w.engine.attestations.lookup uid).isSome = false) (.err .AttestationAlreadyExists)
  let attestation : Attestation := ⟨uid, args.schemaId, args.issuer, args.stealthAddressHash,
    args.data, env.sequence, args.expirationLedger, 0, args.refUid, issuanceSequence⟩
  let w := { w with engine.attestations := w.engine.attestations.insert uid attestation }
  pure (w.publish (.AttestationCreated uid args.schemaId args.issuer args.stealthAddressHash), uid)

def revokeAttestation (w : World) (revoker : Address) (uid : BytesN 32) :
    Result AttestationError World := do
  env.requireAuth host.self revoker
  let schemaRegistry ← loadRegistry w
  let attestation ← okOr (w.engine.attestations.lookup uid) .AttestationNotFound
  ensure (attestation.revocationLedger = 0) (.err .AlreadyRevoked)
  let revocable ← invoke (isRevocable (w.registries schemaRegistry) attestation.schemaId)
  ensure (revocable = true) (.err .NotRevocable)
  let authorized ←
    invoke (isAuthorizedIssuer (w.registries schemaRegistry) attestation.schemaId revoker)
  ensure (authorized = true ∨ revoker = attestation.issuer) (.err .Unauthorized)
  let attestation := { attestation with revocationLedger := env.sequence }
  let w := { w with engine.attestations := w.engine.attestations.insert uid attestation }
  pure (w.publish (.AttestationRevoked uid revoker))

def pauseAttestation (w : World) (caller : Address) : Result AttestationError World := do
  let w ← govern host env w caller fun cfg => { cfg with pausedAttestation := true }
  pure (w.publish (.Paused "attestation"))

def unpauseAttestation (w : World) (caller : Address) : Result AttestationError World := do
  let w ← govern host env w caller fun cfg => { cfg with pausedAttestation := false }
  pure (w.publish (.Unpaused "attestation"))

def pauseMerkleUpdates (w : World) (caller : Address) : Result AttestationError World := do
  let w ← govern host env w caller fun cfg => { cfg with pausedMerkleUpdates := true }
  pure (w.publish (.Paused "merkle_upd"))

def unpauseMerkleUpdates (w : World) (caller : Address) : Result AttestationError World := do
  let w ← govern host env w caller fun cfg => { cfg with pausedMerkleUpdates := false }
  pure (w.publish (.Unpaused "merkle_upd"))

def pauseProofVerification (w : World) (caller : Address) : Result AttestationError World := do
  let w ← govern host env w caller fun cfg => { cfg with pausedProofVerification := true }
  pure (w.publish (.Paused "proof_verif"))

def unpauseProofVerification (w : World) (caller : Address) : Result AttestationError World := do
  let w ← govern host env w caller fun cfg => { cfg with pausedProofVerification := false }
  pure (w.publish (.Unpaused "proof_verif"))

/-! ## The engine and the registries as a machine -/

/-- The calls that concern the configuration. -/
inductive ConfigCall where
  | initializeEngine (admin governance schemaRegistry : Address) (version : ℕ)
  | updateConfig (caller : Address) (schemaRegistry : Option Address) (version : Option ℕ)
      (upgradeInfo : Option (List UInt8))
  | transferAdmin (caller newAdmin : Address)
  | transferGovernance (caller newGovernance : Address)
  | pauseAttestation (caller : Address)
  | unpauseAttestation (caller : Address)
  | pauseMerkleUpdates (caller : Address)
  | unpauseMerkleUpdates (caller : Address)
  | pauseProofVerification (caller : Address)
  | unpauseProofVerification (caller : Address)

inductive Call where
  | attest (args : AttestArgs)
  | revokeAttestation (revoker : Address) (uid : BytesN 32)
  | config (call : ConfigCall)
  -- a call of the registry at this address
  | registry (address : Address) (call : Schemas.Call)

inductive Returned where
  | unit
  | uid (uid : BytesN 32)
  deriving DecidableEq

structure Invocation where
  env : Env
  call : Call

def execConfig (w : World) : ConfigCall → Result AttestationError World
  | .initializeEngine admin governance schemaRegistry version =>
      initializeEngine host env w admin governance schemaRegistry version
  | .updateConfig caller schemaRegistry version upgradeInfo =>
      updateConfig host env w caller schemaRegistry version upgradeInfo
  | .transferAdmin caller newAdmin => transferAdmin host env w caller newAdmin
  | .transferGovernance caller newGovernance => transferGovernance host env w caller newGovernance
  | .pauseAttestation caller => pauseAttestation host env w caller
  | .unpauseAttestation caller => unpauseAttestation host env w caller
  | .pauseMerkleUpdates caller => pauseMerkleUpdates host env w caller
  | .unpauseMerkleUpdates caller => unpauseMerkleUpdates host env w caller
  | .pauseProofVerification caller => pauseProofVerification host env w caller
  | .unpauseProofVerification caller => unpauseProofVerification host env w caller

def execRegistry (w : World) (address : Address) (call : Schemas.Call) :
    Result AttestationError World := do
  let registry ← invoke (Schemas.exec ⟨address, host.sha256⟩ env (w.registries address) call)
  pure { w with registries := Function.update w.registries address registry }

def exec (w : World) : Call → Result AttestationError (World × Returned)
  | .attest args => do
      let (w, uid) ← attest host env w args
      pure (w, .uid uid)
  | .revokeAttestation revoker uid => do
      let w ← revokeAttestation host env w revoker uid
      pure (w, .unit)
  | .config call => do
      let w ← execConfig host env w call
      pure (w, .unit)
  | .registry address call => do
      let w ← execRegistry host env w address call
      pure (w, .unit)

/-- A failed invocation is rolled back. -/
def machine : Machine World Invocation (Result AttestationError Returned) :=
  .transactional fun w inv => exec host inv.env w inv.call

abbrev EngineStep := Machine.Step World Invocation (Result AttestationError Returned)

end EntryPoints

end OpaqueStellar.Attestations
