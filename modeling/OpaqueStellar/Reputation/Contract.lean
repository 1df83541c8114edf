import OpaqueStellar.Lib.Machine
import OpaqueStellar.Lib.Store
import OpaqueStellar.Soroban.Basic

/-! # The reputation verifier contract

`contracts/reputation-verifier/src/lib.rs`: an administrator publishes roots of the tree of
reputation leaves, and holders verify proofs against a root that has not expired, each proof's
nullifier once.

The Groth16 verifier is another contract; its answer is a function of what it is called with. -/

namespace OpaqueStellar.Reputation

open OpaqueStellar.Lib OpaqueStellar.Soroban

/-! ## Storage -/

def DEFAULT_ROOT_EXPIRY_LEDGERS : ℕ := 17280

def MAX_ROOT_HISTORY : ℕ := 100

structure VerifierConfig where
  admin : Address
  groth16Verifier : Address
  rootExpiryLedgers : ℕ
  deriving DecidableEq

structure VerifyPublicInputsV2 where
  merkleRoot : BytesN 32
  attestationId : BytesN 32
  externalNullifier : BytesN 32
  nullifierHash : BytesN 32
  deriving DecidableEq

structure MerkleRootEntry where
  root : BytesN 32
  ledger : ℕ
  datasetHash : BytesN 32
  deriving DecidableEq

structure NullifierEntry where
  used : Bool
  deriving DecidableEq

inductive ReputationError where
  | Unauthorized
  | RootExpired
  | InvalidProof
  | NullifierUsed
  | AlreadyInitialized
  | AttestationExpired
  | InvalidDatasetHash
  deriving DecidableEq

structure VerifierState where
  config : Option VerifierConfig := none
  roots : Store (BytesN 32) MerkleRootEntry := ∅
  nullifiers : Store (BytesN 32) NullifierEntry := ∅
  rootHistory : Option (List (BytesN 32)) := none

inductive VerifierEvent where
  | MerkleRootPublished (root : BytesN 32) (ledger : ℕ) (datasetHash : BytesN 32) (admin : Address)
  | ReputationVerified (attestationId nullifier : BytesN 32) (user : Address) (root : BytesN 32)
  deriving DecidableEq

structure World where
  verifier : VerifierState := {}
  events : List VerifierEvent := []

def World.publish (w : World) (e : VerifierEvent) : World := { w with events := w.events ++ [e] }

/-- The contract's own address, and `verify_proof_v2` of the verifier contract at an address; `none`
is a trap in it. -/
structure Host where
  self : Address
  verifyProofV2 : Address → BytesN 64 → BytesN 128 → BytesN 64 → VerifyPublicInputsV2 → Option Bool

/-! ## Helpers -/

def u64ToBe32 (val : UInt64) : BytesN 32 :=
  ⟨List.replicate 24 0 ++ beBytes 8 val.toNat, by simp⟩

def loadConfig (w : World) : Result ReputationError VerifierConfig :=
  expect w.verifier.config "config"

def saveConfig (w : World) (config : VerifierConfig) : World :=
  { w with verifier.config := some config }

/-- Has a root published at `ledger` expired? The subtraction saturates. -/
def rootExpired (env : Env) (config : VerifierConfig) (ledger : ℕ) : Prop :=
  config.rootExpiryLedgers < env.sequence - ledger

instance (env : Env) (config : VerifierConfig) (ledger : ℕ) :
    Decidable (rootExpired env config ledger) := inferInstanceAs (Decidable (_ < _))

section EntryPoints

variable (host : Host) (env : Env)

/-- What `set_root_expiry` and `transfer_admin` share: the administrator changes the
configuration. -/
def administer (w : World) (admin : Address) (update : VerifierConfig → VerifierConfig) :
    Result ReputationError World := do
  env.requireAuth host.self admin
  let config ← loadConfig w
  ensure (config.admin = admin) (.err .Unauthorized)
  pure (saveConfig w (update config))

/-! ## Entry points -/

/-- `initialize` -/
def initializeVerifier (w : World) (admin groth16Verifier : Address) :
    Result ReputationError World := do
  env.requireAuth host.self admin
  ensure (w.verifier.config.isSome = false) (.err .AlreadyInitialized)
  let w := saveConfig w ⟨admin, groth16Verifier, DEFAULT_ROOT_EXPIRY_LEDGERS⟩
  pure { w with verifier.rootHistory := some [] }

def setRootExpiry (w : World) (admin : Address) (expiryLedgers : ℕ) :
    Result ReputationError World :=
  administer host env w admin fun config => { config with rootExpiryLedgers := expiryLedgers }

def transferAdmin (w : World) (admin newAdmin : Address) : Result ReputationError World :=
  administer host env w admin fun config => { config with admin := newAdmin }

def updateMerkleRoot (w : World) (admin : Address) (root datasetHash : BytesN 32) :
    Result ReputationError World := do
  env.requireAuth host.self admin
  let config ← loadConfig w
  ensure (config.admin = admin) (.err .Unauthorized)
  let entry : MerkleRootEntry := ⟨root, env.sequence, datasetHash⟩
  let w := { w with verifier.roots := w.verifier.roots.insert root entry }
  let history := w.verifier.rootHistory.getD []
  let history := if MAX_ROOT_HISTORY ≤ history.length then history.drop 1 else history
  let w := { w with verifier.rootHistory := some (history ++ [root]) }
  pure (w.publish (.MerkleRootPublished root env.sequence datasetHash admin))

def getLatestRoot (w : World) : Result ReputationError (BytesN 32) := do
  let config ← loadConfig w
  let root ← okOr (w.verifier.rootHistory.getD []).getLast? .RootExpired
  let entry ← okOr (w.verifier.roots.lookup root) .RootExpired
  ensure (¬ rootExpired env config entry.ledger) (.err .RootExpired)
  pure root

/-- The arguments of `verify_reputation`. -/
structure VerifyArgs where
  user : Address
  groth16Verifier : Address
  proofA : BytesN 64
  proofB : BytesN 128
  proofC : BytesN 64
  root : BytesN 32
  attestationId : BytesN 32
  externalNullifier : UInt64
  nullifier : BytesN 32
  expirationLedger : ℕ
  deriving DecidableEq

def VerifyArgs.publicInputs (args : VerifyArgs) : VerifyPublicInputsV2 where
  merkleRoot := args.root
  attestationId := args.attestationId
  externalNullifier := u64ToBe32 args.externalNullifier
  nullifierHash := args.nullifier

def verifyReputation (w : World) (args : VerifyArgs) : Result ReputationError World := do
  env.requireAuth host.self args.user
  let config ← loadConfig w
  ensure (config.groth16Verifier = args.groth16Verifier) (.err .Unauthorized)
  let rootEntry ← okOr (w.verifier.roots.lookup args.root) .RootExpired
  ensure (¬ rootExpired env config rootEntry.ledger) (.err .RootExpired)
  ensure (args.expirationLedger = 0 ∨ env.sequence ≤ args.expirationLedger)
    (.err .AttestationExpired)
  ensure ((w.verifier.nullifiers.lookup args.nullifier).isSome = false) (.err .NullifierUsed)
  let valid ← hostCall
    (host.verifyProofV2 args.groth16Verifier args.proofA args.proofB args.proofC args.publicInputs)
  ensure (valid = true) (.err .InvalidProof)
  let w := { w with verifier.nullifiers := w.verifier.nullifiers.insert args.nullifier ⟨true⟩ }
  pure (w.publish (.ReputationVerified args.attestationId args.nullifier args.user args.root))

/-! ## The contract as a machine -/

inductive Call where
  | initializeVerifier (admin groth16Verifier : Address)
  | setRootExpiry (admin : Address) (expiryLedgers : ℕ)
  | transferAdmin (admin newAdmin : Address)
  | updateMerkleRoot (admin : Address) (root datasetHash : BytesN 32)
  | verifyReputation (args : VerifyArgs)
  deriving DecidableEq

structure Invocation where
  env : Env
  call : Call

def exec (w : World) : Call → Result ReputationError World
  | .initializeVerifier admin groth16Verifier => initializeVerifier host env w admin groth16Verifier
  | .setRootExpiry admin expiryLedgers => setRootExpiry host env w admin expiryLedgers
  | .transferAdmin admin newAdmin => transferAdmin host env w admin newAdmin
  | .updateMerkleRoot admin root datasetHash => updateMerkleRoot host env w admin root datasetHash
  | .verifyReputation args => verifyReputation host env w args

end EntryPoints

/-! ## What the entry points do -/

section Spec

variable {host : Host} {env : Env}

def Signed (host : Host) (env : Env) (a : Address) : Prop := a ∈ env.auths ∧ a ≠ host.self

theorem requireAuth_eq_ok {a : Address} {u : Unit} :
    (env.requireAuth host.self a : Result ReputationError Unit) = .ok u ↔ Signed host env a :=
  Env.requireAuth_eq_ok

/-- `args` are let through under `config` against the stored root `entry`. -/
structure Admitted (host : Host) (env : Env) (w : World) (args : VerifyArgs)
    (config : VerifierConfig) (entry : MerkleRootEntry) : Prop where
  signed : Signed host env args.user
  stored : w.verifier.config = some config
  verifier : config.groth16Verifier = args.groth16Verifier
  root : w.verifier.roots.lookup args.root = some entry
  fresh : ¬ rootExpired env config entry.ledger
  unexpired : args.expirationLedger = 0 ∨ env.sequence ≤ args.expirationLedger
  unused : w.verifier.nullifiers.lookup args.nullifier = none
  verified : host.verifyProofV2 args.groth16Verifier args.proofA args.proofB args.proofC
    args.publicInputs = some true

/-- The world after a verification. -/
def World.verify (w : World) (args : VerifyArgs) : World where
  verifier := { w.verifier with
    nullifiers := w.verifier.nullifiers.insert args.nullifier ⟨true⟩ }
  events := w.events ++ [.ReputationVerified args.attestationId args.nullifier args.user args.root]

theorem verifyReputation_eq_ok {w w' : World} {args : VerifyArgs} :
    verifyReputation host env w args = .ok w' ↔
      (∃ config entry, Admitted host env w args config entry) ∧ w' = w.verify args := by
  simp only [verifyReputation, loadConfig, bind_eq_ok, requireAuth_eq_ok, exists_const,
    expect_eq_ok, ensure_eq_ok, okOr_eq_ok, hostCall_eq_ok, Option.isSome_eq_false_iff,
    Option.isNone_iff_eq_none, pure_eq_ok]
  constructor
  · rintro ⟨hsigned, config, hstored, hverifier, entry, hroot, hfresh, hunexpired, hunused, valid,
      hverified, rfl, rfl⟩
    exact ⟨⟨config, entry, hsigned, hstored, hverifier, hroot, hfresh, hunexpired, hunused,
      hverified⟩, rfl⟩
  · rintro ⟨⟨config, entry, hsigned, hstored, hverifier, hroot, hfresh, hunexpired, hunused,
      hverified⟩, rfl⟩
    exact ⟨hsigned, config, hstored, hverifier, entry, hroot, hfresh, hunexpired, hunused, true,
      hverified, rfl, rfl⟩

/-- The world after a root was published. -/
def World.publishRoot (w : World) (env : Env) (admin : Address) (root datasetHash : BytesN 32) :
    World where
  verifier := { w.verifier with
    roots := w.verifier.roots.insert root ⟨root, env.sequence, datasetHash⟩
    rootHistory := some ((if MAX_ROOT_HISTORY ≤ (w.verifier.rootHistory.getD []).length then
      (w.verifier.rootHistory.getD []).drop 1 else w.verifier.rootHistory.getD []) ++ [root]) }
  events := w.events ++ [.MerkleRootPublished root env.sequence datasetHash admin]

theorem updateMerkleRoot_eq_ok {w w' : World} {admin : Address} {root datasetHash : BytesN 32} :
    updateMerkleRoot host env w admin root datasetHash = .ok w' ↔
      Signed host env admin ∧ (∃ config, w.verifier.config = some config ∧ config.admin = admin) ∧
        w' = w.publishRoot env admin root datasetHash := by
  simp only [updateMerkleRoot, loadConfig, bind_eq_ok, requireAuth_eq_ok, exists_const,
    expect_eq_ok, ensure_eq_ok, pure_eq_ok]
  constructor
  · rintro ⟨hsigned, config, hstored, hadmin, rfl⟩
    exact ⟨hsigned, ⟨config, hstored, hadmin⟩, rfl⟩
  · rintro ⟨hsigned, ⟨config, hstored, hadmin⟩, rfl⟩
    exact ⟨hsigned, config, hstored, hadmin, rfl⟩

theorem administer_eq_ok {w w' : World} {admin : Address}
    {update : VerifierConfig → VerifierConfig} :
    administer host env w admin update = .ok w' ↔
      Signed host env admin ∧ ∃ config, w.verifier.config = some config ∧ config.admin = admin ∧
        w' = saveConfig w (update config) := by
  simp only [administer, loadConfig, bind_eq_ok, requireAuth_eq_ok, exists_const, expect_eq_ok,
    ensure_eq_ok, pure_eq_ok]
  constructor
  · rintro ⟨hsigned, config, hstored, hadmin, rfl⟩
    exact ⟨hsigned, config, hstored, hadmin, rfl⟩
  · rintro ⟨hsigned, config, hstored, hadmin, rfl⟩
    exact ⟨hsigned, config, hstored, hadmin, rfl⟩

/-- A root is stored by `update_merkle_root` only. -/
theorem roots_of_exec {w w' : World} {call : Call} (h : exec host env w call = .ok w') :
    w'.verifier.roots = w.verifier.roots ∨ ∃ admin root datasetHash,
      call = .updateMerkleRoot admin root datasetHash ∧
        w' = w.publishRoot env admin root datasetHash := by
  cases call with
  | initializeVerifier admin groth16Verifier =>
      simp only [exec, initializeVerifier, bind_eq_ok, requireAuth_eq_ok, exists_const,
        ensure_eq_ok, pure_eq_ok] at h
      obtain ⟨-, -, rfl⟩ := h
      exact .inl rfl
  | setRootExpiry admin expiryLedgers =>
      obtain ⟨-, config, -, -, rfl⟩ := administer_eq_ok.mp h
      exact .inl rfl
  | transferAdmin admin newAdmin =>
      obtain ⟨-, config, -, -, rfl⟩ := administer_eq_ok.mp h
      exact .inl rfl
  | updateMerkleRoot admin root datasetHash =>
      obtain ⟨-, -, rfl⟩ := updateMerkleRoot_eq_ok.mp h
      exact .inr ⟨admin, root, datasetHash, rfl, rfl⟩
  | verifyReputation args =>
      obtain ⟨-, rfl⟩ := verifyReputation_eq_ok.mp h
      exact .inl rfl

end Spec

end OpaqueStellar.Reputation
