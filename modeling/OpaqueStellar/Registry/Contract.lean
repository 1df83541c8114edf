import OpaqueStellar.Registry.State

/-! # The relayer registry: entry points

`contracts/relayer-registry/src/lib.rs` and `slashing.rs`, with the checks in the source's order.
`machine` interleaves calls to the registry with calls that anybody makes to the pool. -/

namespace OpaqueStellar.Registry

open OpaqueStellar.Lib OpaqueStellar.Soroban

/-! ## Storage helpers -/

def cfg (s : RegistryState) : Result RegistryError RegistryConfig := okOr s.config .NotInitialized

def readRelayer (s : RegistryState) (operator : Address) : Result RegistryError RelayerRecord :=
  okOr (s.relayers.lookup operator) .RelayerMissing

def writeRelayer (w : World) (record : RelayerRecord) : World :=
  { w with registry.relayers := w.registry.relayers.insert record.operator record }

def readJob (s : RegistryState) (jobId : BytesN 32) : Result RegistryError JobRecord :=
  okOr (s.jobs.lookup jobId) .JobMissing

def writeJob (w : World) (jobId : BytesN 32) (job : JobRecord) : World :=
  { w with registry.jobs := w.registry.jobs.insert jobId job }

/-- A `u32` sum that stays at the largest value instead of overflowing. -/
def saturatingAdd (n m : ℕ) : ℕ := min (n + m) (2 ^ 32 - 1)

/-! ## The payload hash -/

def ascii (s : String) : List UInt8 := s.toList.map fun c => UInt8.ofNat c.toNat

def PAYLOAD_DOMAIN : List UInt8 := ascii "opaque-stellar-relay-v1"

/-- `to_xdr` of a symbol whose length is a multiple of four. -/
def symbolToXdr (s : String) : List UInt8 := beBytes 4 15 ++ beBytes 4 s.length ++ ascii s

def poolWithdrawPayloadHash (host : Pool.Host) (privacyPool : Address) (args : Pool.WithdrawArgs) :
    BytesN 32 :=
  host.keccak256 (PAYLOAD_DOMAIN ++ privacyPool.toXdr ++ symbolToXdr "withdraw" ++
    args.proofA.1 ++ args.proofB.1 ++ args.proofC.1 ++ args.withdrawnValue.toBeBytes ++
    args.stateRoot.1 ++ args.aspRoot.1 ++ args.nullifierHash.1 ++ args.newCommitment.1 ++
    args.recipient.toXdr ++ args.fee.toBeBytes ++ args.relayer.toXdr)

/-! ## `slashing.rs` -/

def verifyDoubleSignEvidence (evidence : List UInt8) : Result RegistryError Unit := do
  ensure (evidence.length = 128) (.err .SlashProofInvalid)
  ensure (evidence.take 64 ≠ evidence.drop 64) (.err .SlashProofInvalid)

def verifyInvalidSignatureEvidence (evidence : List UInt8) : Result RegistryError Unit := do
  ensure (evidence.length = 96) (.err .SlashProofInvalid)
  ensure ((evidence.take 64).all (· == 0) = false) (.err .SlashProofInvalid)
  ensure ((evidence.take 64).all (· == 0xFF) = false) (.err .SlashProofInvalid)

def verifySlashProof (proof : SlashingProof) : Result RegistryError Unit :=
  match proof.offense with
  | .DoubleSign => verifyDoubleSignEvidence proof.evidence
  | .InvalidSignature => verifyInvalidSignatureEvidence proof.evidence

section EntryPoints

variable (host : Host) (env : Env)

def slashRelayer (w : World) (proof : SlashingProof) (slashAmount : ℕ) :
    Result RegistryError World := do
  verifySlashProof proof
  ensure (slashAmount ≠ 0) (.err .InvalidSlashAmount)
  let record := (w.registry.slashRecords.lookup proof.relayer).getD ⟨proof.relayer, 0, 0, 0⟩
  let record := { record with
    totalSlashed := min (record.totalSlashed + slashAmount) (2 ^ 128 - 1)
    slashCount := saturatingAdd record.slashCount 1
    lastSlashTime := env.timestamp }
  let w := { w with
    registry.slashRecords := w.registry.slashRecords.insert proof.relayer record }
  pure (w.publish (.relayerSlashed proof.relayer proof.offense slashAmount proof.reporter))

/-! ## Entry points -/

/-- `token_transfer`: only a positive amount is transferred. -/
def tokenTransfer (w : World) (sac src dst : Address) (amount : I128) :
    Result RegistryError World := do
  let tokens ← w.pool.tokens.transferPositive env sac src dst amount
  pure { w with pool.tokens := tokens }

def initializeRegistry (w : World) (admin nativeSac privacyPool : Address) (minimumStake : I128)
    (unstakeCooldownLedgers maxDeadlineLedgers : ℕ) : Result RegistryError World := do
  env.requireAuth host.self admin
  ensure (w.registry.config.isSome = false) (.err .AlreadyInitialized)
  pure { w with
    registry.config := some {
      admin := admin
      nativeSac := nativeSac
      privacyPool := privacyPool
      minimumStake := if 0 < minimumStake.val then minimumStake else DEFAULT_MINIMUM_STAKE
      unstakeCooldownLedgers :=
        if 0 < unstakeCooldownLedgers then unstakeCooldownLedgers
        else DEFAULT_UNSTAKE_COOLDOWN_LEDGERS
      maxDeadlineLedgers :=
        if 0 < maxDeadlineLedgers then maxDeadlineLedgers else DEFAULT_MAX_DEADLINE_LEDGERS } }

def register (w : World) (operator : Address) (x25519Pubkey : BytesN 32) (endpoint : String)
    (stake : I128) : Result RegistryError World := do
  env.requireAuth host.self operator
  let config ← cfg w.registry
  ensure (config.minimumStake.val ≤ stake.val) (.err .StakeTooLow)
  ensure ((w.registry.relayers.lookup operator).isSome = false) (.err .RelayerExists)
  let w ← tokenTransfer env w config.nativeSac operator host.self stake
  let w := writeRelayer w ⟨operator, x25519Pubkey, endpoint, stake, 0, 0, 0⟩
  pure (w.publish (.RelayerRegistered operator stake))

def addStake (w : World) (operator : Address) (amount : I128) : Result RegistryError World := do
  env.requireAuth host.self operator
  ensure (0 < amount.val) (.err .BadAmount)
  let config ← cfg w.registry
  let relayer ← readRelayer w.registry operator
  let w ← tokenTransfer env w config.nativeSac operator host.self amount
  let freeStake ← I128.checked (relayer.freeStake.val + amount.val)
  let w := writeRelayer w { relayer with freeStake := freeStake }
  pure (w.publish (.StakeAdded operator amount))

def requestUnstake (w : World) (operator : Address) (amount : I128) :
    Result RegistryError World := do
  env.requireAuth host.self operator
  ensure (0 < amount.val) (.err .BadAmount)
  let config ← cfg w.registry
  let relayer ← readRelayer w.registry operator
  ensure (amount.val ≤ relayer.freeStake.val) (.err .InsufficientFreeStake)
  let freeStake ← I128.checked (relayer.freeStake.val - amount.val)
  let pendingUnstake ← I128.checked (relayer.pendingUnstake.val + amount.val)
  let unlock := saturatingAdd env.sequence config.unstakeCooldownLedgers
  let w := writeRelayer w { relayer with
    freeStake := freeStake
    pendingUnstake := pendingUnstake
    unstakeUnlockLedger := unlock }
  pure (w.publish (.UnstakeRequested operator amount unlock))

def withdrawStake (w : World) (operator : Address) : Result RegistryError World := do
  env.requireAuth host.self operator
  let config ← cfg w.registry
  let relayer ← readRelayer w.registry operator
  ensure (0 < relayer.pendingUnstake.val) (.err .BadAmount)
  ensure (relayer.unstakeUnlockLedger ≤ env.sequence) (.err .UnstakeLocked)
  let amount := relayer.pendingUnstake
  let w := writeRelayer w { relayer with pendingUnstake := 0, unstakeUnlockLedger := 0 }
  let w ← tokenTransfer env w config.nativeSac host.self operator amount
  pure (w.publish (.StakeWithdrawn operator amount))

def createJob (w : World) (creator : Address) (jobId payloadHash : BytesN 32)
    (deadlineLedger : ℕ) (fee : I128) : Result RegistryError World := do
  env.requireAuth host.self creator
  ensure (0 < fee.val) (.err .BadAmount)
  let config ← cfg w.registry
  let now := env.sequence
  ensure (now < deadlineLedger ∧ deadlineLedger - now ≤ config.maxDeadlineLedgers)
    (.err .BadDeadline)
  ensure ((w.registry.jobs.lookup jobId).isSome = false) (.err .JobExists)
  let w ← tokenTransfer env w config.nativeSac creator host.self fee
  let w := writeJob w jobId ⟨creator, payloadHash, fee, deadlineLedger, none, .OPEN, now, 0⟩
  pure (w.publish (.JobCreated jobId creator fee deadlineLedger))

def acceptJob (w : World) (operator : Address) (jobId : BytesN 32) :
    Result RegistryError World := do
  env.requireAuth host.self operator
  let job ← readJob w.registry jobId
  ensure (job.status = .OPEN) (.err .JobNotOpen)
  ensure (env.sequence < job.deadlineLedger) (.err .DeadlinePassed)
  let relayer ← readRelayer w.registry operator
  ensure (job.fee.val ≤ relayer.freeStake.val) (.err .InsufficientFreeStake)
  let freeStake ← I128.checked (relayer.freeStake.val - job.fee.val)
  let bondedStake ← I128.checked (relayer.bondedStake.val + job.fee.val)
  let w := writeRelayer w { relayer with freeStake := freeStake, bondedStake := bondedStake }
  let w := writeJob w jobId { job with acceptedRelayer := some operator, status := .ACCEPTED }
  pure (w.publish (.JobAccepted jobId operator job.fee))

/-- `invoke_contract(privacy_pool, "withdraw", …)`: the modelled world has one contract with that
entry point, and any other address makes the call trap. -/
def invokePoolWithdraw (w : World) (privacyPool : Address) (args : Pool.WithdrawArgs) :
    Result RegistryError World := do
  ensure (privacyPool = host.pool.self) (.trap .callee)
  let pool ← invoke (Pool.withdraw host.pool env w.pool args)
  pure { w with pool := pool }

def submitPoolWithdraw (w : World) (operator : Address) (jobId : BytesN 32)
    (args : Pool.WithdrawArgs) : Result RegistryError World := do
  env.requireAuth host.self operator
  let config ← cfg w.registry
  let job ← readJob w.registry jobId
  ensure (job.status = .ACCEPTED) (.err .JobNotAccepted)
  ensure (job.acceptedRelayer = some operator) (.err .WrongRelayer)
  ensure (env.sequence < job.deadlineLedger) (.err .DeadlinePassed)
  ensure (poolWithdrawPayloadHash host.pool config.privacyPool args = job.payloadHash)
    (.err .PayloadHashMismatch)
  let w ← invokePoolWithdraw host env w config.privacyPool args
  let relayer ← readRelayer w.registry operator
  let bondedStake ← I128.checked (relayer.bondedStake.val - job.fee.val)
  let freeStake ← I128.checked (relayer.freeStake.val + job.fee.val)
  let w := writeRelayer w { relayer with freeStake := freeStake, bondedStake := bondedStake }
  let w := writeJob w jobId { job with status := .SUBMITTED, submittedLedger := env.sequence }
  let w ← tokenTransfer env w config.nativeSac host.self operator job.fee
  pure (w.publish (.JobSubmitted jobId operator job.fee))

/-- What a missed deadline takes from a pending unstake, on top of the bond. -/
def slashPending (relayer : RelayerRecord) (fee : I128) : Result RegistryError RelayerRecord :=
  if 0 < relayer.pendingUnstake.val then do
    let pendingUnstake ← I128.checked
      (relayer.pendingUnstake.val - min relayer.pendingUnstake.val fee.val)
    pure { relayer with
      pendingUnstake := pendingUnstake
      unstakeUnlockLedger := if pendingUnstake.val = 0 then 0 else relayer.unstakeUnlockLedger }
  else pure relayer

def slashJob (w : World) (creator : Address) (jobId : BytesN 32) : Result RegistryError World := do
  env.requireAuth host.self creator
  let config ← cfg w.registry
  let job ← readJob w.registry jobId
  ensure (job.creator = creator) (.err .Unauthorized)
  ensure (job.status = .ACCEPTED) (.err .JobNotAccepted)
  ensure (job.deadlineLedger < env.sequence) (.err .DeadlineNotPassed)
  let operator ← okOr job.acceptedRelayer .JobNotAccepted
  let relayer ← readRelayer w.registry operator
  let bondedStake ← I128.checked (relayer.bondedStake.val - job.fee.val)
  let relayer ← slashPending { relayer with bondedStake := bondedStake } job.fee
  let w := writeRelayer w relayer
  let w := writeJob w jobId { job with status := .SLASHED }
  let award ← I128.checked (job.fee.val * 2)
  let w ← tokenTransfer env w config.nativeSac host.self creator award
  pure (w.publish (.JobSlashed jobId operator job.fee))

def cancelJob (w : World) (creator : Address) (jobId : BytesN 32) : Result RegistryError World := do
  env.requireAuth host.self creator
  let config ← cfg w.registry
  let job ← readJob w.registry jobId
  ensure (job.creator = creator) (.err .Unauthorized)
  ensure (job.status = .OPEN) (.err .JobNotOpen)
  ensure (job.deadlineLedger < env.sequence) (.err .DeadlineNotPassed)
  let w := writeJob w jobId { job with status := .CANCELED }
  let w ← tokenTransfer env w config.nativeSac host.self creator job.fee
  pure (w.publish (.JobCanceled jobId creator job.fee))

def requireAdmin (s : RegistryState) (admin : Address) : Result RegistryError RegistryConfig := do
  env.requireAuth host.self admin
  let config ← cfg s
  ensure (config.admin = admin) (.err .Unauthorized)
  pure config

def setConfig (w : World) (admin : Address) (minimumStake : I128)
    (unstakeCooldownLedgers maxDeadlineLedgers : ℕ) : Result RegistryError World := do
  let config ← requireAdmin host env w.registry admin
  ensure (0 < minimumStake.val ∧ unstakeCooldownLedgers ≠ 0 ∧ maxDeadlineLedgers ≠ 0)
    (.err .BadAmount)
  pure { w with
    registry.config := some { config with
      minimumStake := minimumStake
      unstakeCooldownLedgers := unstakeCooldownLedgers
      maxDeadlineLedgers := maxDeadlineLedgers } }

def transferAdmin (w : World) (admin newAdmin : Address) : Result RegistryError World := do
  let config ← requireAdmin host env w.registry admin
  pure { w with registry.config := some { config with admin := newAdmin } }

/-- The deduction of `report_slash`: from the bonded stake first, then from the free stake. The
stakes are compared as unsigned numbers. -/
def deductSlash (relayer : RelayerRecord) (slash : ℕ) : Result RegistryError RelayerRecord := do
  let actualSlash := min slash relayer.bondedStake.asU128
  let bondedStake ← I128.checked (relayer.bondedStake.val - actualSlash)
  let relayer := { relayer with bondedStake := bondedStake }
  let remaining := slash - actualSlash
  if 0 < remaining then do
    let freeSlash := min remaining relayer.freeStake.asU128
    let freeStake ← I128.checked (relayer.freeStake.val - freeSlash)
    pure { relayer with freeStake := freeStake }
  else pure relayer

def reportSlash (w : World) (proof : SlashingProof) (slashAmount : I128) :
    Result RegistryError World := do
  ensure (0 < slashAmount.val) (.err .InvalidSlashAmount)
  let w ← slashRelayer env w proof slashAmount.asU128
  let config ← cfg w.registry
  let relayer ← readRelayer w.registry proof.relayer
  let relayer ← deductSlash relayer slashAmount.asU128
  let w := writeRelayer w relayer
  let w ← tokenTransfer env w config.nativeSac host.self proof.reporter slashAmount
  pure (w.publish (.SlashReported proof.relayer proof.offense slashAmount proof.reporter))

/-! ## The contract as a machine -/

inductive Call where
  | initializeRegistry (admin nativeSac privacyPool : Address) (minimumStake : I128)
      (unstakeCooldownLedgers maxDeadlineLedgers : ℕ)
  | register (operator : Address) (x25519Pubkey : BytesN 32) (endpoint : String) (stake : I128)
  | addStake (operator : Address) (amount : I128)
  | requestUnstake (operator : Address) (amount : I128)
  | withdrawStake (operator : Address)
  | createJob (creator : Address) (jobId payloadHash : BytesN 32) (deadlineLedger : ℕ) (fee : I128)
  | acceptJob (operator : Address) (jobId : BytesN 32)
  | submitPoolWithdraw (operator : Address) (jobId : BytesN 32) (args : Pool.WithdrawArgs)
  | slashJob (creator : Address) (jobId : BytesN 32)
  | cancelJob (creator : Address) (jobId : BytesN 32)
  | setConfig (admin : Address) (minimumStake : I128)
      (unstakeCooldownLedgers maxDeadlineLedgers : ℕ)
  | transferAdmin (admin newAdmin : Address)
  | reportSlash (proof : SlashingProof) (slashAmount : I128)

def exec (w : World) : Call → Result RegistryError World
  | .initializeRegistry admin sac pool minimumStake cooldown maxDeadline =>
      initializeRegistry host env w admin sac pool minimumStake cooldown maxDeadline
  | .register operator pubkey endpoint stake => register host env w operator pubkey endpoint stake
  | .addStake operator amount => addStake host env w operator amount
  | .requestUnstake operator amount => requestUnstake host env w operator amount
  | .withdrawStake operator => withdrawStake host env w operator
  | .createJob creator jobId hash deadline fee => createJob host env w creator jobId hash deadline fee
  | .acceptJob operator jobId => acceptJob host env w operator jobId
  | .submitPoolWithdraw operator jobId args => submitPoolWithdraw host env w operator jobId args
  | .slashJob creator jobId => slashJob host env w creator jobId
  | .cancelJob creator jobId => cancelJob host env w creator jobId
  | .setConfig admin minimumStake cooldown maxDeadline =>
      setConfig host env w admin minimumStake cooldown maxDeadline
  | .transferAdmin admin newAdmin => transferAdmin host env w admin newAdmin
  | .reportSlash proof slashAmount => reportSlash host env w proof slashAmount

/-- One invocation: of the registry, or of the pool or a token by somebody else. -/
inductive Invocation where
  | registry (env : Env) (call : Call)
  | pool (inv : Pool.Invocation)

/-- What is done outside the registry is not signed by the registry. -/
def unsigned (self : Address) (inv : Pool.Invocation) : Pool.Invocation :=
  { inv with env := { inv.env with auths := inv.env.auths.filter (· ≠ self) } }

inductive Outcome where
  | registry (result : Result RegistryError Unit)
  | pool (outcome : Pool.Outcome)

/-- A failed invocation is rolled back. -/
def step (w : World) : Invocation → World × Outcome
  | .registry env call =>
      match exec host env w call with
      | .ok w' => (w', .registry (.ok ()))
      | .error e => (w, .registry (.error e))
  | .pool inv =>
      let (pool, outcome) := Pool.step host.pool w.pool (unsigned host.self inv)
      ({ w with pool := pool }, .pool outcome)

def machine : Machine World Invocation Outcome := ⟨step host⟩

abbrev RegistryStep := Machine.Step World Invocation Outcome

end EntryPoints

/-! ## A small setting

Two relayers stake a hundred each, and the first can be reported with evidence of the right shape. -/

namespace Demo

open Pool.Demo (account contract env)

def host : Host where
  self := contract 3
  pool := Pool.Demo.host
  distinct := by decide

def tokens : TokenLedger := fun _ holder =>
  if holder = account 1 ∨ holder = account 2 then 100 else 0

def pool : Pool.World := .deployed tokens

def proof : SlashingProof where
  relayer := account 1
  offense := .DoubleSign
  evidence := List.replicate 64 1 ++ List.replicate 64 2
  timestamp := 0
  reporter := account 9

def setup : List Invocation := [
  .registry (env 10 (account 0))
    (.initializeRegistry (account 0) (contract 2) (contract 0) (I128.ofNat 10 I128.ten_lt) 0 0),
  .registry (env 11 (account 1))
    (.register (account 1) (BytesN.ofNat 32 0) "one" (I128.ofNat 100 I128.hundred_lt)),
  .registry (env 12 (account 2))
    (.register (account 2) (BytesN.ofNat 32 0) "two" (I128.ofNat 100 I128.hundred_lt))]

def slash (amount : I128) : Invocation :=
  .registry (env 13 (account 9)) (.reportSlash proof amount)

end Demo

end OpaqueStellar.Registry
