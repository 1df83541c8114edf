import OpaqueStellar.Pool.Contract

/-! # The relayer registry: storage

The storage of `contracts/relayer-registry`: stakes, escrowed jobs and the slashing records. The
registry calls the pool, so the world an invocation acts on holds both contracts; the token balances
are the pool world's. -/

namespace OpaqueStellar.Registry

open OpaqueStellar.Lib OpaqueStellar.Soroban

def DEFAULT_MINIMUM_STAKE : I128 := I128.ofNat 1000000

def DEFAULT_UNSTAKE_COOLDOWN_LEDGERS : ℕ := 720

def DEFAULT_MAX_DEADLINE_LEDGERS : ℕ := 17280

structure RegistryConfig where
  admin : Address
  nativeSac : Address
  privacyPool : Address
  minimumStake : I128
  unstakeCooldownLedgers : ℕ
  maxDeadlineLedgers : ℕ
  deriving DecidableEq

structure RelayerRecord where
  operator : Address
  x25519Pubkey : BytesN 32
  endpoint : String
  freeStake : I128
  bondedStake : I128
  pendingUnstake : I128
  unstakeUnlockLedger : ℕ
  deriving DecidableEq

/-- The five `STATUS_` constants. -/
inductive JobStatus where
  | OPEN
  | ACCEPTED
  | SUBMITTED
  | SLASHED
  | CANCELED
  deriving DecidableEq

structure JobRecord where
  creator : Address
  payloadHash : BytesN 32
  fee : I128
  deadlineLedger : ℕ
  acceptedRelayer : Option Address
  status : JobStatus
  createdLedger : ℕ
  submittedLedger : ℕ
  deriving DecidableEq

inductive RegistryError where
  | Unauthorized
  | AlreadyInitialized
  | NotInitialized
  | RelayerExists
  | RelayerMissing
  | StakeTooLow
  | BadAmount
  | InsufficientFreeStake
  | UnstakeLocked
  | JobExists
  | JobMissing
  | BadDeadline
  | JobNotOpen
  | JobNotAccepted
  | WrongRelayer
  | DeadlinePassed
  | DeadlineNotPassed
  | PayloadHashMismatch
  | AlreadyFinalized
  | InvalidSlashAmount
  | SlashProofInvalid
  | RelayerNotSlashed
  deriving DecidableEq

/-! ## The records of `slashing.rs` -/

inductive SlashableOffense where
  | DoubleSign
  | InvalidSignature
  deriving DecidableEq

structure SlashingProof where
  relayer : Address
  offense : SlashableOffense
  evidence : List UInt8
  timestamp : ℕ
  reporter : Address
  deriving DecidableEq

structure RelayerSlashRecord where
  relayer : Address
  totalSlashed : ℕ
  slashCount : ℕ
  lastSlashTime : ℕ
  deriving DecidableEq

/-! ## State and events -/

structure RegistryState where
  config : Option RegistryConfig := none
  relayers : Store Address RelayerRecord := ∅
  jobs : Store (BytesN 32) JobRecord := ∅
  slashRecords : Store Address RelayerSlashRecord := ∅

inductive RegistryEvent where
  | RelayerRegistered (operator : Address) (stake : I128)
  | StakeAdded (operator : Address) (amount : I128)
  | UnstakeRequested (operator : Address) (amount : I128) (unlockLedger : ℕ)
  | StakeWithdrawn (operator : Address) (amount : I128)
  | JobCreated (jobId : BytesN 32) (creator : Address) (fee : I128) (deadlineLedger : ℕ)
  | JobAccepted (jobId : BytesN 32) (operator : Address) (fee : I128)
  | JobSubmitted (jobId : BytesN 32) (operator : Address) (fee : I128)
  | JobSlashed (jobId : BytesN 32) (operator : Address) (fee : I128)
  | JobCanceled (jobId : BytesN 32) (creator : Address) (fee : I128)
  | relayerSlashed (relayer : Address) (offense : SlashableOffense) (amount : ℕ)
      (reporter : Address)
  | SlashReported (relayer : Address) (offense : SlashableOffense) (amount : I128)
      (reporter : Address)
  deriving DecidableEq

structure World where
  registry : RegistryState
  pool : Pool.World
  events : List RegistryEvent

def World.publish (w : World) (e : RegistryEvent) : World := { w with events := w.events ++ [e] }

/-- A registry just deployed next to a pool in any state. -/
def World.deployed (pool : Pool.World) : World := ⟨{}, pool, []⟩

/-- The registry's own address and the pool contract it may call, which is another contract. -/
structure Host where
  self : Address
  pool : Pool.Host
  distinct : self ≠ pool.self

end OpaqueStellar.Registry
