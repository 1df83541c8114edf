import OpaqueStellar.Groth16.Verifier
import OpaqueStellar.Lib.Store
import OpaqueStellar.Soroban.Token

/-! # The privacy pool: storage

The storage of `contracts/privacy-pool`, its errors and its events. An instance entry that the code
reads with a default (`unwrap_or`) is a plain field holding that default until it is written; an
entry whose absence the code can tell is an `Option`. Time-to-live extensions are left out: they
change no entry. -/

namespace OpaqueStellar.Pool

open OpaqueStellar.Lib OpaqueStellar.Soroban

def DEFAULT_ROOT_EXPIRY_LEDGERS : ℕ := 17280

def MAX_ROOT_HISTORY : ℕ := 100

def WITHDRAWAL_PAUSE_TIMELOCK_LEDGERS : ℕ := 17280

/-- The stored ledger number that stands for "no pause requested". -/
def NO_PAUSE_REQUEST : ℕ := 0

structure PoolConfig where
  admin : Address
  groth16Verifier : Address
  nativeSac : Address
  scope : UInt64
  rootExpiryLedgers : ℕ
  deriving DecidableEq

structure RootEntry where
  ledger : ℕ
  datasetHash : BytesN 32
  deriving DecidableEq

inductive PoolError where
  | Unauthorized
  | AlreadyInitialized
  | InvalidProof
  | NullifierUsed
  | UnknownStateRoot
  | UnknownAspRoot
  | RootExpired
  | BadAmount
  | IndexMismatch
  | CustodyViolation
  | DepositsPaused
  | WithdrawalsPaused
  | NoPauseRequestPending
  | TreeAtCapacity
  | WithdrawalBelowMinimum
  deriving DecidableEq

/-- Which of the two root namespaces an entry belongs to (`STATE` and `ASP`). -/
inductive RootKind where
  | state
  | asp
  deriving DecidableEq

/-! ## The records of the capacity and withdrawal modules -/

structure TreeCapacityInfo where
  maxCapacity : ℕ
  currentCount : ℕ
  depth : ℕ
  lastUpdated : ℕ
  deriving DecidableEq

inductive AlertLevel where
  | Normal
  | Warning
  | Critical
  deriving DecidableEq

structure CapacityAlert where
  level : AlertLevel
  timestamp : ℕ
  currentCount : ℕ
  thresholdBps : ℕ
  deriving DecidableEq

structure WithdrawalConfig where
  minimumAmount : ℕ
  updatedAt : ℕ
  updatedBy : Address
  deriving DecidableEq

/-! ## State and events -/

structure PoolState where
  -- `"config"`
  config : Option PoolConfig := none
  -- `("state_root", root)` and `("asp_root", root)`
  roots : Store (RootKind × BytesN 32) RootEntry := ∅
  -- `"state_hist"` and `"asp_hist"`
  history : RootKind → List (BytesN 32) := fun _ => []
  -- `"dep_count"`
  depCount : ℕ := 0
  -- `"tot_dep"`
  totDep : I128 := 0
  -- `"tot_wd"`
  totWd : I128 := 0
  -- `"dep_paused"`
  depositsPaused : Bool := false
  -- `"wd_pause_req"`
  wdPauseRequest : ℕ := NO_PAUSE_REQUEST
  -- `("nullifier", n)`
  nullifiers : Store (BytesN 32) Bool := ∅
  -- `("commit", c)`
  commitments : Store (BytesN 32) ℕ := ∅
  -- `capacity::DataKey::TreeCapacity`
  treeCapacity : Option TreeCapacityInfo := none
  -- `capacity::DataKey::LastAlert`
  lastAlert : Option CapacityAlert := none
  -- `withdrawal::DataKey::WithdrawalConfig`
  withdrawalConfig : Option WithdrawalConfig := none
  -- `withdrawal::DataKey::WithdrawalAdmin`
  withdrawalAdmin : Option Address := none

inductive PoolEvent where
  | Deposit (commitment : BytesN 32) (index : ℕ) (value : I128) (scope : UInt64)
  | RootPublished (kind : RootKind) (root : BytesN 32) (ledger : ℕ) (datasetHash : BytesN 32)
  | DepositsPaused (ledger : ℕ)
  | DepositsUnpaused (ledger : ℕ)
  | WithdrawalPauseRequested (requestedAt activatesAt : ℕ)
  | WithdrawalsUnpaused (ledger : ℕ)
  | Withdraw (nullifierHash newCommitment : BytesN 32) (index : ℕ) (withdrawnValue : I128)
  | capInit (maxCapacity : ℕ)
  | capAlert (level : AlertLevel) (bps currentCount : ℕ)
  | wdCfg (minimumAmount : ℕ)
  | minUpd (newMinimum : ℕ) (caller : Address)
  deriving DecidableEq

/-- What an invocation of the pool acts on: its storage, the token balances and the event log. -/
structure World where
  pool : PoolState
  tokens : TokenLedger
  events : List PoolEvent

def World.publish (w : World) (e : PoolEvent) : World := { w with events := w.events ++ [e] }

/-- A pool just deployed, in a world with the balances `tokens`. -/
def World.deployed (tokens : TokenLedger) : World := ⟨{}, tokens, []⟩

/-- What the pool calls: its own address, the hash host function, and the `verify_proof_v3` of the
contract at an address (`none` where the call fails). -/
structure Host where
  self : Address
  keccak256 : List UInt8 → BytesN 32
  verifyProofV3 : Address → BytesN 64 → BytesN 128 → BytesN 64 →
    Groth16.VerifyPublicInputsV3 → Option Bool

/-- The pool wired to the repository's verifier contract. -/
def Host.withVerifier (self : Address) (keccak256 : List UInt8 → BytesN 32) (bn : Groth16.Bn254) :
    Host where
  self := self
  keccak256 := keccak256
  verifyProofV3 := fun _ a b c inputs => (Groth16.verifyProofV3 bn a b c inputs).toOption

def cfg (s : PoolState) : Result PoolError PoolConfig := expect s.config "config"

/-- `withdrawals_pause_active`: recomputed from the request's ledger on every call. -/
def withdrawalsPauseActive (env : Env) (s : PoolState) : Bool :=
  if s.wdPauseRequest = NO_PAUSE_REQUEST then false
  else decide (WITHDRAWAL_PAUSE_TIMELOCK_LEDGERS ≤ env.sequence - s.wdPauseRequest)

end OpaqueStellar.Pool
