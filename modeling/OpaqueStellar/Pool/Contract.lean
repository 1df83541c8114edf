import OpaqueStellar.Lib.Machine
import OpaqueStellar.Pool.Capacity

/-! # The privacy pool: entry points

`contracts/privacy-pool/src/lib.rs`, one definition per entry point, with the checks in the
source's order. Every mutating entry point is a `Call`; `machine` runs one invocation after the
other and keeps the old world when an invocation fails.

`Call.tokenTransfer` is no entry point: it is a token transfer made by somebody else between two
invocations, so that runs also cover what happens to the pool's balance from outside. -/

namespace OpaqueStellar.Pool

open OpaqueStellar.Lib OpaqueStellar.Soroban

/-! ## Encodings -/

/-- An amount as a 32-byte field element. -/
def i128Be32 (v : I128) : BytesN 32 := ⟨List.replicate 16 0 ++ v.toBeBytes, by simp [I128.toBeBytes]⟩

/-- Right-align at most 32 bytes. -/
def bytesToBytesN32 (b : List UInt8) : BytesN 32 :=
  ⟨(List.replicate (32 - b.length) 0 ++ b).take 32, by simp; omega⟩

/-- The hash, reduced to a scalar, that binds the payout into a proof. -/
def computeContext (host : Host) (recipient : Address) (withdrawnValue fee : I128)
    (relayer : Address) (scope : UInt64) : BytesN 32 :=
  let buf := recipient.toXdr ++ withdrawnValue.toBeBytes ++ fee.toBeBytes ++ relayer.toXdr ++
    beBytes 8 scope.toNat
  bytesToBytesN32 (beBytes 32 ((host.keccak256 buf).toNat % Groth16.scalarOrder))

/-! ## Administration -/

section EntryPoints

variable (host : Host) (env : Env)

def initializePool (w : World) (admin groth16Verifier nativeSac : Address) (scope : UInt64) :
    Result PoolError World := do
  env.requireAuth host.self admin
  ensure (w.pool.config.isSome = false) (.err .AlreadyInitialized)
  let w := { w with
    pool.config :=
      some ⟨admin, groth16Verifier, nativeSac, scope, DEFAULT_ROOT_EXPIRY_LEDGERS⟩
    pool.history := fun _ => []
    pool.depCount := 0
    pool.totDep := 0
    pool.totWd := 0 }
  let w := Capacity.initializeCapacityTracking env w
  pure (Withdrawal.initializeWithdrawalConfig env w admin 0)

/-- The opening of every administrator's entry point. -/
def requireAdmin (s : PoolState) (admin : Address) : Result PoolError PoolConfig := do
  env.requireAuth host.self admin
  let config ← cfg s
  ensure (config.admin = admin) (.err .Unauthorized)
  pure config

/-- The bounded history with one more root. -/
def pushHistory (hist : List (BytesN 32)) (root : BytesN 32) : List (BytesN 32) :=
  (if MAX_ROOT_HISTORY ≤ hist.length then hist.drop 1 else hist) ++ [root]

def publishRoot (w : World) (admin : Address) (root datasetHash : BytesN 32) (kind : RootKind) :
    Result PoolError World := do
  let _ ← requireAdmin host env w.pool admin
  let ledger := env.sequence
  let w := { w with
    pool.roots := w.pool.roots.insert (kind, root) ⟨ledger, datasetHash⟩
    pool.history := fun k =>
      if k = kind then pushHistory (w.pool.history k) root else w.pool.history k }
  pure (w.publish (.RootPublished kind root ledger datasetHash))

def updateStateRoot (w : World) (admin : Address) (root datasetHash : BytesN 32) :
    Result PoolError World := publishRoot host env w admin root datasetHash .state

def updateAspRoot (w : World) (admin : Address) (root datasetHash : BytesN 32) :
    Result PoolError World := publishRoot host env w admin root datasetHash .asp

def setRootExpiry (w : World) (admin : Address) (expiryLedgers : ℕ) : Result PoolError World := do
  let config ← requireAdmin host env w.pool admin
  pure { w with pool.config := some { config with rootExpiryLedgers := expiryLedgers } }

def transferAdmin (w : World) (admin newAdmin : Address) : Result PoolError World := do
  let config ← requireAdmin host env w.pool admin
  pure { w with pool.config := some { config with admin := newAdmin } }

def pauseDeposits (w : World) (admin : Address) : Result PoolError World := do
  let _ ← requireAdmin host env w.pool admin
  let w := { w with pool.depositsPaused := true }
  pure (w.publish (.DepositsPaused env.sequence))

def unpauseDeposits (w : World) (admin : Address) : Result PoolError World := do
  let _ ← requireAdmin host env w.pool admin
  let w := { w with pool.depositsPaused := false }
  pure (w.publish (.DepositsUnpaused env.sequence))

def requestPauseWithdrawals (w : World) (admin : Address) : Result PoolError World := do
  let _ ← requireAdmin host env w.pool admin
  if w.pool.wdPauseRequest ≠ NO_PAUSE_REQUEST then
    pure w
  else
    let now := env.sequence
    let w := { w with pool.wdPauseRequest := now }
    let activatesAt ← addChecked 32 now WITHDRAWAL_PAUSE_TIMELOCK_LEDGERS
    pure (w.publish (.WithdrawalPauseRequested now activatesAt))

def unpauseWithdrawals (w : World) (admin : Address) : Result PoolError World := do
  let _ ← requireAdmin host env w.pool admin
  ensure (w.pool.wdPauseRequest ≠ NO_PAUSE_REQUEST) (.err .NoPauseRequestPending)
  let w := { w with pool.wdPauseRequest := NO_PAUSE_REQUEST }
  pure (w.publish (.WithdrawalsUnpaused env.sequence))

def setWithdrawalMinimum (w : World) (admin : Address) (newMinimum : ℕ) :
    Result PoolError World := do
  let _ ← requireAdmin host env w.pool admin
  Withdrawal.updateMinimumWithdrawalAmount env w admin newMinimum

/-! ## Deposits and withdrawals -/

def deposit (w : World) (depositor : Address) (value : I128) (commitment : BytesN 32)
    (expectedIndex : ℕ) : Result PoolError (World × ℕ) := do
  env.requireAuth host.self depositor
  ensure (w.pool.depositsPaused = false) (.err .DepositsPaused)
  ensure (0 < value.val) (.err .BadAmount)
  let config ← cfg w.pool
  let index := w.pool.depCount
  ensure (index = expectedIndex) (.err .IndexMismatch)
  ensure (Capacity.isTreeAtCapacity env w.pool = false) (.err .TreeAtCapacity)
  let tokens ← w.tokens.transfer env config.nativeSac depositor host.self value
  let depCount ← addChecked 64 index 1
  let w := { w with
    tokens := tokens
    pool.commitments := w.pool.commitments.insert commitment index
    pool.depCount := depCount }
  let w ← Capacity.incrementCommitmentCount env w
  let totDep ← I128.checked (w.pool.totDep.val + value.val)
  let w := { w with pool.totDep := totDep }
  pure (w.publish (.Deposit commitment index value config.scope), index)

def requireFreshRoot (s : PoolState) (config : PoolConfig) (kind : RootKind) (root : BytesN 32)
    (unknown : PoolError) : Result PoolError Unit := do
  let entry ← okOr (s.roots.lookup (kind, root)) unknown
  ensure (env.sequence - entry.ledger ≤ config.rootExpiryLedgers) (.err .RootExpired)

structure WithdrawArgs where
  proofA : BytesN 64
  proofB : BytesN 128
  proofC : BytesN 64
  withdrawnValue : I128
  stateRoot : BytesN 32
  aspRoot : BytesN 32
  nullifierHash : BytesN 32
  newCommitment : BytesN 32
  recipient : Address
  fee : I128
  relayer : Address
  deriving DecidableEq

/-- The public inputs a withdrawal is verified against. -/
def WithdrawArgs.publicInputs (args : WithdrawArgs) (scope : UInt64) :
    Groth16.VerifyPublicInputsV3 where
  withdrawnValue := i128Be32 args.withdrawnValue
  stateRoot := args.stateRoot
  aspRoot := args.aspRoot
  nullifierHash := args.nullifierHash
  newCommitment := args.newCommitment
  context := computeContext host args.recipient args.withdrawnValue args.fee args.relayer scope

/-- A payout of `withdraw`: the transfer is made for a positive amount only. -/
def payPositive (tokens : TokenLedger) (token src dst : Address) (amount : I128) :
    Result PoolError TokenLedger := tokens.transferPositive env token src dst amount

def withdraw (w : World) (args : WithdrawArgs) : Result PoolError World := do
  ensure (withdrawalsPauseActive env w.pool = false) (.err .WithdrawalsPaused)
  let config ← cfg w.pool
  ensure (0 < args.withdrawnValue.val ∧ 0 ≤ args.fee.val ∧ args.fee.val ≤ args.withdrawnValue.val)
    (.err .BadAmount)
  ensure (Withdrawal.validateWithdrawalAmount w.pool args.withdrawnValue.asU128 = true)
    (.err .WithdrawalBelowMinimum)
  requireFreshRoot env w.pool config .state args.stateRoot .UnknownStateRoot
  requireFreshRoot env w.pool config .asp args.aspRoot .UnknownAspRoot
  ensure ((w.pool.nullifiers.lookup args.nullifierHash).isSome = false) (.err .NullifierUsed)
  let valid ← hostCall (host.verifyProofV3 config.groth16Verifier args.proofA args.proofB
    args.proofC (args.publicInputs host config.scope))
  ensure (valid = true) (.err .InvalidProof)
  let totWd ← I128.checked (w.pool.totWd.val + args.withdrawnValue.val)
  ensure (totWd.val ≤ w.pool.totDep.val) (.err .CustodyViolation)
  let index := w.pool.depCount
  let depCount ← addChecked 64 index 1
  let w := { w with
    pool.totWd := totWd
    pool.nullifiers := w.pool.nullifiers.insert args.nullifierHash true
    pool.commitments := w.pool.commitments.insert args.newCommitment index
    pool.depCount := depCount }
  let payout ← I128.checked (args.withdrawnValue.val - args.fee.val)
  let tokens ← payPositive env w.tokens config.nativeSac host.self args.recipient payout
  let tokens ← payPositive env tokens config.nativeSac host.self args.relayer args.fee
  let w := { w with tokens := tokens }
  pure (w.publish (.Withdraw args.nullifierHash args.newCommitment index args.withdrawnValue))

/-! ## Views -/

def isDepositsPaused (s : PoolState) : Bool := s.depositsPaused

def isWithdrawalsPaused (s : PoolState) : Bool := withdrawalsPauseActive env s

def getWithdrawalPauseRequest (s : PoolState) : Result PoolError (ℕ × ℕ) :=
  if s.wdPauseRequest = NO_PAUSE_REQUEST then pure (0, 0)
  else do
    let activatesAt ← addChecked 32 s.wdPauseRequest WITHDRAWAL_PAUSE_TIMELOCK_LEDGERS
    pure (s.wdPauseRequest, activatesAt)

def getDepositCount (s : PoolState) : ℕ := s.depCount

def isKnownRoot (s : PoolState) (kind : RootKind) (root : BytesN 32) : Bool :=
  (s.roots.lookup (kind, root)).isSome

def isSpent (s : PoolState) (nullifierHash : BytesN 32) : Bool :=
  (s.nullifiers.lookup nullifierHash).isSome

def getLatestRoot (s : PoolState) (kind : RootKind) : Result PoolError (BytesN 32) :=
  okOr (s.history kind).getLast? (if kind = .state then .UnknownStateRoot else .UnknownAspRoot)

def getCustody (s : PoolState) : I128 × I128 := (s.totDep, s.totWd)

def getTreeCapacityInfo (s : PoolState) : TreeCapacityInfo := Capacity.getTreeCapacity env s

/-! ## The contract as a machine -/

inductive Call where
  | initializePool (admin groth16Verifier nativeSac : Address) (scope : UInt64)
  | deposit (depositor : Address) (value : I128) (commitment : BytesN 32) (expectedIndex : ℕ)
  | updateStateRoot (admin : Address) (root datasetHash : BytesN 32)
  | updateAspRoot (admin : Address) (root datasetHash : BytesN 32)
  | setRootExpiry (admin : Address) (expiryLedgers : ℕ)
  | transferAdmin (admin newAdmin : Address)
  | pauseDeposits (admin : Address)
  | unpauseDeposits (admin : Address)
  | requestPauseWithdrawals (admin : Address)
  | unpauseWithdrawals (admin : Address)
  | setWithdrawalMinimum (admin : Address) (newMinimum : ℕ)
  | withdraw (args : WithdrawArgs)
  | tokenTransfer (token src dst : Address) (amount : I128)

/-- What a successful invocation returns. -/
inductive Ret where
  | unit
  | index (n : ℕ)
  deriving DecidableEq

def exec (w : World) : Call → Result PoolError (World × Ret)
  | .initializePool admin verifier sac scope =>
      return (← initializePool host env w admin verifier sac scope, .unit)
  | .deposit depositor value commitment expectedIndex => do
      let (w, index) ← deposit host env w depositor value commitment expectedIndex
      return (w, .index index)
  | .updateStateRoot admin root hash => return (← updateStateRoot host env w admin root hash, .unit)
  | .updateAspRoot admin root hash => return (← updateAspRoot host env w admin root hash, .unit)
  | .setRootExpiry admin expiry => return (← setRootExpiry host env w admin expiry, .unit)
  | .transferAdmin admin newAdmin => return (← transferAdmin host env w admin newAdmin, .unit)
  | .pauseDeposits admin => return (← pauseDeposits host env w admin, .unit)
  | .unpauseDeposits admin => return (← unpauseDeposits host env w admin, .unit)
  | .requestPauseWithdrawals admin => return (← requestPauseWithdrawals host env w admin, .unit)
  | .unpauseWithdrawals admin => return (← unpauseWithdrawals host env w admin, .unit)
  | .setWithdrawalMinimum admin minimum =>
      return (← setWithdrawalMinimum host env w admin minimum, .unit)
  | .withdraw args => return (← withdraw host env w args, .unit)
  | .tokenTransfer token src dst amount => do
      env.requireAuth host.self src
      let tokens ← w.tokens.transfer env token src dst amount
      return ({ w with tokens := tokens }, .unit)

/-- One invocation: who calls when, and what. -/
structure Invocation where
  env : Env
  call : Call

abbrev Outcome := Result PoolError Ret

/-- A failed invocation is rolled back. -/
def step (w : World) (inv : Invocation) : World × Outcome :=
  match exec host inv.env w inv.call with
  | .ok (w', r) => (w', .ok r)
  | .error e => (w, .error e)

def machine : Machine World Invocation Outcome := ⟨step host⟩

abbrev PoolStep := Machine.Step World Invocation Outcome

theorem step_of_ok {w w' : World} {inv : Invocation} {r : Ret}
    (h : exec host inv.env w inv.call = .ok (w', r)) : step host w inv = (w', .ok r) := by
  simp [step, h]

theorem step_of_error {w : World} {inv : Invocation} {e : Failure PoolError}
    (h : exec host inv.env w inv.call = .error e) : step host w inv = (w, .error e) := by
  simp [step, h]

end EntryPoints

/-! ## A small run

One deposit of ten, both roots published, five of it withdrawn with a fee of one. The curve
operations are stand-ins that accept every proof. -/

namespace Demo

def account (n : ℕ) : Address := .account (BytesN.ofNat 32 n)

def contract (n : ℕ) : Address := .contract (BytesN.ofNat 32 n)

def keccak256 : List UInt8 → BytesN 32 := fun bs => BytesN.ofNat 32 (beNat bs)

def bn254 : Groth16.Bn254 where
  g1Add := fun a _ => some a
  g1Mul := fun a _ => some a
  pairingCheck := fun _ _ => some true

def host : Host := .withVerifier (contract 0) keccak256 bn254

def env (ledger : ℕ) (signer : Address) : Env where
  sequence := ledger
  timestamp := ledger
  auths := [signer]

def admin : Address := account 1

def user : Address := account 2

def tokens : TokenLedger := fun _ holder => if holder = user then 100 else 0

def args : WithdrawArgs where
  proofA := BytesN.ofNat 64 0
  proofB := BytesN.ofNat 128 0
  proofC := BytesN.ofNat 64 0
  withdrawnValue := I128.ofNat 5
  stateRoot := BytesN.ofNat 32 1
  aspRoot := BytesN.ofNat 32 2
  nullifierHash := BytesN.ofNat 32 3
  newCommitment := BytesN.ofNat 32 4
  recipient := account 5
  fee := I128.ofNat 1 I128.one_lt
  relayer := account 6

def setup : List Invocation := [
  ⟨env 10 admin, .initializePool admin (contract 1) (contract 2) 9⟩,
  ⟨env 11 user, .deposit user (I128.ofNat 10 I128.ten_lt) (BytesN.ofNat 32 8) 0⟩,
  ⟨env 12 admin, .updateStateRoot admin args.stateRoot (BytesN.ofNat 32 0)⟩,
  ⟨env 13 admin, .updateAspRoot admin args.aspRoot (BytesN.ofNat 32 0)⟩]

def spend : Invocation := ⟨env 14 user, .withdraw args⟩

end Demo

end OpaqueStellar.Pool
