import OpaqueStellar.Lib.Async
import OpaqueStellar.Lib.Dict
import OpaqueStellar.Relayer.Bytes
import OpaqueStellar.Relayer.Chain

/-! # The relayer engine

`RelayerEngine` of `relayer/src/engine.ts` with the queue of accepted jobs of `job-queue.ts`: the
deliveries of payloads and the recovery of what an earlier process left behind. Both are code that
awaits the chain, the store and each other, and any number of deliveries is under way at a time.

Opening a box, hashing a payload and writing it down are parameters of the configuration. The entries
of the queue are objects, which a recovery pass holds on to while others change or replace them. -/

namespace OpaqueStellar.Relayer

open OpaqueStellar.Lib OpaqueStellar.Soroban OpaqueStellar.Registry
open OpaqueStellar.Schemas (Str)

/-! ## Data -/

inductive EngineError where
  -- `validatePayload`
  | invalidPayload
  -- `openBox` or `decodePoolWithdrawPayload`
  | box
  -- `Payload hash mismatch.`
  | hashMismatch
  -- a call of the chain adapter
  | rpc
  -- `accepted job intent missing`
  | intentMissing
  -- `store.save`
  | store
  -- `parsePoolWithdrawPayload`
  | corrupt
  deriving DecidableEq

/-- The texts in the place of a transaction hash. -/
inductive TxRef where
  | hash (tx : ℕ)
  -- `on-chain-accept:` and the job
  | onChainAccept (jobId : Str)
  -- `on-chain:` and the job
  | onChain (jobId : Str)
  deriving DecidableEq

structure RelayResult where
  acceptedTx : TxRef
  submittedTx : TxRef
  deriving DecidableEq

inductive Phase where
  | accepting
  | accepted
  deriving DecidableEq

structure AcceptedJobEntry (W : Type) where
  jobId : Str
  acceptedTx : Option TxRef := none
  phase : Phase := .accepting
  payload : W
  deadline : ℕ
  fee : ℤ
  acceptedAt : ℕ
  attempts : ℕ := 0
  lastError : Option EngineError := none
  deriving DecidableEq

inductive Settlement where
  | completed
  | failed
  deriving DecidableEq

structure JobLedgerEntry where
  jobId : Str
  acceptedTx : TxRef
  submittedTx : TxRef
  expectedFee : ℤ
  submittedAt : ℕ
  deriving DecidableEq

structure IdempotencyEntry where
  result : RelayResult
  expiresAt : ℕ
  -- the job of the delivery that is remembered; the code does not keep it
  jobId : Str
  deriving DecidableEq

def IDEMPOTENCY_TTL_MS : ℕ := 24 * 60 * 60 * 1000

structure EncryptedPayload where
  jobId : Str
  -- `to`
  recipient : Str
  box : Str
  idempotencyKey : Option Str := none
  deriving DecidableEq

/-- A promise that others may await: the delivery with this number, and its job. -/
structure Promise where
  task : ℕ
  jobId : Str
  deriving DecidableEq

/-- A relayer node and what it works on. -/
structure Node (W : Type) where
  chain : Chain
  now : ℕ := 0
  -- does writing to the store of accepted jobs succeed at present?
  disk : Bool := true
  store : Option (List (AcceptedJobEntry W)) := none
  -- did the last write succeed?
  saved : Bool := true
  -- memory: the queue, with its entries as objects
  objects : List (AcceptedJobEntry W) := []
  entries : Dict Str ℕ := []
  idempotencyStore : Dict Str IdempotencyEntry := []
  pendingIdempotency : Dict Str Promise := []
  settled : List (Promise × Except EngineError (Option RelayResult)) := []
  resumeInFlight : Bool := false
  -- which task works on which job; the code does not keep it
  working : List (BytesN 32 × ℕ) := []
  -- what was reported to `onSettled` and recorded in the job ledger so far
  reports : List (Str × Settlement) := []
  records : List JobLedgerEntry := []

structure EngineConfig (P W : Type) where
  operator : Address
  x25519PublicKey : BytesN 32
  minFee : ℤ
  deadlineMarginLedgers : Option ℤ := none
  maxAttempts : Option ℤ := none
  -- `openBox` and `decodePoolWithdrawPayload`
  openBox : Str → BytesN 32 → Option P
  hashPoolWithdrawPayload : P → BytesN 32
  serializePoolWithdrawPayload : P → W
  parsePoolWithdrawPayload : W → Option P

def DEFAULT_DEADLINE_MARGIN_LEDGERS : ℕ := 30

def DEFAULT_SUBMIT_ATTEMPTS : ℕ := 3

section Config

variable {P W : Type} (cfg : EngineConfig P W)

def EngineConfig.margin : ℕ :=
  match cfg.deadlineMarginLedgers with
  | some margin => if 0 ≤ margin then margin.toNat else DEFAULT_DEADLINE_MARGIN_LEDGERS
  | none => DEFAULT_DEADLINE_MARGIN_LEDGERS

def EngineConfig.attempts : ℕ :=
  match cfg.maxAttempts with
  | some n => if 0 < n then n.toNat else DEFAULT_SUBMIT_ATTEMPTS
  | none => DEFAULT_SUBMIT_ATTEMPTS

end Config

/-! ## What is awaited -/

/-- Where the code asks for a job or for the head. -/
inductive Site where
  -- a delivery, before it accepts
  | deliver
  -- `reconcileAcceptance`
  | reconcile
  -- `submitWithRetry`, before a submit and after one that failed
  | attempt
  | afterFailure
  -- a recovery pass, with the entry it looks at
  | recover (entry : ℕ)
  deriving DecidableEq

inductive EngineCall where
  | getJob (site : Site) (jobId : Str)
  -- the head, to compare with a deadline
  | latestLedger (site : Site) (deadline : ℕ)
  | simulatePoolWithdraw (deadline : ℕ)
  -- the store, while a job with this deadline is enqueued
  | enqueue (deadline : ℕ)
  -- the store, in the other operations of the queue
  | persist
  | acceptJob (jobId : Str) (tx : ℕ)
  | submitPoolWithdraw (jobId : Str) (tx : ℕ)
  | sleep
  | onSettled (jobId : Str) (result : Settlement)
  | promise (p : Promise)
  | hydrate
  deriving DecidableEq

inductive Reply where
  | ok
  -- the simulation of a read had no value
  | null
  | fail
  deriving DecidableEq

abbrev Code (W α : Type) := Async (Node W) EngineCall Reply EngineError α

/-! ## The queue of accepted jobs -/

section Queue

variable {W : Type}

/-- `get`, as the object it finds. -/
def Node.get (n : Node W) (jobId : Str) : Option ℕ := n.entries.find (toLowerCase jobId)

/-- `pending`: the oldest acceptance first. -/
def Node.pending (n : Node W) : List ℕ :=
  (n.entries.map (·.2)).mergeSort fun a b =>
    decide ((n.objects[a]?.map (·.acceptedAt)).getD 0 ≤ (n.objects[b]?.map (·.acceptedAt)).getD 0)

def Node.update (n : Node W) (entry : ℕ) (f : AcceptedJobEntry W → AcceptedJobEntry W) : Node W :=
  { n with objects := n.objects.modify entry f }

/-- What `store.save` would be given. -/
def Node.snapshot (n : Node W) : List (AcceptedJobEntry W) := n.pending.filterMap (n.objects[·]?)

/-- The store is written to, or it cannot be. -/
def Node.save (n : Node W) : Node W :=
  if n.disk then { n with store := some n.snapshot, saved := true } else { n with saved := false }

def Node.insert (n : Node W) (entry : AcceptedJobEntry W) : Node W :=
  { n with
    objects := n.objects ++ [entry]
    entries := n.entries.set (toLowerCase entry.jobId) n.objects.length }

def Node.remove (n : Node W) (jobId : Str) : Node W :=
  { n with entries := n.entries.delete (toLowerCase jobId) }

/-- The store is written to without waiting; only its answer is awaited. -/
def persist (c : EngineCall) : Code W Unit := do
  let n ← Async.get
  Async.modify Node.save
  let _ ← Async.call c
  if n.disk then pure () else Async.throw .store

def enqueue (entry : AcceptedJobEntry W) : Code W Unit := do
  Async.modify (·.insert entry)
  persist (.enqueue entry.deadline)

def markAccepted (jobId : Str) (acceptedTx : TxRef) : Code W Unit := do
  let n ← Async.get
  match n.get jobId with
  | none =>
      let _ ← Async.call .persist
      Async.throw .intentMissing
  | some entry =>
      Async.modify fun n => n.update entry fun e =>
        { e with acceptedTx := some acceptedTx, phase := .accepted }
      persist .persist

def resolve (jobId : Str) : Code W Unit := do
  Async.modify (·.remove jobId)
  persist .persist

def recordFailure (jobId : Str) (error : EngineError) : Code W Unit := do
  let n ← Async.get
  match n.get jobId with
  | none =>
      let _ ← Async.call .persist
  | some entry =>
      Async.modify fun n => n.update entry fun e =>
        { e with attempts := e.attempts + 1, lastError := some error }
      persist .persist

end Queue

/-! ## The chain adapter -/

section Adapter

variable {P W : Type} (cfg : EngineConfig P W)

def getJob (site : Site) (jobId : Str) : Code W (Option JobRecord) := do
  match ← Async.call (.getJob site jobId) with
  | .ok => Async.gets fun n => (jobKey jobId).bind n.chain.jobs.lookup
  | .null => pure none
  | .fail => Async.throw .rpc

/-- `getJob(…).catch(() => null)` -/
def getJobOrNull (site : Site) (jobId : Str) : Code W (Option JobRecord) :=
  (getJob site jobId).tryCatch fun _ => pure none

/-- There is no transaction for a text that is no job. -/
def Node.send (n : Node W) (tx : Option Tx) : Node W :=
  { n with chain := tx.elim n.chain n.chain.send }

/-- The transaction is sent, and confirmed or not. -/
def acceptJob (jobId : Str) : Code W TxRef := do
  let n ← Async.get
  Async.modify (·.send ((jobKey jobId).map .accept))
  match ← Async.call (.acceptJob jobId n.chain.txs.length) with
  | .ok => pure (.hash n.chain.txs.length)
  | _ => Async.throw .rpc

def submitPoolWithdraw (jobId : Str) (payload : P) : Code W TxRef := do
  let n ← Async.get
  Async.modify (·.send ((jobKey jobId).map (.submit · (cfg.hashPoolWithdrawPayload payload))))
  match ← Async.call (.submitPoolWithdraw jobId n.chain.txs.length) with
  | .ok => pure (.hash n.chain.txs.length)
  | _ => Async.throw .rpc

/-- An unknown head leaves the benefit of the doubt. -/
def hasDeadlineHeadroom (site : Site) (deadline : ℕ) : Code W Bool := do
  match ← Async.call (.latestLedger site deadline) with
  | .ok => Async.gets fun n => decide (n.chain.ledger + cfg.margin ≤ deadline)
  | _ => pure true

end Adapter

/-! ## Accepting and submitting -/

section Engine

variable {P W : Type} (cfg : EngineConfig P W)

/-- The status of a job, if it was found. -/
def statusOf (job : Option JobRecord) : Option JobStatus := job.map (·.status)

/-- Accepted by this operator, or by nobody in particular. -/
def acceptedByUs (job : JobRecord) : Bool :=
  job.status = .ACCEPTED ∧ (job.acceptedRelayer = none ∨ job.acceptedRelayer = some cfg.operator)

def reconcileAcceptance (jobId : Str) : Code W (Option TxRef) := do
  match ← getJobOrNull .reconcile jobId with
  | some job => pure (if acceptedByUs cfg job then some (.onChainAccept jobId) else none)
  | none => pure none

/-- One attempt of `submitWithRetry`. -/
def submitOnce (jobId : Str) (payload : P) : Code W TxRef := do
  let current ← getJob .attempt jobId
  if statusOf current = some .SUBMITTED then pure (.onChain jobId)
  else submitPoolWithdraw cfg jobId payload

/-- `submitWithRetry`, with so many attempts left. -/
def submitWithRetry (jobId : Str) (payload : P) (deadline : ℕ) : ℕ → Code W TxRef
  | 0 => Async.throw .rpc
  | left + 1 =>
      (submitOnce cfg jobId payload).tryCatch fun err => do
        recordFailure jobId err
        let current ← getJobOrNull .afterFailure jobId
        if statusOf current = some .SUBMITTED then pure (.onChain jobId)
        else if left = 0 then Async.throw err
        else if ← hasDeadlineHeadroom cfg .afterFailure deadline then
          let _ ← Async.call .sleep
          submitWithRetry jobId payload deadline left
        else Async.throw err

def Node.report (n : Node W) (jobId : Str) (result : Settlement) : Node W :=
  { n with reports := n.reports ++ [(jobId, result)] }

def Node.record (n : Node W) (entry : JobLedgerEntry) : Node W :=
  { n with records := n.records ++ [entry] }

def notifySettled (jobId : Str) (result : Settlement) : Code W Unit := do
  Async.modify (·.report jobId result)
  let _ ← Async.call (.onSettled jobId result)

/-- `jobLedger.record`, and the job is reported as completed. -/
def recordCompleted (jobId : Str) (acceptedTx submittedTx : TxRef) (expectedFee : ℤ) :
    Code W Unit := do
  Async.modify fun n => n.record ⟨jobId, acceptedTx, submittedTx, expectedFee, n.now⟩
  notifySettled jobId .completed

/-- The task begins to work on a job. -/
def Node.take (n : Node W) (me : ℕ) (jobId : Str) : Node W :=
  { n with working := n.working ++ (jobKey jobId).toList.map (·, me) }

/-- The task works on nothing any more. -/
def Node.release (n : Node W) (me : ℕ) : Node W :=
  { n with working := n.working.filter fun e => e.2 ≠ me }

/-! ## Deliveries -/

/-- `acceptJob`, read from the chain if it was not confirmed. -/
def acceptOrReconcile (jobId : Str) : Code W TxRef :=
  (acceptJob jobId).tryCatch fun err => do
    match ← reconcileAcceptance cfg jobId with
    | some tx => pure tx
    | none => Async.throw err

/-- The result is kept under the key of the delivery, if it has one. -/
def Node.remember (n : Node W) (msg : EncryptedPayload) (result : RelayResult) : Node W :=
  match msg.idempotencyKey with
  | some (k :: ks) =>
      { n with
        idempotencyStore :=
          n.idempotencyStore.set (k :: ks) ⟨result, n.now + IDEMPOTENCY_TTL_MS, msg.jobId⟩ }
  | _ => n

/-- What is done about a job that this operator has accepted. -/
def completeDelivery (msg : EncryptedPayload) (payload : P) (job : JobRecord) (acceptedTx : TxRef) :
    Code W (Option RelayResult) := do
  let submittedTx ← submitWithRetry cfg msg.jobId payload job.deadlineLedger cfg.attempts
  let result := ⟨acceptedTx, submittedTx⟩
  resolve msg.jobId
  recordCompleted msg.jobId acceptedTx submittedTx job.fee.val
  Async.modify (·.remember msg result)
  pure (some result)

/-- The accept and what follows; only from the accept on is an outcome owed. -/
def acceptAndComplete (msg : EncryptedPayload) (payload : P) (job : JobRecord) :
    Code W (Option RelayResult) := do
  let acceptedTx ← acceptOrReconcile cfg msg.jobId
  markAccepted msg.jobId acceptedTx
  (completeDelivery cfg msg payload job acceptedTx).tryCatch fun err => do
    notifySettled msg.jobId .failed
    Async.throw err

/-- What is done about a job that was found open. -/
def processOpenJob (msg : EncryptedPayload) (payload : P) (job : JobRecord) :
    Code W (Option RelayResult) := do
  if cfg.hashPoolWithdrawPayload payload ≠ job.payloadHash then Async.throw .hashMismatch
  else if ← hasDeadlineHeadroom cfg .deliver job.deadlineLedger then
    match ← Async.call (.simulatePoolWithdraw job.deadlineLedger) with
    | .ok =>
        let now ← Async.gets (·.now)
        -- the intent is written down before it can land
        enqueue
          { jobId := msg.jobId
            payload := cfg.serializePoolWithdrawPayload payload
            deadline := job.deadlineLedger
            fee := job.fee.val
            acceptedAt := now }
        acceptAndComplete cfg msg payload job
    | _ => Async.throw .rpc
  else pure none

def processPayload (me : ℕ) (msg : EncryptedPayload) : Code W (Option RelayResult) :=
  Async.tryFinally (do
    match (jobKey msg.jobId).bind (cfg.openBox msg.box) with
    | none => Async.throw .box
    | some payload =>
        match ← getJob .deliver msg.jobId with
        | none => pure none
        | some job =>
            if job.status ≠ .OPEN then pure none
            else
              Async.modify (·.take me msg.jobId)
              processOpenJob cfg msg payload job)
    fun _ n => n.release me

/-- `validatePayload`: both texts are 32 bytes. -/
def EncryptedPayload.valid (msg : EncryptedPayload) : Bool :=
  (jobKey msg.jobId).isSome && (jobKey msg.recipient).isSome

/-- A delivery that others can await under its key. -/
def processShared (me : ℕ) (msg : EncryptedPayload) (key : Str) : Code W (Option RelayResult) := do
  Async.modify fun n =>
    { n with pendingIdempotency := n.pendingIdempotency.set key ⟨me, msg.jobId⟩ }
  Async.tryFinally (processPayload cfg me msg) fun r n =>
    { n with
      pendingIdempotency := n.pendingIdempotency.delete key
      settled := n.settled ++ [(⟨me, msg.jobId⟩, r)] }

/-- The remembered result under this key, unless it has expired. -/
def Node.live (n : Node W) (key : Str) : Option IdempotencyEntry :=
  (n.idempotencyStore.find key).filter fun entry => decide (n.now < entry.expiresAt)

/-- What the promise has come to. -/
def Node.outcome (n : Node W) (p : Promise) : Option (Except EngineError (Option RelayResult)) :=
  (n.settled.find? fun e => e.1 = p).map (·.2)

def awaitPromise (p : Promise) : Code W (Option RelayResult) := do
  let _ ← Async.call (.promise p)
  let n ← Async.get
  match n.outcome p with
  | some r => Async.done r
  | none => Async.throw .rpc

def handlePayload (me : ℕ) (msg : EncryptedPayload) : Code W (Option RelayResult) := do
  if !msg.valid then Async.throw .invalidPayload
  else if toLowerCase msg.recipient ≠ bytesToHex cfg.x25519PublicKey.1 then pure none
  else
    match msg.idempotencyKey with
    | none => processPayload cfg me msg
    | some [] => processPayload cfg me msg
    | some (k :: ks) =>
        let key := k :: ks
        let n ← Async.get
        match n.live key with
        | some existing => pure (some existing.result)
        | none =>
            Async.modify fun n => { n with idempotencyStore := n.idempotencyStore.delete key }
            match n.pendingIdempotency.find key with
            | some p => awaitPromise p
            | none => processShared cfg me msg key

/-! ## Recovery -/

inductive Verdict where
  | submitted
  | abandoned
  | failed
  deriving DecidableEq

/-- An object as it is now; `e` is what it was when the pass began. -/
def Node.object (n : Node W) (entry : ℕ) (e : AcceptedJobEntry W) : AcceptedJobEntry W :=
  n.objects[entry]?.getD e

/-- Is it still to be found out whether the acceptance landed? -/
def AcceptedJobEntry.unconfirmed (e : AcceptedJobEntry W) : Bool :=
  e.phase = .accepting || e.acceptedTx.isNone

/-- What is done about an entry whose acceptance was not confirmed: nothing more if there is a
verdict. -/
def settleAcceptance (e : AcceptedJobEntry W) (current : Option JobRecord) :
    Code W (Option Verdict) :=
  if current.any (acceptedByUs cfg) then do
    markAccepted e.jobId (.onChainAccept e.jobId)
    pure none
  else if statusOf current = some .OPEN then
    Async.tryCatch (do
      let acceptedTx ← acceptJob e.jobId
      markAccepted e.jobId acceptedTx
      pure none) fun err => do
        recordFailure e.jobId err
        pure (some .failed)
  else do
    resolve e.jobId
    pure (some .abandoned)

/-- The entry is brought up to date with the chain, if its acceptance was not confirmed. -/
def confirmEntry (entry : ℕ) (e : AcceptedJobEntry W) (current : Option JobRecord) :
    Code W (Option Verdict) := do
  let n ← Async.get
  if (n.object entry e).unconfirmed then
    match ← settleAcceptance cfg e current with
    | some verdict => pure (some verdict)
    | none =>
        Async.modify fun n => n.update entry fun old =>
          { old with acceptedTx := (n.get e.jobId).bind fun found => (n.object found e).acceptedTx }
        pure none
  else pure none

/-- The submit of an accepted entry. -/
def finishEntry (entry : ℕ) (e : AcceptedJobEntry W) : Code W Verdict :=
  Async.tryCatch (do
    match cfg.parsePoolWithdrawPayload e.payload with
    | none => Async.throw .corrupt
    | some payload =>
        let submittedTx ← submitWithRetry cfg e.jobId payload e.deadline cfg.attempts
        resolve e.jobId
        let n ← Async.get
        recordCompleted e.jobId ((n.object entry e).acceptedTx.getD (.onChainAccept e.jobId))
          submittedTx e.fee
        pure .submitted) fun _ => pure .failed

/-- One entry of `resumeAcceptedJobs`. -/
def resumeEntry (me entry : ℕ) (e : AcceptedJobEntry W) : Code W Verdict := do
  let current ← getJobOrNull (.recover entry) e.jobId
  Async.modify (·.take me e.jobId)
  if statusOf current = some .SUBMITTED then
    resolve e.jobId
    let n ← Async.get
    recordCompleted e.jobId ((n.object entry e).acceptedTx.getD (.onChainAccept e.jobId))
      (.onChain e.jobId) e.fee
    pure .submitted
  else
    match ← confirmEntry cfg entry e current with
    | some verdict => pure verdict
    | none =>
        if ← hasDeadlineHeadroom cfg (.recover entry) e.deadline then finishEntry cfg entry e
        else
          resolve e.jobId
          pure .abandoned

structure Resumed where
  submitted : List Str := []
  abandoned : List Str := []
  failed : List Str := []
  deriving DecidableEq

def Resumed.push (r : Resumed) (jobId : Str) : Verdict → Resumed
  | .submitted => { r with submitted := r.submitted ++ [jobId] }
  | .abandoned => { r with abandoned := r.abandoned ++ [jobId] }
  | .failed => { r with failed := r.failed ++ [jobId] }

def resumeEntries (me : ℕ) : List (ℕ × AcceptedJobEntry W) → Resumed → Code W Resumed
  | [], resumed => pure resumed
  | (entry, e) :: rest, resumed => do
      let verdict ← Async.tryFinally (resumeEntry cfg me entry e) fun _ n => n.release me
      resumeEntries me rest (resumed.push e.jobId verdict)

def resumeAcceptedJobs (me : ℕ) : Code W Resumed := do
  let _ ← Async.call .hydrate
  let n ← Async.get
  resumeEntries cfg me (n.pending.filterMap fun entry => n.objects[entry]?.map (entry, ·)) {}

/-- A tick of `startAcceptedJobWatch`, and what the process does first of all. -/
def acceptedJobWatch (me : ℕ) : Code W Resumed := do
  let n ← Async.get
  if n.resumeInFlight then pure {}
  else
    Async.modify fun n => { n with resumeInFlight := true }
    Async.tryFinally (resumeAcceptedJobs cfg me) fun _ n => { n with resumeInFlight := false }

end Engine

/-! ## The running node -/

inductive Job where
  | deliver (msg : EncryptedPayload)
  | watch
  deriving DecidableEq

inductive Outcome where
  | delivered (r : Option RelayResult)
  | resumed (r : Resumed)
  deriving DecidableEq

inductive Outside where
  | chain (e : ChainEvent)
  -- time passes
  | tick (ms : ℕ)
  -- writing to the store begins to work or to fail
  | disk (works : Bool)
  | prune

section Machine

variable {P W : Type} (cfg : EngineConfig P W)

def engineCode (me : ℕ) : Job → Code W Outcome
  | .deliver msg => do
      let r ← handlePayload cfg me msg
      pure (.delivered r)
  | .watch => do
      let r ← acceptedJobWatch cfg me
      pure (.resumed r)

/-- A transaction is confirmed only if it was executed, and a promise is kept only when it was. -/
def Node.ready (n : Node W) : EngineCall → Reply → Bool
  | .acceptJob jobId tx, .ok =>
      (jobKey jobId).any fun key => n.chain.txs[tx]? = some (.accept key, .success)
  | .submitPoolWithdraw jobId tx, .ok =>
      (jobKey jobId).any fun key =>
        (n.chain.txs[tx]?).any fun
          | (.submit key' _, .success) => key' = key
          | _ => false
  | .promise p, _ => (n.outcome p).isSome
  | _, _ => true

def Node.outside (n : Node W) : Outside → Node W
  | .chain e => { n with chain := n.chain.apply cfg.operator e }
  | .tick ms => { n with now := n.now + ms }
  | .disk works => { n with disk := works }
  | .prune =>
      { n with idempotencyStore := n.idempotencyStore.filter fun e => n.now < e.2.expiresAt }

/-- `hydrate`, from what the store holds. -/
def hydrate (saved : List (AcceptedJobEntry W)) : Dict Str ℕ :=
  saved.zipIdx.foldl (fun d e => d.set (toLowerCase e.1.jobId) e.2) []

/-- A new process has the store and nothing else. -/
def Node.reboot (n : Node W) : Node W :=
  { chain := n.chain
    now := n.now
    disk := n.disk
    store := n.store
    objects := n.store.getD []
    entries := hydrate (n.store.getD [])
    reports := n.reports
    records := n.records }

def engine : System.Setup Job (Node W) EngineCall Reply EngineError Outcome Outside where
  code := engineCode cfg
  ready c r n := n.ready c r
  outside := Node.outside cfg
  reboot := Node.reboot

/-- A node that starts at this ledger, with no job known and nothing signed. -/
def Node.init (ledger : ℕ) : Node W := { chain := { ledger := ledger } }

end Machine

end OpaqueStellar.Relayer
