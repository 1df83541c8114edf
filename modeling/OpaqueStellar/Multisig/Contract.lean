import OpaqueStellar.Lib.Machine
import OpaqueStellar.Lib.Store
import OpaqueStellar.Soroban.Basic

/-! # The threshold admin contract

`contracts/multisig-admin/src/lib.rs`: signers propose a call or a rotation of the signer set, others
approve, and the approval that reaches the threshold executes the proposal in the same invocation.

The contracts that a proposal calls are outside: whether such a call returns or traps is part of each
invocation, and a call back into this contract is refused by the host. `World.performed` lists, for
the statements only, the proposals that `execute_proposal` was run on. -/

namespace OpaqueStellar.Multisig

open OpaqueStellar.Lib OpaqueStellar.Soroban

/-! ## Storage -/

def MAX_SIGNERS : ℕ := 20

/-- A host value, as its encoding. -/
abbrev Val := List UInt8

structure MultisigConfig where
  signers : List Address
  threshold : ℕ
  deriving DecidableEq

structure Proposal where
  id : BytesN 32
  isRotation : Bool
  target : Address
  fnName : String
  newSigners : List Address
  newThreshold : ℕ
  proposer : Address
  approvals : List Address
  executed : Bool
  createdAt : ℕ
  deriving DecidableEq

inductive MultisigError where
  | AlreadyInitialized
  | NotInitialized
  | InsufficientSigners
  | TooManySigners
  | DuplicateSigner
  | InvalidThreshold
  | NotASigner
  | ProposalNotFound
  | AlreadyApproved
  | AlreadyExecuted
  deriving DecidableEq

structure MultisigState where
  config : Option MultisigConfig := none
  nextId : Option ℕ := none
  proposals : Store (BytesN 32) Proposal := ∅
  args : Store (BytesN 32) (List Val) := ∅

inductive MultisigEvent where
  | Proposed (id : BytesN 32) (proposer : Address)
  | Approved (id : BytesN 32) (signer : Address) (executed : Bool)
  deriving DecidableEq

structure World where
  multisig : MultisigState := {}
  performed : List Proposal := []
  events : List MultisigEvent := []

def World.publish (w : World) (e : MultisigEvent) : World := { w with events := w.events ++ [e] }

/-- The contract's own address and the hash function it uses. -/
structure Host where
  self : Address
  sha256 : List UInt8 → BytesN 32

/-- Whether a call of another contract returns. -/
abbrev Callees := Address → String → List Val → Bool

/-! ## Helpers -/

def loadConfig (s : MultisigState) : Result MultisigError MultisigConfig :=
  okOr s.config .NotInitialized

/-- The two nested loops: does a signer come again later in the list? -/
def hasDuplicate : List Address → Bool
  | [] => false
  | s :: rest => rest.contains s || hasDuplicate rest

def validateSignersAndThreshold (signers : List Address) (threshold : ℕ) :
    Result MultisigError Unit := do
  ensure (2 ≤ signers.length) (.err .InsufficientSigners)
  ensure (signers.length ≤ MAX_SIGNERS) (.err .TooManySigners)
  ensure (hasDuplicate signers = false) (.err .DuplicateSigner)
  ensure (2 ≤ threshold ∧ threshold ≤ signers.length) (.err .InvalidThreshold)

section EntryPoints

variable (host : Host) (env : Env) (callees : Callees)

def proposalId (counter : ℕ) : BytesN 32 := host.sha256 (beBytes 8 counter)

def nextCounter (w : World) : Result MultisigError (World × ℕ) := do
  let counter := w.multisig.nextId.getD 0
  let next ← addChecked 64 counter 1
  pure ({ w with multisig.nextId := some next }, counter)

/-- `invoke_contract`: a contract cannot be re-entered. -/
def invokeContract (target : Address) (fnName : String) (args : List Val) :
    Result MultisigError Unit :=
  ensure (target ≠ host.self ∧ callees target fnName args = true) (.trap .callee)

def executeProposal (w : World) (proposal : Proposal) : Result MultisigError World :=
  if proposal.isRotation then
    pure { w with
      multisig.config := some ⟨proposal.newSigners, proposal.newThreshold⟩
      performed := w.performed ++ [proposal] }
  else do
    let args := (w.multisig.args.lookup proposal.id).getD []
    invokeContract host callees proposal.target proposal.fnName args
    pure { w with performed := w.performed ++ [proposal] }

/-- Execute the proposal if its approvals reach the threshold. -/
def executeIfReached (w : World) (cfg : MultisigConfig) (proposal : Proposal) :
    Result MultisigError (World × Proposal) :=
  if cfg.threshold ≤ proposal.approvals.length then do
    let w ← executeProposal host callees w proposal
    pure (w, { proposal with executed := true })
  else pure (w, proposal)

def writeProposal (w : World) (id : BytesN 32) (proposal : Proposal) : World :=
  { w with multisig.proposals := w.multisig.proposals.insert id proposal }

/-! ## Entry points -/

/-- `initialize` -/
def initializeMultisig (w : World) (signers : List Address) (threshold : ℕ) :
    Result MultisigError World := do
  ensure (w.multisig.config.isSome = false) (.err .AlreadyInitialized)
  validateSignersAndThreshold signers threshold
  pure { w with multisig.config := some ⟨signers, threshold⟩, multisig.nextId := some 0 }

def proposeCall (w : World) (proposer target : Address) (fnName : String) (args : List Val) :
    Result MultisigError (World × BytesN 32) := do
  env.requireAuth host.self proposer
  let cfg ← loadConfig w.multisig
  ensure (proposer ∈ cfg.signers) (.err .NotASigner)
  let (w, counter) ← nextCounter w
  let id := proposalId host counter
  let w := { w with multisig.args := w.multisig.args.insert id args }
  let proposal : Proposal :=
    ⟨id, false, target, fnName, [], 0, proposer, [proposer], false, env.sequence⟩
  let (w, proposal) ← executeIfReached host callees w cfg proposal
  let w := writeProposal w id proposal
  pure (w.publish (.Proposed id proposer), id)

def proposeRotation (w : World) (proposer : Address) (newSigners : List Address)
    (newThreshold : ℕ) : Result MultisigError (World × BytesN 32) := do
  env.requireAuth host.self proposer
  let cfg ← loadConfig w.multisig
  ensure (proposer ∈ cfg.signers) (.err .NotASigner)
  validateSignersAndThreshold newSigners newThreshold
  let (w, counter) ← nextCounter w
  let id := proposalId host counter
  let proposal : Proposal := ⟨id, true, host.self, "rotate_signers", newSigners, newThreshold,
    proposer, [proposer], false, env.sequence⟩
  let (w, proposal) ← executeIfReached host callees w cfg proposal
  let w := writeProposal w id proposal
  pure (w.publish (.Proposed id proposer), id)

def approve (w : World) (signer : Address) (id : BytesN 32) :
    Result MultisigError (World × Bool) := do
  env.requireAuth host.self signer
  let cfg ← loadConfig w.multisig
  ensure (signer ∈ cfg.signers) (.err .NotASigner)
  let proposal ← okOr (w.multisig.proposals.lookup id) .ProposalNotFound
  ensure (proposal.executed = false) (.err .AlreadyExecuted)
  ensure (signer ∉ proposal.approvals) (.err .AlreadyApproved)
  let proposal := { proposal with approvals := proposal.approvals ++ [signer] }
  let (w, proposal) ← executeIfReached host callees w cfg proposal
  let w := writeProposal w id proposal
  pure (w.publish (.Approved id signer proposal.executed), proposal.executed)

/-! ## The contract as a machine -/

inductive Call where
  | initializeMultisig (signers : List Address) (threshold : ℕ)
  | proposeCall (proposer target : Address) (fnName : String) (args : List Val)
  | proposeRotation (proposer : Address) (newSigners : List Address) (newThreshold : ℕ)
  | approve (signer : Address) (id : BytesN 32)

inductive Returned where
  | unit
  | id (id : BytesN 32)
  | executed (executed : Bool)
  deriving DecidableEq

structure Invocation where
  env : Env
  callees : Callees
  call : Call

def exec (w : World) : Call → Result MultisigError (World × Returned)
  | .initializeMultisig signers threshold => do
      let w ← initializeMultisig w signers threshold
      pure (w, .unit)
  | .proposeCall proposer target fnName args => do
      let (w, id) ← proposeCall host env callees w proposer target fnName args
      pure (w, .id id)
  | .proposeRotation proposer newSigners newThreshold => do
      let (w, id) ← proposeRotation host env callees w proposer newSigners newThreshold
      pure (w, .id id)
  | .approve signer id => do
      let (w, executed) ← approve host env callees w signer id
      pure (w, .executed executed)

abbrev Outcome := Result MultisigError Returned

/-- A failed invocation is rolled back. -/
def step (w : World) (inv : Invocation) : World × Outcome :=
  match exec host inv.env inv.callees w inv.call with
  | .ok (w', r) => (w', .ok r)
  | .error e => (w, .error e)

def machine : Machine World Invocation Outcome := ⟨step host⟩

abbrev MultisigStep := Machine.Step World Invocation Outcome

end EntryPoints

/-! ## A small setting

Three signers, and a hash that is the counter itself. -/

namespace Demo

def account (n : ℕ) : Address := .account (BytesN.ofNat 32 n)

def host : Host where
  self := .contract (BytesN.ofNat 32 0)
  sha256 := fun bs => BytesN.ofNat 32 (beNat bs)

def proposal (n : ℕ) : BytesN 32 := proposalId host n

def invocation (signer : Address) (call : Call) : Invocation where
  env := ⟨1, 1, [signer], fun _ _ _ => false⟩
  callees := fun _ _ _ => true
  call := call

def setup (threshold : ℕ) : List Invocation := [
  invocation (account 0) (.initializeMultisig [account 1, account 2, account 3] threshold)]

/-- The first signer proposes a call of another contract. -/
def callProposed : Invocation :=
  invocation (account 1) (.proposeCall (account 1) (.contract (BytesN.ofNat 32 7)) "pause" [])

end Demo

end OpaqueStellar.Multisig
