import OpaqueStellar.Asp.Engine

/-! # The withdrawal provers

`buildPoolWithdrawWitness` of `sdk/src/prove/pool.ts`, fed by `reconstructState` of
`sdk/src/contracts/pool.ts`, and `generateWithdrawProof` of the frontend's `poolProver.ts`. Both
rebuild the state tree and the association tree from the pool's events and compute the inputs of the
withdraw circuit. The reads of events are sessions with the chain, page by page, as the provider's.

The random secrets of the change note are an argument. Proving itself, and what the errors carry
beyond the leaf index and the roots, are left out. -/

namespace OpaqueStellar.Prover

open OpaqueStellar.Lib OpaqueStellar.Soroban OpaqueStellar.Pool OpaqueStellar.Asp
open OpaqueStellar.Circuit (PublicSignals)

def POOL_TREE_DEPTH : ℕ := 20

def EVENT_PAGE_LIMIT : ℕ := 200

def EVENT_LOOKBACK_LEDGERS : ℕ := 16000

/-! ## Reading the pool's events -/

/-- How the node answers the calls of one stream. -/
structure Scan where
  latest : Answer := {}
  -- the first page, and the one read instead from the oldest ledger
  first : Answer := {}
  retry : Answer := {}
  next : ℕ → Answer := fun _ => {}

inductive ReadError where
  | rpc (e : Thrown)
  -- `EventTruncationError`
  | truncated (topic : Topic) (pageCap : ℕ)
  deriving DecidableEq

structure PoolStateReconstruction where
  stateLeaves : List (BytesN 32)
  depositIndices : List ℕ
  complete : Bool := true
  deriving DecidableEq

/-- The leaf at each index, zero where there is none, and the indices of the deposits. -/
def reconstruct (deposits withdraws : List Emitted) : PoolStateReconstruction :=
  let updates := leafUpdates (deposits ++ withdraws)
  let size := updates.foldl (fun m u => max m (u.1 + 1)) 0
  { stateLeaves := (List.range size).map fun i => (byIndex updates i).getD (BytesN.ofNat 32 0)
    depositIndices := sortIndices ((deposits.filterMap Emitted.deposit).map (·.index)) }

section Reads

variable {F : Type} (S : Setting F)

/-- The first page of a stream, with the ledger it starts at; where the node no longer has that
ledger, from its oldest one. -/
def firstPage (topic : Topic) (scan : Scan) (startLedger : ℕ) : Rpc (ℕ × Page) :=
  Session.tryCatch (getEvents S topic scan.first startLedger) fun
    | .range oldest latest =>
        if startLedger < oldest then getEvents S topic scan.retry oldest
        else Session.throw (.range oldest latest)
    | e => Session.throw e

/-- The events of the pages after `page`, and whether the last page was reached before the cap. -/
def drain (topic : Topic) (answers : ℕ → Answer) :
    ℕ → ℕ → Page → Option ℕ → Rpc (List Emitted × Bool)
  | remaining, n, page, prevCursor =>
      if page.cursor = none ∨ page.cursor = prevCursor then pure (page.events, true)
      else
        match remaining with
        | 0 => pure (page.events, false)
        | remaining + 1 => do
            let next ← getEventsAfter S topic (answers (n + 1)) page.stop
            let (events, complete) ← drain topic answers remaining (n + 1) next page.cursor
            pure (page.events ++ events, complete)

def paginateContractEvents (topic : Topic) (scan : Scan) (startLedger maxPages : ℕ) :
    Rpc (List Emitted × Bool) := do
  let latest ← latestLedger S scan.latest
  let start := if 0 < startLedger then startLedger else max 1 (latest - EVENT_LOOKBACK_LEDGERS)
  let (_, page) ← firstPage S topic scan start
  drain S topic scan.next (max 1 maxPages - 1) 0 page none

structure ReconstructStateOptions where
  startLedger : ℕ := 0
  maxPages : ℕ := EVENT_PAGE_LIMIT
  throwOnTruncation : Bool := true

/-- One topic of `reconstructState`. -/
def readTopic (topic : Topic) (scan : Scan) (opts : ReconstructStateOptions) :
    Session Chain ReadError (List Emitted × Bool) := fun c =>
  match paginateContractEvents S topic scan opts.startLedger opts.maxPages c with
  | (.error e, c) => (.error (.rpc e), c)
  | (.ok (events, complete), c) =>
      if opts.throwOnTruncation = true ∧ complete = false then
        (.error (.truncated topic (max 1 opts.maxPages)), c)
      else (.ok (events, complete), c)

def reconstructState (deposits withdraws : Scan) (opts : ReconstructStateOptions) :
    Session Chain ReadError PoolStateReconstruction := do
  let (depositEvents, complete) ← readTopic S .Deposit deposits opts
  let (withdrawEvents, complete') ← readTopic S .Withdraw withdraws opts
  pure { reconstruct depositEvents withdrawEvents with complete := complete && complete' }

/-- Where the frontend starts to read; the deployment ledger is zero where it is not known. -/
def poolEventStartLedger (deploymentLedger : ℕ) (latest health : Answer) : Rpc ℕ := do
  let latest ← latestLedger S latest
  let start := if 0 < deploymentLedger then deploymentLedger
    else max 1 (latest - EVENT_LOOKBACK_LEDGERS)
  Session.tryCatch
    (do
      let oldest ← getHealth S health
      pure (if start < oldest then oldest else start))
    fun _ => pure start

/-- How the node answers the frontend. -/
structure FrontendNetwork where
  latest : Answer := {}
  health : Answer := {}
  deposits : Scan := {}
  withdraws : Scan := {}
  stateRoot : Answer := {}
  aspRoot : Answer := {}

def readPoolEvents (deploymentLedger : ℕ) (net : FrontendNetwork) :
    Rpc PoolStateReconstruction := do
  let start ← poolEventStartLedger S deploymentLedger net.latest net.health
  -- a start ledger that had to be moved stays moved for the second topic
  let (start, page) ← firstPage S .Deposit net.deposits start
  let (deposits, _) ← follow S .Deposit net.deposits.next (EVENT_PAGE_LIMIT - 1) 0 page none
  let (_, page) ← firstPage S .Withdraw net.withdraws start
  let (withdraws, _) ← follow S .Withdraw net.withdraws.next (EVENT_PAGE_LIMIT - 1) 0 page none
  pure (reconstruct deposits withdraws)

/-- The latest published root; null where it cannot be read. -/
def latestRoot (a : Answer) (kind : RootKind) : Rpc (Option (BytesN 32)) :=
  Session.tryCatch (currentRoot S a kind) fun _ => pure none

end Reads

/-! ## Notes and witnesses -/

structure PoolNote (F : Type) where
  value : ℤ
  leafIndex : ℕ
  nullifier : F
  secret : F
  commitment : BytesN 32

/-- The secrets of a note (`newNoteSecrets`). -/
structure NoteSecrets (F : Type) where
  nullifier : F
  secret : F

/-- A path fetched from the provider. -/
structure AspWitnessInclusion (F : Type) where
  root : F
  label : F
  pathElements : List F
  pathIndices : List ℕ

/-- The input of the circuit. -/
structure CircuitInput (F : Type) where
  pub : PublicSignals F
  value : F
  label : F
  nullifier : F
  secret : F
  newNullifier : F
  newSecret : F
  stateSiblings : List F
  stateIndex : List ℕ
  aspSiblings : List F
  aspIndex : List ℕ

structure ChangeNote (F : Type) where
  nullifier : F
  secret : F
  value : ℤ

structure PoolWithdrawWitness (F : Type) where
  input : CircuitInput F
  withdrawnValue : ℤ
  stateRoot : F
  aspRoot : F
  nullifierHash : F
  newCommitment : F
  change : ChangeNote F

structure WithdrawOptions (F : Type) where
  note : PoolNote F
  recipient : Address
  relayer : Address
  fee : ℤ
  scope : ℕ
  stateLeaves : List (BytesN 32)
  depositIndices : List ℕ
  withdrawnValue : Option ℤ := none
  aspInclusion : Option (AspWitnessInclusion F) := none

inductive WitnessError where
  -- `withdrawnValue must be greater than zero and no greater than the note value`
  | badValue
  -- `Leaf #… commitment does not match this note.`
  | commitmentMismatch (leafIndex : ℕ)
  -- `ASP inclusion proof is for a different label than this note.`
  | differentLabel
  -- `ASP inclusion proof is malformed: path/index length mismatch.`
  | malformedPath
  -- `ASP inclusion proof does not reproduce the root it claims.`
  | wrongRoot
  -- `Leaf #… is not among the pool's deposits.`
  | notDeposited (leafIndex : ℕ)
  deriving DecidableEq

/-- A number as `len` bytes, as the bit operations of the source give them. -/
def intBytes (len : ℕ) (v : ℤ) : List UInt8 := beBytes len (v % 256 ^ len).toNat

def computeWithdrawContext (keccak256 : List UInt8 → BytesN 32) (recipient : Address)
    (withdrawn fee : ℤ) (relayer : Address) (scope : ℕ) : ℕ :=
  (keccak256 (recipient.toXdr ++ intBytes 16 withdrawn ++ intBytes 16 fee ++ relayer.toXdr ++
    beBytes 8 scope)).toNat % Groth16.scalarOrder

section Witness

variable {F : Type} [CommRing F] [DecidableEq F] (P : Circuit.Poseidon F)
  (keccak256 : List UInt8 → BytesN 32)

/-- `PoolMerkleTree`, and the `MerkleTree` of the frontend: the provider's tree, without the bound on
its leaves. -/
def poolMerkleTree (leaves : List F) : MerkleTree F where
  depth := POOL_TREE_DEPTH
  leaves := leaves

def stateTree (stateLeaves : List (BytesN 32)) : MerkleTree F :=
  poolMerkleTree (stateLeaves.map (fieldOf F))

/-- The association tree as the provers rebuild it: the labels of all deposits, in their order. -/
def aspTree (scope : ℕ) (depositIndices : List ℕ) : MerkleTree F :=
  poolMerkleTree (depositIndices.map (computeLabel P.hash2 scope))

def siblings (path : List (F × Bool)) : List F := path.map (·.1)

def indices (path : List (F × Bool)) : List ℕ := path.map fun s => if s.2 then 1 else 0

/-- The root that a fetched path leads to. -/
def computedRoot (inclusion : AspWitnessInclusion F) : F :=
  (inclusion.pathElements.zip inclusion.pathIndices).foldl
    (fun computed s => if s.2 = 1 then P.hash2 s.1 computed else P.hash2 computed s.1)
    inclusion.label

/-- The association root, the siblings and the directions: as fetched, or from the rebuilt tree. -/
def aspPath (opts : WithdrawOptions F) (label : F) :
    Except WitnessError (F × List F × List ℕ) :=
  match opts.aspInclusion with
  | some inclusion =>
      if inclusion.label ≠ label then .error .differentLabel
      else if inclusion.pathElements.length ≠ inclusion.pathIndices.length then
        .error .malformedPath
      else if computedRoot P inclusion ≠ inclusion.root then .error .wrongRoot
      else .ok (computedRoot P inclusion, inclusion.pathElements, inclusion.pathIndices)
  | none =>
      if opts.note.leafIndex ∉ opts.depositIndices then .error (.notDeposited opts.note.leafIndex)
      else
        let tree := aspTree P opts.scope opts.depositIndices
        let path := tree.proof P.hash2 (opts.depositIndices.idxOf opts.note.leafIndex)
        .ok (tree.root P.hash2, siblings path, indices path)

/-- The witness, once the association path is there. -/
def assembleWitness (change : NoteSecrets F) (opts : WithdrawOptions F) (withdrawnValue : ℤ)
    (asp : F × List F × List ℕ) : PoolWithdrawWitness F :=
  let note := opts.note
  let remainder := note.value - withdrawnValue
  let label := computeLabel P.hash2 opts.scope note.leafIndex
  let tree := stateTree opts.stateLeaves
  let statePath := tree.proof P.hash2 note.leafIndex
  let stateRoot := tree.root P.hash2
  let newPrecommit := P.hash2 change.nullifier change.secret
  let newCommitment := P.hash3 (remainder : F) label newPrecommit
  let nullifierHash := P.hash1 note.nullifier
  let context := computeWithdrawContext keccak256 opts.recipient withdrawnValue opts.fee
    opts.relayer opts.scope
  { input := {
      pub := ⟨withdrawnValue, stateRoot, asp.1, nullifierHash, newCommitment, context⟩
      value := note.value
      label := label
      nullifier := note.nullifier
      secret := note.secret
      newNullifier := change.nullifier
      newSecret := change.secret
      stateSiblings := siblings statePath
      stateIndex := indices statePath
      aspSiblings := asp.2.1
      aspIndex := asp.2.2 }
    withdrawnValue := withdrawnValue
    stateRoot := stateRoot
    aspRoot := asp.1
    nullifierHash := nullifierHash
    newCommitment := newCommitment
    change := ⟨change.nullifier, change.secret, remainder⟩ }

def buildPoolWithdrawWitness (change : NoteSecrets F) (opts : WithdrawOptions F) :
    Except WitnessError (PoolWithdrawWitness F) :=
  let withdrawnValue := opts.withdrawnValue.getD opts.note.value
  if withdrawnValue ≤ 0 ∨ opts.note.value < withdrawnValue then .error .badValue
  else if opts.stateLeaves[opts.note.leafIndex]?.any (· ≠ opts.note.commitment) then
    .error (.commitmentMismatch opts.note.leafIndex)
  else do
    let asp ← aspPath P opts (computeLabel P.hash2 opts.scope opts.note.leafIndex)
    pure (assembleWitness P keccak256 change opts withdrawnValue asp)

/-! ## The frontend -/

inductive FrontendError where
  | rpc (e : Thrown)
  -- `NoteNotIndexedError`
  | notIndexed (leafIndex : ℕ) (indexedLeafIndices : List ℕ)
  -- `NoteCommitmentMismatchError`
  | commitmentMismatch (leafIndex : ℕ) (onChainCommitment : BytesN 32)
  -- `PoolRootsUnpublishedError`
  | rootsUnpublished (hasStateRoot hasAspRoot : Bool)
  -- `PoolRootsStaleError`
  | rootsStale (stateRootMatches aspRootMatches : Bool)
  deriving DecidableEq

/-- What the frontend checks before it turns to the published roots. -/
def checkNote (note : PoolNote F) (events : PoolStateReconstruction) : Except FrontendError Unit :=
  if note.leafIndex ∉ events.depositIndices then
    .error (.notIndexed note.leafIndex events.depositIndices)
  else
    match events.stateLeaves[note.leafIndex]? with
    | some onChain =>
        if onChain ≠ note.commitment then .error (.commitmentMismatch note.leafIndex onChain)
        else .ok ()
    | none => .ok ()

/-- The published roots have to be those of the rebuilt trees. -/
def checkRoots (toBE32 : F → BytesN 32) (scope : ℕ) (events : PoolStateReconstruction)
    (publishedState publishedAsp : Option (BytesN 32)) : Except FrontendError Unit :=
  match publishedState, publishedAsp with
  | some publishedState, some publishedAsp =>
      let stateRootMatches :=
        toBE32 ((stateTree (F := F) events.stateLeaves).root P.hash2) == publishedState
      let aspRootMatches :=
        toBE32 ((aspTree P scope events.depositIndices).root P.hash2) == publishedAsp
      if stateRootMatches && aspRootMatches then .ok ()
      else .error (.rootsStale stateRootMatches aspRootMatches)
  | publishedState, publishedAsp =>
      .error (.rootsUnpublished publishedState.isSome publishedAsp.isSome)

/-- The inputs of a full withdrawal. -/
def fullWithdrawal (change : NoteSecrets F) (note : PoolNote F) (recipient relayer : Address)
    (fee : ℤ) (scope : ℕ) (events : PoolStateReconstruction) : CircuitInput F :=
  let label := computeLabel P.hash2 scope note.leafIndex
  let tree := stateTree events.stateLeaves
  let asp := aspTree P scope events.depositIndices
  let statePath := tree.proof P.hash2 note.leafIndex
  let aspPath := asp.proof P.hash2 (events.depositIndices.idxOf note.leafIndex)
  { pub := {
      withdrawnValue := note.value
      stateRoot := tree.root P.hash2
      aspRoot := asp.root P.hash2
      nullifierHash := P.hash1 note.nullifier
      newCommitment := P.hash3 0 label (P.hash2 change.nullifier change.secret)
      context := computeWithdrawContext keccak256 recipient note.value fee relayer scope }
    value := note.value
    label := label
    nullifier := note.nullifier
    secret := note.secret
    newNullifier := change.nullifier
    newSecret := change.secret
    stateSiblings := siblings statePath
    stateIndex := indices statePath
    aspSiblings := siblings aspPath
    aspIndex := indices aspPath }

/-- `generateWithdrawProof`, up to the call of the prover. -/
def generateWithdrawProof (S : Setting F) (toBE32 : F → BytesN 32) (deploymentLedger scope : ℕ)
    (net : FrontendNetwork) (change : NoteSecrets F) (note : PoolNote F)
    (recipient relayer : Address) (fee : ℤ) : Session Chain FrontendError (CircuitInput F) := do
  let rpc {α : Type} (x : Rpc α) : Session Chain FrontendError α := fun c =>
    match x c with
    | (.ok a, c) => (.ok a, c)
    | (.error e, c) => (.error (.rpc e), c)
  let events ← rpc (readPoolEvents S deploymentLedger net)
  Session.ofExcept (checkNote note events)
  let publishedState ← rpc (latestRoot S net.stateRoot .state)
  let publishedAsp ← rpc (latestRoot S net.aspRoot .asp)
  Session.ofExcept (checkRoots P toBE32 scope events publishedState publishedAsp)
  pure (fullWithdrawal P keccak256 change note recipient relayer fee scope events)

/-! ## What a prover that returns has done -/

variable {P keccak256}

/-- **When a witness is returned**, and which one. -/
theorem buildPoolWithdrawWitness_eq_ok {change : NoteSecrets F} {opts : WithdrawOptions F}
    {w : PoolWithdrawWitness F} :
    buildPoolWithdrawWitness P keccak256 change opts = .ok w ↔
      (0 < opts.withdrawnValue.getD opts.note.value ∧
        opts.withdrawnValue.getD opts.note.value ≤ opts.note.value) ∧
      (∀ onChain, opts.stateLeaves[opts.note.leafIndex]? = some onChain →
        onChain = opts.note.commitment) ∧
      ∃ asp, aspPath P opts (computeLabel P.hash2 opts.scope opts.note.leafIndex) = .ok asp ∧
        assembleWitness P keccak256 change opts (opts.withdrawnValue.getD opts.note.value) asp =
          w := by
  unfold buildPoolWithdrawWitness
  dsimp only
  by_cases hvalue : opts.withdrawnValue.getD opts.note.value ≤ 0 ∨
      opts.note.value < opts.withdrawnValue.getD opts.note.value
  · rw [if_pos hvalue]
    constructor
    · intro h
      cases h
    · rintro ⟨⟨hpos, hle⟩, -⟩
      omega
  · rw [if_neg hvalue]
    have hrange : 0 < opts.withdrawnValue.getD opts.note.value ∧
        opts.withdrawnValue.getD opts.note.value ≤ opts.note.value := by omega
    cases hleaf : opts.stateLeaves[opts.note.leafIndex]? with
    | none =>
        simp only [Option.any_none, Bool.false_eq_true, if_false, bind_eq_ok, pure_eq_ok]
        exact ⟨fun h => ⟨hrange, fun _ hnone => absurd hnone (by simp), h⟩, fun h => h.2.2⟩
    | some onChain =>
        simp only [Option.any_some, decide_eq_true_eq, Option.some.injEq]
        by_cases hsame : onChain = opts.note.commitment
        · simp only [hsame, ne_eq, not_true_eq_false, if_false, bind_eq_ok, pure_eq_ok]
          exact ⟨fun h => ⟨hrange, fun _ h' => h'.symm, h⟩, fun h => h.2.2⟩
        · simp only [ne_eq, hsame, not_false_eq_true, if_true]
          constructor
          · intro h
            cases h
          · rintro ⟨-, hmatches, -⟩
            exact absurd (hmatches onChain rfl) hsame

/-- Without a fetched path, the note has to be a deposit, and the tree is the rebuilt one. -/
theorem aspPath_of_none {opts : WithdrawOptions F} (label : F) {asp : F × List F × List ℕ}
    (hnone : opts.aspInclusion = none) :
    aspPath P opts label = .ok asp ↔ opts.note.leafIndex ∈ opts.depositIndices ∧
      asp = ((aspTree P opts.scope opts.depositIndices).root P.hash2,
        siblings ((aspTree P opts.scope opts.depositIndices).proof P.hash2
          (opts.depositIndices.idxOf opts.note.leafIndex)),
        indices ((aspTree P opts.scope opts.depositIndices).proof P.hash2
          (opts.depositIndices.idxOf opts.note.leafIndex))) := by
  unfold aspPath
  rw [hnone]
  dsimp only
  by_cases hmem : opts.note.leafIndex ∈ opts.depositIndices
  · rw [if_neg (not_not.mpr hmem), Except.ok.injEq, eq_comm]
    exact ⟨fun h => ⟨hmem, h⟩, fun h => h.2⟩
  · rw [if_pos hmem]
    constructor
    · intro h
      cases h
    · intro h
      exact absurd h.1 hmem

/-- A note that is among the deposits that were read is not rejected as missing. -/
theorem ne_notDeposited {change : NoteSecrets F} {opts : WithdrawOptions F} {index : ℕ}
    (hnone : opts.aspInclusion = none) (hfound : opts.note.leafIndex ∈ opts.depositIndices) :
    buildPoolWithdrawWitness P keccak256 change opts ≠ .error (.notDeposited index) := by
  intro h
  have hasp := (aspPath_of_none (P := P)
    (computeLabel P.hash2 opts.scope opts.note.leafIndex) hnone).mpr ⟨hfound, rfl⟩
  unfold buildPoolWithdrawWitness at h
  dsimp only at h
  split_ifs at h
  · cases h
  · cases h
  · rw [hasp] at h
    cases h

end Witness

end OpaqueStellar.Prover
