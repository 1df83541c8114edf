import OpaqueStellar.Asp.Stellar
import OpaqueStellar.Lib.Sparse

/-! # The association-set provider

`runPoolTick` of `asp/src/engine.ts` with the association set and the reorg guard: read the confirmed
deposits, screen those without a final decision, rebuild the set of approved labels, publish its root
where the chain has another one, and do the same for the tree of state leaves.

The tick saves its state at the end, or when the guard halts it; a tick that throws leaves the saved
state as it was, while the guard keeps what it was told and the chain goes on. The audit log of the
policy decisions, the manifest files and the staleness monitor are left out: nothing reads them. -/

namespace OpaqueStellar.Asp

open OpaqueStellar.Lib OpaqueStellar.Soroban OpaqueStellar.Pool

/-! ## Data -/

inductive PolicyVerdict where
  | approve
  | reject
  | defer
  deriving DecidableEq

structure PoolState where
  -- in approval order
  approvedIndices : List ℕ := []
  rejectedIndices : List ℕ := []
  deferredIndices : List ℕ := []
  lastIndex : ℤ := -1
  lastLedger : ℕ := 0
  stateEventCursor : ℕ := 0
  -- an array with holes where nothing was assigned
  stateLeaves : Option (List (Option (BytesN 32))) := none
  deriving DecidableEq

/-- The deposit has a final decision. -/
def PoolState.Decided (state : PoolState) (index : ℕ) : Prop :=
  index ∈ state.approvedIndices ∨ index ∈ state.rejectedIndices

instance (state : PoolState) (index : ℕ) : Decidable (state.Decided index) :=
  inferInstanceAs (Decidable (_ ∨ _))

/-- What a tick is given: the confirmations to wait for, the policy (`none` where it throws), whether
it uses the reorg guard, and what the network does. -/
structure TickInput where
  confirmations : ℕ := 0
  policy : Deposit → Option PolicyVerdict
  guarded : Bool := true
  net : Network := {}

structure TickResult where
  approvedCount : ℕ
  newlyApproved : ℕ
  rejectedCount : ℕ
  newlyRejected : ℕ
  deferredCount : ℕ
  localRoot : BytesN 32
  onChainRoot : Option (BytesN 32)
  published : Bool
  stateLeafCount : Option ℕ := none
  stateRoot : Option (BytesN 32) := none
  onChainStateRoot : Option (Option (BytesN 32)) := none
  statePublished : Option Bool := none
  haltedForReorg : Bool
  deriving DecidableEq

/-! ## Screening -/

structure Screening where
  state : PoolState
  newlyApproved : ℕ := 0
  newlyRejected : ℕ := 0
  nextDeferred : List ℕ := []

def sortIndices (l : List ℕ) : List ℕ := l.insertionSort (· ≤ ·)

/-- What a verdict does to the lists and cursors. -/
def Screening.record (s : Screening) (d : Deposit) : PolicyVerdict → Screening
  | .approve =>
      { s with
        state.approvedIndices := s.state.approvedIndices ++ [d.index]
        state.lastIndex := max s.state.lastIndex d.index
        state.lastLedger := max s.state.lastLedger d.ledger
        newlyApproved := s.newlyApproved + 1 }
  | .reject =>
      { s with
        state.rejectedIndices := s.state.rejectedIndices ++ [d.index]
        state.lastIndex := max s.state.lastIndex d.index
        state.lastLedger := max s.state.lastLedger d.ledger
        newlyRejected := s.newlyRejected + 1 }
  | .defer =>
      { s with
        state.lastLedger := max s.state.lastLedger d.ledger
        nextDeferred := s.nextDeferred.insert d.index }

def screenOne (policy : Deposit → Option PolicyVerdict) (s : Screening) (d : Deposit) :
    Except Thrown Screening :=
  if s.state.Decided d.index then .ok s
  else
    match policy d with
    | none => .error .policy
    | some verdict => .ok (s.record d verdict)

def screenDeposits (policy : Deposit → Option PolicyVerdict) (state : PoolState)
    (deposits : List Deposit) : Except Thrown Screening := do
  let s ← deposits.foldlM (screenOne policy) { state := state }
  pure { s with
    state.rejectedIndices := sortIndices s.state.rejectedIndices
    state.deferredIndices := sortIndices s.nextDeferred }

/-! ## The reorg guard -/

structure ReorgGuard where
  expectedNextLedger : ℕ := 0
  deriving DecidableEq

/-- The guard afterwards, and whether the batch is continuous with the one before. -/
def ReorgGuard.validate (g : ReorgGuard) (batchStartLedger : ℕ) : ReorgGuard × Bool :=
  if g.expectedNextLedger = 0 then (⟨batchStartLedger⟩, true)
  else if g.expectedNextLedger ≤ batchStartLedger then (⟨batchStartLedger⟩, true)
  else (⟨batchStartLedger⟩, false)

def ReorgGuard.commit (_ : ReorgGuard) (lastLedger : ℕ) : ReorgGuard := ⟨lastLedger + 1⟩

/-- `Math.max` over the ledgers of a batch. -/
def maxLedger (deposits : List Deposit) : ℕ := (deposits.map (·.ledger)).foldr max 0

/-- The guard's part of a tick, and whether the tick is halted. -/
def checkContinuity (i : TickInput) (guard : ReorgGuard) (state : PoolState)
    (deposits : List Deposit) : ReorgGuard × Bool :=
  if i.guarded = true ∧ deposits ≠ [] then
    let (g, ok) := guard.validate state.lastLedger
    if ok then (g.commit (maxLedger deposits), false) else (g, true)
  else (guard, false)

/-! ## The association set -/

structure AssociationSet (F : Type) where
  indices : List ℕ := []
  labels : List F := []
  tree : MerkleTree F := {}

/-- `tree.insert`. -/
def insertLeaf {F : Type} (t : MerkleTree F) (leaf : F) : Except Thrown (MerkleTree F) :=
  match t.insert leaf with
  | .ok (t, _) => .ok t
  | .error _ => .error .treeFull

section Engine

variable {F : Type} [NatCast F] [Zero F] (S : Setting F)

def AssociationSet.add (set : AssociationSet F) (depositIndex : ℕ) :
    Except Thrown (AssociationSet F) := do
  let label := computeLabel S.hash2 S.scope depositIndex
  let tree ← insertLeaf set.tree label
  pure ⟨set.indices ++ [depositIndex], set.labels ++ [label], tree⟩

def AssociationSet.size (set : AssociationSet F) : ℕ := set.labels.length

def AssociationSet.rootHex (set : AssociationSet F) : BytesN 32 :=
  S.toHex32 (set.tree.root S.hash2)

/-- The set of the approved deposits, in approval order. -/
def associationSet (approved : List ℕ) : Except Thrown (AssociationSet F) :=
  approved.foldlM (AssociationSet.add S) {}

def computeDatasetHash (root : BytesN 32) (values : List (BytesN 32)) : BytesN 32 :=
  S.sha256 (beBytes 4 values.length ++ root.1 ++ values.flatMap (·.1))

/-! ## State leaves -/

def mergeSnapshot (state : PoolState) (snapshot : StateTreeSnapshot) : PoolState :=
  let state := match snapshot.events with
    | some events =>
        { state with stateLeaves := some (events.foldl Sparse.assign (state.stateLeaves.getD [])) }
    | none =>
        if state.stateEventCursor = 0 then
          { state with stateLeaves := some (snapshot.leaves.map some) }
        else state
  match snapshot.cursor with
  | some cursor => { state with stateEventCursor := cursor }
  | none => state

/-- The tree of the leaves; a hole is no number. -/
def stateTree (leaves : List (Option (BytesN 32))) : Except Thrown (MerkleTree F) :=
  leaves.foldlM (fun t leaf =>
    match leaf with
    | none => .error .hole
    | some x => insertLeaf t (fieldOf F x)) {}

/-! ## The tick -/

def readAfterIndex (state : PoolState) : ℤ :=
  if 0 < state.deferredIndices.length then -1 else state.lastIndex

def confirmedDeposits (i : TickInput) (deposits : List Deposit) : Rpc (List Deposit) :=
  if i.confirmations ≤ 1 ∨ deposits = [] then pure deposits
  else do
    let latest ← latestLedger S i.net.finality
    pure (deposits.filter fun d => (d.ledger : ℤ) ≤ latest - i.confirmations + 1)

/-- The deposits that are handed to a tick. -/
def readConfirmed (i : TickInput) (state : PoolState) : Rpc (List Deposit) := do
  let deposits ← readDeposits S i.net (readAfterIndex state) state.lastLedger
  confirmedDeposits S i deposits

/-- Screening, and the association set that results. -/
def screenBatch (i : TickInput) (state : PoolState) (deposits : List Deposit) :
    Except Thrown (Screening × AssociationSet F) := do
  let screened ← screenDeposits i.policy state deposits
  let set ← associationSet S screened.state.approvedIndices
  pure (screened, set)

/-- Compare the association root with the chain's, and post it on a mismatch. -/
def publishAspRoot (net : Network) (set : AssociationSet F) :
    Rpc (Option (BytesN 32) × Bool) := do
  let onChainRoot ← currentRoot S net.aspRoot .asp
  if 0 < set.size ∧ some (set.rootHex S) ≠ onChainRoot then do
    postRoot S net.aspPost .asp (set.rootHex S)
      (computeDatasetHash S (set.rootHex S) (set.labels.map S.toHex32))
    pure (onChainRoot, true)
  else pure (onChainRoot, false)

/-- The state after the leaf events were read, its leaves, and the state root where there is anything
to build it from. -/
def readState (net : Network) (state : PoolState) :
    Rpc (PoolState × List (Option (BytesN 32)) × Option (BytesN 32)) := do
  let snapshot ← readStateLeaves S net state.stateEventCursor
  let state := mergeSnapshot state snapshot
  let leaves := state.stateLeaves.getD (snapshot.leaves.map some)
  if 0 < snapshot.eventCount ∨ 0 < leaves.length then do
    let tree ← Session.ofExcept (stateTree leaves)
    pure (state, leaves, some (S.toHex32 (MerkleTree.root S.hash2 (tree : MerkleTree F))))
  else pure (state, leaves, none)

/-- Compare the state root with the chain's, and post it on a mismatch. -/
def publishStateRoot (net : Network) (leaves : List (Option (BytesN 32))) (root : BytesN 32) :
    Rpc (Option (BytesN 32) × Bool) := do
  let onChainRoot ← currentRoot S net.stateRoot .state
  if some root ≠ onChainRoot then do
    postRoot S net.statePost .state root (computeDatasetHash S root (leaves.filterMap id))
    pure (onChainRoot, true)
  else pure (onChainRoot, false)

/-- Everything a tick does after the guard let it pass. -/
def publish (net : Network) (screened : Screening) (set : AssociationSet F) :
    Rpc (PoolState × TickResult) := do
  let (onChainRoot, published) ← publishAspRoot S net set
  let (state, leaves, stateRoot) ← readState S net screened.state
  let result : TickResult := {
    approvedCount := state.approvedIndices.length
    newlyApproved := screened.newlyApproved
    rejectedCount := state.rejectedIndices.length
    newlyRejected := screened.newlyRejected
    deferredCount := state.deferredIndices.length
    localRoot := set.rootHex S
    onChainRoot := onChainRoot
    published := published
    stateLeafCount := some leaves.length
    stateRoot := stateRoot
    statePublished := some false
    haltedForReorg := false }
  match stateRoot with
  | none => pure (state, result)
  | some root => do
      let (onChainStateRoot, statePublished) ← publishStateRoot S net leaves root
      pure (state, { result with
        onChainStateRoot := some onChainStateRoot
        statePublished := some statePublished })

/-- What a halted tick returns. -/
def haltedResult (screened : Screening) (set : AssociationSet F) (onChainRoot : Option (BytesN 32)) :
    TickResult where
  approvedCount := screened.state.approvedIndices.length
  newlyApproved := screened.newlyApproved
  rejectedCount := screened.state.rejectedIndices.length
  newlyRejected := screened.newlyRejected
  deferredCount := screened.state.deferredIndices.length
  localRoot := set.rootHex S
  onChainRoot := onChainRoot
  published := false
  haltedForReorg := true

/-- The chain, the saved state and the guard of the running process. -/
structure System where
  chain : Chain
  store : Option PoolState := none
  guard : ReorgGuard := {}

/-- Before anything was read. -/
def System.initial (tokens : TokenLedger) (ledger : ℕ) : System := ⟨.deployed tokens ledger, none, {}⟩

def System.state (s : System) : PoolState := s.store.getD {}

def runPoolTick (s : System) (i : TickInput) : System × Except Thrown TickResult :=
  match readConfirmed S i s.state s.chain with
  | (.error e, c) => ({ s with chain := c }, .error e)
  | (.ok deposits, c) =>
      match screenBatch S i s.state deposits with
      | .error e => ({ s with chain := c }, .error e)
      | .ok (screened, set) =>
          let (guard, halted) := checkContinuity i s.guard screened.state deposits
          if halted then
            let (onChainRoot, c) := currentRoot S i.net.aspRoot .asp c
            (⟨c, some screened.state, guard⟩, onChainRoot.map (haltedResult S screened set))
          else
            match publish S i.net screened set c with
            | (.error e, c) => (⟨c, s.store, guard⟩, .error e)
            | (.ok (state, result), c) => (⟨c, some state, guard⟩, .ok result)

/-! ## Runs -/

inductive Input where
  | tick (i : TickInput)
  -- ledgers close while no tick runs
  | close (l : Ledger)
  -- the process starts anew, with a fresh guard
  | restart

def step (s : System) : Input → System × Option (Except Thrown TickResult)
  | .tick i =>
      let (s, result) := runPoolTick S s i
      (s, some result)
  | .close l => ({ s with chain := s.chain.close S.host l }, none)
  | .restart => ({ s with guard := {} }, none)

def machine : Machine System Input (Option (Except Thrown TickResult)) := ⟨step S⟩

abbrev AspStep := Machine.Step System Input (Option (Except Thrown TickResult))

end Engine

/-! ## What a tick does -/

section Spec

variable {F : Type} [NatCast F] [Zero F] {S : Setting F}

omit [NatCast F] [Zero F] in
theorem keeps_confirmedDeposits (i : TickInput) (deposits : List Deposit) :
    Session.Keeps Chain.Extends (confirmedDeposits S i deposits) := by
  unfold confirmedDeposits
  split
  · exact Session.keeps_pure _
  · exact (keeps_call _ _).bind fun _ => Session.keeps_pure _

omit [NatCast F] [Zero F] in
theorem keeps_readConfirmed (i : TickInput) (state : PoolState) :
    Session.Keeps Chain.Extends (readConfirmed S i state) :=
  (keeps_readDeposits _ _ _).bind fun deposits => keeps_confirmedDeposits i deposits

omit [NatCast F] in
theorem keeps_publishAspRoot (net : Network) (set : AssociationSet F) :
    Session.Keeps Chain.Extends (publishAspRoot S net set) := by
  refine (keeps_call _ _).bind fun onChainRoot => ?_
  split
  · exact (keeps_postRoot _ _ _ _).bind fun _ => Session.keeps_pure _
  · exact Session.keeps_pure _

theorem keeps_readState {R : Chain → Chain → Prop} [Std.Refl R] [IsTrans Chain R] {net : Network}
    (h : net.KeepsReading S.host R) (state : PoolState) :
    Session.Keeps R (readState S net state) := by
  refine (keeps_readStateLeaves h _).bind fun snapshot => ?_
  dsimp only
  split
  · exact (Session.keeps_ofExcept _).bind fun _ => Session.keeps_pure _
  · exact Session.keeps_pure _

omit [NatCast F] [Zero F] in
theorem keeps_publishStateRoot (net : Network) (leaves : List (Option (BytesN 32)))
    (root : BytesN 32) : Session.Keeps Chain.Extends (publishStateRoot S net leaves root) := by
  refine (keeps_call _ _).bind fun onChainRoot => ?_
  split
  · exact (keeps_postRoot _ _ _ _).bind fun _ => Session.keeps_pure _
  · exact Session.keeps_pure _

theorem keeps_publish (net : Network) (screened : Screening) (set : AssociationSet F) :
    Session.Keeps Chain.Extends (publish S net screened set) := by
  refine (keeps_publishAspRoot net set).bind fun _ =>
    (keeps_readState (net.keepsReading_extends S.host) screened.state).bind fun read => ?_
  obtain ⟨state, leaves, stateRoot⟩ := read
  cases stateRoot with
  | none => exact Session.keeps_pure _
  | some root => exact (keeps_publishStateRoot net leaves root).bind fun _ => Session.keeps_pure _

/-- The steps of `publish`, where it returns, and what it reports of them. -/
theorem publish_reports {net : Network} {screened : Screening} {set : AssociationSet F}
    {c c' : Chain} {state : PoolState} {result : TickResult}
    (h : publish S net screened set c = (.ok (state, result), c')) :
    ∃ c₁ leaves stateRoot c₂,
      publishAspRoot S net set c = (.ok (result.onChainRoot, result.published), c₁) ∧
      readState S net screened.state c₁ = (.ok (state, leaves, stateRoot), c₂) ∧
      result.localRoot = set.rootHex S ∧ result.stateRoot = stateRoot ∧
      result.haltedForReorg = false ∧
      ((stateRoot = none ∧ c' = c₂ ∧ result.onChainStateRoot = none ∧
          result.statePublished = some false) ∨
        ∃ root onChainStateRoot statePublished, stateRoot = some root ∧
          publishStateRoot S net leaves root c₂ = (.ok (onChainStateRoot, statePublished), c') ∧
          result.onChainStateRoot = some onChainStateRoot ∧
          result.statePublished = some statePublished) := by
  obtain ⟨⟨onChainRoot, published⟩, c₁, hasp, h⟩ := Session.bind_eq_ok.mp h
  obtain ⟨⟨state', leaves, stateRoot⟩, c₂, hread, h⟩ := Session.bind_eq_ok.mp h
  refine ⟨c₁, leaves, stateRoot, c₂, ?_⟩
  cases stateRoot with
  | none =>
      obtain ⟨heq, rfl⟩ := Session.pure_eq_ok.mp h
      cases heq
      exact ⟨hasp, hread, rfl, rfl, rfl, .inl ⟨rfl, rfl, rfl, rfl⟩⟩
  | some root =>
      obtain ⟨⟨onChainStateRoot, statePublished⟩, c₃, hpost, h⟩ := Session.bind_eq_ok.mp h
      obtain ⟨heq, rfl⟩ := Session.pure_eq_ok.mp h
      cases heq
      exact ⟨hasp, hread, rfl, rfl, rfl,
        .inr ⟨root, onChainStateRoot, statePublished, rfl, hpost, rfl, rfl⟩⟩

/-- The steps of `publish`, where it returns. -/
theorem publish_eq_ok {net : Network} {screened : Screening} {set : AssociationSet F}
    {c c' : Chain} {state : PoolState} {result : TickResult}
    (h : publish S net screened set c = (.ok (state, result), c')) :
    ∃ onChainRoot published c₁ leaves stateRoot c₂,
      publishAspRoot S net set c = (.ok (onChainRoot, published), c₁) ∧
      readState S net screened.state c₁ = (.ok (state, leaves, stateRoot), c₂) ∧
      result.haltedForReorg = false ∧
      ((stateRoot = none ∧ c' = c₂) ∨ ∃ root onChainStateRoot statePublished, stateRoot = some root ∧
        publishStateRoot S net leaves root c₂ = (.ok (onChainStateRoot, statePublished), c')) := by
  obtain ⟨c₁, leaves, stateRoot, c₂, hasp, hread, -, -, hpassed, hrest⟩ := publish_reports h
  refine ⟨_, _, c₁, leaves, stateRoot, c₂, hasp, hread, hpassed, ?_⟩
  obtain ⟨hnone, hc, -⟩ | ⟨root, _, _, hroot, hpost, -⟩ := hrest
  · exact .inl ⟨hnone, hc⟩
  · exact .inr ⟨root, _, _, hroot, hpost⟩

/-- The state that is saved is the one into which the leaf events were merged. -/
theorem readState_eq_ok {net : Network} {state state' : PoolState}
    {leaves : List (Option (BytesN 32))} {stateRoot : Option (BytesN 32)} {c c' : Chain}
    (h : readState S net state c = (.ok (state', leaves, stateRoot), c')) :
    ∃ r, readStateEvents S net state.stateEventCursor c = (.ok r, c') ∧
      state' = mergeSnapshot state (snapshotOf r) ∧ leaves = state'.stateLeaves.getD [] ∧
      (stateRoot = none ∧ leaves = [] ∨ ∃ tree : MerkleTree F, stateTree leaves = .ok tree ∧
        stateRoot = some (S.toHex32 (tree.root S.hash2))) := by
  obtain ⟨snapshot, c₁, hread, h⟩ := Session.bind_eq_ok.mp h
  obtain ⟨r, c₂, hevents, hsnapshot⟩ := Session.bind_eq_ok.mp hread
  obtain ⟨rfl, rfl⟩ := Session.pure_eq_ok.mp hsnapshot
  split at h
  · obtain ⟨tree, c₃, htree, h⟩ := Session.bind_eq_ok.mp h
    obtain ⟨hbuilt, rfl⟩ := Session.ofExcept_eq.mp htree
    obtain ⟨heq, rfl⟩ := Session.pure_eq_ok.mp h
    cases heq
    exact ⟨r, hevents, rfl, rfl, .inr ⟨tree, hbuilt, rfl⟩⟩
  · next hempty =>
      obtain ⟨heq, rfl⟩ := Session.pure_eq_ok.mp h
      cases heq
      refine ⟨r, hevents, rfl, rfl, .inl ⟨rfl, ?_⟩⟩
      rw [← List.length_eq_zero_iff]
      exact Nat.eq_zero_of_not_pos fun hpos => hempty (.inr hpos)

omit [NatCast F] [Zero F] in
theorem insertLeaf_eq_ok {t t' : MerkleTree F} {leaf : F} :
    insertLeaf t leaf = .ok t' ↔ t.leaves.length < 2 ^ t.depth ∧
      t' = { t with leaves := t.leaves ++ [leaf] } := by
  unfold insertLeaf
  split
  · next t₁ index heq =>
      obtain ⟨hroom, rfl, -⟩ := MerkleTree.insert_eq_ok.mp heq
      rw [Except.ok.injEq, eq_comm]
      exact ⟨fun h => ⟨hroom, h⟩, fun h => h.2⟩
  · next e heq =>
      constructor
      · intro h
        cases h
      · rintro ⟨hroom, -⟩
        rw [MerkleTree.insert_eq_ok.mpr ⟨hroom, rfl, rfl⟩] at heq
        cases heq

/-- The labels of some deposits. -/
def labels (S : Setting F) (indices : List ℕ) : List F := indices.map (computeLabel S.hash2 S.scope)

omit [Zero F] in
theorem add_eq_ok {set set' : AssociationSet F} {index : ℕ} :
    set.add S index = .ok set' ↔ set.tree.leaves.length < 2 ^ set.tree.depth ∧
      set' = ⟨set.indices ++ [index], set.labels ++ labels S [index],
        { set.tree with leaves := set.tree.leaves ++ labels S [index] }⟩ := by
  simp only [AssociationSet.add, bind_eq_ok, insertLeaf_eq_ok, pure_eq_ok]
  constructor
  · rintro ⟨tree, ⟨hroom, rfl⟩, rfl⟩
    exact ⟨hroom, rfl⟩
  · rintro ⟨hroom, rfl⟩
    exact ⟨_, ⟨hroom, rfl⟩, rfl⟩

omit [Zero F] in
/-- The association set of some deposits is the tree of their labels. -/
theorem associationSet_eq_ok {approved : List ℕ} {set : AssociationSet F} :
    associationSet S approved = .ok set ↔ approved.length ≤ 2 ^ TREE_DEPTH ∧
      set = ⟨approved, labels S approved, { leaves := labels S approved }⟩ := by
  have hfold : ∀ (rest done : List ℕ), done.length ≤ 2 ^ TREE_DEPTH →
      (rest.foldlM (AssociationSet.add S) ⟨done, labels S done, { leaves := labels S done }⟩ =
        .ok set ↔ (done ++ rest).length ≤ 2 ^ TREE_DEPTH ∧
          set = ⟨done ++ rest, labels S (done ++ rest), { leaves := labels S (done ++ rest) }⟩) := by
    intro rest
    induction rest with
    | nil =>
        intro done hdone
        rw [List.foldlM_nil, List.append_nil, pure_eq_ok, eq_comm, and_iff_right hdone]
    | cons index rest ih =>
        intro done hdone
        simp only [List.foldlM_cons, bind_eq_ok, add_eq_ok]
        have happend : labels S done ++ labels S [index] = labels S (done ++ [index]) :=
          List.map_append.symm
        have hlength : (labels S done).length = done.length := List.length_map _
        rw [List.append_cons done index rest, happend, hlength]
        constructor
        · rintro ⟨set', ⟨hroom, rfl⟩, hrest⟩
          refine (ih (done ++ [index]) ?_).mp hrest
          rw [List.length_append]
          exact hroom
        · rintro ⟨hall, rfl⟩
          have hroom : (done ++ [index]).length ≤ 2 ^ TREE_DEPTH :=
            le_trans (List.prefix_append _ _).length_le hall
          refine ⟨_, ⟨?_, rfl⟩, (ih (done ++ [index]) hroom).mpr ⟨hall, rfl⟩⟩
          rw [List.length_append] at hroom
          exact hroom
  exact hfold approved [] (Nat.zero_le _)

omit [Zero F] in
/-- The tree of an array without holes. -/
theorem stateTree_map_some {xs : List (BytesN 32)} {tree : MerkleTree F} :
    stateTree (xs.map some) = .ok tree ↔
      xs.length ≤ 2 ^ TREE_DEPTH ∧ tree = { leaves := xs.map (fieldOf F) } := by
  rw [stateTree, List.foldlM_map,
    MerkleTree.foldlM_insert_eq_ok (fun _ _ _ => insertLeaf_eq_ok) (Nat.zero_le _), List.nil_append]
  exact and_congr_left fun _ => by rw [List.length_nil, Nat.zero_add]

/-- How a tick goes: every way it can end, with the state and the guard it leaves. -/
inductive TickRun (S : Setting F) (s : System) (i : TickInput) :
    System → Except Thrown TickResult → Prop where
  | unread {e : Thrown} {c : Chain}
      (read : readConfirmed S i s.state s.chain = (.error e, c)) :
      TickRun S s i { s with chain := c } (.error e)
  | unscreened {e : Thrown} {c : Chain} {deposits : List Deposit}
      (read : readConfirmed S i s.state s.chain = (.ok deposits, c))
      (screens : screenBatch S i s.state deposits = .error e) :
      TickRun S s i { s with chain := c } (.error e)
  | halted {c c' : Chain} {deposits : List Deposit} {screened : Screening} {set : AssociationSet F}
      {guard : ReorgGuard} {onChainRoot : Except Thrown (Option (BytesN 32))}
      (read : readConfirmed S i s.state s.chain = (.ok deposits, c))
      (screens : screenBatch S i s.state deposits = .ok (screened, set))
      (halts : checkContinuity i s.guard screened.state deposits = (guard, true))
      (root : currentRoot S i.net.aspRoot .asp c = (onChainRoot, c')) :
      TickRun S s i ⟨c', some screened.state, guard⟩ (onChainRoot.map (haltedResult S screened set))
  | unpublished {c c' : Chain} {deposits : List Deposit} {screened : Screening}
      {set : AssociationSet F} {guard : ReorgGuard} {e : Thrown}
      (read : readConfirmed S i s.state s.chain = (.ok deposits, c))
      (screens : screenBatch S i s.state deposits = .ok (screened, set))
      (passes : checkContinuity i s.guard screened.state deposits = (guard, false))
      (publishes : publish S i.net screened set c = (.error e, c')) :
      TickRun S s i ⟨c', s.store, guard⟩ (.error e)
  | completed {c c' : Chain} {deposits : List Deposit} {screened : Screening}
      {set : AssociationSet F} {guard : ReorgGuard} {state : PoolState} {result : TickResult}
      (read : readConfirmed S i s.state s.chain = (.ok deposits, c))
      (screens : screenBatch S i s.state deposits = .ok (screened, set))
      (passes : checkContinuity i s.guard screened.state deposits = (guard, false))
      (publishes : publish S i.net screened set c = (.ok (state, result), c')) :
      TickRun S s i ⟨c', some state, guard⟩ (.ok result)

theorem tickRun (S : Setting F) (s : System) (i : TickInput) :
    TickRun S s i (runPoolTick S s i).1 (runPoolTick S s i).2 := by
  unfold runPoolTick
  split
  · next e c hread => exact .unread hread
  · next deposits c hread =>
      split
      · next e hscreens => exact .unscreened hread hscreens
      · next screened set hscreens =>
          cases hcheck : checkContinuity i s.guard screened.state deposits with
          | mk guard halted =>
              cases halted with
              | true => exact .halted hread hscreens hcheck rfl
              | false =>
                  simp only [Bool.false_eq_true, if_false]
                  split
                  · next e c' hpublish => exact .unpublished hread hscreens hcheck hpublish
                  · next state result c' hpublish =>
                      exact .completed hread hscreens hcheck hpublish

/-- The chain of a tick is the one before, some ledgers later. -/
theorem TickRun.extends_chain {s s' : System} {i : TickInput} {r : Except Thrown TickResult}
    (h : TickRun S s i s' r) : s.chain.Extends s'.chain := by
  cases h with
  | unread hread => exact (keeps_readConfirmed _ _).of_eq hread
  | unscreened hread => exact (keeps_readConfirmed _ _).of_eq hread
  | halted hread _ _ hroot =>
      exact ((keeps_readConfirmed _ _).of_eq hread).trans ((keeps_call _ _).of_eq hroot)
  | unpublished hread _ _ hpublish =>
      exact ((keeps_readConfirmed _ _).of_eq hread).trans ((keeps_publish _ _ _).of_eq hpublish)
  | completed hread _ _ hpublish =>
      exact ((keeps_readConfirmed _ _).of_eq hread).trans ((keeps_publish _ _ _).of_eq hpublish)

/-- The state after one more tick. -/
theorem final_tick (S : Setting F) (s : System) (inputs : List Input) (i : TickInput) :
    (machine S).final s (inputs ++ [.tick i]) =
      (runPoolTick S ((machine S).final s inputs) i).1 := by
  rw [Machine.final_snoc]
  rfl

end Spec

/-! ## A small chain

A pool with published roots and two deposits in different ledgers, an authority that is its
administrator and a node that has every event on its first page. The hash function is a stand-in. -/

namespace Demo

def setting : Setting ℕ where
  host := Pool.Demo.host
  describe := fun _ => "HostError: Error(Contract)".toList
  hash2 := fun a b => a + b + 1
  toHex32 := BytesN.ofNat 32
  sha256 := fun _ => BytesN.ofNat 32 0
  scope := 9
  authority := Pool.Demo.admin

/-- A page with everything on it. -/
def page : Answer := { upto := 100 }

def net : Network where
  firstDeposits := page
  stateDeposits := fun _ => page
  stateWithdraws := fun _ => page

def deploy : Ledger where
  invocations := [
    .initializePool Pool.Demo.admin (Pool.Demo.contract 1) (Pool.Demo.contract 2) 9,
    publishCall .state Pool.Demo.admin (BytesN.ofNat 32 1) (BytesN.ofNat 32 0),
    publishCall .asp Pool.Demo.admin (BytesN.ofNat 32 2) (BytesN.ofNat 32 0)].map
      fun call => ⟨Pool.Demo.env 0 Pool.Demo.admin, call⟩

/-- A ledger with the deposit that gets this index. -/
def deposits (index : ℕ) : Ledger where
  invocations := [⟨Pool.Demo.env 0 Pool.Demo.user,
    .deposit Pool.Demo.user (I128.ofNat 10 I128.ten_lt) (BytesN.ofNat 32 (100 + index)) index⟩]

abbrev start : System := .initial Pool.Demo.tokens 9

def twoDeposits : List Input := [.close deploy, .close (deposits 0), .close (deposits 1)]

end Demo

end OpaqueStellar.Asp
