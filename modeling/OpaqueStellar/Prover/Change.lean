import OpaqueStellar.Prover.Association

/-! # Change notes

A partial withdrawal leaves a change note behind. Its commitment carries the label of the note that
was spent, since the circuit hands labels on; but the prover derives the label of a note from its
leaf index, and the change note has an index of its own. The prover therefore computes another
commitment for it than the one that is in the tree, and no input it returns satisfies the circuit. -/

namespace OpaqueStellar.Prover

open OpaqueStellar.Lib OpaqueStellar.Soroban OpaqueStellar.Pool OpaqueStellar.Asp
open OpaqueStellar.Circuit (PrivacyPoolWithdraw LEVELS VALUE_BITS)

variable {F : Type} [CommRing F] {P : Circuit.Poseidon F}

/-! ## Inputs that satisfy the circuit -/

/-- The assignment of an input, with the digits that the circuit's own signals take. -/
def CircuitInput.witness (input : CircuitInput F) (valueBits withdrawnBits leBits : ℕ → F) :
    Circuit.Witness F where
  value := input.value
  label := input.label
  nullifier := input.nullifier
  secret := input.secret
  newNullifier := input.newNullifier
  newSecret := input.newSecret
  stateSiblings := signal input.stateSiblings
  stateIndex := indexSignal input.stateIndex
  aspSiblings := signal input.aspSiblings
  aspIndex := indexSignal input.aspIndex
  valueBits := valueBits
  withdrawnBits := withdrawnBits
  leBits := leBits

/-- The input has the circuit's sizes and satisfies all its constraints. -/
structure CircuitInput.Satisfies (P : Circuit.Poseidon F) (input : CircuitInput F) : Prop where
  stateLevels : input.stateSiblings.length = LEVELS ∧ input.stateIndex.length = LEVELS
  aspLevels : input.aspSiblings.length = LEVELS ∧ input.aspIndex.length = LEVELS
  constraints : ∃ valueBits withdrawnBits leBits, PrivacyPoolWithdraw P LEVELS VALUE_BITS input.pub
    (input.witness valueBits withdrawnBits leBits)

section Change

variable [DecidableEq F] {keccak256 : List UInt8 → BytesN 32}

/-- A witness that satisfies the circuit opens the leaf at the note's index. -/
theorem leaf_of_satisfies [IsDomain F] {change : NoteSecrets F} {opts : WithdrawOptions F}
    {w : PoolWithdrawWitness F} {onChain : BytesN 32}
    (hbuilt : buildPoolWithdrawWitness P keccak256 change opts = .ok w)
    (hroom : opts.note.leafIndex < 2 ^ POOL_TREE_DEPTH)
    (hleaf : opts.stateLeaves[opts.note.leafIndex]? = some onChain)
    (h : w.input.Satisfies P) :
    fieldOf F onChain = P.hash3 (opts.note.value : F)
      (computeLabel P.hash2 opts.scope opts.note.leafIndex)
      (P.hash2 opts.note.nullifier opts.note.secret) := by
  obtain ⟨-, -, asp, -, rfl⟩ := buildPoolWithdrawWitness_eq_ok.mp hbuilt
  obtain ⟨valueBits, withdrawnBits, leBits, hcircuit⟩ := h.constraints
  set path := (stateTree (F := F) opts.stateLeaves).proof P.hash2 opts.note.leafIndex with hpath
  set commit := P.hash3 (opts.note.value : F) (computeLabel P.hash2 opts.scope opts.note.leafIndex)
    (P.hash2 opts.note.nullifier opts.note.secret)
  -- the commitment of the note and the leaf walk along the same path to the same root
  have hroot : (stateTree (F := F) opts.stateLeaves).root P.hash2 =
      Merkle.fold P.hash2 commit path := by
    have hwalk := (merkleInclusion_path P.hash2 commit path).root
    rw [hpath, length_proof, ← hpath] at hwalk
    exact hcircuit.stateProof.root.trans hwalk.symm
  have hfold := MerkleTree.fold_proof P.hash2 (stateTree (F := F) opts.stateLeaves) hroom
  have hpadded : MerkleTree.padded (stateTree (F := F) opts.stateLeaves).leaves
      opts.note.leafIndex = fieldOf F onChain := by
    show (opts.stateLeaves.map (fieldOf F)).getD _ 0 = _
    rw [List.getD_eq_getElem?_getD, List.getElem?_map, hleaf]
    rfl
  rw [hpadded, hroot] at hfold
  exact Merkle.fold_inj P.hash2_inj hfold

/-- The note that is kept for the change of a withdrawal, once the pool has inserted it. -/
def changeNote (w : PoolWithdrawWitness F) (index : ℕ) (commitment : BytesN 32) : PoolNote F where
  value := w.change.value
  leafIndex := index
  nullifier := w.change.nullifier
  secret := w.change.secret
  commitment := commitment

/-- **A change note cannot be spent.** For every run of the pool, every partial withdrawal for which
the prover returned a witness and which the pool executed, and every later leaves that continue the
pool's: whatever deposits, path and value the prover is given for the change note, no input it
returns satisfies the circuit. -/
theorem change_unspendable [IsDomain F] (P : Circuit.Poseidon F)
    (hcast : Circuit.NatCastInj F (2 ^ POOL_TREE_DEPTH)) (host : Host) (tokens : TokenLedger)
    (invs : List Invocation) {env : Env} {args : WithdrawArgs} {world' : World}
    {change change' : NoteSecrets F} {opts later : WithdrawOptions F}
    {w w' : PoolWithdrawWitness F} :
    let world := (Pool.machine host).final (.deployed tokens) invs
    let index := world.pool.depCount
    buildPoolWithdrawWitness P keccak256 change opts = .ok w →
    w.withdrawnValue < opts.note.value →
    withdraw host env world args = .ok world' → fieldOf F args.newCommitment = w.newCommitment →
    opts.note.leafIndex < index → index < 2 ^ POOL_TREE_DEPTH →
    later.note = changeNote w index args.newCommitment → later.scope = opts.scope →
    (leaves world').map Prod.fst <+: later.stateLeaves →
    buildPoolWithdrawWitness P keccak256 change' later = .ok w' → ¬ w'.input.Satisfies P := by
  intro world index hbuilt _ hwithdraw hnew hbefore hroom hnote hscope hleaves hbuilt' hsatisfies
  have hindexed : Indexed world := indexed_run host tokens invs
  have happended := appended_of_withdraw (withdraw_effect hwithdraw)
  have hlength : (leaves world).length = index := by
    have := congrArg List.length hindexed.indices
    rwa [List.length_map, List.length_range] at this
  have hleaf : later.stateLeaves[later.note.leafIndex]? = some args.newCommitment := by
    obtain ⟨rest, hrest⟩ := hleaves
    have hlength' : ((leaves world).map Prod.fst).length = index := by rw [List.length_map, hlength]
    rw [hnote, ← hrest, happended.leaves, List.map_append, List.append_assoc]
    show ((leaves world).map Prod.fst ++ args.newCommitment :: rest)[index]? = _
    rw [List.getElem?_append_right (le_of_eq hlength'), hlength', Nat.sub_self]
    rfl
  have hopens := leaf_of_satisfies hbuilt' (hnote ▸ hroom) hleaf hsatisfies
  obtain ⟨-, -, asp, -, rfl⟩ := buildPoolWithdrawWitness_eq_ok.mp hbuilt
  obtain ⟨-, hlabel, -⟩ := P.hash3_inj (hnew.symm.trans hopens)
  -- equal labels are labels of equal indices
  rw [hscope, hnote] at hlabel
  obtain ⟨-, hindex⟩ := P.hash2_inj hlabel
  exact absurd (hcast _ (hbefore.trans hroom) _ hroom hindex) (ne_of_lt hbefore)

end Change

/-! ## Half of a deposit -/

namespace Demo

/-- The bytes of a small hash. -/
def bytes (x : ℤ) : BytesN 32 := BytesN.ofNat 32 x.toNat

def label : ℤ := computeLabel poseidon.hash2 9 0

def deposited : PoolNote ℤ where
  value := 10
  leafIndex := 0
  nullifier := 5
  secret := 6
  commitment := bytes (poseidon.hash3 10 label (poseidon.hash2 5 6))

def changeCommitment : BytesN 32 := bytes (poseidon.hash3 5 label (poseidon.hash2 7 8))

/-- Withdraw five of ten. -/
def half : WithdrawOptions ℤ where
  note := deposited
  recipient := Pool.Demo.account 5
  relayer := Pool.Demo.account 6
  fee := 1
  scope := 9
  stateLeaves := [deposited.commitment]
  depositIndices := [0]
  withdrawnValue := some 5

/-- The pool with the deposit and two published roots. -/
def setup : List Invocation := [
  ⟨Pool.Demo.env 10 Pool.Demo.admin,
    .initializePool Pool.Demo.admin (Pool.Demo.contract 1) (Pool.Demo.contract 2) 9⟩,
  ⟨Pool.Demo.env 11 Pool.Demo.user,
    .deposit Pool.Demo.user (I128.ofNat 10 I128.ten_lt) deposited.commitment 0⟩,
  ⟨Pool.Demo.env 12 Pool.Demo.admin,
    .updateStateRoot Pool.Demo.admin Pool.Demo.args.stateRoot (BytesN.ofNat 32 0)⟩,
  ⟨Pool.Demo.env 13 Pool.Demo.admin,
    .updateAspRoot Pool.Demo.admin Pool.Demo.args.aspRoot (BytesN.ofNat 32 0)⟩]

def world : World := (Pool.machine Pool.Demo.host).final (.deployed Pool.Demo.tokens) setup

def withdrawal : WithdrawArgs := { Pool.Demo.args with newCommitment := changeCommitment }

/-- The change note again, with the deposits that the prover is given. -/
def again (w : PoolWithdrawWitness ℤ) (depositIndices : List ℕ) : WithdrawOptions ℤ where
  note := changeNote w 1 changeCommitment
  recipient := Pool.Demo.account 5
  relayer := Pool.Demo.account 6
  fee := 1
  scope := 9
  stateLeaves := [deposited.commitment, changeCommitment]
  depositIndices := depositIndices

/-- The witness of the partial withdrawal. -/
theorem build_half : ∃ w,
    buildPoolWithdrawWitness poseidon Pool.Demo.keccak256 ⟨7, 8⟩ half = .ok w ∧
      w.withdrawnValue = 5 ∧ w.change = ⟨7, 8, 5⟩ ∧
      w.newCommitment = poseidon.hash3 5 label (poseidon.hash2 7 8) := by
  have hnone : half.aspInclusion = none := rfl
  have hasp := (aspPath_of_none (P := poseidon) (computeLabel poseidon.hash2 half.scope
    half.note.leafIndex) hnone).mpr ⟨by decide, rfl⟩
  refine ⟨_, buildPoolWithdrawWitness_eq_ok.mpr ⟨by decide, ?_, _, hasp, rfl⟩, rfl, rfl, rfl⟩
  intro onChain honChain
  cases honChain
  rfl

/-- With the index of the change note among the deposits, the prover returns a witness for it. -/
theorem build_again {w : PoolWithdrawWitness ℤ} (hchange : w.change = ⟨7, 8, 5⟩) : ∃ w',
    buildPoolWithdrawWitness poseidon Pool.Demo.keccak256 ⟨3, 4⟩ (again w [0, 1]) = .ok w' := by
  have hnone : (again w [0, 1]).aspInclusion = none := rfl
  have hasp := (aspPath_of_none (P := poseidon) (computeLabel poseidon.hash2
    (again w [0, 1]).scope (again w [0, 1]).note.leafIndex) hnone).mpr
      ⟨by simp [again, changeNote], rfl⟩
  have hvalue : (again w [0, 1]).note.value = 5 := by simp [again, changeNote, hchange]
  refine ⟨_, buildPoolWithdrawWitness_eq_ok.mpr ⟨?_, ?_, _, hasp, rfl⟩⟩
  · show 0 < (again w [0, 1]).note.value ∧ (again w [0, 1]).note.value ≤ (again w [0, 1]).note.value
    rw [hvalue]
    decide
  · intro onChain honChain
    cases honChain
    rfl

/-- The pool executes it. -/
theorem withdraw_half :
    ∃ w', withdraw Pool.Demo.host (Pool.Demo.env 14 Pool.Demo.user) world withdrawal = .ok w' ∧
      (leaves w').map Prod.fst = [deposited.commitment, changeCommitment] := by
  have hok : (withdraw Pool.Demo.host (Pool.Demo.env 14 Pool.Demo.user) world
      withdrawal).toOption.map (fun w => (leaves w).map Prod.fst) =
        some [deposited.commitment, changeCommitment] := by decide +kernel
  cases h : withdraw Pool.Demo.host (Pool.Demo.env 14 Pool.Demo.user) world withdrawal with
  | error e =>
      rw [h] at hok
      cases hok
  | ok w' =>
      rw [h] at hok
      exact ⟨w', rfl, Option.some.inj hok⟩

end Demo

/-- After the partial withdrawal the change note is in the tree and its deposit approved, and the
prover refuses it. -/
theorem change_refused :
    ∃ w, buildPoolWithdrawWitness Demo.poseidon Pool.Demo.keccak256 ⟨7, 8⟩ Demo.half = .ok w ∧
      fieldOf ℤ Demo.changeCommitment = w.newCommitment ∧
      (∃ w', withdraw Pool.Demo.host (Pool.Demo.env 14 Pool.Demo.user) Demo.world Demo.withdrawal =
        .ok w' ∧ (leaves w').map Prod.fst = (Demo.again w [0]).stateLeaves) ∧
      buildPoolWithdrawWitness Demo.poseidon Pool.Demo.keccak256 ⟨3, 4⟩ (Demo.again w [0]) =
        .error (.notDeposited 1) := by
  obtain ⟨w, hbuilt, -, hchange, hnew⟩ := Demo.build_half
  refine ⟨w, hbuilt, ?_, Demo.withdraw_half, ?_⟩
  · rw [hnew]
    decide
  · simp [buildPoolWithdrawWitness, aspPath, Demo.again, changeNote, hchange]

theorem change_unspendable_half :
    ∃ w w', buildPoolWithdrawWitness Demo.poseidon Pool.Demo.keccak256 ⟨7, 8⟩ Demo.half = .ok w ∧
      buildPoolWithdrawWitness Demo.poseidon Pool.Demo.keccak256 ⟨3, 4⟩ (Demo.again w [0, 1]) =
        .ok w' ∧ ¬ w'.input.Satisfies Demo.poseidon := by
  obtain ⟨w, hbuilt, hvalue, hchange, hnew⟩ := Demo.build_half
  obtain ⟨world', hwithdraw, hleaves⟩ := Demo.withdraw_half
  obtain ⟨w', hbuilt'⟩ := Demo.build_again hchange
  have hcount : Demo.world.pool.depCount = 1 := by decide
  have hpart : w.withdrawnValue < Demo.half.note.value := by
    rw [hvalue]
    decide
  have hnew' : fieldOf ℤ Demo.withdrawal.newCommitment = w.newCommitment := by
    rw [hnew]
    decide
  have hbefore : Demo.half.note.leafIndex < Demo.world.pool.depCount := by
    rw [hcount]
    decide
  have hroom : Demo.world.pool.depCount < 2 ^ POOL_TREE_DEPTH := by
    rw [hcount]
    decide
  have hnote : (Demo.again w [0, 1]).note =
      changeNote w Demo.world.pool.depCount Demo.withdrawal.newCommitment := by
    rw [hcount]
    rfl
  have hscope : (Demo.again w [0, 1]).scope = Demo.half.scope := rfl
  have hinitial : (leaves world').map Prod.fst <+: (Demo.again w [0, 1]).stateLeaves := by
    rw [hleaves]
    exact List.prefix_refl _
  exact ⟨w, w', hbuilt, hbuilt', change_unspendable Demo.poseidon (Demo.natCastInj _)
    Pool.Demo.host Pool.Demo.tokens Demo.setup hbuilt hpart hwithdraw hnew' hbefore hroom hnote hscope hinitial
    hbuilt'⟩

end OpaqueStellar.Prover
