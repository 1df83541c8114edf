import Mathlib.Data.Nat.Pairing
import Mathlib.Logic.Equiv.Nat
import OpaqueStellar.Asp.Freshness
import OpaqueStellar.Prover.Pool

/-! # The association tree, seen from both sides

The provider's association tree has the labels of the approved deposits, in the order in which they
were approved. The provers rebuild it from the pool's events as the tree of all deposits, in index
order. `Rebuilds.provesAsp_iff`: the two trees have the same root exactly if the approved deposits
are all deposits, approved in their order (as far as the tree goes). -/

namespace OpaqueStellar.Prover

open OpaqueStellar.Lib OpaqueStellar.Soroban OpaqueStellar.Pool OpaqueStellar.Asp
open OpaqueStellar.Circuit (MerkleInclusion LEVELS)

variable {F : Type} [CommRing F] {P : Circuit.Poseidon F}

/-! ## Paths as circuit inputs -/

/-- The signals of a list that is an input of the circuit. -/
def signal (xs : List F) (i : ℕ) : F := xs.getD i 0

def indexSignal (xs : List ℕ) (i : ℕ) : F := (xs.getD i 0 : ℕ)

theorem indexSignal_indices {path : List (F × Bool)} {i : ℕ} {s : F × Bool}
    (h : path[i]? = some s) : (indexSignal (indices path) i : F) = if s.2 then 1 else 0 := by
  rw [indexSignal, indices, List.getD_eq_getElem?_getD, List.getElem?_map, h]
  simp only [Option.map_some, Option.getD_some]
  split_ifs
  · exact Nat.cast_one
  · exact Nat.cast_zero

/-- A path of siblings satisfies the inclusion template with the root it leads to. -/
theorem merkleInclusion_path [IsDomain F] [DecidableEq F] (hash2 : F → F → F) (leaf : F)
    (path : List (F × Bool)) :
    MerkleInclusion hash2 path.length leaf (signal (siblings path)) (indexSignal (indices path))
      (Merkle.fold hash2 leaf path) := by
  have hbinary : ∀ i < path.length, indexSignal (indices path) i *
      (1 - indexSignal (indices path) i) = (0 : F) := by
    intro i hi
    rw [indexSignal_indices (List.getElem?_eq_getElem hi)]
    split_ifs <;> ring
  refine ⟨hbinary, ?_⟩
  rw [Circuit.merkleCur_eq_fold hbinary]
  congr 1
  apply List.ext_getElem?
  intro i
  rcases lt_or_ge i path.length with hi | hi
  · have hs := List.getElem?_eq_getElem hi
    rw [Circuit.path, List.getElem?_map, List.getElem?_range hi, Option.map_some, hs,
      indexSignal_indices hs, signal, siblings, List.getD_eq_getElem?_getD, List.getElem?_map, hs]
    cases hdir : path[i].2 <;> simp [Prod.ext_iff, hdir]
  · rw [List.getElem?_eq_none hi, List.getElem?_eq_none (by rwa [Circuit.length_path])]

/-! ## The rebuilt tree -/

section Trees

theorem length_proof (t : MerkleTree F) (hash2 : F → F → F) (i : ℕ) :
    (t.proof hash2 i).length = t.depth := by
  rw [MerkleTree.proof, List.length_map, List.length_range]

theorem zero_notMem_labels (scope : ℕ) (xs : List ℕ) :
    (0 : F) ∉ xs.map (computeLabel P.hash2 scope) := by
  intro hmem
  obtain ⟨i, -, hi⟩ := List.mem_map.mp hmem
  exact P.hash2_ne_zero _ _ hi

/-- Lists of deposits whose indices are different elements of the field are determined by their
labels. -/
theorem map_computeLabel_inj {r : ℕ} (hcast : Circuit.NatCastInj F r) {scope : ℕ} {xs ys : List ℕ}
    (hxs : ∀ i ∈ xs, i < r) (hys : ∀ i ∈ ys, i < r)
    (h : xs.map (computeLabel P.hash2 scope) = ys.map (computeLabel P.hash2 scope)) : xs = ys := by
  induction xs generalizing ys with
  | nil => exact (List.map_eq_nil_iff.mp h.symm).symm
  | cons x xs ih =>
      cases ys with
      | nil => cases h
      | cons y ys =>
          obtain ⟨hhead, htail⟩ := List.cons.inj h
          have hxy : x = y := hcast x (hxs x List.mem_cons_self) y (hys y List.mem_cons_self)
            (P.hash2_inj hhead).2
          have hrest : xs = ys := ih (fun i hi => hxs i (List.mem_cons_of_mem _ hi))
            (fun i hi => hys i (List.mem_cons_of_mem _ hi)) htail
          rw [hxy, hrest]

/-- Trees of labels have the same root exactly if they are of the same deposits. -/
theorem aspTree_root_eq_iff {r : ℕ} (hcast : Circuit.NatCastInj F r) {scope : ℕ} {xs ys : List ℕ}
    (hxs : ∀ i ∈ xs, i < r) (hys : ∀ i ∈ ys, i < r) :
    (aspTree P scope xs).root P.hash2 = (aspTree P scope ys).root P.hash2 ↔
      xs.take (2 ^ POOL_TREE_DEPTH) = ys.take (2 ^ POOL_TREE_DEPTH) := by
  rw [aspTree, aspTree, poolMerkleTree, poolMerkleTree,
    MerkleTree.root_eq_iff P.hash2_inj (zero_notMem_labels scope xs) (zero_notMem_labels scope ys),
    ← List.map_take, ← List.map_take]
  constructor
  · exact map_computeLabel_inj hcast (fun i hi => hxs i (List.mem_of_mem_take hi))
      (fun i hi => hys i (List.mem_of_mem_take hi))
  · exact congrArg _

/-- The leaf of a deposit in the rebuilt tree is its label. -/
theorem padded_aspTree {scope index : ℕ} {depositIndices : List ℕ} (h : index ∈ depositIndices) :
    MerkleTree.padded (aspTree P scope depositIndices).leaves (depositIndices.idxOf index) =
      computeLabel P.hash2 scope index := by
  have hget : depositIndices[depositIndices.idxOf index]? = some index := List.getElem?_idxOf h
  show (depositIndices.map _).getD _ 0 = _
  rw [List.getD_eq_getElem?_getD, List.getElem?_map, hget]
  rfl

end Trees

/-! ## Provability -/

section Provable

/-- The path of a deposit in the tree that is rebuilt from these deposits. -/
def rebuiltPath (P : Circuit.Poseidon F) (scope : ℕ) (depositIndices : List ℕ) (index : ℕ) :
    List (F × Bool) :=
  (aspTree P scope depositIndices).proof P.hash2 (depositIndices.idxOf index)

/-- The association part of the circuit is satisfied by this input, with this root. -/
structure CircuitInput.ProvesAsp (P : Circuit.Poseidon F) (input : CircuitInput F) (root : F) :
    Prop where
  root_eq : input.pub.aspRoot = root
  inclusion : MerkleInclusion P.hash2 LEVELS input.label (signal input.aspSiblings)
    (indexSignal input.aspIndex) root

/-- The input takes its association part from the tree that is rebuilt from these deposits. -/
structure CircuitInput.Rebuilds (P : Circuit.Poseidon F) (scope : ℕ) (depositIndices : List ℕ)
    (index : ℕ) (input : CircuitInput F) : Prop where
  label : input.label = computeLabel P.hash2 scope index
  root : input.pub.aspRoot = (aspTree P scope depositIndices).root P.hash2
  siblings : input.aspSiblings = siblings (rebuiltPath P scope depositIndices index)
  indices : input.aspIndex = indices (rebuiltPath P scope depositIndices index)

/-- **An input that rebuilds the tree** proves an approved deposit against the provider's root
exactly if the provider approved what was read, in that order. -/
theorem CircuitInput.Rebuilds.provesAsp_iff [IsDomain F] [DecidableEq F]
    {r : ℕ} (hcast : Circuit.NatCastInj F r) {scope : ℕ} {approved depositIndices : List ℕ}
    (hbelow : ∀ i ∈ approved, i < r) (hdeposits : ∀ i ∈ depositIndices, i < r)
    (hlength : approved.length ≤ 2 ^ POOL_TREE_DEPTH) {index : ℕ} (happroved : index ∈ approved)
    {input : CircuitInput F} (h : input.Rebuilds P scope depositIndices index) :
    input.ProvesAsp P ((aspTree P scope approved).root P.hash2) ↔
      approved = depositIndices.take (2 ^ POOL_TREE_DEPTH) := by
  have hall : approved.take (2 ^ POOL_TREE_DEPTH) = approved := List.take_of_length_le hlength
  constructor
  · intro hproves
    have := (aspTree_root_eq_iff hcast hdeposits hbelow).mp (h.root.symm.trans hproves.root_eq)
    rw [hall] at this
    exact this.symm
  · intro heq
    have hfound : index ∈ depositIndices := List.mem_of_mem_take (heq ▸ happroved)
    have hroot : (aspTree P scope depositIndices).root P.hash2 =
        (aspTree P scope approved).root P.hash2 :=
      (aspTree_root_eq_iff hcast hdeposits hbelow).mpr (by rw [hall, ← heq])
    -- among the deposits that were read the note stands where it stands among the approved ones
    have hpos : depositIndices.idxOf index < 2 ^ (aspTree P scope depositIndices).depth := by
      have hlt : approved.idxOf index < approved.length := List.idxOf_lt_length_iff.mpr happroved
      have hinitial : approved <+: depositIndices := heq ▸ List.take_prefix _ _
      rw [← hinitial.idxOf_eq_of_mem happroved]
      exact lt_of_lt_of_le hlt hlength
    have hfold : Merkle.fold P.hash2 (computeLabel P.hash2 scope index)
        (rebuiltPath P scope depositIndices index) = (aspTree P scope approved).root P.hash2 := by
      rw [← hroot, ← MerkleTree.fold_proof P.hash2 _ hpos, padded_aspTree hfound]
      rfl
    have hinclusion := merkleInclusion_path P.hash2 (computeLabel P.hash2 scope index)
      (rebuiltPath P scope depositIndices index)
    rw [hfold, rebuiltPath, length_proof, ← rebuiltPath, ← h.siblings, ← h.indices,
      ← h.label] at hinclusion
    exact ⟨h.root.trans hroot, hinclusion⟩

/-- What the SDK returns without a fetched path rebuilds the tree of the deposits it was given. -/
theorem rebuilds_of_built [DecidableEq F] {keccak256 : List UInt8 → BytesN 32}
    {change : NoteSecrets F} {opts : WithdrawOptions F} {w : PoolWithdrawWitness F}
    (hnone : opts.aspInclusion = none)
    (hbuilt : buildPoolWithdrawWitness P keccak256 change opts = .ok w) :
    w.input.Rebuilds P opts.scope opts.depositIndices opts.note.leafIndex ∧
      w.aspRoot = w.input.pub.aspRoot := by
  obtain ⟨-, -, asp, hasp, rfl⟩ := buildPoolWithdrawWitness_eq_ok.mp hbuilt
  obtain ⟨-, rfl⟩ := (aspPath_of_none _ hnone).mp hasp
  exact ⟨⟨rfl, rfl, rfl, rfl⟩, rfl⟩

/-- So does the frontend, for the events it read. -/
theorem rebuilds_fullWithdrawal (keccak256 : List UInt8 → BytesN 32) (change : NoteSecrets F)
    (note : PoolNote F) (recipient relayer : Address) (fee : ℤ) (scope : ℕ)
    (events : PoolStateReconstruction) :
    (fullWithdrawal P keccak256 change note recipient relayer fee scope events).Rebuilds P scope
      events.depositIndices note.leafIndex :=
  ⟨rfl, rfl, rfl, rfl⟩

/-- What the frontend returns is the full withdrawal over the events it read. -/
theorem generateWithdrawProof_eq_ok {keccak256 : List UInt8 → BytesN 32} {S : Setting F}
    {toBE32 : F → BytesN 32} {deploymentLedger scope : ℕ} {net : FrontendNetwork}
    {change : NoteSecrets F} {note : PoolNote F} {recipient relayer : Address} {fee : ℤ}
    {c c' : Chain} {input : CircuitInput F}
    (h : generateWithdrawProof P keccak256 S toBE32 deploymentLedger scope net change note recipient
      relayer fee c = (.ok input, c')) :
    ∃ events c₁, readPoolEvents S deploymentLedger net c = (.ok events, c₁) ∧
      input = fullWithdrawal P keccak256 change note recipient relayer fee scope events := by
  obtain ⟨events, c₁, hread, h⟩ := Session.bind_eq_ok.mp h
  obtain ⟨-, c₂, -, h⟩ := Session.bind_eq_ok.mp h
  obtain ⟨publishedState, c₃, -, h⟩ := Session.bind_eq_ok.mp h
  obtain ⟨publishedAsp, c₄, -, h⟩ := Session.bind_eq_ok.mp h
  obtain ⟨-, c₅, -, h⟩ := Session.bind_eq_ok.mp h
  obtain ⟨rfl, rfl⟩ := Session.pure_eq_ok.mp h
  refine ⟨events, c₁, ?_, rfl⟩
  dsimp only at hread
  split at hread
  · next events' c₁' heq =>
      cases hread
      exact heq
  · cases hread

/-- **The provers rebuild the provider's tree exactly if everything was approved in order.** For
every run of the provider: when the root of the approved deposits is published and the note is one
of them, the input that the SDK computes from the events it read, and the one that the frontend
computes, prove the note's label against that root if and only if the approved deposits, in approval
order, are the deposits that were read, in index order. -/
theorem provers_agree_iff [IsDomain F] [DecidableEq F] (P : Circuit.Poseidon F) (S : Setting F)
    (hhash : S.hash2 = P.hash2) {r : ℕ} (hcast : Circuit.NatCastInj F r)
    (tokens : TokenLedger) (ledger : ℕ) (inputs : List Input) {set : AssociationSet F} {c : Chain}
    {note : PoolNote F} :
    let approved := ((machine S).final (.initial tokens ledger) inputs).state.approvedIndices
    associationSet S approved = .ok set →
    getLatestRoot c.world.pool .asp = .ok (set.rootHex S) → note.leafIndex ∈ approved →
    (∀ index ∈ approved, index < r) →
    (∀ deposits withdraws options state c' opts,
      reconstructState S deposits withdraws options c = (.ok state, c') →
      (∀ index ∈ state.depositIndices, index < r) →
      opts.note = note → opts.scope = S.scope → opts.depositIndices = state.depositIndices →
      opts.aspInclusion = none → ∀ keccak256 change,
      (approved = state.depositIndices.take (2 ^ POOL_TREE_DEPTH) →
        buildPoolWithdrawWitness P keccak256 change opts ≠ .error (.notDeposited note.leafIndex)) ∧
      ∀ w, buildPoolWithdrawWitness P keccak256 change opts = .ok w →
        (w.input.ProvesAsp P (set.tree.root P.hash2) ↔
          approved = state.depositIndices.take (2 ^ POOL_TREE_DEPTH)) ∧
        (approved = state.depositIndices.take (2 ^ POOL_TREE_DEPTH) →
          getLatestRoot c.world.pool .asp = .ok (S.toHex32 w.aspRoot))) ∧
    ∀ deploymentLedger net events c', readPoolEvents S deploymentLedger net c = (.ok events, c') →
      (∀ index ∈ events.depositIndices, index < r) →
      ∀ keccak256 change recipient relayer fee,
      ((fullWithdrawal P keccak256 change note recipient relayer fee S.scope events).ProvesAsp P
        (set.tree.root P.hash2) ↔
          approved = events.depositIndices.take (2 ^ POOL_TREE_DEPTH)) ∧
      ∀ toBE32 input c'', generateWithdrawProof P keccak256 S toBE32 deploymentLedger S.scope net
        change note recipient relayer fee c = (.ok input, c'') →
        input = fullWithdrawal P keccak256 change note recipient relayer fee S.scope events := by
  intro approved hset hpublished happroved hbelow
  obtain ⟨hlength, rfl⟩ := associationSet_eq_ok.mp hset
  have hroot : MerkleTree.root P.hash2 { leaves := labels S approved } =
      (aspTree P S.scope approved).root P.hash2 := by
    rw [labels, hhash]
    rfl
  rw [hroot]
  refine ⟨?_, ?_⟩
  · rintro deposits withdraws options state c' opts - hread rfl hscope hindices hnone keccak256 change
    refine ⟨?_, ?_⟩
    · intro hall herror
      have hfound : opts.note.leafIndex ∈ opts.depositIndices := by
        rw [hindices]
        exact List.mem_of_mem_take (hall ▸ happroved)
      exact ne_notDeposited hnone hfound herror
    · intro w hbuilt
      obtain ⟨hrebuilds, haspRoot⟩ := rebuilds_of_built hnone hbuilt
      have hiff := hrebuilds.provesAsp_iff hcast hbelow (hindices ▸ hread) hlength happroved
      rw [← hindices, ← hscope]
      refine ⟨hiff, ?_⟩
      intro hall
      rw [hpublished, AssociationSet.rootHex, hhash, hroot, haspRoot, (hiff.mpr hall).root_eq, hscope]
  · intro deploymentLedger net events c' hread hdeposits keccak256 change recipient relayer fee
    refine ⟨?_, ?_⟩
    · exact (rebuilds_fullWithdrawal keccak256 change note recipient relayer fee S.scope
        events).provesAsp_iff hcast hbelow hdeposits hlength happroved
    · intro toBE32 input c'' hgenerate
      obtain ⟨events', c₁, hread', rfl⟩ := generateWithdrawProof_eq_ok hgenerate
      rw [hread] at hread'
      cases hread'
      rfl

end Provable

/-! ## Two deposits, one of them rejected -/

namespace Demo

/-- Injective stand-ins for the hashes, by pairing numbers. -/
def code (a : ℤ) : ℕ := Equiv.intEquivNat a

def poseidon : Circuit.Poseidon ℤ where
  hash1 := id
  hash2 := fun a b => (Nat.pair (code a) (code b) : ℕ) + 1
  hash3 := fun a b c => (Nat.pair (code a) (Nat.pair (code b) (code c)) : ℕ) + 1
  hash2_inj := by
    intro a b c d h
    obtain ⟨hac, hbd⟩ := Nat.pair_eq_pair.mp (by exact_mod_cast add_right_cancel h)
    exact ⟨Equiv.intEquivNat.injective hac, Equiv.intEquivNat.injective hbd⟩
  hash3_inj := by
    intro a b c d e f h
    obtain ⟨had, hrest⟩ := Nat.pair_eq_pair.mp (by exact_mod_cast add_right_cancel h)
    obtain ⟨hbe, hcf⟩ := Nat.pair_eq_pair.mp hrest
    exact ⟨Equiv.intEquivNat.injective had, Equiv.intEquivNat.injective hbe,
      Equiv.intEquivNat.injective hcf⟩
  hash2_ne_zero := fun _ _ => by positivity
  hash3_ne_zero := fun _ _ _ => by positivity

theorem natCastInj (r : ℕ) : Circuit.NatCastInj ℤ r := fun _ _ _ _ => Int.ofNat_inj.mp

def setting : Setting ℤ where
  host := Pool.Demo.host
  describe := fun _ => "HostError: Error(Contract)".toList
  hash2 := poseidon.hash2
  toHex32 := fun x => BytesN.ofNat 32 x.toNat
  sha256 := fun _ => BytesN.ofNat 32 0
  scope := 9
  authority := Pool.Demo.admin

/-- A tick that rejects the deposits in a list. -/
def rejecting (rejected : List ℕ) : TickInput where
  policy := fun d => some (if d.index ∈ rejected then .reject else .approve)
  net := Asp.Demo.net

def run (rejected : List ℕ) : List Input := Asp.Demo.twoDeposits ++ [.tick (rejecting rejected)]

def final (rejected : List ℕ) : System := (machine setting).final Asp.Demo.start (run rejected)

/-- What the run left on the chain: a root of the approved deposits. -/
theorem latest_final {rejected : List ℕ}
    (hreport : (runPoolTick setting ((machine setting).final Asp.Demo.start Asp.Demo.twoDeposits)
      (rejecting rejected)).2.toOption.map (·.haltedForReorg) = some false)
    (happroved : (final rejected).state.approvedIndices ≠ [])
    (hleaves : (final rejected).state.leaves ≠ []) :
    getLatestRoot (final rejected).chain.world.pool .asp =
      .ok (labelRoot setting (final rejected).state.approvedIndices) := by
  have hfinal : final rejected = (runPoolTick setting
      ((machine setting).final Asp.Demo.start Asp.Demo.twoDeposits) (rejecting rejected)).1 :=
    final_tick setting _ _ _
  rw [hfinal] at happroved hleaves ⊢
  cases hresult : (runPoolTick setting ((machine setting).final Asp.Demo.start
      Asp.Demo.twoDeposits) (rejecting rejected)).2 with
  | error e =>
      rw [hresult] at hreport
      cases hreport
  | ok result =>
      rw [hresult] at hreport
      exact (rootsCurrent_tick hresult (Option.some.inj hreport) happroved hleaves
        Asp.Demo.net_quiet).1.1

def scan : Scan where
  first := Asp.Demo.page

/-- What a prover reads after the run. -/
def events : PoolStateReconstruction where
  stateLeaves := [BytesN.ofNat 32 100, BytesN.ofNat 32 101]
  depositIndices := [0, 1]

theorem reconstruct_final (rejected : List ℕ)
    (h : (reconstructState setting scan scan {} (final rejected).chain).1.toOption = some events) :
    ∃ c, reconstructState setting scan scan {} (final rejected).chain = (.ok events, c) := by
  cases hread : reconstructState setting scan scan {} (final rejected).chain with
  | mk result c =>
      rw [hread] at h
      cases result with
      | error e => cases h
      | ok state =>
          cases h
          exact ⟨c, rfl⟩

/-- The note of the second deposit. -/
def note : PoolNote ℤ where
  value := 10
  leafIndex := 1
  nullifier := 5
  secret := 6
  commitment := BytesN.ofNat 32 101

def options : WithdrawOptions ℤ where
  note := note
  recipient := Pool.Demo.account 5
  relayer := Pool.Demo.account 6
  fee := 0
  scope := 9
  stateLeaves := events.stateLeaves
  depositIndices := events.depositIndices

theorem build_options :
    ∃ w, buildPoolWithdrawWitness poseidon Pool.Demo.keccak256 ⟨7, 8⟩ options = .ok w := by
  have hnone : options.aspInclusion = none := rfl
  have hasp := (aspPath_of_none (P := poseidon) (computeLabel poseidon.hash2 options.scope
    options.note.leafIndex) hnone).mpr ⟨by decide, rfl⟩
  refine ⟨_, buildPoolWithdrawWitness_eq_ok.mpr ⟨by decide, ?_, _, hasp, rfl⟩⟩
  intro onChain honChain
  cases honChain
  rfl

end Demo

/-- The first deposit is rejected and the second approved: the root of the second alone is published,
and the witness for its note is built against another root. -/
theorem provers_disagree :
    ∃ set c w, associationSet Demo.setting (Demo.final [0]).state.approvedIndices = .ok set ∧
      getLatestRoot (Demo.final [0]).chain.world.pool .asp = .ok (set.rootHex Demo.setting) ∧
      Demo.note.leafIndex ∈ (Demo.final [0]).state.approvedIndices ∧
      reconstructState Demo.setting Demo.scan Demo.scan {} (Demo.final [0]).chain =
        (.ok Demo.events, c) ∧
      buildPoolWithdrawWitness Demo.poseidon Pool.Demo.keccak256 ⟨7, 8⟩ Demo.options = .ok w ∧
      w.aspRoot ≠ set.tree.root Demo.poseidon.hash2 := by
  have happroved : (Demo.final [0]).state.approvedIndices = [1] := by decide +kernel
  obtain ⟨c, hread⟩ := Demo.reconstruct_final [0] (by decide +kernel)
  obtain ⟨w, hw⟩ := Demo.build_options
  have hset := associationSet_eq_ok (S := Demo.setting).mpr ⟨show [1].length ≤ 2 ^ 20 by decide, rfl⟩
  rw [happroved]
  refine ⟨_, c, w, hset, ?_, by decide, hread, hw, ?_⟩
  · rw [Demo.latest_final (by decide +kernel) (by decide +kernel) (by decide +kernel), happroved]
    rfl
  · obtain ⟨hrebuilds, haspRoot⟩ := rebuilds_of_built rfl hw
    intro hroot
    have hroots : (aspTree Demo.poseidon 9 [0, 1]).root Demo.poseidon.hash2 =
      (aspTree Demo.poseidon 9 [1]).root Demo.poseidon.hash2 :=
      hrebuilds.root.symm.trans (haspRoot.symm.trans hroot)
    have := (aspTree_root_eq_iff (Demo.natCastInj 2) (by decide) (by decide)).mp hroots
    revert this
    decide

theorem provers_agree_iff_all_approved :
    ∃ w, buildPoolWithdrawWitness Demo.poseidon Pool.Demo.keccak256 ⟨7, 8⟩ Demo.options = .ok w ∧
      w.input.ProvesAsp Demo.poseidon
        ((aspTree Demo.poseidon 9 [0, 1]).root Demo.poseidon.hash2) := by
  have happroved : (Demo.final []).state.approvedIndices = [0, 1] := by decide +kernel
  obtain ⟨c, hread⟩ := Demo.reconstruct_final [] (by decide +kernel)
  obtain ⟨w, hw⟩ := Demo.build_options
  refine ⟨w, hw, ?_⟩
  have hset : associationSet Demo.setting (Demo.final []).state.approvedIndices = .ok
      ⟨[0, 1], labels Demo.setting [0, 1], { leaves := labels Demo.setting [0, 1] }⟩ := by
    rw [happroved]
    exact associationSet_eq_ok.mpr ⟨by decide, rfl⟩
  have hlatest : getLatestRoot (Demo.final []).chain.world.pool .asp =
      .ok (labelRoot Demo.setting [0, 1]) := by
    rw [Demo.latest_final (by decide +kernel) (by decide +kernel) (by decide +kernel), happroved]
  have hnote : Demo.note.leafIndex ∈ (Demo.final []).state.approvedIndices := by
    rw [happroved]
    decide
  have hbelow : ∀ index ∈ (Demo.final []).state.approvedIndices, index < 2 := by
    rw [happroved]
    decide
  have hagree := provers_agree_iff Demo.poseidon Demo.setting rfl (Demo.natCastInj 2)
    Pool.Demo.tokens 9 (Demo.run []) hset hlatest hnote hbelow
  refine ((hagree.1 _ _ _ _ c Demo.options hread (by decide) rfl rfl rfl rfl _ _).2 w hw).1.mpr ?_
  show (Demo.final []).state.approvedIndices = _
  rw [happroved]
  rfl

end OpaqueStellar.Prover
