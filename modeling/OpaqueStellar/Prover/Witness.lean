import OpaqueStellar.Prover.Change
import OpaqueStellar.Prover.Context

/-! # Witnesses that satisfy the circuit

`buildPoolWithdrawWitness` of the SDK for any note, any leaves and any fetched path. What it returns
satisfies the withdraw circuit if the amounts are numbers of sixty-four bits and both paths lead from
the note to the roots (`satisfies_iff`). The checks of the builder do not say so: a note beyond the
leaves, amounts of any size and fetched paths of any length, with any directions, are let through. -/

namespace OpaqueStellar.Prover

open OpaqueStellar.Lib OpaqueStellar.Soroban OpaqueStellar.Pool OpaqueStellar.Asp
open OpaqueStellar.Circuit (MerkleInclusion PrivacyPoolWithdraw LEVELS VALUE_BITS)

section Builder

variable {F : Type} [CommRing F] [DecidableEq F] (P : Circuit.Poseidon F)
  (keccak256 : List UInt8 → BytesN 32)

/-- The leaf that `proof` reads an index as. The bit operators take thirty-two signed bits of it; for
a negative number there are no siblings, and hashing them throws. -/
def treeIndex (leafIndex : ℕ) : Option ℕ :=
  if leafIndex % 2 ^ 32 < 2 ^ 31 then some (leafIndex % 2 ^ 32) else none

/-- The state path of a leaf in the place of the note's. -/
def withStatePath (opts : WithdrawOptions F) (i : ℕ) (w : PoolWithdrawWitness F) :
    PoolWithdrawWitness F :=
  let path := (stateTree (F := F) opts.stateLeaves).proof P.hash2 i
  { w with input := { w.input with stateSiblings := siblings path, stateIndex := indices path } }

/-- `buildPoolWithdrawWitness` for an index of any size; `none` where it throws. -/
def buildWitness (change : NoteSecrets F) (opts : WithdrawOptions F) :
    Option (PoolWithdrawWitness F) := do
  let i ← treeIndex opts.note.leafIndex
  let w ← (buildPoolWithdrawWitness P keccak256 change opts).toOption
  pure (withStatePath P opts i w)

/-! ## What is let through -/

/-- The withdrawn value: all of the note unless another one is given. -/
def WithdrawOptions.amount (opts : WithdrawOptions F) : ℤ :=
  opts.withdrawnValue.getD opts.note.value

def noteLabel (opts : WithdrawOptions F) : F := computeLabel P.hash2 opts.scope opts.note.leafIndex

/-- The commitment that the secrets of the note hash to. -/
def noteCommitment (opts : WithdrawOptions F) : F :=
  P.hash3 (opts.note.value : F) (noteLabel P opts) (P.hash2 opts.note.nullifier opts.note.secret)

/-- What the builder checks of the association path. -/
def AspAccepted (opts : WithdrawOptions F) : Prop :=
  match opts.aspInclusion with
  | some inclusion => inclusion.label = noteLabel P opts ∧
      inclusion.pathElements.length = inclusion.pathIndices.length ∧
      computedRoot P inclusion = inclusion.root
  | none => opts.note.leafIndex ∈ opts.depositIndices

/-- The association part of what is returned. -/
def aspPart (opts : WithdrawOptions F) : F × List F × List ℕ :=
  match opts.aspInclusion with
  | some inclusion => (inclusion.root, inclusion.pathElements, inclusion.pathIndices)
  | none =>
      let path := rebuiltPath P opts.scope opts.depositIndices opts.note.leafIndex
      ((aspTree P opts.scope opts.depositIndices).root P.hash2, siblings path, indices path)

/-- The checks of the builder, with the leaf that the note's index is read as. -/
structure Accepted (opts : WithdrawOptions F) (i : ℕ) : Prop where
  index : treeIndex opts.note.leafIndex = some i
  amount : 0 < opts.amount ∧ opts.amount ≤ opts.note.value
  leaf : ∀ onChain, opts.stateLeaves[opts.note.leafIndex]? = some onChain →
    onChain = opts.note.commitment
  asp : AspAccepted P opts

/-- What is returned for accepted options. -/
def builtWitness (change : NoteSecrets F) (opts : WithdrawOptions F) (i : ℕ) :
    PoolWithdrawWitness F :=
  withStatePath P opts i (assembleWitness P keccak256 change opts opts.amount (aspPart P opts))

variable {P keccak256}

theorem aspPath_eq_ok {opts : WithdrawOptions F} {asp : F × List F × List ℕ} :
    aspPath P opts (noteLabel P opts) = .ok asp ↔ AspAccepted P opts ∧ asp = aspPart P opts := by
  cases hinclusion : opts.aspInclusion with
  | none =>
      rw [aspPath_of_none _ hinclusion, AspAccepted, aspPart, hinclusion]
      rfl
  | some inclusion =>
      rw [aspPath, AspAccepted, aspPart, hinclusion]
      dsimp only
      split_ifs with hlabel hlength hroot
      · simp [hlabel]
      · simp [hlength]
      · simp [hroot]
      · simp_all [eq_comm]

theorem buildWitness_eq_some {change : NoteSecrets F} {opts : WithdrawOptions F}
    {w : PoolWithdrawWitness F} :
    buildWitness P keccak256 change opts = some w ↔
      ∃ i, Accepted P opts i ∧ builtWitness P keccak256 change opts i = w := by
  have hbuilder : ∀ v, (buildPoolWithdrawWitness P keccak256 change opts).toOption = some v ↔
      (0 < opts.amount ∧ opts.amount ≤ opts.note.value) ∧
      (∀ onChain, opts.stateLeaves[opts.note.leafIndex]? = some onChain →
        onChain = opts.note.commitment) ∧
      AspAccepted P opts ∧
      assembleWitness P keccak256 change opts opts.amount (aspPart P opts) = v := by
    intro v
    rw [toOption_eq_some_iff, buildPoolWithdrawWitness_eq_ok]
    refine and_congr_right fun _ => and_congr_right fun _ => ?_
    constructor
    · rintro ⟨asp, hasp, hv⟩
      obtain ⟨haccepted, rfl⟩ := aspPath_eq_ok.mp hasp
      exact ⟨haccepted, hv⟩
    · rintro ⟨haccepted, hv⟩
      exact ⟨_, aspPath_eq_ok.mpr ⟨haccepted, rfl⟩, hv⟩
  simp only [buildWitness, Option.bind_eq_bind, Option.bind_eq_some_iff, hbuilder, Option.pure_def,
    Option.some.injEq]
  constructor
  · rintro ⟨i, hi, v, ⟨hamount, hleaf, hasp, rfl⟩, rfl⟩
    exact ⟨i, ⟨hi, hamount, hleaf, hasp⟩, rfl⟩
  · rintro ⟨i, ⟨hi, hamount, hleaf, hasp⟩, rfl⟩
    exact ⟨i, hi, _, ⟨hamount, hleaf, hasp, rfl⟩, rfl⟩

/-- Below 2^31 an index is the leaf it is read as. -/
theorem buildWitness_of_lt {change : NoteSecrets F} {opts : WithdrawOptions F}
    (h : opts.note.leafIndex < 2 ^ 31) :
    buildWitness P keccak256 change opts =
      (buildPoolWithdrawWitness P keccak256 change opts).toOption := by
  have hindex : treeIndex opts.note.leafIndex = some opts.note.leafIndex := by
    rw [treeIndex, Nat.mod_eq_of_lt (by omega), if_pos h]
  rw [buildWitness, hindex]
  cases hbuilt : buildPoolWithdrawWitness P keccak256 change opts with
  | error e => rfl
  | ok w =>
      obtain ⟨-, -, asp, -, rfl⟩ := buildPoolWithdrawWitness_eq_ok.mp hbuilt
      rfl

end Builder

/-! ## What the circuit asks for -/

section Paths

variable {F : Type} [CommRing F] [IsDomain F] [DecidableEq F] {hash2 : F → F → F} {leaf root : F}

/-- A path of the tree's depth is an inclusion proof for the root that it leads to. -/
theorem merkleInclusion_indices_iff {path : List (F × Bool)} (hlength : path.length = LEVELS) :
    MerkleInclusion hash2 LEVELS leaf (signal (siblings path)) (indexSignal (indices path)) root ↔
      Merkle.fold hash2 leaf path = root := by
  have hpath := merkleInclusion_path hash2 leaf path
  rw [hlength] at hpath
  constructor
  · intro h
    rw [h.root, hpath.root]
  · rintro rfl
    exact hpath

/-- The directions that the circuit reads from a fetched path. -/
def directions (elements : List F) (indices : List ℕ) : List (F × Bool) :=
  elements.zip (indices.map fun n : ℕ => decide ((n : F) = 1))

/-- A fetched path is an inclusion proof if its directions are bits and it leads to the root. -/
theorem merkleInclusion_iff {elements : List F} {indices : List ℕ}
    (helements : elements.length = LEVELS) (hindices : indices.length = LEVELS) :
    MerkleInclusion hash2 LEVELS leaf (signal elements) (indexSignal indices) root ↔
      (∀ n ∈ indices, (n : F) = 0 ∨ (n : F) = 1) ∧
      Merkle.fold hash2 leaf (directions elements indices) = root := by
  have hget : ∀ i (hi : i < indices.length), (indexSignal indices i : F) = (indices[i] : F) := by
    intro i hi
    simp [indexSignal, List.getD_eq_getElem?_getD, hi]
  have hbinary : (∀ i < LEVELS, indexSignal indices i * (1 - indexSignal indices i) = (0 : F)) ↔
      ∀ n ∈ indices, (n : F) = 0 ∨ (n : F) = 1 := by
    rw [← hindices]
    constructor
    · intro h n hn
      obtain ⟨i, hi, rfl⟩ := List.getElem_of_mem hn
      rw [← hget i hi]
      apply Circuit.eq_zero_or_one_of_bit
      linear_combination -(h i hi)
    · intro h i hi
      rw [hget i hi]
      rcases h indices[i] (List.getElem_mem hi) with hbit | hbit
      · simp [hbit]
      · simp [hbit]
  have hpath : Circuit.path (signal elements) (indexSignal indices) LEVELS =
      directions elements indices := by
    apply List.ext_getElem
    · simp [directions, Circuit.length_path, helements, hindices]
    · intro i hi hi'
      have hlt : i < LEVELS := by rwa [Circuit.length_path] at hi
      have hbound : i < elements.length := by rwa [helements]
      have hsibling : signal elements i = elements[i] := by
        simp [signal, List.getD_eq_getElem?_getD, helements, hlt]
      simp [Circuit.path, directions, hsibling, hget i (by rw [hindices]; exact hlt)]
  constructor
  · intro h
    refine ⟨hbinary.mp h.binary, ?_⟩
    rw [← hpath, ← Circuit.merkleCur_eq_fold h.binary, h.root]
  · rintro ⟨hbits, rfl⟩
    refine ⟨hbinary.mpr hbits, ?_⟩
    rw [← hpath, Circuit.merkleCur_eq_fold (hbinary.mpr hbits)]

end Paths

/-! ## When the witness satisfies the circuit -/

section Satisfies

variable {F : Type} [CommRing F] [DecidableEq F] (P : Circuit.Poseidon F)

/-- The leaf leads to the root of the tree of these leaves along the path of position `i`: with the
leaf in its place, the block of leaves that holds the position is the first one. -/
def LeadsToRoot (leaves : List F) (i : ℕ) (leaf : F) : Prop :=
  ∀ j < 2 ^ LEVELS, Function.update (MerkleTree.padded leaves) i leaf
    (i / 2 ^ LEVELS * 2 ^ LEVELS + j) = MerkleTree.padded leaves j

/-- The amounts are numbers of sixty-four bits. -/
def AmountsInRange (opts : WithdrawOptions F) : Prop :=
  ∃ value withdrawn : ℕ, value < 2 ^ VALUE_BITS ∧ withdrawn ≤ value ∧
    (opts.note.value : F) = value ∧ (opts.amount : F) = withdrawn

/-- The label leads to the association root: the path that was fetched, in the circuit's depth and as
the circuit reads it, or the one in the rebuilt tree. -/
def AspLeads (opts : WithdrawOptions F) : Prop :=
  match opts.aspInclusion with
  | some inclusion => inclusion.pathElements.length = LEVELS ∧
      (∀ n ∈ inclusion.pathIndices, (n : F) = 0 ∨ (n : F) = 1) ∧
      Merkle.fold P.hash2 (noteLabel P opts)
        (directions inclusion.pathElements inclusion.pathIndices) = inclusion.root
  | none => LeadsToRoot (opts.depositIndices.map (computeLabel P.hash2 opts.scope))
      (opts.depositIndices.idxOf opts.note.leafIndex) (noteLabel P opts)

structure Provable (opts : WithdrawOptions F) (i : ℕ) : Prop where
  amounts : AmountsInRange opts
  state : LeadsToRoot (opts.stateLeaves.map (fieldOf F)) i (noteCommitment P opts)
  asp : AspLeads P opts

variable {P}

omit [DecidableEq F] in
/-- Inside the tree it is the leaf at the position. -/
theorem leadsToRoot_iff_of_lt {leaves : List F} {i : ℕ} {leaf : F} (h : i < 2 ^ LEVELS) :
    LeadsToRoot leaves i leaf ↔ MerkleTree.padded leaves i = leaf := by
  rw [LeadsToRoot, Nat.div_eq_of_lt h, Nat.zero_mul]
  constructor
  · intro hall
    have hi := hall i h
    rw [Nat.zero_add, Function.update_self] at hi
    exact hi.symm
  · intro hi j _
    rw [Nat.zero_add, Function.update_apply]
    split
    · next hj => rw [hj, hi]
    · rfl

omit [DecidableEq F] in
theorem fold_proof_iff {leaves : List F} {i : ℕ} {leaf : F} :
    Merkle.fold P.hash2 leaf ((poolMerkleTree leaves).proof P.hash2 i) =
      (poolMerkleTree leaves).root P.hash2 ↔ LeadsToRoot leaves i leaf := by
  rw [MerkleTree.proof_eq_authPath, Merkle.fold_authPath_update, MerkleTree.root_eq_node,
    Merkle.node_eq_iff P.hash2_inj]
  simp only [Nat.zero_add]
  rfl

/-- The association part of accepted options. -/
theorem aspLeads_iff [IsDomain F] {opts : WithdrawOptions F} (h : AspAccepted P opts) :
    ((aspPart P opts).2.1.length = LEVELS ∧ (aspPart P opts).2.2.length = LEVELS) ∧
      MerkleInclusion P.hash2 LEVELS (noteLabel P opts) (signal (aspPart P opts).2.1)
        (indexSignal (aspPart P opts).2.2) (aspPart P opts).1 ↔ AspLeads P opts := by
  cases hinclusion : opts.aspInclusion with
  | some inclusion =>
      simp only [AspAccepted, hinclusion] at h
      simp only [aspPart, AspLeads, hinclusion]
      rw [← h.2.1, and_self]
      refine and_congr_right fun hlength => ?_
      rw [merkleInclusion_iff hlength (h.2.1.symm.trans hlength)]
  | none =>
      have hlength : (rebuiltPath P opts.scope opts.depositIndices opts.note.leafIndex).length =
          LEVELS := length_proof _ _ _
      simp only [aspPart, AspLeads, hinclusion]
      rw [merkleInclusion_indices_iff hlength, siblings, indices, List.length_map, List.length_map,
        hlength, rebuiltPath, aspTree, fold_proof_iff]
      simp

/-- The state part of what is returned. -/
theorem stateLeads_iff [IsDomain F] {opts : WithdrawOptions F} {i : ℕ} {leaf : F} :
    MerkleInclusion P.hash2 LEVELS leaf
      (signal (siblings ((stateTree (F := F) opts.stateLeaves).proof P.hash2 i)))
      (indexSignal (indices ((stateTree (F := F) opts.stateLeaves).proof P.hash2 i)))
      ((stateTree (F := F) opts.stateLeaves).root P.hash2) ↔
    LeadsToRoot (opts.stateLeaves.map (fieldOf F)) i leaf := by
  rw [merkleInclusion_indices_iff (length_proof _ _ _), stateTree, fold_proof_iff]

/-- **When a returned input satisfies the circuit**: exactly if the amounts are in range and both
paths lead to their roots. -/
theorem satisfies_iff [IsDomain F] {r : ℕ} (hr : 2 ^ (VALUE_BITS + 1) ≤ r)
    (hcast : Circuit.NatCastInj F r) {keccak256 : List UInt8 → BytesN 32}
    {change : NoteSecrets F} {opts : WithdrawOptions F} {i : ℕ} (h : AspAccepted P opts) :
    (builtWitness P keccak256 change opts i).input.Satisfies P ↔ Provable P opts i := by
  have hlength : ((stateTree (F := F) opts.stateLeaves).proof P.hash2 i).length = LEVELS :=
    length_proof _ _ _
  constructor
  · intro hsatisfies
    obtain ⟨valueBits, withdrawnBits, leBits, hcircuit⟩ := hsatisfies.constraints
    exact ⟨hcircuit.values hr hcast, stateLeads_iff.mp hcircuit.stateProof,
      (aspLeads_iff h).mp ⟨hsatisfies.aspLevels, hcircuit.aspProof⟩⟩
  · intro hprovable
    obtain ⟨value, withdrawn, hvalue, hle, hv, hw⟩ := hprovable.amounts
    obtain ⟨hlevels, hasp⟩ := (aspLeads_iff h).mpr hprovable.asp
    have hsuccessor : ((value + 1 : ℕ) : F) = (opts.note.value : F) + 1 := by
      rw [hv, Nat.cast_add, Nat.cast_one]
    constructor
    case stateLevels => simp [builtWitness, withStatePath, siblings, indices, hlength]
    case aspLevels => exact hlevels
    case constraints =>
      refine ⟨Circuit.binaryDigits F value, Circuit.binaryDigits F withdrawn,
        Circuit.binaryDigits F (withdrawn + 2 ^ VALUE_BITS - (value + 1)), ?_⟩
      constructor
      case stateProof => exact stateLeads_iff.mpr hprovable.state
      case aspProof => exact hasp
      case nullifier => rfl
      case valueRange =>
        show Circuit.Num2Bits VALUE_BITS (opts.note.value : F) _
        rw [hv]
        exact Circuit.num2Bits_binaryDigits hvalue
      case withdrawnRange =>
        show Circuit.Num2Bits VALUE_BITS (opts.amount : F) _
        rw [hw]
        exact Circuit.num2Bits_binaryDigits (lt_of_le_of_lt hle hvalue)
      case le =>
        show Circuit.LessThan VALUE_BITS (opts.amount : F) ((opts.note.value : F) + 1) _ 1
        rw [hw, ← hsuccessor]
        exact Circuit.lessThan_binaryDigits (Nat.lt_succ_of_le hle) hvalue
      case newCommit =>
        show P.hash3 ((opts.note.value : F) - (opts.amount : F)) _ _ =
          P.hash3 ((opts.note.value - opts.amount : ℤ) : F) _ _
        rw [Int.cast_sub]
        rfl

end Satisfies

/-! ## Derived notes, and all others -/

section Complete

variable {F : Type} [CommRing F] [DecidableEq F]

/-- The note is derived by `deriveDeposit`, it is a leaf and a deposit, and the amounts are those of
a withdrawal. -/
structure Derived (P : Circuit.Poseidon F) (opts : WithdrawOptions F) : Prop where
  commitment : fieldOf F opts.note.commitment = noteCommitment P opts
  room : opts.stateLeaves.length ≤ 2 ^ LEVELS
  leaf : opts.stateLeaves[opts.note.leafIndex]? = some opts.note.commitment
  deposit : opts.note.leafIndex ∈ opts.depositIndices
  rebuilt : opts.aspInclusion = none
  amount : 0 < opts.amount ∧ opts.amount ≤ opts.note.value ∧ opts.note.value < 2 ^ VALUE_BITS

/-- The public signals are what is returned, and the context is the contract's. -/
structure Publishes (host : Pool.Host) (opts : WithdrawOptions F) (w : PoolWithdrawWitness F) :
    Prop where
  amount : w.withdrawnValue = opts.amount ∧ w.input.pub.withdrawnValue = (opts.amount : F)
  stateRoot : w.input.pub.stateRoot = w.stateRoot
  aspRoot : w.input.pub.aspRoot = w.aspRoot
  nullifierHash : w.input.pub.nullifierHash = w.nullifierHash
  newCommitment : w.input.pub.newCommitment = w.newCommitment
  context : ∀ c : ContextArgs, c.recipient = opts.recipient → c.withdrawnValue.val = opts.amount →
    c.fee.val = opts.fee → c.relayer = opts.relayer → c.scope.toNat = opts.scope →
    w.input.pub.context = ((c.context host).toNat : F)

/-- What is asked of the builder for one input: derived notes get a witness, and whatever is returned
satisfies the circuit. -/
structure Witnesses (P : Circuit.Poseidon F) (host : Pool.Host) (change : NoteSecrets F)
    (opts : WithdrawOptions F) : Prop where
  complete : Derived P opts → ∃ w, buildWitness P host.keccak256 change opts = some w ∧
    w.input.Satisfies P ∧ Publishes host opts w
  sound : ∀ w, buildWitness P host.keccak256 change opts = some w → w.input.Satisfies P

variable {P : Circuit.Poseidon F} {opts : WithdrawOptions F}

omit [DecidableEq F] in
theorem Derived.accepted (h : Derived P opts) : Accepted P opts opts.note.leafIndex := by
  obtain ⟨hlt, -⟩ := List.getElem?_eq_some_iff.mp h.leaf
  have hsmall : opts.note.leafIndex < 2 ^ 20 := lt_of_lt_of_le hlt h.room
  constructor
  case index => rw [treeIndex, Nat.mod_eq_of_lt (by omega), if_pos (by omega)]
  case amount => exact ⟨h.amount.1, h.amount.2.1⟩
  case leaf =>
    intro onChain honChain
    exact Option.some.inj (honChain.symm.trans h.leaf)
  case asp =>
    rw [AspAccepted, h.rebuilt]
    exact h.deposit

/-- The label of a deposit leads to the root of the rebuilt tree if its place is in the tree. -/
theorem aspLeads_of_lt (hnone : opts.aspInclusion = none)
    (hdeposit : opts.note.leafIndex ∈ opts.depositIndices)
    (hplace : opts.depositIndices.idxOf opts.note.leafIndex < 2 ^ LEVELS) : AspLeads P opts := by
  rw [AspLeads, hnone]
  exact (leadsToRoot_iff_of_lt hplace).mpr (padded_aspTree hdeposit)

/-- **A derived note can be proved**, as long as its deposit is among those that the tree holds. -/
theorem Derived.provable (h : Derived P opts)
    (hplace : opts.depositIndices.idxOf opts.note.leafIndex < 2 ^ LEVELS) :
    Provable P opts opts.note.leafIndex := by
  obtain ⟨hlt, -⟩ := List.getElem?_eq_some_iff.mp h.leaf
  obtain ⟨hpos, hle, hrange⟩ := h.amount
  constructor
  case amounts =>
    refine ⟨opts.note.value.toNat, opts.amount.toNat, ?_, Int.toNat_le_toNat hle, ?_, ?_⟩
    · rw [Int.toNat_lt (by omega)]
      exact_mod_cast hrange
    · rw [← Int.cast_natCast, Int.toNat_of_nonneg (by omega)]
    · rw [← Int.cast_natCast, Int.toNat_of_nonneg hpos.le]
  case state =>
    rw [leadsToRoot_iff_of_lt (lt_of_lt_of_le hlt h.room), MerkleTree.padded,
      List.getD_eq_getElem?_getD, List.getElem?_map, h.leaf, ← h.commitment]
    rfl
  case asp => exact aspLeads_of_lt h.rebuilt h.deposit hplace

omit [DecidableEq F] in
theorem publishes_builtWitness (host : Pool.Host) (change : NoteSecrets F) (i : ℕ) :
    Publishes host opts (builtWitness P host.keccak256 change opts i) := by
  constructor
  case amount => exact ⟨rfl, rfl⟩
  case stateRoot => rfl
  case aspRoot => rfl
  case nullifierHash => rfl
  case newCommitment => rfl
  case context =>
    intro c hrecipient hamount hfee hrelayer hscope
    rw [toNat_context_eq, hrecipient, hamount, hfee, hrelayer, hscope]
    rfl

/-- **When the builder does what is asked of it**: exactly where its checks leave only inputs whose
amounts are in range and whose paths lead to their roots. -/
theorem witnesses_iff [IsDomain F] (P : Circuit.Poseidon F) {r : ℕ}
    (hr : 2 ^ (VALUE_BITS + 1) ≤ r) (hcast : Circuit.NatCastInj F r) (host : Pool.Host)
    (change : NoteSecrets F) (opts : WithdrawOptions F) :
    Witnesses P host change opts ↔ ∀ i, Accepted P opts i → Provable P opts i := by
  have hsound : (∀ w, buildWitness P host.keccak256 change opts = some w →
      w.input.Satisfies P) ↔ ∀ i, Accepted P opts i → Provable P opts i := by
    constructor
    · intro h i hi
      exact (satisfies_iff hr hcast hi.asp).mp (h _ (buildWitness_eq_some.mpr ⟨i, hi, rfl⟩))
    · intro h w hw
      obtain ⟨i, hi, rfl⟩ := buildWitness_eq_some.mp hw
      exact (satisfies_iff hr hcast hi.asp).mpr (h i hi)
  rw [← hsound]
  constructor
  · intro h
    exact h.sound
  · intro h
    refine ⟨?_, h⟩
    intro hderived
    have hbuilt := buildWitness_eq_some.mpr
      ⟨_, hderived.accepted, Eq.refl (builtWitness P host.keccak256 change opts _)⟩
    exact ⟨_, hbuilt, h _ hbuilt, publishes_builtWitness host change _⟩

end Complete

/-! ## A leaf that was not read -/

/-- Half of a deposit gets a witness. -/
theorem witnesses_half : Witnesses Demo.poseidon Pool.Demo.host ⟨7, 8⟩ Demo.half := by
  have hr : 2 ^ (VALUE_BITS + 1) ≤ 2 ^ 65 := le_rfl
  apply (witnesses_iff Demo.poseidon hr (Demo.natCastInj _) Pool.Demo.host ⟨7, 8⟩ Demo.half).mpr
  intro i hi
  obtain rfl : i = 0 := (Option.some.inj hi.index).symm
  apply Derived.provable
  · constructor
    case commitment => decide
    case room => decide
    case leaf => rfl
    case deposit => decide
    case rebuilt => rfl
    case amount => decide
  · decide

/-- A second deposit with the same secrets, at an index that the leaves do not reach. -/
def Demo.unread : WithdrawOptions ℤ where
  note := {
    value := 10
    leafIndex := 1
    nullifier := 5
    secret := 6
    commitment := Demo.bytes (Demo.poseidon.hash3 10 (computeLabel Demo.poseidon.hash2 9 1)
      (Demo.poseidon.hash2 5 6)) }
  recipient := Pool.Demo.account 5
  relayer := Pool.Demo.account 6
  fee := 1
  scope := 9
  stateLeaves := [Demo.deposited.commitment]
  depositIndices := [0, 1]
  withdrawnValue := some 5

/-- The builder returns a witness for it, which does not satisfy the circuit. -/
theorem unread_unsatisfied : ∃ w,
    buildWitness Demo.poseidon Pool.Demo.keccak256 ⟨7, 8⟩ Demo.unread = some w ∧
      ¬w.input.Satisfies Demo.poseidon := by
  have haccepted : Accepted Demo.poseidon Demo.unread 1 := by
    constructor
    case index => rfl
    case amount => decide
    case leaf =>
      intro onChain honChain
      cases honChain
    case asp =>
      show 1 ∈ [0, 1]
      decide
  refine ⟨_, buildWitness_eq_some.mpr ⟨1, haccepted, rfl⟩, ?_⟩
  intro hsatisfies
  have hr : 2 ^ (VALUE_BITS + 1) ≤ 2 ^ 65 := le_rfl
  have hstate := ((satisfies_iff hr (Demo.natCastInj _) haccepted.asp).mp hsatisfies).state
  -- the leaf at the index is the empty one
  rw [leadsToRoot_iff_of_lt (by decide)] at hstate
  exact Demo.poseidon.hash3_ne_zero _ _ _ hstate.symm

end OpaqueStellar.Prover
