import Mathlib.Data.ZMod.Basic
import OpaqueStellar.Lib.Machine
import OpaqueStellar.Publisher.Engine

/-! # The publisher's service

`publisher/src/http.ts`: submissions are queued, ticks run one after another in the background, and
`GET /v1/reputation/root/:leaf` answers with an inclusion path that it rebuilds from the saved state.
The state is saved in one write at the end of a tick, so a request that is answered while a tick runs
is one that comes before it.

The tree is hashed in the scalar field of BN254, with any function in the place of Poseidon. -/

namespace OpaqueStellar.Publisher

open OpaqueStellar.Lib OpaqueStellar.Schemas OpaqueStellar.Soroban

/-! ## Field elements -/

def BN254_MODULUS : ℕ :=
  21888242871839275222246405745257275088548364400416034343698204186575808495617

instance : NeZero BN254_MODULUS := ⟨by decide⟩

abbrev Scalar := ZMod BN254_MODULUS

/-- A hexadecimal string as an input of the hash. -/
def toScalar (b : BytesN 32) : Scalar := (b.toNat : Scalar)

def bigintToHex32 (x : Scalar) : BytesN 32 := BytesN.ofNat 32 x.val

/-- A field element is read back from its hexadecimal form. -/
theorem toScalar_bigintToHex32 (x : Scalar) : toScalar (bigintToHex32 x) = x := by
  have hfits : x.val < 256 ^ 32 := (ZMod.val_lt x).trans (by decide)
  have hread : (bigintToHex32 x).toNat = x.val := by
    rw [bigintToHex32, BytesN.toNat, BytesN.ofNat, beNat_beBytes, Nat.mod_eq_of_lt hfits]
  rw [toScalar, hread, ZMod.natCast_zmod_val]

def treeHash (hash2 : Scalar → Scalar → Scalar) : TreeHash Scalar := ⟨hash2, bigintToHex32⟩

/-! ## Inclusion proofs -/

structure InclusionProof where
  root : BytesN 32
  leafIndex : ℕ
  pathElements : List (BytesN 32)
  pathIndices : List ℕ
  deriving DecidableEq

def buildProof {F : Type} [Zero F] (fieldOf : BytesN 32 → F) (tree : TreeHash F)
    (leaves : List (BytesN 32)) (leaf : BytesN 32) : Except String InclusionProof := do
  let t ← leaves.foldlM (fun t leaf => insertLeaf t (fieldOf leaf)) ({} : Asp.MerkleTree F)
  if leaf ∈ leaves then
    let leafIndex := leaves.idxOf leaf
    let path := t.proof tree.hash2 leafIndex
    pure {
      root := tree.bigintToHex32 (t.root tree.hash2)
      leafIndex := leafIndex
      pathElements := path.map fun s => tree.bigintToHex32 s.1
      pathIndices := path.map fun s => if s.2 then 1 else 0 }
  else .error "leaf not found"

structure RootResponse extends InclusionProof where
  leaf : BytesN 32
  leafCount : ℕ
  datasetHash : BytesN 32
  deriving DecidableEq

/-! ## The service -/

/-- What happens to the service. The answers of the chain to a submission are part of it; `none` is a
call that throws. -/
inductive Input where
  | post (attestation : Option (Option OnChainAttestation)) (ledger : Option ℕ)
      (commitment : LeafCommitment)
  | tick (adapter : Adapter)
  | get (leaf : BytesN 32)

inductive Output where
  | posted (r : Except (ℕ × String) Unit)
  | ticked (posted : Option Posted) (result : Except String PublisherTickResult)
  | root (r : Except (ℕ × String) RootResponse)
  deriving DecidableEq

/-- `cfg.minLeavesToPublish ?? 1` -/
def DEFAULT_MIN_LEAVES : ℕ := 1

section Service

variable (crypto : Crypto) (hash2 : Scalar → Scalar → Scalar)

def rootResponse (st : Store) (leaf : BytesN 32) : Except String RootResponse := do
  let leafValues := st.leaves.map (·.leaf)
  let proof ← buildProof toScalar (treeHash hash2) leafValues leaf
  pure { proof with
    leaf := leaf
    leafCount := leafValues.length
    datasetHash := computeDatasetHash crypto proof.root leafValues }

def post (st : Store) (attestation : Option (Option OnChainAttestation)) (ledger : Option ℕ)
    (commitment : LeafCommitment) : Except (ℕ × String) Store :=
  match attestation, ledger with
  | some attestation, some ledger => postLeaf crypto attestation ledger st commitment
  | _, _ => .error (500, "Internal server error")

/-- The background tick, which uses the default for the number of leaves. -/
def tick (adapter : Adapter) (st : Store) : Tick :=
  runPublisherTick crypto toScalar (treeHash hash2) DEFAULT_MIN_LEAVES adapter st

def step (st : Store) : Input → Store × Output
  | .post attestation ledger commitment =>
      match post crypto st attestation ledger commitment with
      | .ok st => (st, .posted (.ok ()))
      | .error e => (st, .posted (.error e))
  | .tick adapter =>
      let t := tick crypto hash2 adapter st
      (t.store, .ticked t.posted t.result)
  | .get leaf =>
      match rootResponse crypto hash2 st leaf with
      | .ok r => (st, .root (.ok r))
      | .error _ => (st, .root (.error (404, "leaf not included in the current reputation root")))

def machine : Machine Store Input Output := ⟨step crypto hash2⟩

/-- The tick gets to saving and archiving. -/
def Completes (adapter : Adapter) (st : Store) : Prop :=
  ∃ s, (tick crypto hash2 adapter st).Saves crypto toScalar (treeHash hash2) DEFAULT_MIN_LEAVES
    adapter st s

end Service

abbrev ServiceStep := Machine.Step Store Input Output

/-! ## What an inclusion proof says -/

/-- The siblings of a served path, as elements of the field, with their directions. -/
def InclusionProof.path (p : InclusionProof) : List (Scalar × Bool) :=
  (p.pathElements.map toScalar).zip (p.pathIndices.map fun i => decide (i = 1))

/-- The path is read back as it was before it was written out. -/
theorem path_written (root : BytesN 32) (leafIndex : ℕ) (path : List (Scalar × Bool)) :
    InclusionProof.path ⟨root, leafIndex, path.map fun s => bigintToHex32 s.1,
      path.map fun s => if s.2 then 1 else 0⟩ = path := by
  unfold InclusionProof.path
  dsimp only
  induction path with
  | nil => rfl
  | cons s path ih =>
      obtain ⟨sibling, right⟩ := s
      simp only [List.map_cons, List.zip_cons_cons, ih, toScalar_bigintToHex32]
      cases right with
      | false => rfl
      | true => rfl

section Spec

variable {crypto : Crypto} {hash2 : Scalar → Scalar → Scalar}

/-- The root of the tree over some leaves, as it is posted. -/
def rootHex (hash2 : Scalar → Scalar → Scalar) (leaves : List (BytesN 32)) : BytesN 32 :=
  bigintToHex32 (Asp.MerkleTree.root hash2 { leaves := leaves.map toScalar })

theorem buildProof_eq_ok {leaves : List (BytesN 32)} {leaf : BytesN 32} {p : InclusionProof}
    (h : buildProof toScalar (treeHash hash2) leaves leaf = .ok p) :
    leaf ∈ leaves ∧ p.root = rootHex hash2 leaves ∧
      bigintToHex32 (Merkle.fold hash2 (toScalar leaf) p.path) = p.root := by
  simp only [buildProof, bind_eq_ok, foldlM_insertLeaf_eq_ok] at h
  obtain ⟨t, ⟨hfits, rfl⟩, h⟩ := h
  split at h
  · next hmem =>
      cases h
      have hbelow : leaves.idxOf leaf < leaves.length := List.idxOf_lt_length_iff.mpr hmem
      have hleaf : Asp.MerkleTree.padded (leaves.map toScalar) (leaves.idxOf leaf) =
          toScalar leaf := by
        rw [Asp.MerkleTree.padded, List.getD_eq_getElem?_getD, List.getElem?_map,
          List.getElem?_idxOf hmem]
        rfl
      have hfold := Asp.MerkleTree.fold_proof hash2 { leaves := leaves.map toScalar }
        (lt_of_lt_of_le hbelow hfits)
      rw [hleaf] at hfold
      refine ⟨hmem, rfl, congrArg bigintToHex32 ?_⟩
      exact (congrArg (Merkle.fold hash2 (toScalar leaf)) (path_written _ _ _)).trans hfold
  · cases h

theorem rootResponse_eq_ok {st : Store} {leaf : BytesN 32} {r : RootResponse}
    (h : rootResponse crypto hash2 st leaf = .ok r) :
    r.leaf = leaf ∧ leaf ∈ st.leaves.map (·.leaf) ∧
      r.root = rootHex hash2 (st.leaves.map (·.leaf)) ∧
      bigintToHex32 (Merkle.fold hash2 (toScalar leaf) r.path) = r.root := by
  obtain ⟨p, hproof, hr⟩ := bind_eq_ok.mp h
  cases pure_eq_ok.mp hr
  exact ⟨rfl, buildProof_eq_ok hproof⟩

/-! ## Served roots were published -/

/-- In this step the root was on the chain: a tick that completed had it posted, or read it back. -/
def HeldOnChain (e : ServiceStep) (root : BytesN 32) : Prop :=
  ∃ posted result, e.output = .ticked posted (.ok result) ∧
    (result.onChainRoot = some root ∨ ∃ p, posted = some p ∧ p.root = root)

/-- The root of the saved leaves has been on the chain, if there are any. -/
def Published (hash2 : Scalar → Scalar → Scalar) (t : List ServiceStep) (st : Store) : Prop :=
  st.leaves ≠ [] → ∃ e ∈ t, HeldOnChain e (rootHex hash2 (st.leaves.map (·.leaf)))

theorem Published.mono {t : List ServiceStep} {st st' : Store} (h : Published hash2 t st)
    (hleaves : st'.leaves = st.leaves) (e : ServiceStep) : Published hash2 (t ++ [e]) st' := by
  intro hne
  rw [hleaves] at hne ⊢
  obtain ⟨e', he', hheld⟩ := h hne
  exact ⟨e', List.mem_append_left _ he', hheld⟩

/-- A tick that saves other leaves than before has their root posted, or finds it posted. -/
theorem published_tick {t : List ServiceStep} {st : Store} (h : Published hash2 t st)
    (adapter : Adapter) :
    Published hash2 (t ++ [(machine crypto hash2).stepAt st (.tick adapter)])
      (tick crypto hash2 adapter st).store := by
  rcases tick_cases crypto toScalar (treeHash hash2) DEFAULT_MIN_LEAVES adapter st with
    ⟨hsame, -⟩ | ⟨s, hsaves⟩
  · exact h.mono (congrArg Store.leaves hsame) _
  · have hafter : (tick crypto hash2 adapter st).store.leaves = s.leaves := hsaves.leaves_eq
    intro hne
    rw [hafter] at hne ⊢
    rcases hsaves.root with ⟨hfew, -⟩ | ⟨root, result, hroot, hresult, hheld⟩
    · -- fewer leaves than one are none
      exact absurd (List.length_eq_zero_iff.mp (Nat.lt_one_iff.mp hfew)) hne
    · have hroot' : root = rootHex hash2 (s.leaves.map (·.leaf)) := buildRoot_eq_ok hroot
      refine ⟨_, List.mem_append_right _ (List.mem_singleton.mpr rfl), ?_⟩
      rw [← hroot']
      exact ⟨_, result, congrArg (Output.ticked _) hresult, hheld⟩

theorem post_queued {st st' : Store} {attestation : Option (Option OnChainAttestation)}
    {ledger : Option ℕ} {commitment : LeafCommitment}
    (h : post crypto st attestation ledger commitment = .ok st') :
    st' = { st with inbox := st.inbox ++ [commitment] } := by
  unfold post at h
  split at h
  · exact postLeaf_queued h
  · cases h

/-- What a step that is no tick does to the store: an accepted submission is queued. -/
theorem step_cases (crypto : Crypto) (hash2 : Scalar → Scalar → Scalar) (st : Store) (i : Input) :
    (∃ adapter, i = .tick adapter) ∨ (step crypto hash2 st i).1 = st ∨
      ∃ attestation ledger commitment, i = .post attestation ledger commitment ∧
        (step crypto hash2 st i).2 = .posted (.ok ()) ∧
        (step crypto hash2 st i).1 = { st with inbox := st.inbox ++ [commitment] } := by
  cases i with
  | tick adapter => exact .inl ⟨adapter, rfl⟩
  | get leaf =>
      refine .inr (.inl ?_)
      unfold step
      dsimp only
      split
      · rfl
      · rfl
  | post attestation ledger commitment =>
      refine .inr ?_
      unfold step
      dsimp only
      split
      · next st' hpost =>
          exact .inr ⟨attestation, ledger, commitment, rfl, rfl, post_queued hpost⟩
      · exact .inl rfl

theorem published_run (inputs : List Input) :
    Published hash2 ((machine crypto hash2).trace {} inputs)
      ((machine crypto hash2).final {} inputs) := by
  refine (machine crypto hash2).invariant (I := Published hash2) ?_ ?_ inputs
  · exact fun hne => absurd rfl hne
  · intro t st i h
    rcases step_cases crypto hash2 st i with ⟨adapter, rfl⟩ | hsame | ⟨_, _, _, -, -, hqueued⟩
    · exact published_tick h adapter
    · exact h.mono (congrArg Store.leaves hsame) _
    · have hleaves : ((machine crypto hash2).step st i).1.leaves = st.leaves :=
        (congrArg Store.leaves hqueued :)
      exact h.mono hleaves _

/-- **Only published roots are served.** Whatever submissions, ticks and requests came before, and
however the calls of the chain went during the ticks: the root that a request for a leaf is answered
with was on the chain at an earlier tick, and the path leads from the leaf to it. -/
theorem served_root_published (crypto : Crypto) (hash2 : Scalar → Scalar → Scalar)
    (inputs : List Input) {leaf : BytesN 32} {r : RootResponse}
    (h : (step crypto hash2 ((machine crypto hash2).final {} inputs) (.get leaf)).2 =
      .root (.ok r)) :
    (∃ e ∈ (machine crypto hash2).trace {} inputs, HeldOnChain e r.root) ∧ r.leaf = leaf ∧
      bigintToHex32 (Merkle.fold hash2 (toScalar r.leaf) r.path) = r.root := by
  have hserved :
      rootResponse crypto hash2 ((machine crypto hash2).final {} inputs) leaf = .ok r := by
    unfold step at h
    dsimp only at h
    split at h
    · next heq =>
        cases h
        exact heq
    · cases h
  obtain ⟨rfl, hmem, hroot, hpath⟩ := rootResponse_eq_ok hserved
  refine ⟨?_, rfl, hpath⟩
  rw [hroot]
  apply published_run inputs
  intro hnone
  rw [hnone] at hmem
  cases hmem

end Spec

/-! ## One leaf -/

namespace Demo

def numeric (bs : List UInt8) : BytesN 32 := BytesN.ofNat 32 (beNat bs)

/-- Whoever signed, the recovered key is the same. -/
def crypto : Crypto := ⟨numeric, numeric, fun _ _ _ => some (List.replicate 65 1)⟩

def attestation : OnChainAttestation where
  schemaId := BytesN.ofNat 32 3
  stealthAddressHash := numeric (List.replicate 20 1)
  expirationLedger := 0
  revocationLedger := 0

/-- A commitment for the attestation with this identifier. -/
def commitment (id : String) (uid leaf : ℕ) : LeafCommitment where
  id := id.toList
  leaf := BytesN.ofNat 32 leaf
  schemaId := BytesN.ofNat 32 3
  attestationUid := BytesN.ofNat 32 uid
  holderSignature := BytesN.ofNat 65 0

/-- Every attestation exists, and roots are posted. -/
def adapter : Adapter where
  currentLedger := some 10
  getAttestation := fun _ _ => some (some attestation)
  currentRoot := some none
  postRoot := some (some 11)

def submit (c : LeafCommitment) : Input := .post (some (some attestation)) (some 10) c

def add (x y : Scalar) : Scalar := x + y

end Demo

theorem served_root_published_one :
    ∃ r, (step Demo.crypto Demo.add ((machine Demo.crypto Demo.add).final {}
        [Demo.submit (Demo.commitment "a" 1 100), .tick Demo.adapter])
        (.get (BytesN.ofNat 32 100))).2 = .root (.ok r) ∧
      ∃ e ∈ (machine Demo.crypto Demo.add).trace {}
        [Demo.submit (Demo.commitment "a" 1 100), .tick Demo.adapter], HeldOnChain e r.root := by
  have hserved : (rootResponse Demo.crypto Demo.add ((machine Demo.crypto Demo.add).final {}
      [Demo.submit (Demo.commitment "a" 1 100), .tick Demo.adapter])
      (BytesN.ofNat 32 100)).toOption.isSome = true := by decide
  cases hr : rootResponse Demo.crypto Demo.add ((machine Demo.crypto Demo.add).final {}
      [Demo.submit (Demo.commitment "a" 1 100), .tick Demo.adapter]) (BytesN.ofNat 32 100) with
  | error e =>
      rw [hr] at hserved
      cases hserved
  | ok r =>
      have hget : (step Demo.crypto Demo.add ((machine Demo.crypto Demo.add).final {}
          [Demo.submit (Demo.commitment "a" 1 100), .tick Demo.adapter])
          (.get (BytesN.ofNat 32 100))).2 = .root (.ok r) := by
        simp only [step, hr]
      exact ⟨r, hget, (served_root_published Demo.crypto Demo.add _ hget).1⟩

end OpaqueStellar.Publisher
