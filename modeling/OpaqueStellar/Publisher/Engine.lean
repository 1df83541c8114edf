import OpaqueStellar.Asp.Merkle
import OpaqueStellar.Lib.Bytes
import OpaqueStellar.Schemas.Core

/-! # The reputation publisher

`publisher/src`: holders hand in leaf commitments for their attestations, and a tick that runs again
and again screens them against the chain, builds the tree of those that pass and posts its root.

Hexadecimal strings of 32 bytes are those bytes, as `normalizeHex32` brings every spelling to one
form. What the chain answers during a tick, and whether a call of the adapter fails, is an argument
of the tick. -/

namespace OpaqueStellar.Publisher

open OpaqueStellar.Lib OpaqueStellar.Schemas OpaqueStellar.Soroban

/-! ## Data -/

structure LeafCommitment where
  id : Str
  leaf : BytesN 32
  schemaId : BytesN 32
  attestationUid : BytesN 32
  holderSignature : BytesN 65
  deriving DecidableEq

structure OnChainAttestation where
  schemaId : BytesN 32
  stealthAddressHash : BytesN 32
  expirationLedger : ℕ
  revocationLedger : ℕ
  deriving DecidableEq

structure PublisherState where
  leaves : List LeafCommitment := []
  lastPublishedRoot : Option (BytesN 32) := none
  lastPublishedLedger : Option ℕ := none
  lastDatasetHash : Option (BytesN 32) := none
  deriving DecidableEq

/-- What the publisher keeps: its state, the queued commitments and the identifiers it archived. -/
structure Store where
  state : Option PublisherState := none
  inbox : List LeafCommitment := []
  archived : List Str := []
  deriving DecidableEq

/-- The hash functions, and the recovery of a secp256k1 key from a signature, a recovery bit and a
digest. -/
structure Crypto where
  keccak256 : List UInt8 → BytesN 32
  sha256 : List UInt8 → BytesN 32
  recoverPublicKey : List UInt8 → ℕ → BytesN 32 → Option (List UInt8)

/-- The Poseidon hash of two field elements, and the hexadecimal form of one. -/
structure TreeHash (F : Type) where
  hash2 : F → F → F
  bigintToHex32 : F → BytesN 32

/-- What the chain adapter answers during one tick; `none` is a call that throws. The reads of
attestations are numbered in the order they are made. -/
structure Adapter where
  currentLedger : Option ℕ
  getAttestation : ℕ → BytesN 32 → Option (Option OnChainAttestation)
  currentRoot : Option (Option (BytesN 32))
  -- the ledger reported for the posted root
  postRoot : Option (Option ℕ)

/-! ## Holder signatures -/

def hexDigit (n : ℕ) : Char := if n < 10 then Char.ofNat (48 + n) else Char.ofNat (87 + n)

def hex32 (b : BytesN 32) : Str :=
  "0x".toList ++ b.1.flatMap fun x => [hexDigit (x.toNat / 16), hexDigit (x.toNat % 16)]

def submissionMessage (uid schemaId leaf : BytesN 32) : Str :=
  "OPAQUE_REPUTATION_SUBMISSION_V1\n".toList ++ hex32 uid ++ ['\n'] ++ hex32 schemaId ++ ['\n'] ++
    hex32 leaf

section Crypto

variable (crypto : Crypto)

/-- The signer's address, hashed, is the stealth address the attestation was issued to. -/
def verifyHolderSignature (uid schemaId leaf : BytesN 32) (signature : BytesN 65)
    (stealthAddressHash : BytesN 32) : Bool :=
  let last := (signature.1.getD 64 0).toNat
  let recovery := if 27 ≤ last then last - 27 else last
  if recovery ≠ 0 ∧ recovery ≠ 1 then false
  else
    let digest := crypto.keccak256 (asBytes (submissionMessage uid schemaId leaf))
    match crypto.recoverPublicKey (signature.1.take 64) recovery digest with
    | none => false
    | some publicKey =>
        let address := (crypto.keccak256 (publicKey.drop 1)).1.drop 12
        crypto.keccak256 address == stealthAddressHash

/-! ## Screening -/

/-- Is the attestation one that the leaf may be published for at this ledger? -/
def acceptable (ledger : ℕ) (leaf : LeafCommitment) (attestation : OnChainAttestation) : Bool :=
  attestation.revocationLedger == 0 &&
    (attestation.expirationLedger == 0 || ledger < attestation.expirationLedger) &&
    attestation.schemaId == leaf.schemaId &&
    verifyHolderSignature crypto leaf.attestationUid leaf.schemaId leaf.leaf leaf.holderSignature
      attestation.stealthAddressHash

def isValidLeaf (adapter : Adapter) (ledger call : ℕ) (leaf : LeafCommitment) :
    Except String Bool :=
  match adapter.getAttestation call leaf.attestationUid with
  | none => .error "getAttestation"
  | some none => .ok false
  | some (some attestation) => .ok (acceptable crypto ledger leaf attestation)

/-- The leaves that pass, in order; the first of them is read with call number `call`. -/
def screen (adapter : Adapter) (ledger : ℕ) : ℕ → List LeafCommitment →
    Except String (List LeafCommitment)
  | _, [] => .ok []
  | call, leaf :: rest => do
      let valid ← isValidLeaf crypto adapter ledger call leaf
      let kept ← screen adapter ledger (call + 1) rest
      pure (if valid then leaf :: kept else kept)

/-! ## Merging -/

structure Merged where
  accepted : List LeafCommitment := []
  duplicateResubmissions : ℕ := 0
  identityCollisions : List LeafCommitment := []

/-- One incoming leaf, against the existing leaves and those accepted before it. A map from
identifiers holds the last leaf that was set. -/
def mergeLeaf (existing : List LeafCommitment) (m : Merged) (leaf : LeafCommitment) : Merged :=
  let known := existing ++ m.accepted
  let existingById := known.reverse.find? fun x => x.id = leaf.id
  let existingByLeaf := known.any fun x => x.leaf = leaf.leaf
  if existingById.any fun x => x.leaf = leaf.leaf then
    { m with duplicateResubmissions := m.duplicateResubmissions + 1 }
  else if existingById.isSome || existingByLeaf then
    { m with identityCollisions := m.identityCollisions ++ [leaf] }
  else { m with accepted := m.accepted ++ [leaf] }

def mergeLeaves (existing incoming : List LeafCommitment) : Merged :=
  incoming.foldl (mergeLeaf existing) {}

/-! ## Roots -/

/-- `insert` of the publisher's tree, which is the tree of the association-set provider with a
message of its own. -/
def insertLeaf {F : Type} (t : Asp.MerkleTree F) (leaf : F) : Except String (Asp.MerkleTree F) :=
  match t.insert leaf with
  | .ok (t, _) => .ok t
  | .error _ => .error "reputation tree is full"

def buildRoot {F : Type} [Zero F] (fieldOf : BytesN 32 → F) (tree : TreeHash F)
    (leaves : List (BytesN 32)) : Except String (BytesN 32) := do
  let t ← leaves.foldlM (fun t leaf => insertLeaf t (fieldOf leaf)) ({} : Asp.MerkleTree F)
  pure (tree.bigintToHex32 (t.root tree.hash2))

def computeDatasetHash (root : BytesN 32) (leaves : List (BytesN 32)) : BytesN 32 :=
  crypto.sha256 (beBytes 4 leaves.length ++ root.1 ++ leaves.flatMap (·.1))

/-! ## The tick -/

structure PublisherTickResult where
  leafCount : ℕ
  newlyAccepted : ℕ
  localRoot : Option (BytesN 32)
  onChainRoot : Option (BytesN 32)
  datasetHash : Option (BytesN 32)
  published : Bool
  deriving DecidableEq

/-- What was handed to `postRoot`, and the leaves it was built from. -/
structure Posted where
  root : BytesN 32
  datasetHash : BytesN 32
  leaves : List LeafCommitment
  deriving DecidableEq

structure Tick where
  store : Store
  posted : Option Posted
  result : Except String PublisherTickResult

/-- The leaves of a tick, before anything is published. -/
structure Screened where
  leaves : List LeafCommitment
  newlyAccepted : ℕ
  pruned : Bool

def Store.leaves (st : Store) : List LeafCommitment := (st.state.getD {}).leaves

def screenAll (adapter : Adapter) (st : Store) : Except String Screened :=
  match adapter.currentLedger with
  | none => .error "currentLedger"
  | some ledger => do
      let active ← screen crypto adapter ledger 0 st.leaves
      let eligible ← screen crypto adapter ledger st.leaves.length st.inbox
      let merged := mergeLeaves active eligible
      pure ⟨active ++ merged.accepted, merged.accepted.length, active.length < st.leaves.length⟩

/-- `save` and `archiveInbox`: the commitments that were read leave the inbox. -/
def Store.finish (st : Store) (state : PublisherState) : Store where
  state := some state
  inbox := st.inbox.filter fun x => !(st.inbox.map (·.id)).contains x.id
  archived := st.archived ++ st.inbox.map (·.id)

def runPublisherTick {F : Type} [Zero F] (fieldOf : BytesN 32 → F) (tree : TreeHash F)
    (minLeavesToPublish : ℕ) (adapter : Adapter) (st : Store) : Tick :=
  match screenAll crypto adapter st with
  | .error e => ⟨st, none, .error e⟩
  | .ok s =>
      let state := { st.state.getD {} with leaves := s.leaves }
      if s.leaves.length < minLeavesToPublish ∧ s.pruned = false then
        let result := match adapter.currentRoot with
          | none => .error "currentRoot"
          | some onChainRoot =>
              .ok ⟨s.leaves.length, s.newlyAccepted, none, onChainRoot, none, false⟩
        ⟨st.finish state, none, result⟩
      else
        let leafValues := s.leaves.map (·.leaf)
        match buildRoot fieldOf tree leafValues, adapter.currentRoot with
        | .error e, _ => ⟨st, none, .error e⟩
        | .ok _, none => ⟨st, none, .error "currentRoot"⟩
        | .ok localRoot, some onChainRoot =>
            let datasetHash := computeDatasetHash crypto localRoot leafValues
            let report := fun published => (⟨s.leaves.length, s.newlyAccepted, some localRoot,
              onChainRoot, some datasetHash, published⟩ : PublisherTickResult)
            if some localRoot = onChainRoot then ⟨st.finish state, none, .ok (report false)⟩
            else
              let posted := some ⟨localRoot, datasetHash, s.leaves⟩
              match adapter.postRoot with
              | none => ⟨st, posted, .error "postRoot"⟩
              | some ledger =>
                  let state := { state with
                    lastPublishedRoot := some localRoot
                    lastPublishedLedger := ledger
                    lastDatasetHash := some datasetHash }
                  ⟨st.finish state, posted, .ok (report true)⟩

/-! ## Submissions -/

def DEFAULT_MAX_INBOX_SIZE : ℕ := 10000

/-- `POST /v1/reputation/leaves`, from the normalised commitment on: the reply's status and error, or
the store with the commitment queued. -/
def postLeaf (attestation : Option OnChainAttestation) (ledger : ℕ) (st : Store)
    (commitment : LeafCommitment) : Except (ℕ × String) Store :=
  match attestation with
  | none => .error (422, "attestation UID does not exist on-chain")
  | some a =>
      if a.schemaId ≠ commitment.schemaId then
        .error (422, "attestation schema does not match submission")
      else if a.revocationLedger ≠ 0 then .error (422, "attestation has been revoked")
      else if a.expirationLedger ≠ 0 ∧ a.expirationLedger ≤ ledger then
        .error (422, "attestation has expired")
      else if !verifyHolderSignature crypto commitment.attestationUid commitment.schemaId
          commitment.leaf commitment.holderSignature a.stealthAddressHash then
        .error (422, "holder signature does not control the attested stealth identity")
      else if DEFAULT_MAX_INBOX_SIZE ≤ st.inbox.length then .error (429, "inbox full")
      else .ok { st with inbox := st.inbox ++ [commitment] }

end Crypto

/-! ## What a tick publishes -/

section Spec

variable {crypto : Crypto} {adapter : Adapter} {ledger : ℕ}

/-- The chain answered a read of this tick with an attestation that the leaf may be published for. -/
def Vouched (crypto : Crypto) (adapter : Adapter) (ledger : ℕ) (leaf : LeafCommitment) : Prop :=
  ∃ call attestation, adapter.getAttestation call leaf.attestationUid = some (some attestation) ∧
    acceptable crypto ledger leaf attestation = true

theorem isValidLeaf_eq_ok {call : ℕ} {leaf : LeafCommitment}
    (h : isValidLeaf crypto adapter ledger call leaf = .ok true) :
    Vouched crypto adapter ledger leaf := by
  unfold isValidLeaf at h
  split at h
  · cases h
  · cases h
  · next attestation hread => exact ⟨call, attestation, hread, Except.ok.inj h⟩

theorem screen_vouched {call : ℕ} {leaves kept : List LeafCommitment}
    (h : screen crypto adapter ledger call leaves = .ok kept) :
    ∀ c ∈ kept, c ∈ leaves ∧ Vouched crypto adapter ledger c := by
  induction leaves generalizing call kept with
  | nil =>
      cases h
      intro c hc
      cases hc
  | cons leaf rest ih =>
      simp only [screen, bind_eq_ok, pure_eq_ok] at h
      obtain ⟨valid, hvalid, tail, htail, rfl⟩ := h
      have hlater : ∀ c ∈ tail, c ∈ leaf :: rest ∧ Vouched crypto adapter ledger c := by
        intro c hc
        obtain ⟨hmem, hvouched⟩ := ih htail c hc
        exact ⟨List.mem_cons_of_mem _ hmem, hvouched⟩
      cases valid with
      | false => exact hlater
      | true =>
          intro c hc
          rcases List.mem_cons.mp hc with rfl | hc
          · exact ⟨List.mem_cons_self, isValidLeaf_eq_ok hvalid⟩
          · exact hlater c hc

theorem mergeLeaf_mem {existing : List LeafCommitment} {m : Merged} {leaf c : LeafCommitment}
    (h : c ∈ (mergeLeaf existing m leaf).accepted) : c ∈ m.accepted ∨ c = leaf := by
  unfold mergeLeaf at h
  dsimp only at h
  split at h
  · exact .inl h
  · split at h
    · exact .inl h
    · rcases List.mem_append.mp h with h | h
      · exact .inl h
      · exact .inr (List.mem_singleton.mp h)

theorem mergeLeaves_mem {existing incoming : List LeafCommitment} {c : LeafCommitment}
    (h : c ∈ (mergeLeaves existing incoming).accepted) : c ∈ incoming := by
  have hfold : ∀ m, c ∈ (incoming.foldl (mergeLeaf existing) m).accepted →
      c ∈ m.accepted ∨ c ∈ incoming := by
    clear h
    induction incoming with
    | nil => exact fun m hm => .inl hm
    | cons leaf rest ih =>
        intro m hm
        rcases ih _ hm with hm | hm
        · rcases mergeLeaf_mem hm with hm | rfl
          · exact .inl hm
          · exact .inr List.mem_cons_self
        · exact .inr (List.mem_cons_of_mem _ hm)
  rcases hfold {} h with h | h
  · cases h
  · exact h

theorem screen_sublist {call : ℕ} {leaves kept : List LeafCommitment}
    (h : screen crypto adapter ledger call leaves = .ok kept) : kept.Sublist leaves := by
  induction leaves generalizing call kept with
  | nil =>
      cases h
      exact List.Sublist.refl _
  | cons leaf rest ih =>
      simp only [screen, bind_eq_ok, pure_eq_ok] at h
      obtain ⟨valid, -, tail, htail, rfl⟩ := h
      cases valid with
      | false => exact (ih htail).cons leaf
      | true => exact (ih htail).cons_cons leaf

/-- The leaves that a tick screened: those that passed, and the new ones among the inbox. -/
theorem screenAll_eq_ok {st : Store} {s : Screened} (h : screenAll crypto adapter st = .ok s) :
    ∃ ledger active eligible, adapter.currentLedger = some ledger ∧
      screen crypto adapter ledger 0 st.leaves = .ok active ∧
      screen crypto adapter ledger st.leaves.length st.inbox = .ok eligible ∧
      s.leaves = active ++ (mergeLeaves active eligible).accepted := by
  unfold screenAll at h
  split at h
  · cases h
  · next ledger hledger =>
      simp only [bind_eq_ok, pure_eq_ok] at h
      obtain ⟨active, hactive, eligible, heligible, rfl⟩ := h
      exact ⟨ledger, active, eligible, hledger, hactive, heligible, rfl⟩

/-- All commitments in the publisher's hands. -/
def Store.commitments (st : Store) : List LeafCommitment := st.leaves ++ st.inbox

theorem screenAll_vouched {st : Store} {s : Screened}
    (h : screenAll crypto adapter st = .ok s) :
    ∃ ledger, adapter.currentLedger = some ledger ∧
      ∀ c ∈ s.leaves, c ∈ st.commitments ∧ Vouched crypto adapter ledger c := by
  obtain ⟨ledger, active, eligible, hledger, hactive, heligible, hleaves⟩ := screenAll_eq_ok h
  refine ⟨ledger, hledger, ?_⟩
  intro c hc
  rw [hleaves] at hc
  rcases List.mem_append.mp hc with hc | hc
  · obtain ⟨hmem, hvouched⟩ := screen_vouched hactive c hc
    exact ⟨List.mem_append_left _ hmem, hvouched⟩
  · obtain ⟨hmem, hvouched⟩ := screen_vouched heligible c (mergeLeaves_mem hc)
    exact ⟨List.mem_append_right _ hmem, hvouched⟩

section Tree

variable {F : Type}

theorem insertLeaf_eq_ok {t t' : Asp.MerkleTree F} {leaf : F} :
    insertLeaf t leaf = .ok t' ↔ t.leaves.length < 2 ^ t.depth ∧
      t' = { t with leaves := t.leaves ++ [leaf] } := by
  unfold insertLeaf
  split
  · next t₁ index heq =>
      obtain ⟨hroom, rfl, -⟩ := Asp.MerkleTree.insert_eq_ok.mp heq
      rw [Except.ok.injEq, eq_comm]
      exact ⟨fun h => ⟨hroom, h⟩, fun h => h.2⟩
  · next e heq =>
      constructor
      · intro h
        cases h
      · rintro ⟨hroom, -⟩
        rw [Asp.MerkleTree.insert_eq_ok.mpr ⟨hroom, rfl, rfl⟩] at heq
        cases heq

variable [Zero F] {fieldOf : BytesN 32 → F} {tree : TreeHash F}

omit [Zero F] in
/-- The tree of a list of leaves is built exactly if they fit. -/
theorem foldlM_insertLeaf_eq_ok {leaves : List (BytesN 32)} {t : Asp.MerkleTree F} :
    leaves.foldlM (fun t leaf => insertLeaf t (fieldOf leaf)) ({} : Asp.MerkleTree F) = .ok t ↔
      leaves.length ≤ 2 ^ Asp.TREE_DEPTH ∧ t = { leaves := leaves.map fieldOf } := by
  rw [Asp.MerkleTree.foldlM_insert_eq_ok (fun _ _ _ => insertLeaf_eq_ok) (Nat.zero_le _),
    List.length_nil, Nat.zero_add]
  rfl

theorem buildRoot_eq_ok {leaves : List (BytesN 32)} {root : BytesN 32}
    (h : buildRoot fieldOf tree leaves = .ok root) :
    root = tree.bigintToHex32
      (Asp.MerkleTree.root tree.hash2 { leaves := leaves.map fieldOf }) := by
  simp only [buildRoot, bind_eq_ok, pure_eq_ok, foldlM_insertLeaf_eq_ok] at h
  obtain ⟨t, ⟨-, rfl⟩, rfl⟩ := h
  rfl

/-- **What a tick posts** is the root of leaves that it had and that the chain vouched for. -/
theorem tick_posted {minLeaves : ℕ} {st : Store} {p : Posted}
    (h : (runPublisherTick crypto fieldOf tree minLeaves adapter st).posted = some p) :
    p.root = tree.bigintToHex32
        (Asp.MerkleTree.root tree.hash2 { leaves := p.leaves.map fun c => fieldOf c.leaf }) ∧
      ∃ ledger, adapter.currentLedger = some ledger ∧
        ∀ c ∈ p.leaves, c ∈ st.commitments ∧ Vouched crypto adapter ledger c := by
  unfold runPublisherTick at h
  split at h
  · cases h
  · next s hscreened =>
      have hvouched := screenAll_vouched hscreened
      dsimp only at h
      split at h
      · cases h
      · split at h
        · cases h
        · cases h
        · next localRoot onChainRoot hroot hcurrent =>
            have hbuilt := buildRoot_eq_ok hroot
            rw [List.map_map] at hbuilt
            split at h
            · cases h
            · split at h
              · cases h
                exact ⟨hbuilt, hvouched⟩
              · cases h
                exact ⟨hbuilt, hvouched⟩

/-- A tick that got to the end: it saved the leaves it screened, and their root is on the chain, except
that nothing is published while the leaves are too few and none was pruned. -/
structure Tick.Saves (crypto : Crypto) (fieldOf : BytesN 32 → F) (tree : TreeHash F) (minLeaves : ℕ)
    (adapter : Adapter) (st : Store) (s : Screened) (t : Tick) : Prop where
  screened : screenAll crypto adapter st = .ok s
  store : ∃ state : PublisherState, state.leaves = s.leaves ∧ t.store = st.finish state
  root : s.leaves.length < minLeaves ∧ s.pruned = false ∨ ∃ root result,
    buildRoot fieldOf tree (s.leaves.map (·.leaf)) = .ok root ∧ t.result = .ok result ∧
      (result.onChainRoot = some root ∨ ∃ p, t.posted = some p ∧ p.root = root)

theorem Tick.Saves.leaves_eq {minLeaves : ℕ} {st : Store} {s : Screened} {t : Tick}
    (h : t.Saves crypto fieldOf tree minLeaves adapter st s) : t.store.leaves = s.leaves := by
  obtain ⟨state, hleaves, hstore⟩ := h.store
  rw [hstore, ← hleaves]
  rfl

/-- **A tick fails and changes nothing, or it saves.** -/
theorem tick_cases (crypto : Crypto) (fieldOf : BytesN 32 → F) (tree : TreeHash F) (minLeaves : ℕ)
    (adapter : Adapter) (st : Store) :
    ((runPublisherTick crypto fieldOf tree minLeaves adapter st).store = st ∧
      ∃ e, (runPublisherTick crypto fieldOf tree minLeaves adapter st).result = .error e) ∨
    ∃ s, (runPublisherTick crypto fieldOf tree minLeaves adapter st).Saves crypto fieldOf tree
      minLeaves adapter st s := by
  unfold runPublisherTick
  split
  · exact .inl ⟨rfl, _, rfl⟩
  · next s hscreened =>
      dsimp only
      split
      · next hfew => exact .inr ⟨s, hscreened, ⟨_, rfl, rfl⟩, .inl hfew⟩
      · split
        · exact .inl ⟨rfl, _, rfl⟩
        · exact .inl ⟨rfl, _, rfl⟩
        · next localRoot onChainRoot hroot _ =>
            split
            · next hsame =>
                exact .inr ⟨s, hscreened, ⟨_, rfl, rfl⟩,
                  .inr ⟨localRoot, _, hroot, rfl, .inl hsame.symm⟩⟩
            · split
              · exact .inl ⟨rfl, _, rfl⟩
              · exact .inr ⟨s, hscreened, ⟨_, rfl, rfl⟩,
                  .inr ⟨localRoot, _, hroot, rfl, .inr ⟨_, rfl, rfl⟩⟩⟩

theorem inbox_finish (st : Store) (state : PublisherState) : (st.finish state).inbox = [] := by
  apply List.filter_eq_nil_iff.mpr
  intro c hc
  have hid : c.id ∈ st.inbox.map (·.id) := List.mem_map_of_mem hc
  simp [hid]

theorem mem_finish {st : Store} {state : PublisherState} {c : LeafCommitment}
    (h : c ∈ (st.finish state).commitments) : c ∈ state.leaves ∨ c ∈ st.commitments := by
  rcases List.mem_append.mp h with h | h
  · exact .inl h
  · exact .inr (List.mem_append_right _ (List.mem_filter.mp h).1)

/-- A tick invents no commitment. -/
theorem tick_commitments {minLeaves : ℕ} {st : Store} {c : LeafCommitment}
    (h : c ∈ (runPublisherTick crypto fieldOf tree minLeaves adapter st).store.commitments) :
    c ∈ st.commitments := by
  rcases tick_cases crypto fieldOf tree minLeaves adapter st with ⟨hsame, -⟩ | ⟨s, hsaves⟩
  · rwa [hsame] at h
  · obtain ⟨ledger, -, hvouched⟩ := screenAll_vouched hsaves.screened
    obtain ⟨state, hleaves, hstore⟩ := hsaves.store
    rw [hstore] at h
    rcases mem_finish h with h | h
    · rw [hleaves] at h
      exact (hvouched c h).1
    · exact h

end Tree

/-- A submission that is accepted is queued. -/
theorem postLeaf_queued {attestation : Option OnChainAttestation} {st st' : Store}
    {commitment : LeafCommitment}
    (h : postLeaf crypto attestation ledger st commitment = .ok st') :
    st' = { st with inbox := st.inbox ++ [commitment] } := by
  unfold postLeaf at h
  split at h
  · cases h
  · repeat
      split at h
      · cases h
    exact (Except.ok.inj h).symm

/-- A submission adds one commitment. -/
theorem postLeaf_commitments {attestation : Option OnChainAttestation} {st st' : Store}
    {commitment : LeafCommitment}
    (h : postLeaf crypto attestation ledger st commitment = .ok st') {c : LeafCommitment}
    (hc : c ∈ st'.commitments) : c ∈ st.commitments ∨ c = commitment := by
  obtain rfl := postLeaf_queued h
  rcases List.mem_append.mp hc with hc | hc
  · exact .inl (List.mem_append_left _ hc)
  · rcases List.mem_append.mp hc with hc | hc
    · exact .inl (List.mem_append_right _ hc)
    · exact .inr (List.mem_singleton.mp hc)

end Spec

end OpaqueStellar.Publisher
