import OpaqueStellar.Attestations.Effect
import OpaqueStellar.Circuit.StealthReputation
import OpaqueStellar.Pool.Notes
import OpaqueStellar.Publisher.Engine
import OpaqueStellar.Reputation.Contract

/-! # The reputation system

The attestation engine, the publisher and the reputation verifier as one machine. Anyone calls the
two contracts and hands commitments to the publisher; a tick of the publisher reads its inbox, asks
the engine and posts a root; a root that was posted may reach the verifier contract at any later
moment, or never. Between reading the inbox and asking the engine anything else may happen.

`Backed` is what a verified proof should mean: the root it was verified against was built from
leaves among which one belongs to an attestation of the proved schema. -/

namespace OpaqueStellar.Reputation

open OpaqueStellar.Lib OpaqueStellar.Soroban OpaqueStellar.Circuit OpaqueStellar.Publisher
open OpaqueStellar.Pool (fieldOf)

/-! ## The system -/

/-- The two contracts, what the publisher keeps, the inbox as the running tick has read it, and the
roots that were handed to the network. -/
structure System where
  engine : Attestations.World := {}
  verifier : World := {}
  publisher : Publisher.Store := {}
  reading : Option (List LeafCommitment) := none
  pending : List Posted := []

/-- What stays the same during a run. -/
structure Setting (F : Type) [Zero F] where
  engineHost : Attestations.Host
  verifierHost : Host
  crypto : Crypto
  poseidon : PoseidonV2 F
  -- the hexadecimal form of a field element
  bytes : F → BytesN 32
  -- the account that the publisher signs with
  publisherKey : Address
  minLeavesToPublish : ℕ := 1

/-- How a read of the chain goes. -/
inductive Reply where
  | throws
  | null
  | answers
  deriving DecidableEq

def Reply.reply {α : Type} (r : Reply) (answer : Option α) : Option (Option α) :=
  match r with
  | .throws => none
  | .null => some none
  | .answers => some answer

/-- What the network does during a tick. -/
structure TickInput where
  ledger : Option ℕ
  reads : ℕ → Reply
  rootRead : Reply
  postRoot : Option (Option ℕ)

inductive Input where
  | engine (inv : Attestations.Invocation)
  | verifier (inv : Invocation)
  | submit (ledger : ℕ) (commitment : LeafCommitment)
  -- a tick reads the inbox, unless one is running
  | begins
  -- the rest of the tick; one that has not begun reads the inbox now
  | tick (i : TickInput)
  -- a root that was posted reaches the verifier contract
  | lands (env : Env) (p : Posted)

inductive Output where
  | engine (r : Result Attestations.AttestationError Attestations.Returned)
  | verifier (r : Result ReputationError Unit)
  | submitted (r : Except (ℕ × String) Unit)
  | began
  | ticked (posted : Option Posted)
  | landed
  deriving DecidableEq

/-- What a tick works on: the state, and the inbox as it read it. -/
def System.loaded (s : System) : Publisher.Store where
  state := s.publisher.state
  inbox := s.reading.getD s.publisher.inbox

/-- A tick reads the inbox; one that is running goes on with what it read. -/
def System.begins (s : System) : System := { s with reading := some s.loaded.inbox }

/-- The end of a tick. What is in the inbox by now under an identifier that it archives is taken out. -/
def System.finish (s : System) (t : Tick) : System :=
  { s with
    publisher := {
      state := t.store.state
      inbox := s.publisher.inbox.filter fun c => !t.store.archived.contains c.id
      archived := s.publisher.archived ++ t.store.archived }
    reading := none
    pending := s.pending ++ t.posted.toList }

/-- All commitments in the publisher's hands, and in those of its tick. -/
def System.held (s : System) : List LeafCommitment := s.publisher.commitments ++ s.reading.getD []

/-- What `get_attestation` says, as the adapter reads it. -/
def onChain (s : System) (uid : BytesN 32) : Option OnChainAttestation :=
  (s.engine.engine.attestations.lookup uid).map fun a =>
    ⟨a.schemaId, a.stealthAddressHash, a.expirationLedger, a.revocationLedger⟩

section Step

variable {F : Type} [CommRing F] (S : Setting F)

def Setting.tree : TreeHash F := ⟨S.poseidon.hash2, S.bytes⟩

def adapter (s : System) (i : TickInput) : Adapter where
  currentLedger := i.ledger
  getAttestation call uid := (i.reads call).reply (onChain s uid)
  currentRoot := i.rootRead.reply
    (getLatestRoot ⟨i.ledger.getD 0, 0, [], fun _ _ _ => false⟩ s.verifier).toOption
  postRoot := i.postRoot

/-- The tick of the publisher in this state. -/
def tickOf (s : System) (i : TickInput) : Tick :=
  runPublisherTick S.crypto (fieldOf F) S.tree S.minLeavesToPublish (adapter s i) s.loaded

/-- A call of the verifier contract; a failed one is rolled back. -/
def callVerifier (s : System) (env : Env) (call : Call) : System × Result ReputationError Unit :=
  match exec S.verifierHost env s.verifier call with
  | .ok w => ({ s with verifier := w }, .ok ())
  | .error e => (s, .error e)

/-- A commitment is handed in. -/
def submit (s : System) (ledger : ℕ) (commitment : LeafCommitment) :
    System × Except (ℕ × String) Unit :=
  match postLeaf S.crypto (onChain s commitment.attestationUid) ledger s.publisher commitment with
  | .ok st => ({ s with publisher := st }, .ok ())
  | .error e => (s, .error e)

/-- The transaction with a posted root reaches the verifier contract. -/
def land (s : System) (env : Env) (p : Posted) : System :=
  if p ∈ s.pending then
    (callVerifier S s env (.updateMerkleRoot S.publisherKey p.root p.datasetHash)).1
  else s

def step (s : System) : Input → System × Output
  | .engine inv =>
      let (w, r) := (Attestations.machine S.engineHost).step s.engine inv
      ({ s with engine := w }, .engine r)
  | .verifier inv =>
      let (s, r) := callVerifier S s inv.env inv.call
      (s, .verifier r)
  | .submit ledger commitment =>
      let (s, r) := submit S s ledger commitment
      (s, .submitted r)
  | .begins => (s.begins, .began)
  | .tick i =>
      let t := tickOf S s i
      (s.finish t, .ticked t.posted)
  | .lands env p => (land S s env p, .landed)

def machine : Machine System Input Output := ⟨step S⟩

abbrev SystemStep := Machine.Step System Input Output

end Step

section Held

variable {F : Type} [CommRing F] {S : Setting F} {s : System} {i : TickInput} {c : LeafCommitment}

theorem mem_held : c ∈ s.held ↔ c ∈ s.publisher.commitments ∨ ∃ inbox ∈ s.reading, c ∈ inbox := by
  unfold System.held
  rw [List.mem_append]
  cases s.reading with
  | none => simp
  | some inbox => simp

theorem loaded_held (h : c ∈ s.loaded.commitments) : c ∈ s.held := by
  rw [mem_held]
  rcases List.mem_append.mp h with hleaf | hqueued
  · exact .inl (List.mem_append_left _ hleaf)
  · unfold System.loaded at hqueued
    cases hreading : s.reading with
    | none =>
        rw [hreading] at hqueued
        exact .inl (List.mem_append_right _ hqueued)
    | some inbox =>
        rw [hreading] at hqueued
        exact .inr ⟨inbox, rfl, hqueued⟩

theorem held_begins (h : c ∈ s.begins.held) : c ∈ s.held := by
  rcases mem_held.mp h with hc | ⟨inbox, hinbox, hc⟩
  · exact mem_held.mpr (.inl hc)
  · obtain rfl := Option.some.inj hinbox
    exact loaded_held (List.mem_append_right _ hc)

/-- A tick leaves in the publisher's hands only what was there. -/
theorem held_finish (h : c ∈ (s.finish (tickOf S s i)).held) : c ∈ s.held := by
  rcases mem_held.mp h with hc | ⟨inbox, hinbox, -⟩
  · rcases List.mem_append.mp hc with hleaf | hqueued
    · exact loaded_held (tick_commitments (List.mem_append_left _ hleaf))
    · exact mem_held.mpr (.inl (List.mem_append_right _ (List.mem_filter.mp hqueued).1))
  · cases hinbox

end Held

/-! ## What is assumed -/

section Assumptions

variable {F : Type} [CommRing F] (S : Setting F)

def signalsV2 (F : Type) [NatCast F] (p : VerifyPublicInputsV2) : PublicSignalsV2 F where
  merkleRoot := fieldOf F p.merkleRoot
  attestationId := fieldOf F p.attestationId
  externalNullifier := fieldOf F p.externalNullifier
  nullifierHash := fieldOf F p.nullifierHash

/-- The verifier contract accepts only public inputs for which the circuit has a witness. -/
def SoundVerifierV2 : Prop :=
  ∀ verifier a b c p, S.verifierHost.verifyProofV2 verifier a b c p = some true →
    ∃ wit, StealthReputation S.poseidon Asp.TREE_DEPTH (signalsV2 F p) wit

/-- Nobody but the publisher posts roots. -/
def OnlyPublisherPosts (inputs : List Input) : Prop :=
  ∀ inv, Input.verifier inv ∈ inputs → ∀ admin root datasetHash,
    inv.call ≠ .updateMerkleRoot admin root datasetHash

/-- The root of these leaves. -/
def Setting.rootOf (leaves : List LeafCommitment) : F :=
  Asp.MerkleTree.root S.poseidon.hash2 { leaves := leaves.map fun c => fieldOf F c.leaf }

/-- The root that a tick posts is read back from its hexadecimal form. -/
def RootReadBack (e : SystemStep) : Prop :=
  ∀ p, e.output = .ticked (some p) → fieldOf F (S.bytes (S.rootOf p.leaves)) = S.rootOf p.leaves

/-- A leaf that opens, opens under the schema it was submitted for. -/
def SchemaBound (c : LeafCommitment) : Prop :=
  ∀ pk schema issuer trait nonce, S.poseidon.hash5 pk schema issuer trait nonce = fieldOf F c.leaf →
    schema = fieldOf F c.schemaId

/-- The root was posted by ticks only, each of which built it from leaves of which one was submitted
for an attestation on the chain, of this schema, neither revoked nor expired at that tick. -/
def Backed (F : Type) [NatCast F] (t : List SystemStep) (root attestationId : BytesN 32) : Prop :=
  (∃ e ∈ t, ∃ p, e.output = .ticked (some p) ∧ p.root = root) ∧
    ∀ e ∈ t, ∀ p, e.output = .ticked (some p) → p.root = root →
      ∃ i ledger, e.input = .tick i ∧ i.ledger = some ledger ∧ ∃ c ∈ p.leaves,
        (∃ e₀ ∈ t, ∃ ledger₀, e₀.input = .submit ledger₀ c) ∧ ∃ a,
        e.pre.engine.engine.attestations.lookup c.attestationUid = some a ∧
        fieldOf F a.schemaId = fieldOf F attestationId ∧ a.revocationLedger = 0 ∧
        (a.expirationLedger = 0 ∨ ledger < a.expirationLedger)

end Assumptions

end OpaqueStellar.Reputation
