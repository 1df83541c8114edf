import OpaqueStellar.Attestations.Lawful
import OpaqueStellar.Pool.ValueSoundness
import OpaqueStellar.Reputation.System

/-! # Reputation from end to end

The circuit opens one of the leaves under a root (`leaf_mem`), and the tick that posted the root
vouched for all of them (`tick_posted`). What nothing checks is that a leaf opens under the schema it
was submitted for; where it does, a verified proof is backed (`reputation_sound`). -/

namespace OpaqueStellar.Reputation

open OpaqueStellar.Lib OpaqueStellar.Soroban OpaqueStellar.Circuit OpaqueStellar.Publisher
open OpaqueStellar.Pool (fieldOf)

/-! ## Where commitments and roots come from -/

section Runs

variable {F : Type} [CommRing F] {S : Setting F}

/-- The step submitted this commitment. -/
def Submits (e : SystemStep) (c : LeafCommitment) : Prop := ∃ ledger, e.input = .submit ledger c

/-- What the publisher holds was submitted, and what was posted or reached the verifier comes from a
tick. -/
structure Traced (t : List SystemStep) (s : System) : Prop where
  commitments : ∀ c ∈ s.held, ∃ e ∈ t, Submits e c
  pending : ∀ p ∈ s.pending, ∃ e ∈ t, e.output = .ticked (some p)
  roots : ∀ root entry, s.verifier.verifier.roots.lookup root = some entry →
    ∃ e ∈ t, ∃ p, e.output = .ticked (some p) ∧ p.root = root

theorem Traced.mono {t : List SystemStep} {s : System} {e : SystemStep} (h : Traced t s) :
    Traced (t ++ [e]) s := by
  have hlater : ∀ {Q : SystemStep → Prop}, (∃ e ∈ t, Q e) → ∃ e' ∈ t ++ [e], Q e' := by
    rintro Q ⟨e', he', hq⟩
    exact ⟨e', List.mem_append_left _ he', hq⟩
  refine ⟨?_, ?_, ?_⟩
  · intro c hc
    exact hlater (h.commitments c hc)
  · intro p hp
    exact hlater (h.pending p hp)
  · intro root entry hread
    exact hlater (h.roots root entry hread)

/-- A call of the verifier other than `update_merkle_root` stores no root. -/
theorem Traced.call {t : List SystemStep} {s : System} {env : Env} {call : Call} (h : Traced t s)
    (hcall : ∀ admin root datasetHash, call ≠ .updateMerkleRoot admin root datasetHash) :
    Traced t (callVerifier S s env call).1 := by
  unfold callVerifier
  split
  · next w hexec =>
      refine ⟨h.commitments, h.pending, ?_⟩
      rcases roots_of_exec hexec with hroots | ⟨admin, root, datasetHash, heq, -⟩
      · intro root entry hread
        rw [show w.verifier.roots = s.verifier.verifier.roots from hroots] at hread
        exact h.roots root entry hread
      · exact absurd heq (hcall admin root datasetHash)
  · exact h

/-- A pending root that lands was posted by a tick. -/
theorem Traced.land {t : List SystemStep} {s : System} {env : Env} {admin : Address} {p : Posted}
    (h : Traced t s) (hp : p ∈ s.pending) :
    Traced t (callVerifier S s env (.updateMerkleRoot admin p.root p.datasetHash)).1 := by
  unfold callVerifier
  split
  · next w hexec =>
      refine ⟨h.commitments, h.pending, ?_⟩
      obtain ⟨-, -, rfl⟩ := updateMerkleRoot_eq_ok.mp hexec
      intro root entry hread
      rcases Store.lookup_insert_cases hread with ⟨rfl, -⟩ | hread
      · obtain ⟨e, he, hticked⟩ := h.pending p hp
        exact ⟨e, he, p, hticked, rfl⟩
      · exact h.roots root entry hread
  · exact h

theorem traced_step {t : List SystemStep} {s : System} {input : Input} (h : Traced t s)
    (honly : ∀ inv, input = .verifier inv → ∀ admin root datasetHash,
      inv.call ≠ .updateMerkleRoot admin root datasetHash) :
    Traced (t ++ [(machine S).stepAt s input]) ((machine S).step s input).1 := by
  have hmono := h.mono (e := (machine S).stepAt s input)
  have hlast : (machine S).stepAt s input ∈ t ++ [(machine S).stepAt s input] :=
    List.mem_append_right _ (List.mem_singleton.mpr rfl)
  cases input with
  | engine inv => exact ⟨hmono.commitments, hmono.pending, hmono.roots⟩
  | verifier inv => exact hmono.call (honly inv rfl)
  | submit ledger commitment =>
      show Traced _ (submit S s ledger commitment).1
      unfold submit
      split
      · next st hposted =>
          refine ⟨?_, hmono.pending, hmono.roots⟩
          intro c hc
          rcases mem_held.mp hc with hc | hread
          · rcases postLeaf_commitments hposted hc with hc | rfl
            · exact hmono.commitments c (mem_held.mpr (.inl hc))
            · exact ⟨_, hlast, ledger, rfl⟩
          · exact hmono.commitments c (mem_held.mpr (.inr hread))
      · exact hmono
  | begins => exact ⟨fun c hc => hmono.commitments c (held_begins hc), hmono.pending, hmono.roots⟩
  | tick i =>
      refine ⟨?_, ?_, hmono.roots⟩
      · intro c hc
        exact hmono.commitments c (held_finish hc)
      · intro p hp
        rcases List.mem_append.mp hp with hp | hp
        · exact hmono.pending p hp
        · refine ⟨_, hlast, ?_⟩
          rw [Option.mem_toList] at hp
          exact congrArg Output.ticked hp
  | lands env p =>
      show Traced _ (land S s env p)
      unfold land
      split
      · next hp => exact hmono.land hp
      · exact hmono

theorem traced_run {inputs : List Input} (honly : OnlyPublisherPosts inputs) :
    Traced ((machine S).trace {} inputs) ((machine S).final {} inputs) := by
  refine (machine S).invariant_of_steps (P := fun e => ∀ inv, e.input = .verifier inv →
    ∀ admin root datasetHash, inv.call ≠ .updateMerkleRoot admin root datasetHash) ?_ ?_ inputs ?_
  · refine ⟨?_, ?_, ?_⟩
    · intro c hc
      cases hc
    · intro p hp
      cases hp
    · intro root entry hread
      cases hread
  · intro t s input h hp
    exact traced_step h hp
  · intro e he inv hinv
    apply honly inv
    rw [← hinv]
    exact (machine S).input_mem_of_mem_trace he

/-! ## What a verified proof means -/

/-- An attestation that a read of the chain was answered with is on the chain. -/
theorem Reply.of_answer {α : Type} {r : Reply} {answer : Option α} {a : α}
    (h : r.reply answer = some (some a)) : answer = some a := by
  cases r with
  | throws => cases h
  | null => cases h
  | answers => exact Option.some.inj h

/-- What a tick was told about a leaf that it accepts, in terms of the engine's record. -/
theorem attested_of_vouched {s : System} {i : TickInput} {ledger : ℕ} {c : LeafCommitment}
    (h : Vouched S.crypto (adapter s i) ledger c) :
    ∃ a, s.engine.engine.attestations.lookup c.attestationUid = some a ∧
      a.schemaId = c.schemaId ∧ a.revocationLedger = 0 ∧
      (a.expirationLedger = 0 ∨ ledger < a.expirationLedger) := by
  obtain ⟨call, attestation, hread, haccepted⟩ := h
  have hchain : onChain s c.attestationUid = some attestation := Reply.of_answer hread
  obtain ⟨a, ha, rfl⟩ := Option.map_eq_some_iff.mp hchain
  simp only [acceptable, Bool.and_eq_true, Bool.or_eq_true, beq_iff_eq,
    decide_eq_true_eq] at haccepted
  exact ⟨a, ha, haccepted.1.2, haccepted.1.1.1, haccepted.1.1.2⟩

/-- Only the end of a tick answers with what was posted. -/
theorem tick_of_posted {s : System} {input : Input} {p : Posted}
    (h : (step S s input).2 = .ticked (some p)) :
    ∃ i, input = .tick i ∧ (tickOf S s i).posted = some p := by
  cases input with
  | engine inv => cases h
  | verifier inv => cases h
  | submit ledger commitment => cases h
  | begins => cases h
  | tick i => exact ⟨i, rfl, Output.ticked.inj h⟩
  | lands env q => cases h

/-- A step that posted a root was a tick, which built it from leaves it held and vouched for. -/
theorem posted_of_mem {inputs : List Input} (honly : OnlyPublisherPosts inputs) {e : SystemStep}
    (he : e ∈ (machine S).trace {} inputs) {p : Posted} (hp : e.output = .ticked (some p)) :
    ∃ i ledger, e.input = .tick i ∧ i.ledger = some ledger ∧ p.root = S.bytes (S.rootOf p.leaves) ∧
      ∀ c ∈ p.leaves, (∃ e₀ ∈ (machine S).trace {} inputs, Submits e₀ c) ∧ ∃ a,
        e.pre.engine.engine.attestations.lookup c.attestationUid = some a ∧
        a.schemaId = c.schemaId ∧ a.revocationLedger = 0 ∧
        (a.expirationLedger = 0 ∨ ledger < a.expirationLedger) := by
  obtain ⟨before, later, hinputs, hstep⟩ := (machine S).mem_trace he
  have hbefore : OnlyPublisherPosts before := by
    intro inv hinv
    apply honly inv
    rw [hinputs]
    exact List.mem_append_left _ hinv
  have htraced := traced_run (S := S) hbefore
  have hpre : e.pre = (machine S).final {} before := congrArg Machine.Step.pre hstep
  have hout : e.output = (step S e.pre e.input).2 := by
    rw [hpre]
    exact congrArg Machine.Step.output hstep
  rw [← hpre] at htraced
  rw [hout] at hp
  obtain ⟨i, hinput, hposted⟩ := tick_of_posted hp
  obtain ⟨hroot, ledger, hledger, hleaves⟩ := tick_posted hposted
  refine ⟨i, ledger, hinput, hledger, hroot, ?_⟩
  intro c hc
  obtain ⟨hheld, hvouched⟩ := hleaves c hc
  refine ⟨?_, attested_of_vouched hvouched⟩
  obtain ⟨e₀, he₀, hsubmits⟩ := htraced.commitments c (loaded_held hheld)
  refine ⟨e₀, ?_, hsubmits⟩
  rw [hinputs]
  exact (machine S).mem_trace_append _ he₀

/-- **Reputation soundness where leaves are bound to their schema.** After a run in which the
publisher alone posts roots and every submitted leaf opens only under the schema it was submitted
for, a proof that verifies for a schema is backed by an attestation of that schema. -/
theorem reputation_sound [IsDomain F] (S : Setting F) (inputs : List Input) (env : Env)
    (args : VerifyArgs) (hsound : SoundVerifierV2 S) (honly : OnlyPublisherPosts inputs)
    (hback : ∀ e ∈ (machine S).trace {} inputs, RootReadBack S e)
    (hbound : ∀ ledger c, Input.submit ledger c ∈ inputs → SchemaBound S c)
    (hok : ((machine S).step ((machine S).final {} inputs)
      (.verifier ⟨env, .verifyReputation args⟩)).2 = .verifier (.ok ())) :
    Backed F ((machine S).trace {} inputs) args.root args.attestationId := by
  set s := (machine S).final {} inputs with hs
  obtain ⟨w, hverify⟩ : ∃ w, verifyReputation S.verifierHost env s.verifier args = .ok w := by
    have hout : Output.verifier (callVerifier S s env (.verifyReputation args)).2 =
      .verifier (.ok ()) := hok
    unfold callVerifier at hout
    split at hout
    · next w hexec => exact ⟨w, hexec⟩
    · cases hout
  obtain ⟨⟨config, entry, hadmitted⟩, -⟩ := verifyReputation_eq_ok.mp hverify
  obtain ⟨wit, hwit⟩ := hsound _ _ _ _ _ hadmitted.verified
  have htraced := traced_run (S := S) honly
  refine ⟨htraced.roots args.root entry hadmitted.root, ?_⟩
  intro e he p hp hroot
  obtain ⟨i, ledger, hinput, hledger, hbytes, hleaves⟩ := posted_of_mem honly he hp
  -- the circuit opens one of the leaves that this tick built the root from
  have hmem : wit.leaf S.poseidon ∈ p.leaves.map fun c => fieldOf F c.leaf := by
    refine hwit.leaf_mem (t := { leaves := p.leaves.map fun c => fieldOf F c.leaf }) ?_
    show fieldOf F args.root = S.rootOf p.leaves
    rw [← hroot, hbytes]
    exact hback e he p hp
  obtain ⟨c, hc, hleaf⟩ := List.mem_map.mp hmem
  obtain ⟨⟨e₀, he₀, ledger₀, hsubmits⟩, a, ha, hschema, hunrevoked, hunexpired⟩ := hleaves c hc
  refine ⟨i, ledger, hinput, hledger, c, hc, ⟨e₀, he₀, ledger₀, hsubmits⟩, a, ha, ?_, hunrevoked,
    hunexpired⟩
  have hsubmitted : Input.submit ledger₀ c ∈ inputs := by
    rw [← hsubmits]
    exact (machine S).input_mem_of_mem_trace he₀
  rw [hschema, ← hbound ledger₀ c hsubmitted _ _ _ _ _ hleaf.symm]
  exact hwit.schema.eq

end Runs

/-! ## A run with one leaf

One attestation and one commitment for it, whose leaf opens under `attestationId`. The hashes are
those of the two deposits of the pool: the tree over the single leaf 100 has the root 120. -/

namespace OneLeaf

open OpaqueStellar.Pool.TwoDeposits (Counting code code_neg hash2)

/-- The one leaf, which opens under this schema, is 100. -/
def hash5 (schema a b c d e : ℤ) : ℤ :=
  if a = 9 ∧ b = schema ∧ c = 1 ∧ d = 2 ∧ e = 3 then 100 else code (a, b, c, d, e)

theorem hash5_cases (schema a b c d e : ℤ) :
    ((a = 9 ∧ b = schema ∧ c = 1 ∧ d = 2 ∧ e = 3) ∧ hash5 schema a b c d e = 100) ∨
      hash5 schema a b c d e = code (a, b, c, d, e) := by
  unfold hash5
  split
  · next h => exact .inl ⟨h, rfl⟩
  · exact .inr rfl

theorem hash5_ne_zero (schema a b c d e : ℤ) : hash5 schema a b c d e ≠ 0 := by
  have hneg := code_neg (a, b, c, d, e)
  rcases hash5_cases schema a b c d e with ⟨-, h⟩ | h
  · omega
  · omega

def poseidon (schema : ℤ) : PoseidonV2 ℤ where
  toPoseidon := Pool.TwoDeposits.poseidon 5
  hash5 := hash5 schema
  hash5_ne_zero := hash5_ne_zero schema

def args (attestationId : BytesN 32) : VerifyArgs where
  user := Attestations.Demo.account 2
  groth16Verifier := .contract (BytesN.ofNat 32 1)
  proofA := BytesN.ofNat 64 0
  proofB := BytesN.ofNat 128 0
  proofC := BytesN.ofNat 64 0
  root := BytesN.ofNat 32 120
  attestationId := attestationId
  externalNullifier := 5
  nullifier := BytesN.ofNat 32 200
  expirationLedger := 0

def numeric (bs : List UInt8) : BytesN 32 := BytesN.ofNat 32 (beNat bs)

/-- The leaf opens under `attestationId`, and only the proof of that is accepted. -/
def setting (attestationId : BytesN 32) : Setting ℤ where
  engineHost := Attestations.Demo.engineHost
  verifierHost := {
    self := .contract (BytesN.ofNat 32 2)
    verifyProofV2 := fun _ _ _ _ inputs =>
      some (decide (inputs = (args attestationId).publicInputs)) }
  crypto := ⟨numeric, numeric, fun _ _ _ => some (List.replicate 65 0)⟩
  poseidon := poseidon (fieldOf ℤ attestationId)
  bytes := fun x => BytesN.ofNat 32 x.toNat
  publisherKey := Attestations.Demo.account 7

def env (signer : Address) (sequence : ℕ) : Env := ⟨sequence, 1, [signer], fun _ _ _ => false⟩

def uid : BytesN 32 := Attestations.computeAttestationUid Attestations.Demo.engineHost
  Schemas.Demo.schemaId (BytesN.ofNat 32 0) 1

def commitment : LeafCommitment where
  id := "a".toList
  leaf := BytesN.ofNat 32 100
  schemaId := Schemas.Demo.schemaId
  attestationUid := uid
  holderSignature := BytesN.ofNat 65 0

def posted : Posted where
  root := BytesN.ofNat 32 120
  datasetHash := numeric (beBytes 4 1 ++ beBytes 32 120 ++ beBytes 32 100)
  leaves := [commitment]

def inputs : List Input :=
  (Attestations.Demo.setup ++ [Attestations.Demo.invocation (Attestations.Demo.account 1) 2
    (.attest ⟨Attestations.Demo.account 1, Schemas.Demo.schemaId, BytesN.ofNat 32 0, [1, 3], 0,
      BytesN.ofNat 32 0⟩)]).map Input.engine ++ [
  .verifier ⟨env (Attestations.Demo.account 7) 2, .initializeVerifier (Attestations.Demo.account 7)
    (.contract (BytesN.ofNat 32 1))⟩,
  .submit 2 commitment,
  .tick ⟨some 3, fun _ => .answers, .answers, some none⟩,
  .lands (env (Attestations.Demo.account 7) 4) posted]

def verifies (attestationId : BytesN 32) : Input :=
  .verifier ⟨env (Attestations.Demo.account 2) 5, .verifyReputation (args attestationId)⟩

def witness (attestationId : BytesN 32) : WitnessV2 ℤ where
  stealthPk := 9
  schemaId := fieldOf ℤ attestationId
  issuerPkX := 1
  traitDataHash := 2
  nonce := 3
  merklePath := fun i => i
  merklePathIndices := fun _ => 0
  schemaInv := 0

theorem sound (attestationId : BytesN 32) : SoundVerifierV2 (setting attestationId) := by
  intro verifier a b c p h
  have hp : p = (args attestationId).publicInputs := by simpa [setting] using h
  subst hp
  refine ⟨witness attestationId, ⟨?_, ?_⟩, ⟨?_, ?_⟩, ?_⟩
  · intro i _
    rfl
  · have hleaf : (witness attestationId).leaf (poseidon (fieldOf ℤ attestationId)) = 100 :=
      if_pos ⟨rfl, rfl, rfl, rfl, rfl⟩
    have hroot : fieldOf ℤ (BytesN.ofNat 32 120) = 120 := by decide
    show fieldOf ℤ (BytesN.ofNat 32 120) = merkleCur (hash2 5)
      ((witness attestationId).leaf (poseidon (fieldOf ℤ attestationId))) (fun i => (i : ℤ))
      (fun _ => 0) 20
    rw [hleaf, hroot]
    exact (Pool.TwoDeposits.merkleCur_eq 5 (.inl rfl) (le_refl 20)).symm
  · simp [witness]
  · show (fieldOf ℤ attestationId - fieldOf ℤ attestationId) * 1 = 0
    simp
  · have hexternal : fieldOf ℤ (u64ToBe32 5) = 5 := by decide +kernel
    have hnullifier : fieldOf ℤ (BytesN.ofNat 32 200) = 200 := by decide
    have hhash : hash2 5 9 5 = 200 := by
      rw [hash2, if_neg (by unfold Counting; omega), if_pos ⟨rfl, rfl⟩]
    simp only [setting, poseidon, Pool.TwoDeposits.poseidon, witness, signalsV2, args,
      VerifyArgs.publicInputs]
    rw [hexternal, hnullifier]
    exact hhash

theorem onlyPublisher : OnlyPublisherPosts inputs := by
  intro inv hinv admin root datasetHash hcall
  simp only [inputs, Attestations.Demo.setup, List.map_cons, List.map_nil,
    List.cons_append, List.nil_append, List.mem_cons, List.not_mem_nil, or_false,
    Input.verifier.injEq, reduceCtorEq, false_or] at hinv
  rw [hinv] at hcall
  cases hcall

/-- The two identifiers that the leaf is made to open under: the schema's own, and another. -/
def Tried (attestationId : BytesN 32) : Prop :=
  attestationId = Schemas.Demo.schemaId ∨ attestationId = BytesN.ofNat 32 77

theorem outputs {attestationId : BytesN 32} (h : Tried attestationId) :
    ((machine (setting attestationId)).trace {} inputs).map (·.output) =
      [.engine (.ok .unit), .engine (.ok .unit), .engine (.ok (.uid uid)), .verifier (.ok ()),
        .submitted (.ok ()), .ticked (some posted), .landed] := by
  rcases h with rfl | rfl
  · decide +kernel
  · decide +kernel

theorem eq_posted {attestationId : BytesN 32} (h : Tried attestationId) {e : SystemStep}
    (he : e ∈ (machine (setting attestationId)).trace {} inputs) {p : Posted}
    (hp : e.output = .ticked (some p)) : p = posted := by
  have hmem := List.mem_map_of_mem (f := fun e : SystemStep => e.output) he
  rw [outputs h, hp] at hmem
  simpa using hmem

theorem readBack {attestationId : BytesN 32} (h : Tried attestationId) :
    ∀ e ∈ (machine (setting attestationId)).trace {} inputs,
      RootReadBack (setting attestationId) e := by
  intro e he p hp
  obtain rfl := eq_posted h he hp
  have hroot : (setting attestationId).rootOf posted.leaves = 120 := by
    have hleaf : fieldOf ℤ (BytesN.ofNat 32 100) = 100 := by decide
    show Asp.MerkleTree.rootFrom (hash2 5) [fieldOf ℤ (BytesN.ofNat 32 100)] 20 0 = 120
    rw [hleaf]
    exact Pool.TwoDeposits.rootFrom_eq 5 (.inl rfl) (le_refl 20)
  rw [hroot]
  show fieldOf ℤ (BytesN.ofNat 32 (120 : ℤ).toNat) = 120
  decide +kernel

theorem verified {attestationId : BytesN 32} (h : Tried attestationId) :
    ((machine (setting attestationId)).step ((machine (setting attestationId)).final {} inputs)
      (verifies attestationId)).2 = .verifier (.ok ()) := by
  rcases h with rfl | rfl
  · decide +kernel
  · decide +kernel

theorem schemaBound : SchemaBound (setting Schemas.Demo.schemaId) commitment := by
  intro pk schema issuer trait nonce hopens
  have hleaf : fieldOf ℤ commitment.leaf = 100 := by decide
  have hopens' : hash5 (fieldOf ℤ Schemas.Demo.schemaId) pk schema issuer trait nonce = 100 :=
    hopens.trans hleaf
  have hneg := code_neg (pk, schema, issuer, trait, nonce)
  rcases hash5_cases (fieldOf ℤ Schemas.Demo.schemaId) pk schema issuer trait nonce with
    ⟨⟨-, hschema, -⟩, -⟩ | hcode
  · exact hschema
  · omega

end OneLeaf

/-- The leaf opens under the schema it was submitted for. -/
theorem reputation_sound_one_leaf :
    Backed ℤ ((machine (OneLeaf.setting Schemas.Demo.schemaId)).trace {} OneLeaf.inputs)
      (BytesN.ofNat 32 120) Schemas.Demo.schemaId := by
  refine reputation_sound (OneLeaf.setting Schemas.Demo.schemaId) OneLeaf.inputs
    (OneLeaf.env (Attestations.Demo.account 2) 5) (OneLeaf.args Schemas.Demo.schemaId)
    (OneLeaf.sound _) OneLeaf.onlyPublisher (OneLeaf.readBack (.inl rfl)) ?_
    (OneLeaf.verified (.inl rfl))
  intro ledger c hc
  have hcommitment : c = OneLeaf.commitment := by
    simp only [OneLeaf.inputs, Attestations.Demo.setup, List.map_cons, List.map_nil,
      List.cons_append, List.nil_append, List.mem_cons, List.not_mem_nil, or_false,
      Input.submit.injEq, reduceCtorEq, false_or] at hc
    exact hc.2
  rw [hcommitment]
  exact OneLeaf.schemaBound

/-- The leaf opens under another schema than the one it was submitted for, and the proof for that
schema verifies. -/
theorem reputation_not_sound :
    ¬ ∀ (S : Setting ℤ) (inputs : List Input) (env : Env) (args : VerifyArgs),
      SoundVerifierV2 S → OnlyPublisherPosts inputs →
      (∀ e ∈ (machine S).trace {} inputs, RootReadBack S e) →
      ((machine S).step ((machine S).final {} inputs)
        (.verifier ⟨env, .verifyReputation args⟩)).2 = .verifier (.ok ()) →
      Backed ℤ ((machine S).trace {} inputs) args.root args.attestationId := by
  intro hclaim
  obtain ⟨⟨e, he, p, hp, hroot⟩, hall⟩ := hclaim (OneLeaf.setting (BytesN.ofNat 32 77))
    OneLeaf.inputs _ _ (OneLeaf.sound _) OneLeaf.onlyPublisher (OneLeaf.readBack (.inr rfl))
    (OneLeaf.verified (.inr rfl))
  obtain ⟨i, ledger, -, -, c, hc, -, a, ha, hschema, -⟩ := hall e he p hp hroot
  -- the record is that of the one commitment, which was submitted for its own schema
  obtain rfl := OneLeaf.eq_posted (.inr rfl) he hp
  obtain ⟨i', ledger', -, -, -, hleaves⟩ := posted_of_mem OneLeaf.onlyPublisher he hp
  obtain ⟨-, a', ha', hsame, -⟩ := hleaves c hc
  obtain rfl := Option.some.inj (ha.symm.trans ha')
  obtain rfl : c = OneLeaf.commitment := List.mem_singleton.mp hc
  rw [hsame] at hschema
  revert hschema
  decide +kernel

end OpaqueStellar.Reputation
