import OpaqueStellar.Reputation.Contract

/-! # What a reputation proof is bound to

The public inputs of a proof are the root, the attestation, the external nullifier and the nullifier
hash. Neither the user nor the expiry ledger of the call is among them, so a proof that verifies for
one caller verifies for any other that authorises the call, under any expiry that has not passed. -/

namespace OpaqueStellar.Reputation

open OpaqueStellar.Lib OpaqueStellar.Soroban

variable {host : Host} {env env' : Env}

/-- The same call for another user, with another expiry. -/
def VerifyArgs.replace (args : VerifyArgs) (user : Address) (expirationLedger : ℕ) : VerifyArgs :=
  { args with user := user, expirationLedger := expirationLedger }

/-- Another user or another expiry leaves the proof and its public inputs alone. -/
theorem Admitted.replace {w : World} {args : VerifyArgs} {config : VerifierConfig}
    {entry : MerkleRootEntry} (h : Admitted host env w args config entry) (user : Address)
    (expirationLedger : ℕ) (hledger : env'.sequence = env.sequence)
    (hsigned : Signed host env' user)
    (hunexpired : expirationLedger = 0 ∨ env.sequence ≤ expirationLedger) :
    Admitted host env' w (args.replace user expirationLedger) config entry where
  signed := hsigned
  stored := h.stored
  verifier := h.verifier
  root := h.root
  fresh := by
    unfold rootExpired
    rw [hledger]
    exact h.fresh
  unexpired := by
    rw [hledger]
    exact hunexpired
  unused := h.unused
  verified := h.verified

/-- **When a replaced call is rejected.** If a call succeeds, the call with another user and expiry
is rejected in the same state, at the same ledger, exactly when that user did not authorise it or the
expiry it declares has passed. -/
theorem replaced_rejected_iff (host : Host) (env env' : Env) (w w' : World) (args : VerifyArgs)
    (user : Address) (expirationLedger : ℕ) (hok : verifyReputation host env w args = .ok w')
    (hledger : env'.sequence = env.sequence) :
    (∃ e, verifyReputation host env' w (args.replace user expirationLedger) = .error e) ↔
      ¬ Signed host env' user ∨ (expirationLedger ≠ 0 ∧ expirationLedger < env.sequence) := by
  obtain ⟨⟨config, entry, hadmitted⟩, -⟩ := verifyReputation_eq_ok.mp hok
  constructor
  · rintro ⟨e, hrejected⟩
    by_contra hno
    push Not at hno
    have hunexpired : expirationLedger = 0 ∨ env.sequence ≤ expirationLedger := by
      by_cases hzero : expirationLedger = 0
      · exact .inl hzero
      · exact .inr (hno.2 hzero)
    have hagain := verifyReputation_eq_ok.mpr
      ⟨⟨config, entry, hadmitted.replace user expirationLedger hledger hno.1 hunexpired⟩, rfl⟩
    rw [hagain] at hrejected
    cases hrejected
  · intro hreason
    cases hagain : verifyReputation host env' w (args.replace user expirationLedger) with
    | error e => exact ⟨e, rfl⟩
    | ok w'' =>
        exfalso
        obtain ⟨⟨config', entry', hadmitted'⟩, -⟩ := verifyReputation_eq_ok.mp hagain
        have hunexpired : expirationLedger = 0 ∨ env'.sequence ≤ expirationLedger :=
          hadmitted'.unexpired
        rw [hledger] at hunexpired
        rcases hreason with hunsigned | ⟨hne, hpassed⟩
        · exact hunsigned hadmitted'.signed
        · omega

/-! ## A small setting

A root is published and one proof verifies, for its own public inputs only. -/

namespace Demo

def account (n : ℕ) : Address := .account (BytesN.ofNat 32 n)

def verifierAddress : Address := .contract (BytesN.ofNat 32 1)

def args : VerifyArgs where
  user := account 1
  groth16Verifier := verifierAddress
  proofA := BytesN.ofNat 64 0
  proofB := BytesN.ofNat 128 0
  proofC := BytesN.ofNat 64 0
  root := BytesN.ofNat 32 120
  attestationId := BytesN.ofNat 32 77
  externalNullifier := 5
  nullifier := BytesN.ofNat 32 200
  expirationLedger := 40

def verifierHost : Host where
  self := .contract (BytesN.ofNat 32 0)
  verifyProofV2 := fun _ _ _ _ inputs => some (decide (inputs = args.publicInputs))

def envOf (signer : Address) (sequence : ℕ) : Env := ⟨sequence, 1, [signer], fun _ _ _ => false⟩

def world : World where
  verifier := {
    config := some ⟨account 8, verifierAddress, DEFAULT_ROOT_EXPIRY_LEDGERS⟩
    roots := (∅ : Store (BytesN 32) MerkleRootEntry).insert (BytesN.ofNat 32 120)
      ⟨BytesN.ofNat 32 120, 20, BytesN.ofNat 32 0⟩
    rootHistory := some [BytesN.ofNat 32 120] }

theorem verifies : verifyReputation verifierHost (envOf (account 1) 30) world args =
    .ok (world.verify args) := by
  refine verifyReputation_eq_ok.mpr ⟨⟨⟨account 8, verifierAddress, DEFAULT_ROOT_EXPIRY_LEDGERS⟩,
    ⟨BytesN.ofNat 32 120, 20, BytesN.ofNat 32 0⟩, ?_⟩, rfl⟩
  refine ⟨⟨?_, ?_⟩, rfl, rfl, ?_, ?_, ?_, rfl, ?_⟩
  · exact List.mem_singleton.mpr rfl
  · decide
  · exact Finmap.lookup_insert _
  · decide
  · exact .inr (by decide)
  · simp [verifierHost]

end Demo

/-- At ledger 30 the second account is let through under the first account's proof, also with the
expiry left out, and turned away with an expiry of 29. -/
theorem replaced_rejected_iff_demo :
    (¬ ∃ e, verifyReputation Demo.verifierHost (Demo.envOf (Demo.account 2) 30) Demo.world
      (Demo.args.replace (Demo.account 2) 0) = .error e) ∧
    ∃ e, verifyReputation Demo.verifierHost (Demo.envOf (Demo.account 2) 30) Demo.world
      (Demo.args.replace (Demo.account 2) 29) = .error e := by
  have hiff := fun expiry => replaced_rejected_iff Demo.verifierHost (Demo.envOf (Demo.account 1) 30)
    (Demo.envOf (Demo.account 2) 30) Demo.world _ Demo.args (Demo.account 2) expiry Demo.verifies rfl
  refine ⟨?_, (hiff 29).mpr (.inr ⟨by decide, by decide⟩)⟩
  intro hrejected
  rcases (hiff 0).mp hrejected with hunsigned | ⟨hne, -⟩
  · exact hunsigned ⟨List.mem_singleton.mpr rfl, by decide⟩
  · exact hne rfl

/-- Each proof is accepted for the public inputs it was made for, and no others. -/
def OneInput (host : Host) : Prop :=
  ∀ a b c, ∃ made, ∀ verifier inputs,
    host.verifyProofV2 verifier a b c inputs = some true → inputs = made

theorem Demo.oneInput : OneInput Demo.verifierHost := by
  intro a b c
  refine ⟨Demo.args.publicInputs, ?_⟩
  intro verifier inputs h
  simpa [Demo.verifierHost] using h

/-- The second account front-runs the first with its proof. -/
theorem proof_not_bound :
    ¬ ∀ (host : Host) (env env' : Env) (w w' : World) (args : VerifyArgs) (user : Address)
      (expirationLedger : ℕ), OneInput host →
      verifyReputation host env w args = .ok w' → env'.sequence = env.sequence →
      (user ≠ args.user ∨ expirationLedger ≠ args.expirationLedger) →
      ∃ e, verifyReputation host env' w (args.replace user expirationLedger) = .error e := by
  intro hclaim
  obtain ⟨e, hrejected⟩ := hclaim Demo.verifierHost (Demo.envOf (Demo.account 1) 30)
    (Demo.envOf (Demo.account 2) 30) Demo.world _ Demo.args (Demo.account 2) 40 Demo.oneInput
    Demo.verifies rfl (.inl (by decide))
  obtain ⟨⟨config, entry, hadmitted⟩, -⟩ := verifyReputation_eq_ok.mp Demo.verifies
  have hadmitted' : Admitted Demo.verifierHost (Demo.envOf (Demo.account 2) 30) Demo.world
      (Demo.args.replace (Demo.account 2) 40) config entry :=
    hadmitted.replace (Demo.account 2) 40 rfl ⟨List.mem_singleton.mpr rfl, by decide⟩
      (.inr (by decide))
  rw [verifyReputation_eq_ok.mpr ⟨⟨config, entry, hadmitted'⟩, rfl⟩] at hrejected
  cases hrejected

end OpaqueStellar.Reputation
