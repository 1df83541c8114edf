import Mathlib.Data.List.DropRight
import OpaqueStellar.Groth16.Verifier
import OpaqueStellar.Lib.History
import OpaqueStellar.Reputation.Contract

/-! # The reputation verifier: single use and fresh roots

The contract on its own, over any sequence of calls. A nullifier is stored as the 32 bytes that the
caller sent; since the Groth16 verifier turns away bytes that are not below the scalar order, congruent
nullifiers of two verifications would be the same bytes.

The history is a window on the publications: the last hundred of them, while the entry of a root stays
in the store for good and is as old as the root's latest publication. -/

namespace OpaqueStellar.Reputation

open OpaqueStellar.Lib OpaqueStellar.Soroban

/-! ## The rest of the contract -/

/-- `get_root_history`; the sum of two `u32` traps when it overflows. -/
def getRootHistory (w : World) (offset limit : ℕ) : Result ReputationError (List (BytesN 32)) := do
  let history := w.verifier.rootHistory.getD []
  let start := min offset history.length
  let stop ← addChecked 32 start limit
  pure ((history.take (min stop history.length)).drop start)

def VerifyPublicInputsV2.toGroth16 (p : VerifyPublicInputsV2) : Groth16.VerifyPublicInputsV2 where
  merkleRoot := p.merkleRoot
  attestationId := p.attestationId
  externalNullifier := p.externalNullifier
  nullifierHash := p.nullifierHash

/-- The host on which verifiers are the Groth16 contract. -/
def Host.withVerifier (self : Address) (bn : Groth16.Bn254) : Host where
  self := self
  verifyProofV2 := fun _ a b c inputs => (Groth16.verifyProofV2 bn a b c inputs.toGroth16).toOption

/-- An invocation that fails is rolled back. -/
def contract (host : Host) : Machine World Invocation (Except (Failure ReputationError) Unit) :=
  Machine.transactional fun w inv => (exec host inv.env w inv.call).map fun w' => (w', ())

abbrev VerifierStep := Machine.Step World Invocation (Except (Failure ReputationError) Unit)

/-- The step is a verification that succeeded. -/
def Verifies (args : VerifyArgs) (e : VerifierStep) : Prop :=
  e.input.call = .verifyReputation args ∧ e.output = .ok ()

/-- The root that a step published. -/
def publishedRoot (e : VerifierStep) : Option (BytesN 32) :=
  match e.input.call, e.output with
  | .updateMerkleRoot _ root _, .ok () => some root
  | _, _ => none

/-- The published roots, oldest first. -/
def publications (t : List VerifierStep) : List (BytesN 32) := t.filterMap publishedRoot

def Publishes (root : BytesN 32) (e : VerifierStep) : Prop := publishedRoot e = some root

/-- The step's call was signed by the administrator of that moment. -/
def ByCurrentAdmin (e : VerifierStep) : Prop :=
  ∃ config, e.pre.verifier.config = some config ∧ config.admin ∈ e.input.env.auths ∧
    ∃ root datasetHash, e.input.call = .updateMerkleRoot config.admin root datasetHash

/-! ## What a call that succeeds has done -/

/-- `admin` has signed and is the administrator of the stored configuration. -/
structure ByAdmin (host : Host) (env : Env) (w : World) (admin : Address) (config : VerifierConfig) :
    Prop where
  signed : Signed host env admin
  stored : w.verifier.config = some config
  isAdmin : config.admin = admin

inductive Effect (host : Host) (env : Env) (w : World) : Call → World → Prop
  | initializeVerifier {admin groth16Verifier : Address} (fresh : w.verifier.config = none) :
      Effect host env w (.initializeVerifier admin groth16Verifier)
        { w with
          verifier := { w.verifier with
            config := some ⟨admin, groth16Verifier, DEFAULT_ROOT_EXPIRY_LEDGERS⟩
            rootHistory := some [] } }
  | setRootExpiry {admin : Address} {expiryLedgers : ℕ} {config : VerifierConfig}
      (byAdmin : ByAdmin host env w admin config) :
      Effect host env w (.setRootExpiry admin expiryLedgers)
        (saveConfig w { config with rootExpiryLedgers := expiryLedgers })
  | transferAdmin {admin newAdmin : Address} {config : VerifierConfig}
      (byAdmin : ByAdmin host env w admin config) :
      Effect host env w (.transferAdmin admin newAdmin)
        (saveConfig w { config with admin := newAdmin })
  | updateMerkleRoot {admin : Address} {root datasetHash : BytesN 32} {config : VerifierConfig}
      (byAdmin : ByAdmin host env w admin config) :
      Effect host env w (.updateMerkleRoot admin root datasetHash)
        (w.publishRoot env admin root datasetHash)
  | verifyReputation {args : VerifyArgs} {config : VerifierConfig} {entry : MerkleRootEntry}
      (admitted : Admitted host env w args config entry) :
      Effect host env w (.verifyReputation args) (w.verify args)

section Effect

variable {host : Host} {env : Env}

theorem effect_of_exec {w w' : World} {call : Call} (h : exec host env w call = .ok w') :
    Effect host env w call w' := by
  cases call with
  | initializeVerifier admin groth16Verifier =>
      simp only [exec, initializeVerifier, bind_eq_ok, requireAuth_eq_ok, exists_const,
        ensure_eq_ok, pure_eq_ok, Option.isSome_eq_false_iff, Option.isNone_iff_eq_none] at h
      obtain ⟨-, hfresh, rfl⟩ := h
      exact .initializeVerifier hfresh
  | setRootExpiry admin expiryLedgers =>
      obtain ⟨hsigned, config, hstored, hadmin, rfl⟩ := administer_eq_ok.mp h
      exact .setRootExpiry ⟨hsigned, hstored, hadmin⟩
  | transferAdmin admin newAdmin =>
      obtain ⟨hsigned, config, hstored, hadmin, rfl⟩ := administer_eq_ok.mp h
      exact .transferAdmin ⟨hsigned, hstored, hadmin⟩
  | updateMerkleRoot admin root datasetHash =>
      obtain ⟨hsigned, ⟨config, hstored, hadmin⟩, rfl⟩ := updateMerkleRoot_eq_ok.mp h
      exact .updateMerkleRoot ⟨hsigned, hstored, hadmin⟩
  | verifyReputation args =>
      obtain ⟨⟨config, entry, hadmitted⟩, rfl⟩ := verifyReputation_eq_ok.mp h
      exact .verifyReputation hadmitted

/-- The induction over the runs of the contract: calls that fail, and the effects of those that do
not. -/
theorem contract_invariant {I : List VerifierStep → World → Prop} (h₀ : I [] {})
    (hfail : ∀ t w inv e, I t w → I (t ++ [⟨w, inv, .error e⟩]) w)
    (hok : ∀ t w inv w', I t w → Effect host inv.env w inv.call w' →
      I (t ++ [⟨w, inv, .ok ()⟩]) w') (invs : List Invocation) :
    I ((contract host).trace {} invs) ((contract host).final {} invs) := by
  refine Machine.transactional_invariant h₀ hfail ?_ invs
  intro t w inv w' o h hexec
  cases hcall : exec host inv.env w inv.call with
  | error e =>
      rw [hcall] at hexec
      cases hexec
  | ok w₁ =>
      rw [hcall] at hexec
      obtain rfl : w₁ = w' := congrArg Prod.fst (Except.ok.inj hexec)
      exact hok t w inv w₁ h (effect_of_exec hcall)

end Effect

/-! ## The state and the calls behind it -/

/-- Nullifiers that are equal as numbers of the field. -/
def SameNullifier (args args' : VerifyArgs) : Prop :=
  args.nullifier.toNat ≡ args'.nullifier.toNat [MOD Groth16.scalarOrder]

/-- What the state keeps of the calls so far. -/
structure CallsTraced (t : List VerifierStep) (w : World) : Prop where
  unset : w.verifier.config = none → publications t = []
  history : w.verifier.rootHistory.getD [] = (publications t).rtake MAX_ROOT_HISTORY
  -- an entry has the ledger of the root's latest publication
  roots : ∀ root ledger, (w.verifier.roots.lookup root).map (·.ledger) = some ledger ↔
    ∃ e, Latest (Publishes root) t e ∧ e.input.env.sequence = ledger
  byAdmin : ∀ e ∈ t, ∀ root, Publishes root e → ByCurrentAdmin e
  used : ∀ e ∈ t, ∀ args, Verifies args e →
    (w.verifier.nullifiers.lookup args.nullifier).isSome = true ∧
      args.nullifier.toNat < Groth16.scalarOrder
  single : t.Pairwise fun e e' =>
    ∀ args args', Verifies args e → Verifies args' e' → ¬ SameNullifier args args'

section CallsTraced

variable {self : Address} {bn : Groth16.Bn254} {t : List VerifierStep} {w w' : World}

/-- A step that is no verification and publishes nothing. -/
theorem CallsTraced.quiet (h : CallsTraced t w) {e : VerifierStep} (hroot : publishedRoot e = none)
    (hverifies : ∀ args, ¬ Verifies args e) (hconfig : w'.verifier.config = none → w.verifier.config = none)
    (hhistory : w'.verifier.rootHistory.getD [] = w.verifier.rootHistory.getD [])
    (hroots : w'.verifier.roots = w.verifier.roots)
    (hnullifiers : w'.verifier.nullifiers = w.verifier.nullifiers) : CallsTraced (t ++ [e]) w' := by
  have hpublications : publications (t ++ [e]) = publications t := by
    simp [publications, List.filterMap_append, hroot]
  have hpublishes : ∀ root, ¬ Publishes root e := by
    intro root hpublishes
    rw [Publishes, hroot] at hpublishes
    cases hpublishes
  refine ⟨?_, ?_, ?_, ?_, ?_, ?_⟩
  · rw [hpublications]
    exact fun hnone => h.unset (hconfig hnone)
  · rw [hhistory, hpublications]
    exact h.history
  · intro root ledger
    rw [hroots, h.roots]
    simp only [latest_snoc_of_neg (hpublishes root)]
  · intro e' he' root hroot'
    rcases List.mem_append.mp he' with he' | he'
    · exact h.byAdmin e' he' root hroot'
    · rw [List.mem_singleton.mp he'] at hroot'
      exact absurd hroot' (hpublishes root)
  · intro e' he' args hargs
    rw [hnullifiers]
    rcases List.mem_append.mp he' with he' | he'
    · exact h.used e' he' args hargs
    · rw [List.mem_singleton.mp he'] at hargs
      exact absurd hargs (hverifies args)
  · rw [List.pairwise_append]
    refine ⟨h.single, List.pairwise_singleton _ _, ?_⟩
    intro e₁ _ e₂ he₂ args args' _ hargs'
    rw [List.mem_singleton.mp he₂] at hargs'
    exact absurd hargs' (hverifies args')

/-- The window moves along. -/
theorem rtake_publish (roots : List (BytesN 32)) (root : BytesN 32) :
    (if MAX_ROOT_HISTORY ≤ (roots.rtake MAX_ROOT_HISTORY).length then
      (roots.rtake MAX_ROOT_HISTORY).drop 1 else roots.rtake MAX_ROOT_HISTORY) ++ [root] =
      (roots ++ [root]).rtake MAX_ROOT_HISTORY := by
  rw [show MAX_ROOT_HISTORY = 99 + 1 from rfl, List.rtake_concat_succ]
  congr 1
  simp only [List.rtake, List.length_drop]
  split
  · rw [List.drop_drop]
    congr 1
    omega
  · rw [show roots.length - (99 + 1) = 0 by omega, show roots.length - 99 = 0 by omega]

theorem CallsTraced.publish (h : CallsTraced t w) {inv : Invocation} {admin : Address}
    {root datasetHash : BytesN 32} {config : VerifierConfig} {host : Host}
    (hcall : inv.call = .updateMerkleRoot admin root datasetHash)
    (hadmin : ByAdmin host inv.env w admin config) :
    CallsTraced (t ++ [⟨w, inv, .ok ()⟩]) (w.publishRoot inv.env admin root datasetHash) := by
  have hroot : publishedRoot ⟨w, inv, .ok ()⟩ = some root := by simp [publishedRoot, hcall]
  have hpublications : publications (t ++ [⟨w, inv, .ok ()⟩]) = publications t ++ [root] := by
    simp [publications, List.filterMap_append, hroot]
  have hverifies : ∀ args, ¬ Verifies args ⟨w, inv, .ok ()⟩ := by
    intro args hargs
    have hcontra := hcall.symm.trans hargs.1
    cases hcontra
  refine ⟨?_, ?_, ?_, ?_, ?_, ?_⟩
  · intro hnone
    have hsome : w.verifier.config = none := hnone
    rw [hadmin.stored] at hsome
    cases hsome
  · rw [hpublications, ← rtake_publish, ← h.history]
    rfl
  · intro root' ledger
    by_cases heq : root' = root
    · subst heq
      rw [World.publishRoot, Finmap.lookup_insert]
      simp only [latest_snoc_of_pos (show Publishes root' ⟨w, inv, .ok ()⟩ from hroot)]
      simp
    · have hother : ¬ Publishes root' ⟨w, inv, .ok ()⟩ := by
        intro hother
        exact heq (Option.some.inj (hother.symm.trans hroot))
      rw [World.publishRoot, Finmap.lookup_insert_of_ne _ heq, h.roots]
      simp only [latest_snoc_of_neg hother]
  · intro e he root' hroot'
    rcases List.mem_append.mp he with he | he
    · exact h.byAdmin e he root' hroot'
    · rw [List.mem_singleton.mp he]
      refine ⟨config, hadmin.stored, ?_, root, datasetHash, ?_⟩
      · rw [hadmin.isAdmin]
        exact hadmin.signed.1
      · rw [hadmin.isAdmin]
        exact hcall
  · intro e he args hargs
    rcases List.mem_append.mp he with he | he
    · exact h.used e he args hargs
    · rw [List.mem_singleton.mp he] at hargs
      exact absurd hargs (hverifies args)
  · rw [List.pairwise_append]
    refine ⟨h.single, List.pairwise_singleton _ _, ?_⟩
    intro e₁ _ e₂ he₂ args args' _ hargs'
    rw [List.mem_singleton.mp he₂] at hargs'
    exact absurd hargs' (hverifies args')

theorem canonical_nullifier {env : Env} {args : VerifyArgs} {config : VerifierConfig}
    {entry : MerkleRootEntry} (h : Admitted (.withVerifier self bn) env w args config entry) :
    args.nullifier.toNat < Groth16.scalarOrder := by
  have hverified := h.verified
  simp only [Host.withVerifier] at hverified
  cases hproof : Groth16.verifyProofV2 bn args.proofA args.proofB args.proofC
      args.publicInputs.toGroth16 with
  | error e =>
    rw [hproof] at hverified
    cases hverified
  | ok v =>
    apply Groth16.valid_of_verifyWith hproof
    simp [Groth16.VerifyPublicInputsV2.signals, VerifyPublicInputsV2.toGroth16,
      VerifyArgs.publicInputs]

theorem CallsTraced.verify (h : CallsTraced t w) {inv : Invocation} {args : VerifyArgs}
    {config : VerifierConfig} {entry : MerkleRootEntry} (hcall : inv.call = .verifyReputation args)
    (hadmitted : Admitted (.withVerifier self bn) inv.env w args config entry) :
    CallsTraced (t ++ [⟨w, inv, .ok ()⟩]) (w.verify args) := by
  have hcanonical := canonical_nullifier hadmitted
  have hroot : publishedRoot ⟨w, inv, .ok ()⟩ = none := by simp [publishedRoot, hcall]
  have hpublishes : ∀ root, ¬ Publishes root ⟨w, inv, .ok ()⟩ := by simp [Publishes, hroot]
  have hargs : ∀ args', Verifies args' ⟨w, inv, .ok ()⟩ → args' = args := by
    intro args' hargs'
    exact Call.verifyReputation.inj (hargs'.1.symm.trans hcall)
  refine ⟨?_, ?_, ?_, ?_, ?_, ?_⟩
  · intro hnone
    have hsome : w.verifier.config = none := hnone
    rw [hadmitted.stored] at hsome
    cases hsome
  · rw [publications, List.filterMap_append, List.filterMap_cons_none hroot, List.filterMap_nil,
      List.append_nil]
    exact h.history
  · intro root ledger
    simp only [latest_snoc_of_neg (hpublishes root)]
    exact h.roots root ledger
  · intro e he root hpublished
    rcases List.mem_append.mp he with he | he
    · exact h.byAdmin e he root hpublished
    · rw [List.mem_singleton.mp he] at hpublished
      exact absurd hpublished (hpublishes root)
  · intro e he args' hverifies
    rw [World.verify]
    by_cases heq : args'.nullifier = args.nullifier
    · rw [heq, Finmap.lookup_insert]
      exact ⟨rfl, hcanonical⟩
    · rw [Finmap.lookup_insert_of_ne _ heq]
      rcases List.mem_append.mp he with he | he
      · exact h.used e he args' hverifies
      · rw [List.mem_singleton.mp he] at hverifies
        exact absurd (congrArg VerifyArgs.nullifier (hargs args' hverifies)) heq
  · rw [List.pairwise_append]
    refine ⟨h.single, List.pairwise_singleton _ _, ?_⟩
    intro e₁ he₁ e₂ he₂ args₁ args₂ hverifies₁ hverifies₂ hsame
    rw [List.mem_singleton.mp he₂] at hverifies₂
    obtain rfl := hargs args₂ hverifies₂
    -- both are canonical, so they are the same bytes, and those are in the store
    obtain ⟨hstored, hcanonical₁⟩ := h.used e₁ he₁ args₁ hverifies₁
    have heq : args₁.nullifier = args₂.nullifier :=
      BytesN.toNat_inj (Nat.ModEq.eq_of_lt_of_lt hsame hcanonical₁ hcanonical)
    rw [heq, hadmitted.unused] at hstored
    cases hstored

theorem callsTraced_run (self : Address) (bn : Groth16.Bn254) (invs : List Invocation) :
    CallsTraced ((contract (.withVerifier self bn)).trace {} invs)
      ((contract (.withVerifier self bn)).final {} invs) := by
  apply contract_invariant
  · refine ⟨fun _ => rfl, rfl, ?_, by simp, by simp, List.Pairwise.nil⟩
    intro root ledger
    simp [not_latest_nil]
  · intro t w inv e h
    apply h.quiet
    · simp [publishedRoot]
    · simp [Verifies]
    · exact id
    · rfl
    · rfl
    · rfl
  · intro t w inv w' h heffect
    obtain ⟨env, call⟩ := inv
    cases heffect with
    | initializeVerifier hfresh =>
      have hempty : w.verifier.rootHistory.getD [] = [] := by
        rw [h.history, h.unset hfresh, List.rtake_nil]
      apply h.quiet rfl
      · simp [Verifies]
      · simp
      · exact hempty.symm
      · rfl
      · rfl
    | setRootExpiry hadmin => exact h.quiet rfl (by simp [Verifies]) (by simp [saveConfig]) rfl rfl rfl
    | transferAdmin hadmin => exact h.quiet rfl (by simp [Verifies]) (by simp [saveConfig]) rfl rfl rfl
    | updateMerkleRoot hadmin => exact h.publish rfl hadmin
    | verifyReputation hadmitted => exact h.verify rfl hadmitted

/-! ## What callers see -/

theorem getLatestRoot_eq_ok {env : Env} {root : BytesN 32} :
    getLatestRoot env w = .ok root ↔ ∃ config entry, w.verifier.config = some config ∧
      (w.verifier.rootHistory.getD []).getLast? = some root ∧
      w.verifier.roots.lookup root = some entry ∧ ¬ rootExpired env config entry.ledger := by
  simp only [getLatestRoot, loadConfig, bind_eq_ok, expect_eq_ok, okOr_eq_ok, ensure_eq_ok,
    exists_const, pure_eq_ok]
  constructor
  · rintro ⟨config, hconfig, root', hlast, entry, hentry, hfresh, rfl⟩
    exact ⟨config, entry, hconfig, hlast, hentry, hfresh⟩
  · rintro ⟨config, entry, hconfig, hlast, hentry, hfresh⟩
    exact ⟨config, hconfig, root, hlast, entry, hentry, hfresh, rfl⟩

theorem getLast?_rtake (roots : List (BytesN 32)) :
    (roots.rtake MAX_ROOT_HISTORY).getLast? = roots.getLast? := by
  rcases List.eq_nil_or_concat' roots with rfl | ⟨init, root, rfl⟩
  · rfl
  · rw [show MAX_ROOT_HISTORY = 99 + 1 from rfl, List.rtake_concat_succ, List.getLast?_concat,
      List.getLast?_concat]

/-- The root of the history's end is the one of the latest publication. -/
theorem CallsTraced.latest_iff (h : CallsTraced t w) {root : BytesN 32} :
    (w.verifier.rootHistory.getD []).getLast? = some root ↔
      ∃ p, Latest (fun e => (publishedRoot e).isSome) t p ∧ Publishes root p := by
  rw [h.history, getLast?_rtake]
  exact getLast?_filterMap

/-- The latest publication of all is the latest of its root. -/
theorem latest_of_root {root : BytesN 32} {p : VerifierStep}
    (h : Latest (fun e => (publishedRoot e).isSome) t p) (hp : Publishes root p) :
    Latest (Publishes root) t p := by
  obtain ⟨t₁, t₂, rfl, -, hlast⟩ := h
  refine ⟨t₁, t₂, rfl, hp, ?_⟩
  intro e he hroot
  apply hlast e he
  rw [Publishes] at hroot
  simp [hroot]

theorem CallsTraced.getLatestRoot_iff (h : CallsTraced t w) {env : Env} {root : BytesN 32} :
    getLatestRoot env w = .ok root ↔ ∃ config p, w.verifier.config = some config ∧
      Latest (fun e => (publishedRoot e).isSome) t p ∧ Publishes root p ∧
      env.sequence - config.rootExpiryLedgers ≤ p.input.env.sequence := by
  rw [getLatestRoot_eq_ok]
  constructor
  · rintro ⟨config, entry, hconfig, hlast, hentry, hfresh⟩
    obtain ⟨p, hp, hroot⟩ := h.latest_iff.mp hlast
    refine ⟨config, p, hconfig, hp, hroot, ?_⟩
    have hledger := (h.roots root p.input.env.sequence).mpr ⟨p, latest_of_root hp hroot, rfl⟩
    rw [hentry, Option.map_some, Option.some.injEq] at hledger
    rw [rootExpired, hledger] at hfresh
    omega
  · rintro ⟨config, p, hconfig, hp, hroot, hage⟩
    have hledger := (h.roots root p.input.env.sequence).mpr ⟨p, latest_of_root hp hroot, rfl⟩
    obtain ⟨entry, hentry, hsequence⟩ := Option.map_eq_some_iff.mp hledger
    refine ⟨config, entry, hconfig, h.latest_iff.mpr ⟨p, hp, hroot⟩, hentry, ?_⟩
    rw [rootExpired, hsequence]
    omega

theorem CallsTraced.verified_root (h : CallsTraced t w) {host : Host} {env : Env} {args : VerifyArgs}
    (hok : verifyReputation host env w args = .ok w') :
    ∃ config p, w.verifier.config = some config ∧ Latest (Publishes args.root) t p ∧
      ByCurrentAdmin p ∧ env.sequence - config.rootExpiryLedgers ≤ p.input.env.sequence := by
  obtain ⟨⟨config, entry, hadmitted⟩, -⟩ := verifyReputation_eq_ok.mp hok
  have hledger : (w.verifier.roots.lookup args.root).map (·.ledger) = some entry.ledger := by
    rw [hadmitted.root]
    rfl
  obtain ⟨p, hp, hsequence⟩ := (h.roots _ _).mp hledger
  refine ⟨config, p, hadmitted.stored, hp, h.byAdmin p hp.mem args.root hp.holds, ?_⟩
  have hfresh := hadmitted.fresh
  rw [rootExpired] at hfresh
  omega

theorem CallsTraced.getRootHistory_eq (h : CallsTraced t w) {offset limit : ℕ}
    (hfits : min offset MAX_ROOT_HISTORY + limit < 2 ^ 32) :
    getRootHistory w offset limit =
      .ok ((((publications t).rtake MAX_ROOT_HISTORY).drop offset).take limit) := by
  have hlength : ((publications t).rtake MAX_ROOT_HISTORY).length ≤ MAX_ROOT_HISTORY := by
    simp only [List.rtake, List.length_drop]
    omega
  rw [getRootHistory, h.history]
  generalize (publications t).rtake MAX_ROOT_HISTORY = history at hlength ⊢
  have hsum : min offset history.length + limit < 2 ^ 32 := by omega
  simp only [bind_eq_ok, addChecked_eq_ok, pure_eq_ok]
  refine ⟨_, ⟨hsum, rfl⟩, ?_⟩
  by_cases hoffset : offset ≤ history.length
  · rw [Nat.min_eq_left hoffset, List.take_drop]
    rcases Nat.le_total (offset + limit) history.length with hle | hle
    · rw [Nat.min_eq_left hle]
    · rw [Nat.min_eq_right hle, List.take_length, List.take_of_length_le hle]
  · have hlt : history.length ≤ offset := by omega
    rw [Nat.min_eq_right hlt, Nat.min_eq_right (by omega), List.take_length, List.drop_length,
      List.drop_of_length_le hlt, List.take_nil]

end CallsTraced

/-- **Single use and fresh roots.** Over every sequence of calls: no two verifications that succeed
have congruent nullifiers; one that succeeds has a root whose latest publication was made by the
administrator of that moment and is not older than the expiry; `get_latest_root` returns the last
published root exactly as long as it is not older than the expiry; and `get_root_history` is a page of
the last hundred published roots, in the order of their publication. -/
theorem single_use_and_freshness (self : Address) (bn : Groth16.Bn254) (invs : List Invocation) :
    let host := Host.withVerifier self bn
    let t := (contract host).trace {} invs
    let w := (contract host).final {} invs
    (t.Pairwise fun e e' =>
      ∀ args args', Verifies args e → Verifies args' e' → ¬ SameNullifier args args') ∧
    (∀ env args w', verifyReputation host env w args = .ok w' →
      ∃ config p, w.verifier.config = some config ∧ Latest (Publishes args.root) t p ∧
        ByCurrentAdmin p ∧ env.sequence - config.rootExpiryLedgers ≤ p.input.env.sequence) ∧
    (∀ env root, getLatestRoot env w = .ok root ↔ ∃ config p, w.verifier.config = some config ∧
      Latest (fun e => (publishedRoot e).isSome) t p ∧ Publishes root p ∧
      env.sequence - config.rootExpiryLedgers ≤ p.input.env.sequence) ∧
    ∀ offset limit, min offset MAX_ROOT_HISTORY + limit < 2 ^ 32 →
      getRootHistory w offset limit =
        .ok ((((publications t).rtake MAX_ROOT_HISTORY).drop offset).take limit) := by
  intro host t w
  have h : CallsTraced t w := callsTraced_run self bn invs
  refine ⟨h.single, ?_, ?_, ?_⟩
  · intro env args w' hok
    exact h.verified_root hok
  · intro env root
    exact h.getLatestRoot_iff
  · intro offset limit hfits
    exact h.getRootHistory_eq hfits

namespace OneRoot

def account (n : ℕ) : Address := .account (BytesN.ofNat 32 n)

def envOf (signer : Address) (sequence : ℕ) : Env := ⟨sequence, 1, [signer], fun _ _ _ => false⟩

def args : VerifyArgs where
  user := account 1
  groth16Verifier := .contract (BytesN.ofNat 32 1)
  proofA := BytesN.ofNat 64 0
  proofB := BytesN.ofNat 128 0
  proofC := BytesN.ofNat 64 0
  root := BytesN.ofNat 32 120
  attestationId := BytesN.ofNat 32 77
  externalNullifier := 5
  nullifier := BytesN.ofNat 32 200
  expirationLedger := 0

/-- A verifier that takes every proof for canonical signals. -/
def host : Host := .withVerifier (.contract (BytesN.ofNat 32 0))
  ⟨fun a _ => some a, fun a _ => some a, fun _ _ => some true⟩

def invs : List Invocation := [
  ⟨envOf (account 8) 10, .initializeVerifier (account 8) (.contract (BytesN.ofNat 32 1))⟩,
  ⟨envOf (account 8) 20, .updateMerkleRoot (account 8) (BytesN.ofNat 32 120) (BytesN.ofNat 32 0)⟩,
  ⟨envOf (account 1) 30, .verifyReputation args⟩]

end OneRoot

/-- One root is published and one proof verified, and the history is that root. -/
theorem single_use_and_freshness_one :
    ((contract OneRoot.host).trace {} OneRoot.invs).map (·.output) = [.ok (), .ok (), .ok ()] ∧
      getRootHistory ((contract OneRoot.host).final {} OneRoot.invs) 0 100 =
        .ok [BytesN.ofNat 32 120] := by
  refine ⟨by decide, ?_⟩
  obtain ⟨-, -, -, hpage⟩ := single_use_and_freshness (.contract (BytesN.ofNat 32 0))
    ⟨fun a _ => some a, fun a _ => some a, fun _ _ => some true⟩ OneRoot.invs
  refine (hpage 0 100 (by decide)).trans ?_
  decide

/-! ## Pages at any offset

The caller chooses both numbers, and only the offset is cut down to the length before they are added. -/

/-- The stored roots, oldest first; before the initialisation there are none. -/
def World.history (w : World) : List (BytesN 32) := w.verifier.rootHistory.getD []

/-- The entries from position `offset` on, at most `limit` of them; the sum is that of the integers. -/
def historyPage (history : List (BytesN 32)) (offset limit : ℕ) : List (BytesN 32) :=
  history.extract (min offset history.length) (min (offset + limit) history.length)

theorem getRootHistory_eq_ok {w : World} {offset limit : ℕ} {page : List (BytesN 32)} :
    getRootHistory w offset limit = .ok page ↔
      min offset w.history.length + limit < 2 ^ 32 ∧ page = historyPage w.history offset limit := by
  have hstop : min (min offset w.history.length + limit) w.history.length =
      min (offset + limit) w.history.length := by omega
  have hpage : (w.history.take (min (offset + limit) w.history.length)).drop
      (min offset w.history.length) = historyPage w.history offset limit := by
    rw [historyPage, List.extract_eq_take_drop, List.drop_take]
  simp only [getRootHistory, bind_eq_ok, addChecked_eq_ok, pure_eq_ok]
  constructor
  · rintro ⟨stop, ⟨hfits, rfl⟩, rfl⟩
    exact ⟨hfits, (congrArg (fun n => (w.history.take n).drop _) hstop).trans hpage⟩
  · rintro ⟨hfits, rfl⟩
    exact ⟨_, ⟨hfits, rfl⟩, (congrArg (fun n => (w.history.take n).drop _) hstop).trans hpage⟩

/-- **Pages of the root history.** For every history and all `u32` offsets and limits, the call
returns the entries of the page exactly when the limit, added to the offset cut down to the length,
fits in a `u32`; otherwise the addition traps. -/
theorem getRootHistory_page_iff (w : World) (offset limit : UInt32) :
    (getRootHistory w offset.toNat limit.toNat =
        .ok (historyPage w.history offset.toNat limit.toNat) ↔
      min offset.toNat w.history.length + limit.toNat < 2 ^ 32) ∧
    (getRootHistory w offset.toNat limit.toNat = .error (.trap .overflow) ↔
      2 ^ 32 ≤ min offset.toNat w.history.length + limit.toNat) := by
  refine ⟨by simp [getRootHistory_eq_ok], ?_⟩
  rw [← not_lt]
  constructor
  · intro htrap hfits
    rw [getRootHistory_eq_ok.mpr ⟨hfits, rfl⟩] at htrap
    cases htrap
  · intro hnot
    have hsum : (addChecked 32 (min offset.toNat w.history.length) limit.toNat :
        Result ReputationError ℕ) = .error (.trap .overflow) := if_neg hnot
    exact congrArg (· >>= _) hsum

/-- The page behind the only published root, with the largest limit, is empty; the call traps. -/
theorem getRootHistory_page_fails :
    let w := (contract OneRoot.host).final {} OneRoot.invs
    w.history = [BytesN.ofNat 32 120] ∧ historyPage w.history 1 (2 ^ 32 - 1) = [] ∧
      getRootHistory w 1 (2 ^ 32 - 1) = .error (.trap .overflow) := by
  decide

end OpaqueStellar.Reputation
