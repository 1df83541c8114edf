import OpaqueStellar.Multisig.Contract

/-! # What a successful invocation of the threshold admin did

`Effect` has three constructors: the contract was initialised, a proposal of either kind was made, or
one was approved. In the last two cases `Reached` says whether the approvals reached the threshold
and the proposal was executed on the way. -/

namespace OpaqueStellar.Multisig

open OpaqueStellar.Lib OpaqueStellar.Soroban

variable {host : Host} {env : Env} {callees : Callees}

/-! ## Valid configurations -/

structure MultisigConfig.Valid (cfg : MultisigConfig) : Prop where
  two_le : 2 ≤ cfg.threshold
  le_length : cfg.threshold ≤ cfg.signers.length
  length_le : cfg.signers.length ≤ MAX_SIGNERS
  nodup : cfg.signers.Nodup

theorem hasDuplicate_eq_false {signers : List Address} :
    hasDuplicate signers = false ↔ signers.Nodup := by
  induction signers with
  | nil => simp [hasDuplicate]
  | cons s rest ih => simp [hasDuplicate, ih]

theorem validateSignersAndThreshold_eq_ok {signers : List Address} {threshold : ℕ} {u : Unit} :
    validateSignersAndThreshold signers threshold = .ok u ↔
      MultisigConfig.Valid ⟨signers, threshold⟩ := by
  simp only [validateSignersAndThreshold, bind_eq_ok, ensure_eq_ok, exists_const,
    hasDuplicate_eq_false]
  constructor
  · rintro ⟨-, hmax, hnodup, htwo, hle⟩
    exact ⟨htwo, hle, hmax, hnodup⟩
  · rintro ⟨htwo, hle, hmax, hnodup⟩
    exact ⟨le_trans htwo hle, hmax, hnodup, htwo, hle⟩

/-! ## Execution -/

@[simp] theorem lookup_writeProposal_self (w : World) (id : BytesN 32) (p : Proposal) :
    (writeProposal w id p).multisig.proposals.lookup id = some p := Finmap.lookup_insert _

theorem lookup_writeProposal_of_ne (w : World) {id id' : BytesN 32} (p : Proposal) (h : id' ≠ id) :
    (writeProposal w id p).multisig.proposals.lookup id' = w.multisig.proposals.lookup id' :=
  Finmap.lookup_insert_of_ne _ h

/-- The world after `execute_proposal`: a rotation installs its configuration. -/
def World.perform (w : World) (p : Proposal) : World :=
  { w with
    multisig.config :=
      if p.isRotation then some ⟨p.newSigners, p.newThreshold⟩ else w.multisig.config
    performed := w.performed ++ [p] }

theorem executeProposal_eq_ok {w w' : World} {p : Proposal} :
    executeProposal host callees w p = .ok w' ↔
      (p.isRotation = false → p.target ≠ host.self ∧
        callees p.target p.fnName ((w.multisig.args.lookup p.id).getD []) = true) ∧
      w' = w.perform p := by
  unfold executeProposal World.perform
  cases hkind : p.isRotation with
  | true =>
      rw [if_pos rfl, pure_eq_ok, if_pos rfl]
      constructor
      · rintro rfl
        exact ⟨fun h => absurd h (by simp), rfl⟩
      · rintro ⟨-, rfl⟩
        rfl
  | false =>
      simp only [Bool.false_eq_true, if_false, bind_eq_ok, invokeContract, ensure_eq_ok,
        exists_const, pure_eq_ok, forall_const]
      constructor
      · rintro ⟨hreturned, rfl⟩
        exact ⟨hreturned, rfl⟩
      · rintro ⟨hreturned, rfl⟩
        exact ⟨hreturned, rfl⟩

/-- What trying to execute `p` under `cfg` led to. -/
inductive Reached (host : Host) (callees : Callees) (w : World) (cfg : MultisigConfig)
    (p : Proposal) : World → Proposal → Prop
  | below (few : p.approvals.length < cfg.threshold) : Reached host callees w cfg p w p
  | executed (enough : cfg.threshold ≤ p.approvals.length)
      (returned : p.isRotation = false → p.target ≠ host.self ∧
        callees p.target p.fnName ((w.multisig.args.lookup p.id).getD []) = true) :
      Reached host callees w cfg p (w.perform p) { p with executed := true }

theorem executeIfReached_eq_ok {w w' : World} {cfg : MultisigConfig} {p p' : Proposal} :
    executeIfReached host callees w cfg p = .ok (w', p') ↔
      Reached host callees w cfg p w' p' := by
  unfold executeIfReached
  constructor
  · intro h
    split at h
    · next henough =>
        simp only [bind_eq_ok, executeProposal_eq_ok, pure_eq_ok] at h
        obtain ⟨w₁, ⟨hreturned, rfl⟩, heq⟩ := h
        cases heq
        exact .executed henough hreturned
    · next hfew =>
        rw [pure_eq_ok] at h
        cases h
        exact .below (not_le.mp hfew)
  · intro h
    cases h with
    | below hfew =>
        rw [if_neg (not_le.mpr hfew)]
        rfl
    | executed henough hreturned =>
        rw [if_pos henough, bind_eq_ok]
        exact ⟨_, executeProposal_eq_ok.mpr ⟨hreturned, rfl⟩, rfl⟩

/-- Executing a proposal touches neither the identifiers nor the stored proposals. -/
theorem Reached.kept {w w₁ : World} {cfg : MultisigConfig} {p proposal : Proposal}
    (h : Reached host callees w cfg p w₁ proposal) :
    w₁.multisig.nextId = w.multisig.nextId ∧ w₁.multisig.proposals = w.multisig.proposals ∧
      (w₁.multisig.config = none → w.multisig.config = none) := by
  cases h with
  | below hfew => exact ⟨rfl, rfl, id⟩
  | executed henough hreturned =>
      refine ⟨rfl, rfl, ?_⟩
      intro hnone
      have hnone' : (if p.isRotation then some ⟨p.newSigners, p.newThreshold⟩
          else w.multisig.config) = none := hnone
      split at hnone'
      · cases hnone'
      · exact hnone'

/-- If something was executed, it was `p`. -/
theorem Reached.of_performed {w w₁ : World} {cfg : MultisigConfig} {p proposal q : Proposal}
    (h : Reached host callees w cfg p w₁ proposal) (hq : w₁.performed = w.performed ++ [q]) :
    q = p ∧ w₁ = w.perform p ∧ proposal = { p with executed := true } ∧
      cfg.threshold ≤ p.approvals.length := by
  cases h with
  | below hfew => simp at hq
  | executed henough hreturned =>
      have hlast : w.performed ++ [p] = w.performed ++ [q] := hq
      have hsame := List.append_cancel_left hlast
      cases hsame
      exact ⟨rfl, rfl, rfl, henough⟩

/-! ## Effects -/

def Signed (host : Host) (env : Env) (a : Address) : Prop := a ∈ env.auths ∧ a ≠ host.self

/-- `draft` is the proposal that `call` makes, and `w₀` the world with its identifier taken. -/
structure Drafted (host : Host) (w : World) (call : Call) (draft : Proposal) (w₀ : World) :
    Prop where
  id : draft.id = proposalId host (w.multisig.nextId.getD 0)
  approvals : draft.approvals = [draft.proposer]
  pending : draft.executed = false
  config : w₀.multisig.config = w.multisig.config
  proposals : w₀.multisig.proposals = w.multisig.proposals
  performed : w₀.performed = w.performed
  counter : w₀.multisig.nextId = some (w.multisig.nextId.getD 0 + 1)
  room : w.multisig.nextId.getD 0 + 1 < 2 ^ 64
  kind : (draft.isRotation = false ∧
      ∃ args, call = .proposeCall draft.proposer draft.target draft.fnName args) ∨
    (draft.isRotation = true ∧
      call = .proposeRotation draft.proposer draft.newSigners draft.newThreshold ∧
      MultisigConfig.Valid ⟨draft.newSigners, draft.newThreshold⟩)

inductive Effect (host : Host) (env : Env) (callees : Callees) (w : World) :
    Call → World → Returned → Prop
  | started {signers : List Address} {threshold : ℕ} (fresh : w.multisig.config = none)
      (valid : MultisigConfig.Valid ⟨signers, threshold⟩) :
      Effect host env callees w (.initializeMultisig signers threshold)
        { w with multisig.config := some ⟨signers, threshold⟩, multisig.nextId := some 0 } .unit
  | proposed {call : Call} {cfg : MultisigConfig} {draft proposal : Proposal} {w₀ w₁ : World}
      (signed : Signed host env draft.proposer) (stored : w.multisig.config = some cfg)
      (signer : draft.proposer ∈ cfg.signers) (drafted : Drafted host w call draft w₀)
      (reached : Reached host callees w₀ cfg draft w₁ proposal) :
      Effect host env callees w call
        (World.publish (writeProposal w₁ draft.id proposal) (.Proposed draft.id draft.proposer))
        (.id draft.id)
  | approved {signer : Address} {id : BytesN 32} {cfg : MultisigConfig} {p proposal : Proposal}
      {w₁ : World} (signed : Signed host env signer) (stored : w.multisig.config = some cfg)
      (isSigner : signer ∈ cfg.signers) (read : w.multisig.proposals.lookup id = some p)
      (pending : p.executed = false) (first : signer ∉ p.approvals)
      (reached : Reached host callees w cfg { p with approvals := p.approvals ++ [signer] } w₁
        proposal) :
      Effect host env callees w (.approve signer id)
        (World.publish (writeProposal w₁ id proposal) (.Approved id signer proposal.executed))
        (.executed proposal.executed)

theorem requireAuth_eq_ok {a : Address} {u : Unit} :
    (env.requireAuth host.self a : Result MultisigError Unit) = .ok u ↔ Signed host env a :=
  Env.requireAuth_eq_ok

theorem nextCounter_eq_ok {w w' : World} {counter : ℕ} :
    nextCounter w = .ok (w', counter) ↔
      w.multisig.nextId.getD 0 + 1 < 2 ^ 64 ∧ counter = w.multisig.nextId.getD 0 ∧
        w' = { w with multisig.nextId := some (counter + 1) } := by
  simp only [nextCounter, bind_eq_ok, addChecked_eq_ok, pure_eq_ok, Prod.mk.injEq]
  constructor
  · rintro ⟨next, ⟨hroom, rfl⟩, rfl, rfl⟩
    exact ⟨hroom, rfl, rfl⟩
  · rintro ⟨hroom, rfl, rfl⟩
    exact ⟨_, ⟨hroom, rfl⟩, rfl, rfl⟩

/-- **Every successful invocation has the effect of its call.** -/
theorem effect_of_exec {w w' : World} {call : Call} {r : Returned}
    (h : exec host env callees w call = .ok (w', r)) : Effect host env callees w call w' r := by
  cases call with
  | initializeMultisig signers threshold =>
      simp only [exec, initializeMultisig, bind_eq_ok, ensure_eq_ok, exists_const,
        Option.isSome_eq_false_iff, Option.isNone_iff_eq_none, validateSignersAndThreshold_eq_ok,
        pure_eq_ok, Prod.mk.injEq] at h
      obtain ⟨w₁, ⟨hfresh, hvalid, rfl⟩, rfl, rfl⟩ := h
      exact .started hfresh hvalid
  | proposeCall proposer target fnName args =>
      simp only [exec, proposeCall, loadConfig, bind_eq_ok, requireAuth_eq_ok, exists_const,
        okOr_eq_ok, ensure_eq_ok, Prod.exists, nextCounter_eq_ok, executeIfReached_eq_ok, pure_eq_ok,
        Prod.mk.injEq] at h
      obtain ⟨w₂, id, ⟨hsigned, cfg, hstored, hsigner, w₀, counter, ⟨hroom, rfl, rfl⟩, w₁, proposal,
        hreached, rfl, rfl⟩, rfl, rfl⟩ := h
      refine .proposed hsigned hstored hsigner ?_ hreached
      exact ⟨rfl, rfl, rfl, rfl, rfl, rfl, rfl, hroom, .inl ⟨rfl, args, rfl⟩⟩
  | proposeRotation proposer newSigners newThreshold =>
      simp only [exec, proposeRotation, loadConfig, bind_eq_ok, requireAuth_eq_ok, exists_const,
        okOr_eq_ok, ensure_eq_ok, validateSignersAndThreshold_eq_ok, Prod.exists, nextCounter_eq_ok,
        executeIfReached_eq_ok, pure_eq_ok, Prod.mk.injEq] at h
      obtain ⟨w₂, id, ⟨hsigned, cfg, hstored, hsigner, hvalid, w₀, counter, ⟨hroom, rfl, rfl⟩, w₁,
        proposal, hreached, rfl, rfl⟩, rfl, rfl⟩ := h
      refine .proposed hsigned hstored hsigner ?_ hreached
      exact ⟨rfl, rfl, rfl, rfl, rfl, rfl, rfl, hroom, .inr ⟨rfl, rfl, hvalid⟩⟩
  | approve signer id =>
      simp only [exec, approve, loadConfig, bind_eq_ok, requireAuth_eq_ok, exists_const, okOr_eq_ok,
        ensure_eq_ok, Prod.exists, executeIfReached_eq_ok, pure_eq_ok, Prod.mk.injEq] at h
      obtain ⟨w₂, executed, ⟨hsigned, cfg, hstored, hsigner, p, hread, hpending, hfirst, w₁,
        proposal, hreached, rfl, rfl⟩, rfl, rfl⟩ := h
      exact .approved hsigned hstored hsigner hread hpending hfirst hreached

/-! ## Runs -/

/-- A failed invocation is rolled back. -/
theorem machine_eq (host : Host) :
    machine host = .transactional fun w inv => exec host inv.env inv.callees w inv.call := by
  refine congrArg Machine.mk ?_
  funext w inv
  cases h : exec host inv.env inv.callees w inv.call with
  | error e => simp only [step, h]
  | ok p => simp only [step, h]

theorem step_cases (host : Host) (w : World) (inv : Invocation) :
    (∃ e, (machine host).step w inv = (w, .error e)) ∨
      ∃ w' r, (machine host).step w inv = (w', .ok r) ∧
        Effect host inv.env inv.callees w inv.call w' r := by
  rw [machine_eq]
  rcases Machine.transactional_cases
    (fun w (inv : Invocation) => exec host inv.env inv.callees w inv.call) w inv with
    ⟨e, hstep⟩ | ⟨w', r, hstep, hexec⟩
  · exact .inl ⟨e, hstep⟩
  · exact .inr ⟨w', r, hstep, effect_of_exec hexec⟩

/-- What holds at the start and survives a failed call and the effect of a successful one whose step
satisfies `P` holds after every run whose steps satisfy `P`. -/
theorem run_invariant_of_steps {P : MultisigStep → Prop} {I : List MultisigStep → World → Prop}
    {w₀ : World} (h₀ : I [] w₀)
    (hfail : ∀ t w inv e, I t w → I (t ++ [⟨w, inv, .error e⟩]) w)
    (hok : ∀ t w inv w' r, I t w → P ⟨w, inv, .ok r⟩ →
      Effect host inv.env inv.callees w inv.call w' r → I (t ++ [⟨w, inv, .ok r⟩]) w')
    (invs : List Invocation) (hP : ∀ e ∈ (machine host).trace w₀ invs, P e) :
    I ((machine host).trace w₀ invs) ((machine host).final w₀ invs) := by
  rw [machine_eq] at hP ⊢
  refine Machine.transactional_invariant_of_steps h₀ ?_ ?_ invs hP
  · intro t w inv e hI _
    exact hfail t w inv e hI
  · intro t w inv w' r hI hp hexec
    exact hok t w inv w' r hI hp (effect_of_exec hexec)

/-- The same for all runs. -/
theorem run_invariant {I : List MultisigStep → World → Prop} {w₀ : World} (h₀ : I [] w₀)
    (hfail : ∀ t w inv e, I t w → I (t ++ [⟨w, inv, .error e⟩]) w)
    (hok : ∀ t w inv w' r, I t w →
      Effect host inv.env inv.callees w inv.call w' r → I (t ++ [⟨w, inv, .ok r⟩]) w')
    (invs : List Invocation) : I ((machine host).trace w₀ invs) ((machine host).final w₀ invs) :=
  run_invariant_of_steps (P := fun _ => True) h₀ hfail
    (fun t w inv w' r hI _ heffect => hok t w inv w' r hI heffect) invs (fun _ _ => trivial)

end OpaqueStellar.Multisig
