import OpaqueStellar.Pool.Effect

/-! # The privacy pool: single spend

A withdrawal is identified by its nullifier hash. The pool stores the 32 bytes it was given, while
the proof speaks about a field element, so bytes that differ by a multiple of the scalar order would
be two keys for one note. The verifier's scalar check closes that gap: only canonical bytes are ever
accepted, and canonical bytes that are congruent are equal. -/

namespace OpaqueStellar.Pool

open OpaqueStellar.Lib OpaqueStellar.Soroban

variable {host : Host} {env : Env}

/-- No successful call forgets a spent nullifier. -/
theorem isSpent_effect {n : BytesN 32} {w w' : World} {call : Call} {r : Ret}
    (h : isSpent w.pool n = true) (heffect : Effect host env w call w' r) :
    isSpent w'.pool n = true := by
  by_cases hq : Quiet call
  · have hkept := (frame_of_effect heffect hq).nullifiers
    simp only [isSpent, hkept]
    exact h
  · cases heffect with
    | initializePool => exact h
    | deposit => exact h
    | @withdraw args =>
        by_cases hn : n = args.nullifierHash
        · subst hn
          simp only [isSpent, Finmap.lookup_insert]
          rfl
        · simp only [isSpent, Finmap.lookup_insert_of_ne _ hn]
          exact h
    | _ => exact absurd trivial hq

theorem isSpent_of_withdraw {w w' : World} {args : WithdrawArgs} {r : Ret}
    (heffect : Effect host env w (.withdraw args) w' r) :
    isSpent w'.pool args.nullifierHash = true := by
  cases heffect with
  | withdraw =>
      simp only [isSpent, Finmap.lookup_insert]
      rfl

theorem isSpent_step {n : BytesN 32} (w : World) (inv : Invocation)
    (h : isSpent w.pool n = true) : isSpent ((machine host).step w inv).1.pool n = true := by
  show isSpent (step host w inv).1.pool n = true
  rcases step_cases host w inv with ⟨e, hstep⟩ | ⟨w', r, hstep, heffect⟩
  · rw [hstep]
    exact h
  · rw [hstep]
    exact isSpent_effect h heffect

theorem isSpent_run {n : BytesN 32} {w : World} (h : isSpent w.pool n = true)
    (invs : List Invocation) : isSpent ((machine host).final w invs).pool n = true :=
  (machine host).stable (J := fun w => isSpent w.pool n = true) isSpent_step h invs

/-- The verifier contract said yes to a withdrawal that was let through. -/
theorem verified_of_admitted {self : Address} {keccak256 : List UInt8 → BytesN 32}
    {bn : Groth16.Bn254} {s : PoolState} {args : WithdrawArgs} {config : PoolConfig}
    (h : Admitted (.withVerifier self keccak256 bn) env s args config) :
    Groth16.verifyProofV3 bn args.proofA args.proofB args.proofC
      (args.publicInputs (.withVerifier self keccak256 bn) config.scope) = .ok true := by
  have hverified := h.verified
  simp only [Host.withVerifier] at hverified ⊢
  cases hproof : Groth16.verifyProofV3 bn args.proofA args.proofB args.proofC
      (args.publicInputs (.withVerifier self keccak256 bn) config.scope) with
  | error e =>
      simp only [Host.withVerifier] at hproof
      rw [hproof] at hverified
      cases hverified
  | ok v =>
      simp only [Host.withVerifier] at hproof
      rw [hproof] at hverified ⊢
      rw [Option.some.inj hverified]

/-- A withdrawal that was let through carries a canonical nullifier hash. -/
theorem canonical_nullifier {self : Address} {keccak256 : List UInt8 → BytesN 32}
    {bn : Groth16.Bn254} {s : PoolState} {args : WithdrawArgs} {config : PoolConfig}
    (h : Admitted (.withVerifier self keccak256 bn) env s args config) :
    args.nullifierHash.toNat < Groth16.scalarOrder := by
  apply Groth16.valid_of_verifyProofV3 (verified_of_admitted h)
  simp [Groth16.VerifyPublicInputsV3.signals, WithdrawArgs.publicInputs]

/-- A nullifier hash that is spent, or an alias of a canonical spent one, is refused. -/
theorem refused_of_spent {self : Address} {keccak256 : List UInt8 → BytesN 32}
    {bn : Groth16.Bn254} {w w' : World} {n : BytesN 32} {args : WithdrawArgs}
    (hspent : isSpent w.pool n = true) (hn : n.toNat < Groth16.scalarOrder)
    (halias : args.nullifierHash.toNat ≡ n.toNat [MOD Groth16.scalarOrder]) :
    withdraw (.withVerifier self keccak256 bn) env w args ≠ .ok w' := by
  intro h
  cases withdraw_effect h with
  | withdraw hadmitted =>
      have hn' := canonical_nullifier hadmitted
      have heq : args.nullifierHash = n :=
        BytesN.toNat_inj (Nat.ModEq.eq_of_lt_of_lt halias hn' hn)
      have hunspent := hadmitted.unspent
      rw [heq] at hunspent
      rw [isSpent, hunspent] at hspent
      cases hspent

/-- **Single spend.** Along every run: the nullifier hash of a withdrawal that succeeded stays
spent, no withdrawal with a congruent nullifier hash succeeds after it, and an invocation that
fails leaves the world as it was. -/
theorem single_spend (self : Address) (keccak256 : List UInt8 → BytesN 32) (bn : Groth16.Bn254)
    (tokens : TokenLedger) (invs : List Invocation) :
    let host := Host.withVerifier self keccak256 bn
    let w := (machine host).final (.deployed tokens) invs
    (∀ before inv later args r, invs = before ++ inv :: later → inv.call = .withdraw args →
      ((machine host).step ((machine host).final (.deployed tokens) before) inv).2 = .ok r →
      isSpent w.pool args.nullifierHash = true ∧
      ∀ env args', args'.nullifierHash.toNat ≡ args.nullifierHash.toNat [MOD Groth16.scalarOrder] →
        ∀ w', withdraw host env w args' ≠ .ok w') ∧
    ∀ env args e, withdraw host env w args = .error e →
      (machine host).step w ⟨env, .withdraw args⟩ = (w, .error e) := by
  intro host w
  refine ⟨?_, ?_⟩
  · rintro before ⟨env₀, call⟩ later args r hinvs rfl hok
    -- the successful withdrawal, its canonical hash, and the state right after it
    have hfinal : w = (machine host).final ((machine host).step
        ((machine host).final (.deployed tokens) before) ⟨env₀, .withdraw args⟩).1 later := by
      show (machine host).final (.deployed tokens) invs = _
      rw [hinvs, Machine.final_append]
      rfl
    rcases step_cases host ((machine host).final (.deployed tokens) before)
      ⟨env₀, .withdraw args⟩ with ⟨e, hstep⟩ | ⟨w₁, r₁, hstep, heffect⟩
    · have herror : Except.error e = Except.ok r := (congrArg Prod.snd hstep).symm.trans hok
      cases herror
    · have hfirst : ((machine host).step ((machine host).final (.deployed tokens) before)
          ⟨env₀, .withdraw args⟩).1 = w₁ := congrArg Prod.fst hstep
      have hspent₁ := isSpent_of_withdraw heffect
      cases heffect with
      | withdraw hadmitted =>
          have hspent : isSpent w.pool args.nullifierHash = true := by
            rw [hfinal, hfirst]
            exact isSpent_run hspent₁ later
          refine ⟨hspent, ?_⟩
          intro env args' halias w'
          exact refused_of_spent hspent (canonical_nullifier hadmitted) halias
  · intro env args e herror
    apply step_of_error
    simp only [exec, herror]
    rfl

/-- The demonstration withdrawal succeeds, so its nullifier hash stays spent and neither it nor its
alias one scalar order higher can be withdrawn again. -/
theorem single_spend_demo :
    let w := (machine Demo.host).final (.deployed Demo.tokens) (Demo.setup ++ [Demo.spend])
    isSpent w.pool Demo.args.nullifierHash = true ∧
    ∀ env w', withdraw Demo.host env w
      { Demo.args with nullifierHash := BytesN.ofNat 32 (3 + Groth16.scalarOrder) } ≠ .ok w' := by
  intro w
  have hok : ((machine Demo.host).step
      ((machine Demo.host).final (.deployed Demo.tokens) Demo.setup) Demo.spend).2 = .ok .unit := by
    decide +kernel
  obtain ⟨hspent, hrefused⟩ := (single_spend (Demo.contract 0) Demo.keccak256 Demo.bn254
    Demo.tokens (Demo.setup ++ [Demo.spend])).1 Demo.setup Demo.spend [] Demo.args .unit rfl rfl hok
  refine ⟨hspent, ?_⟩
  intro env w'
  exact hrefused env _ (by decide) w'

end OpaqueStellar.Pool
