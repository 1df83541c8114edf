import OpaqueStellar.Soroban.Basic

/-! # Token balances

A standard token: a transfer moves exactly the amount from one holder to another or traps. The
ledger holds the balances of every token contract, so that a contract configured with any token
address can be run.

`transfer_eq_ok` says what a transfer that goes through did to *every* balance in one equation;
sending to oneself is the case where the two corrections cancel. -/

namespace OpaqueStellar.Soroban

/-- Balances by token contract and holder. -/
abbrev TokenLedger := Address → Address → ℕ

namespace TokenLedger

variable {ε : Type}

/-- Overwrite one balance. -/
def set (t : TokenLedger) (token holder : Address) (n : ℕ) : TokenLedger :=
  fun token' holder' => if token' = token ∧ holder' = holder then n else t token' holder'

/-- `TokenClient::transfer` of the token at `token`, as the host runs it for an authorised sender:
debit the sender, then credit the receiver. -/
def transfer (env : Env) (t : TokenLedger) (token src dst : Address) (amount : I128) :
    Result ε TokenLedger := do
  ensure (0 ≤ amount.val) (.trap .negativeAmount)
  ensure (env.refuses token src dst = false) (.trap .refused)
  ensure (amount.val ≤ t token src) (.trap .insufficientBalance)
  let debited := t.set token src (t token src - amount.val.toNat)
  ensure (debited token dst + amount.val < 2 ^ 127) (.trap .overflow)
  pure (debited.set token dst (debited token dst + amount.val.toNat))

/-- A transfer that is skipped where the amount is not positive, as contracts guard their payouts. -/
def transferPositive (env : Env) (t : TokenLedger) (token src dst : Address) (amount : I128) :
    Result ε TokenLedger :=
  if 0 < amount.val then t.transfer env token src dst amount else pure t

/-- What `holder` gains in token `token'` when `amount` of `token` goes from `src` to `dst`. -/
def gain (token src dst : Address) (amount : ℤ) (token' holder : Address) : ℤ :=
  (if token' = token ∧ holder = dst then amount else 0) -
    (if token' = token ∧ holder = src then amount else 0)

theorem gain_dst {src dst : Address} (h : dst ≠ src) (token : Address) (amount : ℤ) :
    gain token src dst amount token dst = amount := by
  simp [gain, h]

theorem gain_src {src dst : Address} (h : dst ≠ src) (token : Address) (amount : ℤ) :
    gain token src dst amount token src = -amount := by
  simp [gain, h.symm]

/-- **A transfer that goes through** was covered by the sender's balance and changed each balance
by its `gain`. -/
theorem transfer_eq_ok {env : Env} {t t' : TokenLedger} {token src dst : Address} {amount : I128}
    (h : (transfer env t token src dst amount : Result ε TokenLedger) = .ok t') :
    0 ≤ amount.val ∧ amount.val ≤ t token src ∧
      ∀ token' holder,
        (t' token' holder : ℤ) = t token' holder + gain token src dst amount.val token' holder := by
  simp only [transfer, bind_eq_ok, ensure_eq_ok, exists_const, pure_eq_ok] at h
  obtain ⟨hpos, -, hbal, -, rfl⟩ := h
  refine ⟨hpos, hbal, ?_⟩
  intro token' holder
  simp only [set, gain]
  split_ifs <;> simp_all
  omega

/-- A transfer within the sender's balance does not fail for lack of balance. -/
theorem avoids_transfer_insufficient {env : Env} {t : TokenLedger} {token src dst : Address}
    {amount : I128} (h : amount.val ≤ t token src) :
    Avoids (.trap .insufficientBalance)
      (transfer env t token src dst amount : Result ε TokenLedger) := by
  refine Avoids.bind (avoids_ensure (by simp)) fun _ _ => ?_
  refine Avoids.bind (avoids_ensure (by simp)) fun _ _ => ?_
  refine Avoids.bind (avoids_ensure_of_pos h) fun _ _ => ?_
  exact Avoids.bind (avoids_ensure (by simp)) fun _ _ => avoids_pure

/-- A transfer fails by a trap, never with an error of the contract that made it. -/
theorem avoids_transfer_err {env : Env} {t : TokenLedger} {token src dst : Address}
    {amount : I128} {e : ε} :
    Avoids (.err e) (transfer env t token src dst amount : Result ε TokenLedger) := by
  refine Avoids.bind (avoids_ensure (by simp)) fun _ _ => ?_
  refine Avoids.bind (avoids_ensure (by simp)) fun _ _ => ?_
  refine Avoids.bind (avoids_ensure (by simp)) fun _ _ => ?_
  exact Avoids.bind (avoids_ensure (by simp)) fun _ _ => avoids_pure

/-- Nobody but the sender loses by a transfer. -/
theorem le_of_transfer {env : Env} {t t' : TokenLedger} {token src dst : Address} {amount : I128}
    (h : (transfer env t token src dst amount : Result ε TokenLedger) = .ok t')
    (token' : Address) {holder : Address} (hne : holder ≠ src) :
    t token' holder ≤ t' token' holder := by
  obtain ⟨hpos, -, hall⟩ := transfer_eq_ok h
  have := hall token' holder
  simp only [gain, hne, and_false, if_false] at this
  split_ifs at this <;> omega

/-! ## Guarded transfers -/

theorem transferPositive_eq_ok {env : Env} {t t' : TokenLedger} {token src dst : Address}
    {amount : I128} (hnonneg : 0 ≤ amount.val)
    (h : (transferPositive env t token src dst amount : Result ε TokenLedger) = .ok t') :
    ∀ token' holder,
      (t' token' holder : ℤ) = t token' holder + gain token src dst amount.val token' holder := by
  unfold transferPositive at h
  split at h
  · exact (transfer_eq_ok h).2.2
  · next hle =>
      have hzero : amount.val = 0 := by omega
      rw [pure_eq_ok] at h
      subst h
      intro token' holder
      simp [gain, hzero]

/-- A guarded transfer takes at most its amount from the sender. -/
theorem le_of_transferPositive {env : Env} {t t' : TokenLedger} {token src dst : Address}
    {amount : I128} (hnonneg : 0 ≤ amount.val)
    (h : (transferPositive env t token src dst amount : Result ε TokenLedger) = .ok t') :
    (t token src : ℤ) - amount.val ≤ t' token src := by
  rw [transferPositive_eq_ok hnonneg h token src]
  simp only [gain, and_self, if_true]
  split_ifs <;> omega

/-- Nobody but the sender loses by a guarded transfer. -/
theorem le_of_transferPositive_of_ne {env : Env} {t t' : TokenLedger} {token src dst : Address}
    {amount : I128}
    (h : (transferPositive env t token src dst amount : Result ε TokenLedger) = .ok t')
    (token' : Address) {holder : Address} (hne : holder ≠ src) :
    t token' holder ≤ t' token' holder := by
  unfold transferPositive at h
  split at h
  · exact le_of_transfer h token' hne
  · rw [pure_eq_ok] at h
    rw [h]

theorem avoids_transferPositive_insufficient {env : Env} {t : TokenLedger}
    {token src dst : Address} {amount : I128} (h : amount.val ≤ t token src) :
    Avoids (.trap .insufficientBalance)
      (transferPositive env t token src dst amount : Result ε TokenLedger) := by
  unfold transferPositive
  split
  · exact avoids_transfer_insufficient h
  · exact avoids_pure

theorem avoids_transferPositive_err {env : Env} {t : TokenLedger} {token src dst : Address}
    {amount : I128} {e : ε} :
    Avoids (.err e) (transferPositive env t token src dst amount : Result ε TokenLedger) := by
  unfold transferPositive
  split
  · exact avoids_transfer_err
  · exact avoids_pure

end TokenLedger

end OpaqueStellar.Soroban
