import OpaqueStellar.Pool.Contract
import OpaqueStellar.Prover.Pool
import OpaqueStellar.Soroban.Xdr

/-! # The context of a withdrawal

`compute_context` of the pool contract and `computeWithdrawContext` of the SDK hash who is paid, how
much, by whom and in which pool, and reduce the digest to a scalar. Both hash the same bytes, and the
bytes determine what they were made of. -/

namespace OpaqueStellar.Prover

open OpaqueStellar.Lib OpaqueStellar.Soroban

/-- What the context of a withdrawal binds. -/
structure ContextArgs where
  recipient : Address
  withdrawnValue : I128
  fee : I128
  relayer : Address
  scope : UInt64
  deriving DecidableEq

/-- What the contract hashes. -/
def contextBytes (c : ContextArgs) : List UInt8 :=
  c.recipient.toXdr ++ c.withdrawnValue.toBeBytes ++ c.fee.toBeBytes ++ c.relayer.toXdr ++
    beBytes 8 c.scope.toNat

/-- What the SDK hashes: its `preimage`. -/
def withdrawContextPreimage (recipient : Address) (withdrawn fee : ℤ) (relayer : Address)
    (scope : ℕ) : List UInt8 :=
  recipient.toXdr ++ bigintBytes 16 withdrawn ++ bigintBytes 16 fee ++ relayer.toXdr ++
    bigintBytes 8 scope

/-- The context in the contract. -/
def ContextArgs.context (host : Pool.Host) (c : ContextArgs) : BytesN 32 :=
  Pool.computeContext host c.recipient c.withdrawnValue c.fee c.relayer c.scope

/-! ## The digest -/

/-- The loop of the SDK that reads the digest. -/
theorem foldl_digest (bytes : List UInt8) (v : ℕ) :
    bytes.foldl (fun v b => (v <<< 8) + b.toNat) v = v * 256 ^ bytes.length + beNat bytes := by
  induction bytes generalizing v with
  | nil => simp [beNat]
  | cons b bytes ih =>
      rw [List.foldl_cons, ih, beNat, List.length_cons, pow_succ, Nat.shiftLeft_eq]
      ring

/-- Thirty-two bytes are not padded. -/
theorem bytesToBytesN32_beBytes (n : ℕ) :
    Pool.bytesToBytesN32 (beBytes 32 n) = BytesN.ofNat 32 n := by
  apply Subtype.ext
  simp [Pool.bytesToBytesN32, BytesN.ofNat]

theorem toNat_context (host : Pool.Host) (c : ContextArgs) :
    (c.context host).toNat = (host.keccak256 (contextBytes c)).toNat % Groth16.scalarOrder := by
  have horder : Groth16.scalarOrder < 256 ^ 32 := by decide
  have hlt := Nat.mod_lt (host.keccak256 (contextBytes c)).toNat
    (by decide : 0 < Groth16.scalarOrder)
  have hcontext : c.context host = Pool.bytesToBytesN32
      (beBytes 32 ((host.keccak256 (contextBytes c)).toNat % Groth16.scalarOrder)) := rfl
  rw [hcontext, bytesToBytesN32_beBytes, BytesN.toNat, BytesN.ofNat, beNat_beBytes,
    Nat.mod_eq_of_lt (hlt.trans horder)]

theorem computeWithdrawContext_eq (keccak256 : List UInt8 → BytesN 32) (recipient : Address)
    (withdrawn fee : ℤ) (relayer : Address) (scope : ℕ) :
    computeWithdrawContext keccak256 recipient withdrawn fee relayer scope =
      (keccak256 (withdrawContextPreimage recipient withdrawn fee relayer scope)).1.foldl
        (fun v b => (v <<< 8) + b.toNat) 0 % Groth16.scalarOrder := by
  rw [foldl_digest, Nat.zero_mul, Nat.zero_add, withdrawContextPreimage, bigintBytes_natCast,
    bigintBytes_eq, bigintBytes_eq]
  rfl

/-! ## The preimage -/

/-- The SDK hashes what the contract hashes. -/
theorem contextBytes_eq (c : ContextArgs) :
    contextBytes c = withdrawContextPreimage c.recipient c.withdrawnValue.val c.fee.val c.relayer
      c.scope.toNat := by
  rw [contextBytes, withdrawContextPreimage, bigintBytes_val, bigintBytes_val, bigintBytes_natCast]

theorem contextBytes_injective : Function.Injective contextBytes := by
  intro c c' h
  unfold contextBytes at h
  simp only [List.append_assoc] at h
  obtain ⟨hrecipient, h⟩ := Address.framed_toXdr _ _ _ _ h
  obtain ⟨hvalue, h⟩ := I128.framed_toBeBytes _ _ _ _ h
  obtain ⟨hfee, h⟩ := I128.framed_toBeBytes _ _ _ _ h
  obtain ⟨hrelayer, h⟩ := Address.framed_toXdr _ _ _ _ h
  have hscope := UInt64.toNat_inj.mp (beBytes_inj c.scope.toNat_lt c'.scope.toNat_lt h)
  cases c
  cases c'
  simp_all

/-- The context of the contract is the scalar of the SDK. -/
theorem toNat_context_eq (host : Pool.Host) (c : ContextArgs) :
    (c.context host).toNat = computeWithdrawContext host.keccak256 c.recipient
      c.withdrawnValue.val c.fee.val c.relayer c.scope.toNat := by
  rw [toNat_context, computeWithdrawContext_eq, foldl_digest, Nat.zero_mul, Nat.zero_add,
    contextBytes_eq]
  rfl

/-- **The context binds the withdrawal.** The contract and the SDK hash the same bytes and reduce the
digest to the same scalar, no two withdrawals have the same bytes, and so two withdrawals of one context
are one withdrawal or a collision of the hash modulo the order of the field. -/
theorem context_binding (host : Pool.Host) :
    (∀ c : ContextArgs,
      contextBytes c = withdrawContextPreimage c.recipient c.withdrawnValue.val c.fee.val c.relayer
        c.scope.toNat ∧
      (c.context host).toNat = computeWithdrawContext host.keccak256 c.recipient
        c.withdrawnValue.val c.fee.val c.relayer c.scope.toNat) ∧
    Function.Injective contextBytes ∧
    ∀ c c' : ContextArgs, c.context host = c'.context host ↔ c = c' ∨
      contextBytes c ≠ contextBytes c' ∧
      (host.keccak256 (contextBytes c)).toNat ≡ (host.keccak256 (contextBytes c')).toNat
        [MOD Groth16.scalarOrder] := by
  refine ⟨fun c => ⟨contextBytes_eq c, toNat_context_eq host c⟩, contextBytes_injective, ?_⟩
  · intro c c'
    have hcontext : c.context host = c'.context host ↔
        (host.keccak256 (contextBytes c)).toNat ≡ (host.keccak256 (contextBytes c')).toNat
          [MOD Groth16.scalarOrder] := by
      rw [Nat.ModEq, ← toNat_context, ← toNat_context]
      exact ⟨congrArg BytesN.toNat, BytesN.toNat_inj⟩
    rw [hcontext]
    by_cases hc : c = c'
    · simp [hc, Nat.ModEq.refl]
    · simp [hc, contextBytes_injective.ne hc]

end OpaqueStellar.Prover
