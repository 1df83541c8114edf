import OpaqueStellar.Registry.Contract
import OpaqueStellar.Relayer.Bytes
import OpaqueStellar.Soroban.Xdr

/-! # The payload of a relayed withdrawal

`poolWithdrawPayloadPreimage` of `sdk/src/relayer-protocol/payload.ts` beside the string that the
registry hashes in `pool_withdraw_payload_hash`. The SDK takes byte arrays and big integers of any
size and throws where one does not fit; an address is the one that its text stands for. -/

namespace OpaqueStellar.Relayer

open OpaqueStellar.Lib OpaqueStellar.Soroban OpaqueStellar.Registry

structure PoolWithdrawPayload where
  poolId : Address
  proofA : List UInt8
  proofB : List UInt8
  proofC : List UInt8
  withdrawnValue : ℤ
  stateRoot : List UInt8
  aspRoot : List UInt8
  nullifierHash : List UInt8
  newCommitment : List UInt8
  recipient : Address
  poolFee : ℤ
  poolRelayer : Address
  deriving DecidableEq

def RELAY_PAYLOAD_DOMAIN : List UInt8 := ascii "opaque-stellar-relay-v1"

/-- `i128ToBytes`; `none` where it throws. -/
def i128ToBytes (value : ℤ) : Option (List UInt8) :=
  if value < -(2 ^ 127) ∨ 2 ^ 127 - 1 < value then none
  else some (bigintBytes 16 (if value < 0 then 2 ^ 128 + value else value))

/-- `none` where it throws. -/
def poolWithdrawPayloadPreimage (payload : PoolWithdrawPayload) : Option (List UInt8) := do
  let proofA ← assertLength 64 payload.proofA
  let proofB ← assertLength 128 payload.proofB
  let proofC ← assertLength 64 payload.proofC
  let withdrawnValue ← i128ToBytes payload.withdrawnValue
  let stateRoot ← assertLength 32 payload.stateRoot
  let aspRoot ← assertLength 32 payload.aspRoot
  let nullifierHash ← assertLength 32 payload.nullifierHash
  let newCommitment ← assertLength 32 payload.newCommitment
  let poolFee ← i128ToBytes payload.poolFee
  pure (RELAY_PAYLOAD_DOMAIN ++ payload.poolId.toXdr ++ symbolToXdr "withdraw" ++
    proofA.1 ++ proofB.1 ++ proofC.1 ++ withdrawnValue ++
    stateRoot.1 ++ aspRoot.1 ++ nullifierHash.1 ++ newCommitment.1 ++
    payload.recipient.toXdr ++ poolFee ++ payload.poolRelayer.toXdr)

/-- What the registry hashes. -/
def payloadBytes (privacyPool : Address) (args : Pool.WithdrawArgs) : List UInt8 :=
  PAYLOAD_DOMAIN ++ privacyPool.toXdr ++ symbolToXdr "withdraw" ++
    args.proofA.1 ++ args.proofB.1 ++ args.proofC.1 ++ args.withdrawnValue.toBeBytes ++
    args.stateRoot.1 ++ args.aspRoot.1 ++ args.nullifierHash.1 ++ args.newCommitment.1 ++
    args.recipient.toXdr ++ args.fee.toBeBytes ++ args.relayer.toXdr

theorem poolWithdrawPayloadHash_eq (host : Pool.Host) (privacyPool : Address)
    (args : Pool.WithdrawArgs) :
    poolWithdrawPayloadHash host privacyPool args =
      host.keccak256 (payloadBytes privacyPool args) := rfl

/-- The payload of a submission to the registry, as the SDK has it. -/
def payloadOf (privacyPool : Address) (args : Pool.WithdrawArgs) : PoolWithdrawPayload where
  poolId := privacyPool
  proofA := args.proofA.1
  proofB := args.proofB.1
  proofC := args.proofC.1
  withdrawnValue := args.withdrawnValue.val
  stateRoot := args.stateRoot.1
  aspRoot := args.aspRoot.1
  nullifierHash := args.nullifierHash.1
  newCommitment := args.newCommitment.1
  recipient := args.recipient
  poolFee := args.fee.val
  poolRelayer := args.relayer

/-! ## What the checks let through -/

theorem assertLength_eq_some {n : ℕ} {bytes : List UInt8} {b : BytesN n} :
    assertLength n bytes = some b ↔ bytes = b.1 := by
  unfold assertLength
  split
  · next h =>
      constructor
      · intro hsome
        exact congrArg Subtype.val (Option.some.inj hsome)
      · intro hb
        exact congrArg some (Subtype.ext hb)
  · next h =>
      constructor
      · intro hsome
        cases hsome
      · intro hb
        rw [hb] at h
        exact absurd b.2 h

theorem i128ToBytes_eq_some {value : ℤ} {bytes : List UInt8} :
    i128ToBytes value = some bytes ↔ ∃ a : I128, a.val = value ∧ a.toBeBytes = bytes := by
  -- a negative number is written with the bits of its sum with 2^128
  have hbits : bigintBytes 16 (if value < 0 then 2 ^ 128 + value else value) =
      bigintBytes 16 value := by
    split
    · rw [bigintBytes_eq, bigintBytes_eq]
      congr 2
      omega
    · rfl
  unfold i128ToBytes
  rw [hbits]
  constructor
  · intro h
    split at h
    · cases h
    · next hrange =>
        refine ⟨⟨value, by omega, by omega⟩, rfl, ?_⟩
        rw [← bigintBytes_val]
        exact Option.some.inj h
  · rintro ⟨a, rfl, rfl⟩
    have hl := a.lower
    have hu := a.upper
    rw [if_neg (by omega), bigintBytes_val]

/-- The SDK gives a preimage for the payloads of submissions, and it is the one of the registry. -/
theorem poolWithdrawPayloadPreimage_eq_some {payload : PoolWithdrawPayload} {out : List UInt8} :
    poolWithdrawPayloadPreimage payload = some out ↔
      ∃ privacyPool args, payload = payloadOf privacyPool args ∧
        payloadBytes privacyPool args = out := by
  unfold poolWithdrawPayloadPreimage
  simp only [Option.bind_eq_bind, Option.bind_eq_some_iff, assertLength_eq_some,
    i128ToBytes_eq_some, Option.pure_def, Option.some.injEq]
  constructor
  · rintro ⟨proofA, hA, proofB, hB, proofC, hC, value, ⟨withdrawnValue, hvalue, rfl⟩, stateRoot,
      hstate, aspRoot, hasp, nullifierHash, hnullifier, newCommitment, hcommitment, fee,
      ⟨poolFee, hfee, rfl⟩, rfl⟩
    refine ⟨payload.poolId, ⟨proofA, proofB, proofC, withdrawnValue, stateRoot, aspRoot,
      nullifierHash, newCommitment, payload.recipient, poolFee, payload.poolRelayer⟩, ?_, rfl⟩
    cases payload
    simp_all [payloadOf]
  · rintro ⟨privacyPool, args, rfl, rfl⟩
    exact ⟨args.proofA, rfl, args.proofB, rfl, args.proofC, rfl, _, ⟨args.withdrawnValue, rfl, rfl⟩,
      args.stateRoot, rfl, args.aspRoot, rfl, args.nullifierHash, rfl, args.newCommitment, rfl, _,
      ⟨args.fee, rfl, rfl⟩, rfl⟩

/-! ## The preimage determines the payload -/

theorem payloadBytes_inj {pool pool' : Address} {args args' : Pool.WithdrawArgs}
    (h : payloadBytes pool args = payloadBytes pool' args') : pool = pool' ∧ args = args' := by
  unfold payloadBytes at h
  simp only [List.append_assoc] at h
  have hdomain := List.append_cancel_left h
  obtain ⟨hpool, h⟩ := Address.framed_toXdr _ _ _ _ hdomain
  have hsymbol := List.append_cancel_left h
  obtain ⟨hA, h⟩ := framed_bytesN 64 _ _ _ _ hsymbol
  obtain ⟨hB, h⟩ := framed_bytesN 128 _ _ _ _ h
  obtain ⟨hC, h⟩ := framed_bytesN 64 _ _ _ _ h
  obtain ⟨hvalue, h⟩ := I128.framed_toBeBytes _ _ _ _ h
  obtain ⟨hstate, h⟩ := framed_bytesN 32 _ _ _ _ h
  obtain ⟨hasp, h⟩ := framed_bytesN 32 _ _ _ _ h
  obtain ⟨hnullifier, h⟩ := framed_bytesN 32 _ _ _ _ h
  obtain ⟨hcommitment, h⟩ := framed_bytesN 32 _ _ _ _ h
  obtain ⟨hrecipient, h⟩ := Address.framed_toXdr _ _ _ _ h
  obtain ⟨hfee, h⟩ := I128.framed_toBeBytes _ _ _ _ h
  have hrelayer := Address.framed_toXdr.injective h
  refine ⟨hpool, ?_⟩
  cases args
  cases args'
  simp_all

/-- **One preimage for one payload.** The registry hashes the bytes that the SDK gives for the same
payload; the SDK gives bytes for these payloads only; and no two of them have the same bytes, neither
in the registry nor in the SDK. -/
theorem payload_preimage :
    (∀ host privacyPool args, ∃ preimage,
      poolWithdrawPayloadPreimage (payloadOf privacyPool args) = some preimage ∧
      poolWithdrawPayloadHash host privacyPool args = host.keccak256 preimage) ∧
    (∀ payload preimage, poolWithdrawPayloadPreimage payload = some preimage ↔
      ∃ privacyPool args, payload = payloadOf privacyPool args ∧
        payloadBytes privacyPool args = preimage) ∧
    (Function.Injective fun p : Address × Pool.WithdrawArgs => payloadBytes p.1 p.2) ∧
    ∀ payload payload' preimage, poolWithdrawPayloadPreimage payload = some preimage →
      poolWithdrawPayloadPreimage payload' = some preimage → payload = payload' := by
  refine ⟨?_, fun _ _ => poolWithdrawPayloadPreimage_eq_some, ?_, ?_⟩
  · intro host privacyPool args
    exact ⟨payloadBytes privacyPool args,
      poolWithdrawPayloadPreimage_eq_some.mpr ⟨privacyPool, args, rfl, rfl⟩, rfl⟩
  · intro p p' h
    obtain ⟨hpool, hargs⟩ := payloadBytes_inj h
    exact Prod.ext hpool hargs
  · intro payload payload' preimage h h'
    obtain ⟨pool, args, rfl, rfl⟩ := poolWithdrawPayloadPreimage_eq_some.mp h
    obtain ⟨pool', args', rfl, hbytes⟩ := poolWithdrawPayloadPreimage_eq_some.mp h'
    obtain ⟨rfl, rfl⟩ := payloadBytes_inj hbytes
    rfl

end OpaqueStellar.Relayer
