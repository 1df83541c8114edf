import OpaqueStellar.Lib.Words

/-! # The external nullifier of an application and an action

The mix turns the application's number by half a word, combines it with the action's and passes the
result through a product with an odd constant and a shift. Everything after the combination loses
nothing, so two pairs meet exactly when their combinations do. -/

namespace OpaqueStellar.Reputation

open OpaqueStellar.Lib

/-- `compute_external_nullifier`, on words of 64 bits. -/
def computeExternalNullifier (appId actionId : BitVec 64) : BitVec 64 :=
  let mixed := appId.rotateLeft 32 ^^^ actionId
  let h := mixed * 0x9e3779b97f4a7c15#64
  h ^^^ (h >>> 30)

def upperHalf (a : BitVec 64) : BitVec 32 := a.extractLsb' 32 32

def lowerHalf (a : BitVec 64) : BitVec 32 := a.extractLsb' 0 32

theorem computeExternalNullifier_eq_iff {a b a' b' : BitVec 64} :
    computeExternalNullifier a b = computeExternalNullifier a' b' ↔
      a.rotateLeft 32 ^^^ b = a'.rotateLeft 32 ^^^ b' := by
  have hmul : Function.Injective fun x : BitVec 64 => x * 0x9e3779b97f4a7c15#64 :=
    Words.mul_left_injective (d := 0xf1de83e19937733d#64) (by decide)
  have hshift : Function.Injective (Words.xorShift (w := 64) 30) :=
    Words.xorShift_injective (by decide)
  constructor
  · intro h
    exact hmul (hshift h)
  · intro h
    rw [computeExternalNullifier, computeExternalNullifier, h]

/-- The pair and the pair turned around. -/
theorem computeExternalNullifier_swap_iff {a b : BitVec 64} :
    computeExternalNullifier a b = computeExternalNullifier b a ↔
      upperHalf (a ^^^ b) = lowerHalf (a ^^^ b) := by
  have hturn : a.rotateLeft 32 ^^^ b = b.rotateLeft 32 ^^^ a ↔
      (a ^^^ b).rotateLeft 32 = a ^^^ b := by
    rw [Words.rotateLeft_xor (by decide), Words.xor_eq_xor_iff]
  rw [computeExternalNullifier_eq_iff, hturn]
  exact Words.rotateLeft_half_eq_self_iff (h := 32) (a ^^^ b)

/-- **Mixing of the external nullifier.** With either argument fixed the mix is injective in the other.
An application's and an action's number exchanged give different nullifiers exactly when the two
halves of their exclusive or differ; for `(a, 0)` and `(0, a)` these are the halves of `a`. -/
theorem externalNullifier_mixing (a b : BitVec 64) :
    Function.Injective (computeExternalNullifier a) ∧
    (Function.Injective fun appId => computeExternalNullifier appId b) ∧
    (computeExternalNullifier a 0 ≠ computeExternalNullifier 0 a ↔ upperHalf a ≠ lowerHalf a) ∧
    (computeExternalNullifier a b ≠ computeExternalNullifier b a ↔
      upperHalf (a ^^^ b) ≠ lowerHalf (a ^^^ b)) := by
  refine ⟨?_, ?_, ?_, not_congr computeExternalNullifier_swap_iff⟩
  · intro action action' h
    exact Words.xor_left_injective _ (computeExternalNullifier_eq_iff.mp h)
  · intro app app' h
    have hturned := (BitVec.xor_left_inj b).mp (computeExternalNullifier_eq_iff.mp h)
    exact Words.rotateLeft_injective (by decide) hturned
  · simpa using not_congr (computeExternalNullifier_swap_iff (a := a) (b := 0))

/-- Both halves are one. -/
theorem externalNullifier_mixing_fails :
    0x0000000100000001#64 ≠ 0 ∧
      computeExternalNullifier 0x0000000100000001#64 0 =
        computeExternalNullifier 0 0x0000000100000001#64 := by
  decide

end OpaqueStellar.Reputation
