import OpaqueStellar.Circuit.Gadgets

/-! # The withdraw circuit

`PrivacyPoolWithdraw` of `circuits/v3/privacy_pool_withdraw.circom` as constraints between the six
public signals and the private ones. Signals that are assigned with `<==` are written out as the
expression they are assigned; the private inputs and the digits of `Num2Bits` are the witness. The
squaring of `context` constrains nothing, since its result is a signal of its own. -/

namespace OpaqueStellar.Circuit

open OpaqueStellar.Lib

structure PublicSignals (F : Type) where
  withdrawnValue : F
  stateRoot : F
  aspRoot : F
  nullifierHash : F
  newCommitment : F
  context : F

structure Witness (F : Type) where
  value : F
  label : F
  nullifier : F
  secret : F
  newNullifier : F
  newSecret : F
  stateSiblings : ℕ → F
  stateIndex : ℕ → F
  aspSiblings : ℕ → F
  aspIndex : ℕ → F
  valueBits : ℕ → F
  withdrawnBits : ℕ → F
  leBits : ℕ → F
  deriving Inhabited

variable {F : Type} [CommRing F]

namespace Witness

variable (P : Poseidon F) (w : Witness F)

/-- The spent commitment. -/
def commit : F := P.hash3 w.value w.label (P.hash2 w.nullifier w.secret)

def newPre : F := P.hash2 w.newNullifier w.newSecret

end Witness

structure PrivacyPoolWithdraw (P : Poseidon F) (levels valueBits : ℕ) (pub : PublicSignals F)
    (w : Witness F) : Prop where
  stateProof : MerkleInclusion P.hash2 levels (w.commit P) w.stateSiblings w.stateIndex
    pub.stateRoot
  aspProof : MerkleInclusion P.hash2 levels w.label w.aspSiblings w.aspIndex pub.aspRoot
  nullifier : P.hash1 w.nullifier = pub.nullifierHash
  valueRange : Num2Bits valueBits w.value w.valueBits
  withdrawnRange : Num2Bits valueBits pub.withdrawnValue w.withdrawnBits
  le : LessEqThan valueBits pub.withdrawnValue w.value w.leBits 1
  newCommit : P.hash3 (w.value - pub.withdrawnValue) w.label (w.newPre P) = pub.newCommitment

/-- The parameters of the deployed circuit. -/
def LEVELS : ℕ := 20

def VALUE_BITS : ℕ := 64

/-! ## What a satisfying assignment says -/

section Spec

variable [IsDomain F] {P : Poseidon F} {levels valueBits : ℕ} {pub : PublicSignals F}
  {w : Witness F}

/-- The withdrawn value and the value of the note are numbers, and the first is not larger. -/
theorem PrivacyPoolWithdraw.values {r : ℕ} (h : PrivacyPoolWithdraw P levels valueBits pub w)
    (hr : 2 ^ (valueBits + 1) ≤ r) (hcast : NatCastInj F r) :
    ∃ value withdrawn : ℕ, value < 2 ^ valueBits ∧ withdrawn ≤ value ∧ w.value = value ∧
      pub.withdrawnValue = withdrawn := by
  obtain ⟨value, hvalue, hv⟩ := h.valueRange.exists_lt
  obtain ⟨withdrawn, hwithdrawn, hw⟩ := h.withdrawnRange.exists_lt
  refine ⟨value, withdrawn, hvalue, ?_, hv, hw⟩
  have hle := h.le
  rw [hv, hw] at hle
  exact hle.le hr hcast hwithdrawn hvalue

variable [DecidableEq F]

/-- The leaf position that the state-tree path of a witness points at. -/
def Witness.stateLeaf (levels : ℕ) (w : Witness F) : ℕ :=
  Merkle.position (path w.stateSiblings w.stateIndex levels)

/-- A satisfied inclusion proof against the root of a tree is for the leaf at its position. -/
theorem MerkleInclusion.leaf_eq {hash2 : F → F → F}
    (hinj : ∀ {a b c d}, hash2 a b = hash2 c d → a = c ∧ b = d) {leaf root : F}
    {siblings pathIndices : ℕ → F} {f : ℕ → F}
    (h : MerkleInclusion hash2 levels leaf siblings pathIndices root)
    (hroot : root = Merkle.node hash2 f levels 0) :
    leaf = f (Merkle.position (path siblings pathIndices levels)) := by
  have hfold : Merkle.fold hash2 leaf (path siblings pathIndices levels) =
      Merkle.node hash2 f (path siblings pathIndices levels).length 0 := by
    rw [← merkleCur_eq_fold h.binary, ← h.root, hroot, length_path]
  have hleaf := Merkle.fold_eq_node hinj hfold
  rwa [Nat.zero_add] at hleaf

end Spec

end OpaqueStellar.Circuit
