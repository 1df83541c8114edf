import OpaqueStellar.Asp.Merkle
import OpaqueStellar.Circuit.PoolWithdraw

/-! # The reputation circuit

`StealthReputation` of `circuits/v2/stealth_reputation.circom` as constraints between the four public
signals and the private ones, in the way of the withdraw circuit. -/

namespace OpaqueStellar.Circuit

open OpaqueStellar.Lib

/-- The hashes of the reputation circuit: also one of five inputs. -/
structure PoseidonV2 (F : Type) [Zero F] extends Poseidon F where
  hash5 : F → F → F → F → F → F
  hash5_ne_zero : ∀ a b c d e, hash5 a b c d e ≠ 0

variable {F : Type} [CommRing F]

/-! ## Equality -/

/-- `IsZero`, with the inverse of the input as a hint. -/
structure IsZero (inp inv out : F) : Prop where
  result : out = -inp * inv + 1
  zero : inp * out = 0

/-- `IsEqual` tests the difference of its inputs. -/
def IsEqual (in0 in1 inv out : F) : Prop := IsZero (in1 - in0) inv out

theorem IsEqual.eq {in0 in1 inv : F} (h : IsEqual in0 in1 inv 1) : in0 = in1 := by
  have hzero := h.zero
  rw [mul_one] at hzero
  exact (sub_eq_zero.mp hzero).symm

/-! ## The circuit -/

structure PublicSignalsV2 (F : Type) where
  merkleRoot : F
  attestationId : F
  externalNullifier : F
  nullifierHash : F

structure WitnessV2 (F : Type) where
  stealthPk : F
  schemaId : F
  issuerPkX : F
  traitDataHash : F
  nonce : F
  merklePath : ℕ → F
  merklePathIndices : ℕ → F
  -- the hint of `schema_check`
  schemaInv : F

/-- The leaf that a witness opens. -/
def WitnessV2.leaf (P : PoseidonV2 F) (w : WitnessV2 F) : F :=
  P.hash5 w.stealthPk w.schemaId w.issuerPkX w.traitDataHash w.nonce

structure StealthReputation (P : PoseidonV2 F) (levels : ℕ) (pub : PublicSignalsV2 F)
    (w : WitnessV2 F) : Prop where
  merkle : MerkleInclusion P.hash2 levels (w.leaf P) w.merklePath w.merklePathIndices pub.merkleRoot
  schema : IsEqual w.schemaId pub.attestationId w.schemaInv 1
  nullifier : P.hash2 w.stealthPk pub.externalNullifier = pub.nullifierHash

/-! ## What a satisfying assignment says -/

variable [IsDomain F]

/-- Against the root of a tree of leaves, the circuit proves one of them. -/
theorem StealthReputation.leaf_mem {P : PoseidonV2 F} {pub : PublicSignalsV2 F} {w : WitnessV2 F}
    {t : Asp.MerkleTree F} (h : StealthReputation P t.depth pub w)
    (hroot : pub.merkleRoot = Asp.MerkleTree.root P.hash2 t) : w.leaf P ∈ t.leaves := by
  classical
  rw [Asp.MerkleTree.root_eq_node] at hroot
  have hleaf := h.merkle.leaf_eq P.hash2_inj hroot
  set i := Merkle.position (path w.merklePath w.merklePathIndices t.depth)
  rcases Nat.lt_or_ge i t.leaves.length with hlt | hge
  · rw [hleaf, Asp.MerkleTree.padded, List.getD_eq_getElem _ _ hlt]
    exact List.getElem_mem hlt
  · -- beyond the leaves the tree is padded with zeros, which no leaf hashes to
    rw [Asp.MerkleTree.padded_of_le hge] at hleaf
    exact absurd hleaf (P.hash5_ne_zero _ _ _ _ _)

end OpaqueStellar.Circuit
