import Mathlib.GroupTheory.OrderOfElement
import OpaqueStellar.Lib.Bytes
import OpaqueStellar.Lib.Primality

/-! # The curve

What `@noble/curves` and `k256` are relied on for: secp256k1 is a group of prime order with a base point,
its points other than infinity have encodings, and decoding takes an encoding back to its point and refuses
bytes that are none. -/

namespace OpaqueStellar.Stealth

open OpaqueStellar.Lib

/-- `CURVE.n` -/
def order : ℕ := 0xFFFFFFFFFFFFFFFFFFFFFFFFFFFFFFFEBAAEDCE6AF48A03BBFD25E8CD0364141

section Order

/-- All of Lucas's tests of the factors and of the order. -/
theorem lucasTests :
    lucasTest 297159362677 2 [2, 2, 3, 3, 11, 461, 1627771] ∧
    lucasTest 545358713 5 [2, 2, 2, 41, 59, 28181] ∧
    lucasTest 29047611873442575647497758179 2 [2, 293, 305873, 545358713, 297159362677] ∧
    lucasTest 341948486974166000522343609283189 2 [2, 2, 3, 3, 3, 109, 29047611873442575647497758179] ∧
    lucasTest 174723607534414371449 3 [2, 2, 2, 17, 59, 4051, 120233, 44706919] ∧
    lucasTest 107361793816595537 3 [2, 2, 2, 2, 16699, 85831, 4681609] ∧
    lucasTest order 7 [2, 2, 2, 2, 2, 2, 3, 149, 631, 107361793816595537, 174723607534414371449,
      341948486974166000522343609283189] := by
  decide +kernel

theorem prime_297159362677 : Nat.Prime 297159362677 := by
  apply prime_of_lucasTest 2 _ lucasTests.1
  simp only [List.forall_mem_cons]
  norm_num

theorem prime_545358713 : Nat.Prime 545358713 := by
  apply prime_of_lucasTest 5 _ lucasTests.2.1
  simp only [List.forall_mem_cons]
  norm_num

theorem prime_29047611873442575647497758179 : Nat.Prime 29047611873442575647497758179 := by
  apply prime_of_lucasTest 2 _ lucasTests.2.2.1
  simp only [List.forall_mem_cons]
  exact ⟨by norm_num, by norm_num, by norm_num, prime_545358713, prime_297159362677, by simp⟩

theorem prime_341948486974166000522343609283189 : Nat.Prime 341948486974166000522343609283189 := by
  apply prime_of_lucasTest 2 _ lucasTests.2.2.2.1
  simp only [List.forall_mem_cons]
  exact ⟨by norm_num, by norm_num, by norm_num, by norm_num, by norm_num, by norm_num,
    prime_29047611873442575647497758179, by simp⟩

theorem prime_174723607534414371449 : Nat.Prime 174723607534414371449 := by
  apply prime_of_lucasTest 3 _ lucasTests.2.2.2.2.1
  simp only [List.forall_mem_cons]
  norm_num

theorem prime_107361793816595537 : Nat.Prime 107361793816595537 := by
  apply prime_of_lucasTest 3 _ lucasTests.2.2.2.2.2.1
  simp only [List.forall_mem_cons]
  norm_num

theorem prime_order : order.Prime := by
  apply prime_of_lucasTest 7 _ lucasTests.2.2.2.2.2.2
  simp only [List.forall_mem_cons]
  exact ⟨by norm_num, by norm_num, by norm_num, by norm_num, by norm_num, by norm_num, by norm_num,
    by norm_num, by norm_num, prime_107361793816595537, prime_174723607534414371449,
    prime_341948486974166000522343609283189, by simp⟩

instance : Fact order.Prime := ⟨prime_order⟩

theorem order_lt : order < 256 ^ 32 := by decide

end Order

/-- What a curve library gives. Infinity has no encoding. -/
structure Curve where
  Point : Type
  group : AddCommGroup Point
  decEq : DecidableEq Point
  base : Point
  base_ne_zero : base ≠ 0
  order_smul : ∀ P : Point, order • P = 0
  compressed : Point → List UInt8
  uncompressed : Point → List UInt8
  -- `none` where decoding throws
  fromHex : List UInt8 → Option Point
  fromHex_compressed : ∀ P, P ≠ 0 → fromHex (compressed P) = some P
  fromHex_ne_zero : ∀ bytes P, fromHex bytes = some P → P ≠ 0
  length_compressed : ∀ P, P ≠ 0 → (compressed P).length = 33

namespace Curve

variable (E : Curve)

instance : AddCommGroup E.Point := E.group

instance : DecidableEq E.Point := E.decEq

variable {E}

/-- The order is prime, so every point but infinity has it. -/
theorem smul_eq_zero_iff {P : E.Point} (hP : P ≠ 0) {k : ℕ} : k • P = 0 ↔ order ∣ k := by
  rw [← addOrderOf_eq_prime (E.order_smul P) hP, addOrderOf_dvd_iff_nsmul_eq_zero]

theorem smul_ne_zero {P : E.Point} (hP : P ≠ 0) {k : ℕ} (hpos : 0 < k) (hlt : k < order) :
    k • P ≠ 0 := by
  rw [Ne, smul_eq_zero_iff hP]
  exact Nat.not_dvd_of_pos_of_lt hpos hlt

theorem mod_smul (k : ℕ) (P : E.Point) : (k % order) • P = k • P := by
  conv_rhs => rw [← Nat.div_add_mod k order, add_nsmul, mul_comm, mul_nsmul, E.order_smul]
  simp

end Curve

/-- A private key: a scalar that is neither zero nor too large. -/
structure SecretKey where
  bytes : BytesN 32
  pos : 0 < bytes.toNat
  lt : bytes.toNat < order

def SecretKey.scalar (key : SecretKey) : ℕ := key.bytes.toNat

/-- The point of a private key. -/
def SecretKey.point (E : Curve) (key : SecretKey) : E.Point := key.scalar • E.base

theorem SecretKey.point_ne_zero {E : Curve} (key : SecretKey) : key.point E ≠ 0 :=
  Curve.smul_ne_zero E.base_ne_zero key.pos key.lt

/-! ## A group with encodings

The remainders modulo the order, each encoded as its number. -/

namespace Toy

/-- `02`, and the number. -/
def compressed (P : ZMod order) : List UInt8 := 2 :: beBytes 32 P.val

def fromHex (bytes : List UInt8) : Option (ZMod order) :=
  match bytes with
  | 2 :: rest => if rest.length = 32 ∧ 0 < beNat rest ∧ beNat rest < order then some (beNat rest) else none
  | _ => none

theorem val_lt (P : ZMod order) : P.val < 256 ^ 32 := lt_trans (ZMod.val_lt P) order_lt

theorem fromHex_compressed {P : ZMod order} (hP : P ≠ 0) : fromHex (compressed P) = some P := by
  have hval : beNat (beBytes 32 P.val) = P.val := by
    rw [beNat_beBytes, Nat.mod_eq_of_lt (val_lt P)]
  have hpos : 0 < P.val := Nat.pos_of_ne_zero ((ZMod.val_ne_zero P).mpr hP)
  simp only [compressed, fromHex, hval]
  rw [if_pos ⟨length_beBytes 32 _, hpos, ZMod.val_lt P⟩, ZMod.natCast_zmod_val]

theorem fromHex_ne_zero {bytes : List UInt8} {P : ZMod order} (h : fromHex bytes = some P) : P ≠ 0 := by
  unfold fromHex at h
  split at h
  next rest =>
    split at h
    next hrange =>
      obtain rfl := Option.some.inj h
      rw [Ne, ZMod.natCast_eq_zero_iff]
      exact Nat.not_dvd_of_pos_of_lt hrange.2.1 hrange.2.2
    next => cases h
  next => cases h

def curve : Curve where
  Point := ZMod order
  group := inferInstance
  decEq := inferInstance
  base := 1
  base_ne_zero := one_ne_zero
  order_smul P := by rw [nsmul_eq_mul, ZMod.natCast_self, zero_mul]
  compressed := compressed
  uncompressed P := 4 :: beBytes 64 P.val
  fromHex := fromHex
  fromHex_compressed _ hP := fromHex_compressed hP
  fromHex_ne_zero _ _ h := fromHex_ne_zero h
  length_compressed P _ := by simp [compressed]

end Toy

end OpaqueStellar.Stealth
