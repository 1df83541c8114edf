import Mathlib.Data.ZMod.Basic
import OpaqueStellar.Groth16.Verifier
import OpaqueStellar.Lib.Montgomery

/-! # The field of the Poseidon crate

`contracts/opaque-poseidon/src/field.rs`: elements of the scalar field of BN254 as four words, in Montgomery
form while the permutation runs. `none` is an overflow.

`montmul_eq` and `add_eq` say what the operations return for operands below the modulus, and
`fromBeBytes_eq` that every 32 bytes are read as their number modulo it. The element that four words stand
for in Montgomery form is `Fr.element`; on it the operations are those of the field
(`element_montmul`, `element_add`, `element_pow5`). -/

namespace OpaqueStellar.Poseidon

open OpaqueStellar.Lib OpaqueStellar.Lib.Limbs OpaqueStellar.Groth16

/-- A scalar field element: four little-endian 64-bit limbs. -/
structure Fr where
  limbs : List UInt64
  length_limbs : limbs.length = 4
deriving DecidableEq

/-- The modulus, little-endian limbs. -/
def MODULUS : List UInt64 :=
  [0x43e1f593f0000001, 0x2833e84879b97091, 0xb85045b68181585d, 0x30644e72e131a029]

/-- The inverse of the modulus modulo 2^64, negated. -/
def INV : UInt64 := 0xc2e1f593efffffff

/-- The square of 2^256 modulo the modulus. -/
def R2 : Fr := ⟨[0x1bb8e645ae216da7, 0x53fe3ab1e35c59e3, 0x8c49833d53bb8085, 0x0216d0b17f4e44a5], rfl⟩

namespace Fr

def ZERO : Fr := ⟨[0, 0, 0, 0], rfl⟩

def ofLimbs (limbs : List UInt64) : Option Fr :=
  if h : limbs.length = 4 then some ⟨limbs, h⟩ else none

def value (x : Fr) : ℕ := Limbs.value x.limbs

end Fr

/-! ## The operations -/

/-- `(a + b) mod r` -/
def add (a b : Fr) : Option Fr := (Montgomery.add MODULUS a.limbs b.limbs).bind Fr.ofLimbs

def montmul (a b : Fr) : Option Fr := (Montgomery.montmul MODULUS INV a.limbs b.limbs).bind Fr.ofLimbs

def pow5 (x : Fr) : Option Fr := do
  let x2 ← montmul x x
  let x4 ← montmul x2 x2
  montmul x4 x

def Fr.toMont (x : Fr) : Option Fr := montmul x R2

def Fr.fromMont (x : Fr) : Option Fr := montmul x ⟨[1, 0, 0, 0], rfl⟩

theorem value_MODULUS : value MODULUS = scalarOrder := by decide

theorem ofLimbs_eq {ls : List UInt64} (h : ls.length = 4) : Fr.ofLimbs ls = some ⟨ls, h⟩ := dif_pos h

/-! ## Reading and writing bytes -/

/-- `v = (v << 8) | b` -/
def shiftIn (v : UInt64) (b : UInt8) : UInt64 := v <<< 8 ||| b.toUInt64

def word (bytes : List UInt8) : UInt64 := bytes.foldl shiftIn 0

def chunk (b : BytesN 32) (i : ℕ) : UInt64 := word ((b.1.drop (i * 8)).take 8)

def subAssign (a : Fr) (b : List UInt64) : Option Fr := (Limbs.subAssign a.limbs b).bind Fr.ofLimbs

theorem ge_MODULUS_iff (x : Fr) : ge x.limbs MODULUS = true ↔ scalarOrder ≤ x.value := by
  rw [ge_iff (show x.limbs.length = MODULUS.length from x.length_limbs), value_MODULUS]
  rfl

theorem subAssign_eq {x : Fr} (h : ge x.limbs MODULUS = true) :
    ∃ y, subAssign x MODULUS = some y ∧ y.value + scalarOrder = x.value := by
  have hlength : x.limbs.length = MODULUS.length := x.length_limbs
  have hlt := value_lt x.limbs
  have hle := (ge_iff hlength).mp h
  obtain ⟨ls, hsub, hls, hvalue⟩ := Limbs.subAssign_eq hlength 0 (by omega) (by omega)
  have hls' : ls.length = 4 := hls.trans x.length_limbs
  refine ⟨⟨ls, hls'⟩, by rw [subAssign, hsub, Option.bind_some, ofLimbs_eq hls'], ?_⟩
  rw [value_MODULUS, mul_zero, add_zero] at hvalue
  exact hvalue

theorem value_lt_of_subAssign {x y : Fr} (h : ge x.limbs MODULUS = true)
    (hsub : subAssign x MODULUS = some y) : y.value < x.value := by
  obtain ⟨y', hsub', hvalue⟩ := subAssign_eq h
  obtain rfl := Option.some.inj (hsub.symm.trans hsub')
  rw [← hvalue]
  exact Nat.lt_add_of_pos_right (by decide)

/-- `while ge(r, MODULUS) { sub_assign(r, MODULUS) }` -/
def reduce (r : Fr) : Option Fr :=
  if h : ge r.limbs MODULUS = true then
    match hsub : subAssign r MODULUS with
    | some next =>
        have := value_lt_of_subAssign h hsub
        reduce next
    | none => none
  else some r
termination_by r.value

def Fr.fromBeBytes (b : BytesN 32) : Option Fr :=
  reduce ⟨[chunk b 3, chunk b 2, chunk b 1, chunk b 0], rfl⟩

def toBeBytes (limbs : List UInt64) : List UInt8 := limbs.reverse.flatMap fun limb => beBytes 8 limb.toNat

theorem length_toBeBytes (limbs : List UInt64) : (toBeBytes limbs).length = 8 * limbs.length := by
  simp [toBeBytes, List.length_flatMap, mul_comm]

def Fr.toBeBytes (x : Fr) : BytesN 32 :=
  ⟨Poseidon.toBeBytes x.limbs, by rw [length_toBeBytes, x.length_limbs]⟩

theorem reduce_of_ge {x y : Fr} (h : ge x.limbs MODULUS = true) (hsub : subAssign x MODULUS = some y) :
    reduce x = reduce y := by
  rw [reduce, dif_pos h]
  split
  · next next hnext => rw [Option.some.inj (hsub.symm.trans hnext)]
  · next hnone => cases hsub.symm.trans hnone

/-- The loop ends, with the number modulo the modulus. -/
theorem reduce_eq (x : Fr) : ∃ y, reduce x = some y ∧ y.value = x.value % scalarOrder := by
  induction x using reduce.induct with
  | case1 x h y hsub _ ih =>
      obtain ⟨z, hz, hvalue⟩ := ih
      obtain ⟨y', hsub', hsum⟩ := subAssign_eq h
      obtain rfl := Option.some.inj (hsub.symm.trans hsub')
      refine ⟨z, by rw [reduce_of_ge h hsub, hz], ?_⟩
      rw [hvalue, ← hsum, Nat.add_mod_right]
  | case2 x h hsub =>
      obtain ⟨y, hsub', -⟩ := subAssign_eq h
      cases hsub.symm.trans hsub'
  | case3 x h =>
      have hlt := mt (ge_MODULUS_iff x).mpr h
      refine ⟨x, by rw [reduce, dif_neg h], ?_⟩
      exact (Nat.mod_eq_of_lt (Nat.lt_of_not_le hlt)).symm

theorem beNat_toBeBytes (limbs : List UInt64) : beNat (toBeBytes limbs) = value limbs := by
  induction limbs with
  | nil => rfl
  | cons x xs ih =>
      have hhead : beNat (beBytes 8 x.toNat) = x.toNat := by
        rw [beNat_beBytes]
        exact Nat.mod_eq_of_lt x.toNat_lt
      rw [toBeBytes, List.reverse_cons, List.flatMap_append, beNat_append, List.flatMap_singleton,
        length_beBytes, hhead, value]
      change beNat (toBeBytes xs) * _ + _ = _
      rw [ih, add_comm, mul_comm]
      rfl

theorem toBeBytes_eq (x : Fr) : x.toBeBytes = BytesN.ofNat 32 x.value := by
  apply BytesN.toNat_inj
  have hlt := value_lt x.limbs
  rw [x.length_limbs] at hlt
  change beNat _ = beNat (beBytes 32 x.value)
  rw [beNat_beBytes, Nat.mod_eq_of_lt (by exact hlt)]
  exact beNat_toBeBytes x.limbs

theorem toNat_shiftIn (v : UInt64) (b : UInt8) :
    (shiftIn v b).toNat = (v.toNat * 256 + b.toNat) % radix := by
  have hb : b.toNat < 2 ^ 8 := b.toNat_lt
  have hlow : v.toNat <<< 8 % 2 ^ 64 = 2 ^ 8 * (v.toNat % 2 ^ 56) := by
    rw [Nat.shiftLeft_eq]
    omega
  rw [shiftIn, UInt64.toNat_or, UInt64.toNat_shiftLeft, UInt8.toNat_toUInt64]
  change v.toNat <<< 8 % 2 ^ 64 ||| b.toNat = _ % 2 ^ 64
  rw [hlow, ← Nat.two_pow_add_eq_or_of_lt hb]
  omega

theorem toNat_foldl_word (bytes : List UInt8) (v : UInt64) :
    (bytes.foldl shiftIn v).toNat =
      (v.toNat * 256 ^ bytes.length + beNat bytes) % radix := by
  induction bytes generalizing v with
  | nil => simp [beNat, Nat.mod_eq_of_lt (toNat_lt_radix v)]
  | cons b bytes ih =>
      rw [List.foldl_cons, ih, toNat_shiftIn, beNat, List.length_cons, pow_succ]
      calc ((v.toNat * 256 + b.toNat) % radix * 256 ^ bytes.length + beNat bytes) % radix
          = ((v.toNat * 256 + b.toNat) * 256 ^ bytes.length + beNat bytes) % radix :=
            ((Nat.mod_modEq _ _).mul_right _).add_right _
        _ = (v.toNat * (256 ^ bytes.length * 256) + (b.toNat * 256 ^ bytes.length + beNat bytes)) % radix := by
            congr 1
            ring

/-- A word is read as its bytes' number, as far as it fits. -/
theorem toNat_word (bytes : List UInt8) : (word bytes).toNat = beNat bytes % radix := by
  rw [word, toNat_foldl_word, UInt64.toNat_zero, zero_mul, zero_add]

theorem toNat_chunk (b : BytesN 32) (i : ℕ) : (chunk b i).toNat = beNat ((b.1.drop (i * 8)).take 8) := by
  rw [chunk, toNat_word]
  apply Nat.mod_eq_of_lt
  calc beNat ((b.1.drop (i * 8)).take 8) < 256 ^ ((b.1.drop (i * 8)).take 8).length := beNat_lt _
    _ ≤ 256 ^ 8 := Nat.pow_le_pow_right (by decide) (List.length_take_le 8 _)

/-- Four chunks of eight bytes are the number. -/
theorem value_chunks (b : BytesN 32) : value [chunk b 3, chunk b 2, chunk b 1, chunk b 0] = b.toNat := by
  have hsplit : ∀ bytes : List UInt8, beNat bytes =
      beNat (bytes.take 8) * 256 ^ (bytes.length - 8) + beNat (bytes.drop 8) := by
    intro bytes
    rw [← List.length_drop, ← beNat_append, List.take_append_drop]
  have hlast : beNat ((b.1.drop 24).take 8) = beNat (b.1.drop 24) := by
    rw [List.take_of_length_le (by rw [List.length_drop, b.2])]
  rw [BytesN.toNat, hsplit b.1, hsplit (b.1.drop 8), List.drop_drop, hsplit (b.1.drop 16), List.drop_drop]
  simp only [value, toNat_chunk, hlast, List.length_drop, b.2, zero_mul, List.drop_zero, radix]
  ring

theorem fromBeBytes_eq (b : BytesN 32) :
    ∃ x, Fr.fromBeBytes b = some x ∧ x.value = b.toNat % scalarOrder := by
  obtain ⟨x, hx, hvalue⟩ := reduce_eq ⟨[chunk b 3, chunk b 2, chunk b 1, chunk b 0], rfl⟩
  exact ⟨x, hx, by rw [hvalue, Fr.value, value_chunks]⟩

/-! ## The field -/

/-- The radix of the Montgomery form. -/
def R : ℕ := 2 ^ 256

theorem R_mul_inv : (R : ZMod scalarOrder) * (R : ZMod scalarOrder)⁻¹ = 1 :=
  ZMod.coe_mul_inv_eq_one R (by decide)

theorem radix_dvd_MODULUS : radix ∣ (0x43e1f593f0000001 : UInt64).toNat * INV.toNat + 1 := by decide

/-- What the words stand for in Montgomery form. -/
def Fr.element (x : Fr) : ZMod scalarOrder := x.value * (R : ZMod scalarOrder)⁻¹

theorem add_eq {a b : Fr} (ha : a.value < scalarOrder) (hb : b.value < scalarOrder) :
    ∃ x, add a b = some x ∧ x.value = (a.value + b.value) % scalarOrder := by
  rw [← value_MODULUS] at ha hb ⊢
  obtain ⟨ls, hadd, hlength, hvalue⟩ := Montgomery.add_eq (n := MODULUS) a.length_limbs b.length_limbs ha hb
  exact ⟨⟨ls, hlength⟩, by rw [add, hadd, Option.bind_some, ofLimbs_eq hlength], hvalue⟩

/-- The accumulator after some rows of a product. -/
theorem rows_eq (a : Fr) (bs : List UInt64) :
    ∃ t k, Montgomery.rows MODULUS INV a.limbs bs = some t ∧
      radix ^ bs.length * Montgomery.total t = a.value * value bs + k * scalarOrder ∧
      Montgomery.total t < a.value + scalarOrder := by
  rw [← value_MODULUS]
  have hrows : ∃ t k, Montgomery.rows MODULUS INV a.limbs bs = some t ∧ t.1.length = 3 + 1 ∧
      radix ^ bs.length * Montgomery.total t = value a.limbs * value bs + k * value MODULUS ∧
      Montgomery.total t < value a.limbs + value MODULUS :=
    Montgomery.rows_eq radix_dvd_MODULUS a.length_limbs (by decide) bs
  obtain ⟨t, k, hrows, -, htotal, hbound⟩ := hrows
  exact ⟨t, k, hrows, htotal, hbound⟩

theorem montmul_modEq {a : Fr} (ha : a.value < scalarOrder) (b : Fr) :
    ∃ x, montmul a b = some x ∧ x.value < scalarOrder ∧
      R * x.value ≡ a.value * b.value [MOD scalarOrder] := by
  rw [← value_MODULUS] at ha ⊢
  obtain ⟨ls, hmul, hlength, hlt, hmod⟩ :=
    Montgomery.montmul_eq (b := b.limbs) radix_dvd_MODULUS a.length_limbs ha
  rw [b.length_limbs] at hmod
  exact ⟨⟨ls, hlength⟩, by rw [montmul, MODULUS, hmul, Option.bind_some, ofLimbs_eq hlength], hlt, hmod⟩

/-- The product, times the inverse of the radix. -/
theorem montmul_eq {a : Fr} (ha : a.value < scalarOrder) (b : Fr) :
    ∃ x, montmul a b = some x ∧ x.value < scalarOrder ∧
      (x.value : ZMod scalarOrder) = a.value * b.value * (R : ZMod scalarOrder)⁻¹ := by
  obtain ⟨x, hmul, hlt, hmod⟩ := montmul_modEq ha b
  refine ⟨x, hmul, hlt, ?_⟩
  have hcast := (ZMod.natCast_eq_natCast_iff _ _ _).mpr hmod
  push_cast at hcast
  rw [← hcast, mul_comm (R : ZMod scalarOrder), mul_assoc, R_mul_inv, mul_one]

/-! ## Elements in Montgomery form -/

/-- The words of a number below the modulus stand for an element. -/
def Represents (x : Fr) (v : ZMod scalarOrder) : Prop := x.value < scalarOrder ∧ x.element = v

theorem represents_zero : Represents Fr.ZERO 0 := by
  have hzero : Fr.ZERO.value = 0 := by decide
  refine ⟨by rw [hzero]; decide, ?_⟩
  rw [Fr.element, hzero, Nat.cast_zero, zero_mul]

theorem represents_add {a b : Fr} {u v : ZMod scalarOrder} (ha : Represents a u) (hb : Represents b v) :
    ∃ x, add a b = some x ∧ Represents x (u + v) := by
  obtain ⟨x, hadd, hvalue⟩ := add_eq ha.1 hb.1
  refine ⟨x, hadd, ?_, ?_⟩
  · rw [hvalue]
    exact Nat.mod_lt _ (by decide)
  · rw [← ha.2, ← hb.2, Fr.element, Fr.element, Fr.element, hvalue, ZMod.natCast_mod, Nat.cast_add, add_mul]

theorem represents_montmul {a b : Fr} {u v : ZMod scalarOrder} (ha : Represents a u) (hb : Represents b v) :
    ∃ x, montmul a b = some x ∧ Represents x (u * v) := by
  obtain ⟨x, hmul, hlt, hvalue⟩ := montmul_eq ha.1 b
  refine ⟨x, hmul, hlt, ?_⟩
  rw [← ha.2, ← hb.2, Fr.element, Fr.element, Fr.element, hvalue]
  ring

theorem represents_pow5 {a : Fr} {u : ZMod scalarOrder} (ha : Represents a u) :
    ∃ x, pow5 a = some x ∧ Represents x (u ^ 5) := by
  obtain ⟨x2, hx2, h2⟩ := represents_montmul ha ha
  obtain ⟨x4, hx4, h4⟩ := represents_montmul h2 h2
  obtain ⟨x5, hx5, h5⟩ := represents_montmul h4 ha
  refine ⟨x5, ?_, ?_⟩
  · rw [pow5, hx2]
    change (montmul x2 x2).bind _ = _
    rw [hx4]
    exact hx5
  · rw [show u ^ 5 = u * u * (u * u) * u by ring]
    exact h5

theorem represents_toMont {x : Fr} (hx : x.value < scalarOrder) :
    ∃ y, x.toMont = some y ∧ Represents y x.value := by
  obtain ⟨y, hmul, hlt, hvalue⟩ := montmul_eq hx R2
  have hR2 : (R2.value : ZMod scalarOrder) = R * R := by
    have hmod : R2.value ≡ R * R [MOD scalarOrder] := by decide
    rw [(ZMod.natCast_eq_natCast_iff _ _ _).mpr hmod, Nat.cast_mul]
  refine ⟨y, hmul, hlt, ?_⟩
  rw [Fr.element, hvalue, hR2]
  linear_combination (x.value * (R * (R : ZMod scalarOrder)⁻¹ + 1)) * R_mul_inv

/-- Out of Montgomery form, the number is the element's. -/
theorem value_fromMont {x : Fr} {v : ZMod scalarOrder} (h : Represents x v) :
    ∃ y, x.fromMont = some y ∧ y.value = v.val := by
  obtain ⟨y, hmul, hlt, hvalue⟩ := montmul_eq h.1 ⟨[1, 0, 0, 0], rfl⟩
  refine ⟨y, hmul, ?_⟩
  have hone : Fr.value ⟨[1, 0, 0, 0], rfl⟩ = 1 := by decide
  rw [hone, Nat.cast_one, mul_one] at hvalue
  rw [← h.2, Fr.element, ← hvalue, ZMod.val_natCast, Nat.mod_eq_of_lt hlt]

end OpaqueStellar.Poseidon
