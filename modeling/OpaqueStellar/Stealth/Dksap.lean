import OpaqueStellar.Lib.Codec
import OpaqueStellar.Schemas.Core
import OpaqueStellar.Stealth.Curve

/-! # Stealth addresses

`sdk/src/crypto/dksap.ts` and `deriveStealthAddressViewOnly` of `scan.ts`, and their counterparts in
`scanner/src/scanner.rs`. The sender multiplies the recipient's viewing point by a fresh scalar, the
recipient the sender's point by the viewing scalar; both hash the result, and add the hash to the spending
key, as a point or as a scalar. -/

namespace OpaqueStellar.Stealth

open OpaqueStellar.Lib OpaqueStellar.Schemas OpaqueStellar.Soroban

/-- The curve and the hash functions. -/
structure Crypto where
  curve : Curve
  keccak256 : List UInt8 → BytesN 32
  -- the Stellar account for an uncompressed stealth key
  stellarAddress : List UInt8 → Str

inductive Thrown where
  -- the bytes are no point of the curve
  | badPoint
  -- infinity has no encoding
  | zeroPoint
  -- a private key out of range
  | privateKey
  -- "Invalid scalar", "Invalid view scalar"
  | invalidScalar
  -- "Invalid scalar from hash", "Invalid hash scalar"
  | invalidScalarFromHash
  -- "Reconstructed stealth key is zero"
  | zeroKey
  -- "Invalid hex length", "Invalid hex characters"
  | hex
  -- "Invalid stealth meta-address: expected 66 bytes"
  | metaAddress
  deriving DecidableEq

/-! ## Text -/

/-- `text.startsWith("0x") ? text.slice(2) : text` -/
def stripHexPrefix (text : Str) : Str :=
  match text with
  | '0' :: 'x' :: rest => rest
  | _ => text

def hexToBytes (hex : Str) : Except Thrown (List UInt8) :=
  match Hex.decode (stripHexPrefix hex) with
  | some bytes => .ok bytes
  | none => .error .hex

def toHex (bytes : List UInt8) : Str := '0' :: 'x' :: Hex.encode bytes

section TypeScript

variable (C : Crypto)

/-! ## The curve library -/

def fromHex (bytes : List UInt8) : Except Thrown C.curve.Point :=
  match C.curve.fromHex bytes with
  | some P => .ok P
  | none => .error .badPoint

def toRawBytes (P : C.curve.Point) (isCompressed : Bool) : Except Thrown (List UInt8) :=
  if P = 0 then .error .zeroPoint
  else .ok (if isCompressed then C.curve.compressed P else C.curve.uncompressed P)

def getPublicKey (privateKey : BytesN 32) (isCompressed : Bool) : Except Thrown (List UInt8) :=
  if 0 < privateKey.toNat ∧ privateKey.toNat < order then
    toRawBytes C (privateKey.toNat • C.curve.base) isCompressed
  else .error .privateKey

/-! ## Meta-addresses -/

def keysToStealthMetaAddress (viewingKey spendingKey : BytesN 32) : Except Thrown (List UInt8) := do
  let V ← getPublicKey C viewingKey true
  let S ← getPublicKey C spendingKey true
  pure (V ++ S)

/-- The viewing key and the spending key. -/
def parseStealthMetaAddress (metaHex : Str) : Except Thrown (List UInt8 × List UInt8) := do
  let bytes ← hexToBytes (stripHexPrefix metaHex)
  if bytes.length < 66 then .error .metaAddress
  else pure (bytes.take 33, (bytes.drop 33).take 33)

/-! ## The shared secret -/

def sharedSecretFromScalarAndPoint (privScalar : BytesN 32) (pointBytes : List UInt8) :
    Except Thrown (List UInt8) := do
  let P ← fromHex C pointBytes
  let scalar := privScalar.toNat % order
  if scalar = 0 then .error .invalidScalar
  else toRawBytes C (scalar • P) true

def viewTagOf (sH : BytesN 32) : UInt8 := sH.1.headD 0

/-- The hash, whose first byte is the view tag. -/
def hashSharedSecret (sharedSecret : List UInt8) : BytesN 32 × UInt8 :=
  let sH := C.keccak256 sharedSecret
  (sH, viewTagOf sH)

/-- The last twenty bytes of the hash of an uncompressed key. -/
def addressBytes (uncompressed : List UInt8) : List UInt8 :=
  (C.keccak256 (uncompressed.drop 1)).1.drop 12

/-- The address and the uncompressed stealth key. -/
def stealthPointAndAddress (spendPubKey : List UInt8) (sH : BytesN 32) :
    Except Thrown (Str × List UInt8) := do
  let sHMod := sH.toNat % order
  if sHMod = 0 then .error .invalidScalarFromHash
  else
    let S_h := sHMod • C.curve.base
    let P_spend ← fromHex C spendPubKey
    let uncompressed ← toRawBytes C (P_spend + S_h) false
    pure (toHex (addressBytes C uncompressed), uncompressed)

/-! ## The sender -/

structure StealthPayment where
  ephemeralPriv : BytesN 32
  ephemeralPubKey : List UInt8
  stealthAddress : Str
  stealthStellarAddress : Str
  viewTag : UInt8
  metadata : List UInt8
  deriving DecidableEq

/-- `ephemeralPriv` is what `randomPrivateKey` answers. -/
def computeStealthAddressAndViewTag (recipientMetaAddressHex : Str) (ephemeralPriv : SecretKey) :
    Except Thrown StealthPayment := do
  let (viewPubKey, spendPubKey) ← parseStealthMetaAddress recipientMetaAddressHex
  let ephemeralPubKey ← getPublicKey C ephemeralPriv.bytes true
  let shared ← sharedSecretFromScalarAndPoint C ephemeralPriv.bytes viewPubKey
  let (sH, viewTag) := hashSharedSecret C shared
  let (stealthAddress, uncompressed) ← stealthPointAndAddress C spendPubKey sH
  pure
    { ephemeralPriv := ephemeralPriv.bytes
      ephemeralPubKey := ephemeralPubKey
      stealthAddress := stealthAddress
      stealthStellarAddress := C.stellarAddress uncompressed
      viewTag := viewTag
      metadata := [viewTag] }

/-! ## The recipient -/

def recipientSharedSecretHash (viewingKey : BytesN 32) (ephemeralPubKey : List UInt8) :
    Except Thrown (BytesN 32 × UInt8) := do
  let shared ← sharedSecretFromScalarAndPoint C viewingKey ephemeralPubKey
  pure (hashSharedSecret C shared)

def checkViewTagMatch (viewingKey : BytesN 32) (ephemeralPubKey : List UInt8) (viewTag : UInt8) :
    Except Thrown Bool := do
  let (_, tag) ← recipientSharedSecretHash C viewingKey ephemeralPubKey
  pure (tag = viewTag)

def reconstructStealthPrivateKey (viewingKey spendingKey : BytesN 32)
    (ephemeralPubKey : List UInt8) : Except Thrown (BytesN 32) := do
  let (sH, _) ← recipientSharedSecretHash C viewingKey ephemeralPubKey
  let sHMod := sH.toNat % order
  let spend := spendingKey.toNat % order
  let stealth := (spend + sHMod) % order
  if stealth = 0 then .error .zeroKey
  else pure (BytesN.ofNat 32 stealth)

def stealthIdFromPrivateKey (stealthPrivKey : BytesN 32) : Except Thrown Str := do
  let uncompressed ← getPublicKey C stealthPrivKey false
  pure (toHex (addressBytes C uncompressed))

def deriveStealthStellarAddressFromStealthPrivKey (stealthPrivKey : BytesN 32) :
    Except Thrown Str := do
  let uncompressed ← getPublicKey C stealthPrivKey false
  pure (C.stellarAddress uncompressed)

def deriveStealthAddressViewOnly (viewingKey : BytesN 32) (spendingPubKey ephemeralPubKey : List UInt8) :
    Except Thrown Str := do
  let ephPoint ← fromHex C ephemeralPubKey
  let viewScalar := viewingKey.toNat % order
  if viewScalar = 0 then .error .invalidScalar
  else
    let sharedSecret ← toRawBytes C (viewScalar • ephPoint) true
    let sHScalar := (C.keccak256 sharedSecret).toNat % order
    if sHScalar = 0 then .error .invalidScalarFromHash
    else
      let S_h := sHScalar • C.curve.base
      let P_spend ← fromHex C spendingPubKey
      let uncompressed ← toRawBytes C (P_spend + S_h) false
      pure (toHex (addressBytes C uncompressed))

end TypeScript

/-! ## The Rust scanner

A `SigningKey` is a scalar in range and a `PublicKey` a point other than infinity. -/

namespace Rust

inductive StealthAddressError where
  | InvalidScalar
  | InvalidPoint
  deriving DecidableEq

variable (C : Crypto)

abbrev PublicKey (C : Crypto) : Type := { P : C.curve.Point // P ≠ 0 }

def shared_secret_bytes (view_privkey : SecretKey) (ephemeral_pubkey : PublicKey C) : List UInt8 :=
  C.curve.compressed (view_privkey.scalar • ephemeral_pubkey.1)

/-- `Scalar::from_repr`: a number that is not reduced is refused. -/
def scalar_from_repr (repr : BytesN 32) : Except StealthAddressError ℕ :=
  if repr.toNat < order then .ok repr.toNat else .error .InvalidScalar

/-- `PublicKey::from_affine` -/
def public_key_from_affine (P : C.curve.Point) : Except StealthAddressError (PublicKey C) :=
  if h : P ≠ 0 then .ok ⟨P, h⟩ else .error .InvalidPoint

def pubkey_to_address (pubkey : PublicKey C) : List UInt8 :=
  addressBytes C (C.curve.uncompressed pubkey.1)

/-- The address and the view tag. -/
def derive_stealth_address (view_privkey : SecretKey) (spend_pubkey ephemeral_pubkey : PublicKey C) :
    Except StealthAddressError (List UInt8 × UInt8) := do
  let s_h := C.keccak256 (shared_secret_bytes C view_privkey ephemeral_pubkey)
  let view_tag := viewTagOf s_h
  let s_h_scalar ← scalar_from_repr s_h
  let s_h_point := s_h_scalar • C.curve.base
  let p_stealth ← public_key_from_affine C (spend_pubkey.1 + s_h_point)
  pure (pubkey_to_address C p_stealth, view_tag)

def derive_stealth_signing_key (view_privkey spend_privkey : SecretKey)
    (ephemeral_pubkey : PublicKey C) : Except StealthAddressError (BytesN 32) := do
  let s_h := C.keccak256 (shared_secret_bytes C view_privkey ephemeral_pubkey)
  let s_h_scalar ← scalar_from_repr s_h
  pure (BytesN.ofNat 32 ((spend_privkey.scalar + s_h_scalar) % order))

inductive ViewTagCheck where
  | NoMatch
  | PossibleMatch
  deriving DecidableEq

def check_announcement_view_tag (view_tag : UInt8) (view_privkey : SecretKey)
    (ephemeral_pubkey : PublicKey C) : ViewTagCheck :=
  let s_h := C.keccak256 (shared_secret_bytes C view_privkey ephemeral_pubkey)
  if view_tag ≠ viewTagOf s_h then .NoMatch else .PossibleMatch

def check_announcement (announcement_stealth_address : List UInt8) (view_tag : UInt8)
    (view_privkey : SecretKey) (spend_pubkey ephemeral_pubkey : PublicKey C) :
    Except StealthAddressError Bool := do
  match check_announcement_view_tag C view_tag view_privkey ephemeral_pubkey with
  | .NoMatch => pure false
  | .PossibleMatch =>
      let (derived_address, _) ← derive_stealth_address C view_privkey spend_pubkey ephemeral_pubkey
      pure (derived_address = announcement_stealth_address)

end Rust

/-! ## What they compute

From here on the recipient's keys are in range, and an ephemeral key is a point `P`. -/

section Computes

-- not by `rfl`: the kernel would compare both sides by computing them
@[simp] theorem ok_bind {ε α β : Type} (a : α) (f : α → Except ε β) : (Except.ok a >>= f) = f a := by
  simp only [bind, Except.bind]

@[simp] theorem error_bind {ε α β : Type} (e : ε) (f : α → Except ε β) :
    (Except.error e >>= f) = .error e := by
  simp only [bind, Except.bind]

variable {C : Crypto} {view spend : SecretKey} {ephemeralPubKey : List UInt8} {P : C.curve.Point}

theorem fromHex_eq_ok (h : C.curve.fromHex ephemeralPubKey = some P) :
    fromHex C ephemeralPubKey = .ok P := by
  rw [fromHex, h]

theorem fromHex_eq_error (h : C.curve.fromHex ephemeralPubKey = none) :
    fromHex C ephemeralPubKey = .error .badPoint := by
  rw [fromHex, h]

theorem toRawBytes_of_ne_zero (hP : P ≠ 0) (isCompressed : Bool) : toRawBytes C P isCompressed =
    .ok (if isCompressed then C.curve.compressed P else C.curve.uncompressed P) := by
  rw [toRawBytes, if_neg hP]

theorem getPublicKey_secretKey (key : SecretKey) (isCompressed : Bool) :
    getPublicKey C key.bytes isCompressed = .ok (if isCompressed then C.curve.compressed (key.point C.curve)
      else C.curve.uncompressed (key.point C.curve)) := by
  rw [getPublicKey, if_pos ⟨key.pos, key.lt⟩]
  exact toRawBytes_of_ne_zero key.point_ne_zero isCompressed

/-- The hash that a key and a point share. -/
def sharedHash (C : Crypto) (key : SecretKey) (P : C.curve.Point) : BytesN 32 :=
  C.keccak256 (C.curve.compressed (key.scalar • P))

theorem SecretKey.mod_order (key : SecretKey) : key.bytes.toNat % order = key.scalar :=
  Nat.mod_eq_of_lt key.lt

theorem SecretKey.scalar_ne_zero (key : SecretKey) : key.scalar ≠ 0 := Nat.pos_iff_ne_zero.mp key.pos

theorem sharedSecret_eq (h : C.curve.fromHex ephemeralPubKey = some P) :
    sharedSecretFromScalarAndPoint C view.bytes ephemeralPubKey =
      .ok (C.curve.compressed (view.scalar • P)) := by
  have hshared : view.scalar • P ≠ 0 :=
    Curve.smul_ne_zero (C.curve.fromHex_ne_zero _ P h) view.pos view.lt
  simp [sharedSecretFromScalarAndPoint, fromHex_eq_ok h, view.mod_order, view.scalar_ne_zero,
    toRawBytes_of_ne_zero hshared]

theorem recipientSharedSecretHash_eq (h : C.curve.fromHex ephemeralPubKey = some P) :
    recipientSharedSecretHash C view.bytes ephemeralPubKey =
      .ok (sharedHash C view P, viewTagOf (sharedHash C view P)) := by
  simp [recipientSharedSecretHash, sharedSecret_eq h, hashSharedSecret, sharedHash, pure, Except.pure]

theorem checkViewTagMatch_eq (h : C.curve.fromHex ephemeralPubKey = some P) (viewTag : UInt8) :
    checkViewTagMatch C view.bytes ephemeralPubKey viewTag =
      .ok (decide (viewTagOf (sharedHash C view P) = viewTag)) := by
  simp [checkViewTagMatch, recipientSharedSecretHash_eq h, pure, Except.pure]

/-- The scalar of the one-time key. -/
def stealthScalar (C : Crypto) (view spend : SecretKey) (P : C.curve.Point) : ℕ :=
  (spend.scalar + (sharedHash C view P).toNat) % order

theorem reconstructStealthPrivateKey_eq (h : C.curve.fromHex ephemeralPubKey = some P) :
    reconstructStealthPrivateKey C view.bytes spend.bytes ephemeralPubKey =
      if stealthScalar C view spend P = 0 then .error .zeroKey
      else .ok (BytesN.ofNat 32 (stealthScalar C view spend P)) := by
  have hstealth : (spend.bytes.toNat % order + (sharedHash C view P).toNat % order) % order =
      stealthScalar C view spend P := by
    rw [spend.mod_order, stealthScalar, Nat.add_mod_mod]
  simp only [reconstructStealthPrivateKey, recipientSharedSecretHash_eq h, ok_bind, hstealth]
  rfl

/-- Both sides of the exchange hash the same point. -/
theorem sharedHash_comm (key : SecretKey) :
    sharedHash C key (view.point C.curve) = sharedHash C view (key.point C.curve) := by
  rw [sharedHash, sharedHash, SecretKey.point, SecretKey.point, nsmul_left_comm]

/-- Scalars add up where points do. -/
theorem stealthScalar_smul : stealthScalar C view spend P • C.curve.base =
    spend.point C.curve + (sharedHash C view P).toNat • C.curve.base := by
  rw [stealthScalar, Curve.mod_smul, add_nsmul, SecretKey.point]

theorem stealthScalar_eq_zero : stealthScalar C view spend P = 0 ↔
    spend.point C.curve + (sharedHash C view P).toNat • C.curve.base = 0 := by
  rw [← stealthScalar_smul, Curve.smul_eq_zero_iff C.curve.base_ne_zero, stealthScalar,
    Nat.dvd_iff_mod_eq_zero, Nat.mod_mod]

theorem deriveStealthAddressViewOnly_eq (h : C.curve.fromHex ephemeralPubKey = some P) :
    deriveStealthAddressViewOnly C view.bytes (C.curve.compressed (spend.point C.curve)) ephemeralPubKey =
      if (sharedHash C view P).toNat % order = 0 then .error .invalidScalarFromHash
      else if stealthScalar C view spend P = 0 then .error .zeroPoint
      else .ok (toHex (addressBytes C
        (C.curve.uncompressed (stealthScalar C view spend P • C.curve.base)))) := by
  have hshared : view.scalar • P ≠ 0 :=
    Curve.smul_ne_zero (C.curve.fromHex_ne_zero _ P h) view.pos view.lt
  have hspend : fromHex C (C.curve.compressed (spend.point C.curve)) = .ok (spend.point C.curve) :=
    fromHex_eq_ok (C.curve.fromHex_compressed _ spend.point_ne_zero)
  have hhash : C.keccak256 (C.curve.compressed (view.scalar • P)) = sharedHash C view P := rfl
  simp only [deriveStealthAddressViewOnly, fromHex_eq_ok h, ok_bind, view.mod_order,
    view.scalar_ne_zero, if_false, toRawBytes_of_ne_zero hshared, if_true, hhash, Curve.mod_smul, hspend,
    ← stealthScalar_smul]
  by_cases hscalar : (sharedHash C view P).toNat % order = 0
  · simp only [hscalar, if_true]
  · by_cases hstealth : stealthScalar C view spend P = 0
    · simp [hscalar, hstealth, toRawBytes]
    · have hpoint : stealthScalar C view spend P • C.curve.base ≠ 0 := by
        rwa [stealthScalar_smul, Ne, ← stealthScalar_eq_zero]
      simp only [hscalar, hstealth, if_false, toRawBytes_of_ne_zero hpoint, ok_bind]
      rfl

/-- What the one-time key is for. -/
theorem getPublicKey_stealthScalar (h : stealthScalar C view spend P ≠ 0) :
    getPublicKey C (BytesN.ofNat 32 (stealthScalar C view spend P)) false =
      .ok (C.curve.uncompressed (stealthScalar C view spend P • C.curve.base)) := by
  have hlt : stealthScalar C view spend P < order := Nat.mod_lt _ prime_order.pos
  have hnat : (BytesN.ofNat 32 (stealthScalar C view spend P)).toNat = stealthScalar C view spend P := by
    rw [BytesN.toNat, BytesN.ofNat, beNat_beBytes, Nat.mod_eq_of_lt (lt_trans hlt order_lt)]
  have hpoint : stealthScalar C view spend P • C.curve.base ≠ 0 := by
    rwa [stealthScalar_smul, Ne, ← stealthScalar_eq_zero]
  rw [getPublicKey, hnat, if_pos ⟨Nat.pos_of_ne_zero h, hlt⟩, toRawBytes_of_ne_zero hpoint]
  simp

end Computes

end OpaqueStellar.Stealth
