import OpaqueStellar.Stealth.Scan

/-! # Sender, recipient and Rust scanner

The sender and the recipient reduce the hash of the shared secret modulo the order. The Rust scanner does
not: it refuses a hash that is no scalar. -/

namespace OpaqueStellar.Stealth

open OpaqueStellar.Lib OpaqueStellar.Schemas OpaqueStellar.Soroban

/-- The announcement of a payment. -/
def StealthPayment.announcement (payment : StealthPayment) : StealthAnnouncement where
  stealthAddress := payment.stealthAddress
  ephemeralPubKey := payment.ephemeralPubKey
  viewTag := payment.viewTag

def SecretKey.publicKey (C : Crypto) (key : SecretKey) : Rust.PublicKey C :=
  ⟨key.point C.curve, key.point_ne_zero⟩

/-- All of them compute one tag, one address and one key for a payment, and both scanners find it. -/
structure Agreement (C : Crypto) (view spend ephemeral : SecretKey) (metaAddress : List UInt8)
    (payment : StealthPayment) (key : BytesN 32) (address : List UInt8) : Prop where
  registered : keysToStealthMetaAddress C view.bytes spend.bytes = .ok metaAddress
  sent : computeStealthAddressAndViewTag C (toHex metaAddress) ephemeral = .ok payment
  -- the recipient
  tagged : ∃ sH, recipientSharedSecretHash C view.bytes payment.ephemeralPubKey = .ok (sH, payment.viewTag)
  reconstructed : reconstructStealthPrivateKey C view.bytes spend.bytes payment.ephemeralPubKey = .ok key
  identified : stealthIdFromPrivateKey C key = .ok payment.stealthAddress
  account : deriveStealthStellarAddressFromStealthPrivKey C key = .ok payment.stealthStellarAddress
  viewed : deriveStealthAddressViewOnly C view.bytes (C.curve.compressed (spend.point C.curve))
    payment.ephemeralPubKey = .ok payment.stealthAddress
  scanned : scanAnnouncements C view.bytes spend.bytes [payment.announcement] =
    .ok [⟨payment.announcement, key, payment.stealthStellarAddress⟩]
  scannedViewOnly : scanAnnouncementsViewOnly C view.bytes (C.curve.compressed (spend.point C.curve))
    [payment.announcement] = .ok [⟨payment.announcement, payment.stealthAddress⟩]
  -- the Rust scanner
  decoded : C.curve.fromHex payment.ephemeralPubKey = some (ephemeral.publicKey C).1
  derived : Rust.derive_stealth_address C view (spend.publicKey C) (ephemeral.publicKey C) =
    .ok (address, payment.viewTag)
  shown : toHex address = payment.stealthAddress
  signing : Rust.derive_stealth_signing_key C view spend (ephemeral.publicKey C) = .ok key
  checked : Rust.check_announcement C address payment.viewTag view (spend.publicKey C)
    (ephemeral.publicKey C) = .ok true

/-! ## Meta-addresses as texts -/

theorem stripHexPrefix_of_decode {text : Str} {bytes : List UInt8} (h : Hex.decode text = some bytes) :
    stripHexPrefix text = text := by
  unfold stripHexPrefix
  split
  · simp [Hex.decode, Hex.digitValue] at h
  · rfl

theorem hexToBytes_toHex (bytes : List UInt8) :
    hexToBytes (stripHexPrefix (toHex bytes)) = .ok bytes := by
  have hstrip : stripHexPrefix (toHex bytes) = Hex.encode bytes := rfl
  rw [hstrip, hexToBytes, stripHexPrefix_of_decode (Hex.decode_encode bytes), Hex.decode_encode]

theorem parseStealthMetaAddress_toHex {V S : List UInt8} (hV : V.length = 33) (hS : S.length = 33) :
    parseStealthMetaAddress (toHex (V ++ S)) = .ok (V, S) := by
  have hlength : ¬ (V ++ S).length < 66 := by
    rw [List.length_append, hV, hS]
    decide
  have htake : (V ++ S).take 33 = V := by rw [← hV, List.take_left']; rfl
  have hdrop : (V ++ S).drop 33 = S := by rw [← hV, List.drop_left']; rfl
  have hrest : S.take 33 = S := by rw [← hS, List.take_length]
  simp only [parseStealthMetaAddress, hexToBytes_toHex, ok_bind, hlength, if_false, htake, hdrop, hrest]
  rfl

section Parties

variable {C : Crypto} {view spend ephemeral : SecretKey}

theorem keysToStealthMetaAddress_eq : keysToStealthMetaAddress C view.bytes spend.bytes =
    .ok (C.curve.compressed (view.point C.curve) ++ C.curve.compressed (spend.point C.curve)) := by
  simp [keysToStealthMetaAddress, getPublicKey_secretKey, pure, Except.pure]

theorem sharedHash_publicKey : sharedHash C view (ephemeral.point C.curve) =
    C.keccak256 (C.curve.compressed ((view.scalar * ephemeral.scalar) • C.curve.base)) := by
  rw [sharedHash, SecretKey.point, ← mul_nsmul']

/-- The one-time key, as a point. -/
def stealthPoint (C : Crypto) (view spend ephemeral : SecretKey) : C.curve.Point :=
  stealthScalar C view spend (ephemeral.point C.curve) • C.curve.base

theorem stealthPoint_ne_zero (h : stealthScalar C view spend (ephemeral.point C.curve) ≠ 0) :
    stealthPoint C view spend ephemeral ≠ 0 := by
  rwa [stealthPoint, stealthScalar_smul, Ne, ← stealthScalar_eq_zero]

/-- What the sender makes of the keys. -/
def stealthPayment (C : Crypto) (view spend ephemeral : SecretKey) : StealthPayment where
  ephemeralPriv := ephemeral.bytes
  ephemeralPubKey := C.curve.compressed (ephemeral.point C.curve)
  stealthAddress := toHex (addressBytes C (C.curve.uncompressed (stealthPoint C view spend ephemeral)))
  stealthStellarAddress := C.stellarAddress (C.curve.uncompressed (stealthPoint C view spend ephemeral))
  viewTag := viewTagOf (sharedHash C view (ephemeral.point C.curve))
  metadata := [viewTagOf (sharedHash C view (ephemeral.point C.curve))]

theorem fromHex_ephemeralPubKey :
    C.curve.fromHex (stealthPayment C view spend ephemeral).ephemeralPubKey =
      some (ephemeral.point C.curve) :=
  C.curve.fromHex_compressed _ ephemeral.point_ne_zero

theorem computeStealthAddressAndViewTag_eq :
    computeStealthAddressAndViewTag C
        (toHex (C.curve.compressed (view.point C.curve) ++ C.curve.compressed (spend.point C.curve)))
        ephemeral =
      if (sharedHash C view (ephemeral.point C.curve)).toNat % order = 0 then .error .invalidScalarFromHash
      else if stealthScalar C view spend (ephemeral.point C.curve) = 0 then .error .zeroPoint
      else .ok (stealthPayment C view spend ephemeral) := by
  have hparse := parseStealthMetaAddress_toHex (C.curve.length_compressed _ (view.point_ne_zero))
    (C.curve.length_compressed _ (spend.point_ne_zero))
  have hview : C.curve.fromHex (C.curve.compressed (view.point C.curve)) = some (view.point C.curve) :=
    C.curve.fromHex_compressed _ view.point_ne_zero
  have hspend : fromHex C (C.curve.compressed (spend.point C.curve)) = .ok (spend.point C.curve) :=
    fromHex_eq_ok (C.curve.fromHex_compressed _ spend.point_ne_zero)
  have hhash : C.keccak256 (C.curve.compressed (ephemeral.scalar • view.point C.curve)) =
      sharedHash C view (ephemeral.point C.curve) := sharedHash_comm ephemeral
  simp only [computeStealthAddressAndViewTag, hparse, ok_bind, getPublicKey_secretKey, if_true,
    sharedSecret_eq hview, hashSharedSecret, hhash, stealthPointAndAddress, Curve.mod_smul, hspend,
    ← stealthScalar_smul]
  by_cases hscalar : (sharedHash C view (ephemeral.point C.curve)).toNat % order = 0
  · simp only [hscalar, if_true, error_bind]
  · by_cases hstealth : stealthScalar C view spend (ephemeral.point C.curve) = 0
    · simp [hscalar, hstealth, toRawBytes]
    · have hpoint := stealthPoint_ne_zero hstealth
      rw [stealthPoint] at hpoint
      simp only [hscalar, hstealth, if_false, toRawBytes_of_ne_zero hpoint, ok_bind]
      rfl

/-! ## What the recipient computes

A payment whose one-time key is not zero. -/

/-- The one-time key, as a private key. -/
def stealthKey (C : Crypto) (view spend ephemeral : SecretKey) : BytesN 32 :=
  BytesN.ofNat 32 (stealthScalar C view spend (ephemeral.point C.curve))

section Recipient

variable (hstealth : stealthScalar C view spend (ephemeral.point C.curve) ≠ 0)

theorem checkViewTagMatch_payment :
    checkViewTagMatch C view.bytes (stealthPayment C view spend ephemeral).ephemeralPubKey
      (stealthPayment C view spend ephemeral).viewTag = .ok true := by
  rw [checkViewTagMatch_eq fromHex_ephemeralPubKey]
  simp [stealthPayment]

include hstealth

theorem reconstructStealthPrivateKey_payment :
    reconstructStealthPrivateKey C view.bytes spend.bytes
      (stealthPayment C view spend ephemeral).ephemeralPubKey = .ok (stealthKey C view spend ephemeral) := by
  rw [reconstructStealthPrivateKey_eq fromHex_ephemeralPubKey, if_neg hstealth, stealthKey]

theorem getPublicKey_stealthKey : getPublicKey C (stealthKey C view spend ephemeral) false =
    .ok (C.curve.uncompressed (stealthPoint C view spend ephemeral)) :=
  getPublicKey_stealthScalar hstealth

theorem stealthIdFromPrivateKey_stealthKey :
    stealthIdFromPrivateKey C (stealthKey C view spend ephemeral) =
      .ok (stealthPayment C view spend ephemeral).stealthAddress := by
  simp only [stealthIdFromPrivateKey, getPublicKey_stealthKey hstealth, ok_bind]
  rfl

theorem deriveStealthStellarAddress_stealthKey :
    deriveStealthStellarAddressFromStealthPrivKey C (stealthKey C view spend ephemeral) =
      .ok (stealthPayment C view spend ephemeral).stealthStellarAddress := by
  simp only [deriveStealthStellarAddressFromStealthPrivKey, getPublicKey_stealthKey hstealth, ok_bind]
  rfl

theorem deriveStealthAddressViewOnly_payment
    (hscalar : (sharedHash C view (ephemeral.point C.curve)).toNat % order ≠ 0) :
    deriveStealthAddressViewOnly C view.bytes (C.curve.compressed (spend.point C.curve))
      (stealthPayment C view spend ephemeral).ephemeralPubKey =
        .ok (stealthPayment C view spend ephemeral).stealthAddress := by
  rw [deriveStealthAddressViewOnly_eq fromHex_ephemeralPubKey, if_neg hscalar, if_neg hstealth]
  rfl

theorem scanAnnouncements_payment :
    scanAnnouncements C view.bytes spend.bytes [(stealthPayment C view spend ephemeral).announcement] =
      .ok [⟨(stealthPayment C view spend ephemeral).announcement, stealthKey C view spend ephemeral,
        (stealthPayment C view spend ephemeral).stealthStellarAddress⟩] := by
  apply collect_singleton (r := some _)
  simp only [scanAnnouncement, StealthPayment.announcement, checkViewTagMatch_payment, ok_bind, if_true,
    reconstructStealthPrivateKey_payment hstealth, stealthIdFromPrivateKey_stealthKey hstealth,
    deriveStealthStellarAddress_stealthKey hstealth, ne_eq, not_true, if_false]
  rfl

theorem scanAnnouncementsViewOnly_payment
    (hscalar : (sharedHash C view (ephemeral.point C.curve)).toNat % order ≠ 0) :
    scanAnnouncementsViewOnly C view.bytes (C.curve.compressed (spend.point C.curve))
      [(stealthPayment C view spend ephemeral).announcement] =
        .ok [⟨(stealthPayment C view spend ephemeral).announcement,
          (stealthPayment C view spend ephemeral).stealthAddress⟩] := by
  apply collect_singleton (r := some _)
  simp only [scanAnnouncementViewOnly, StealthPayment.announcement, checkViewTagMatch_payment, ok_bind,
    if_true, deriveStealthAddressViewOnly_payment hstealth hscalar, ne_eq, not_true, if_false]
  rfl

end Recipient

/-! ## What the Rust scanner computes -/

theorem Rust.derive_stealth_address_eq :
    Rust.derive_stealth_address C view (spend.publicKey C) (ephemeral.publicKey C) =
      if (sharedHash C view (ephemeral.point C.curve)).toNat < order then
        if stealthScalar C view spend (ephemeral.point C.curve) = 0 then .error .InvalidPoint
        else .ok (addressBytes C (C.curve.uncompressed (stealthPoint C view spend ephemeral)),
          (stealthPayment C view spend ephemeral).viewTag)
      else .error .InvalidScalar := by
  have hhash : C.keccak256 (Rust.shared_secret_bytes C view (ephemeral.publicKey C)) =
      sharedHash C view (ephemeral.point C.curve) := rfl
  have hspend : (spend.publicKey C).1 = spend.point C.curve := rfl
  simp only [Rust.derive_stealth_address, hhash, Rust.scalar_from_repr, hspend]
  by_cases hlt : (sharedHash C view (ephemeral.point C.curve)).toNat < order
  · simp only [hlt, if_true, ok_bind, ← stealthScalar_smul]
    by_cases hstealth : stealthScalar C view spend (ephemeral.point C.curve) = 0
    · simp [hstealth, Rust.public_key_from_affine]
    · have hpoint := stealthPoint_ne_zero hstealth
      rw [stealthPoint] at hpoint
      simp only [hstealth, if_false, Rust.public_key_from_affine, hpoint, ne_eq, not_false_iff, dif_pos,
        ok_bind]
      rfl
  · simp only [hlt, if_false, error_bind]

theorem Rust.derive_stealth_signing_key_eq :
    Rust.derive_stealth_signing_key C view spend (ephemeral.publicKey C) =
      if (sharedHash C view (ephemeral.point C.curve)).toNat < order then
        .ok (stealthKey C view spend ephemeral)
      else .error .InvalidScalar := by
  have hhash : C.keccak256 (Rust.shared_secret_bytes C view (ephemeral.publicKey C)) =
      sharedHash C view (ephemeral.point C.curve) := rfl
  simp only [Rust.derive_stealth_signing_key, hhash, Rust.scalar_from_repr]
  by_cases hlt : (sharedHash C view (ephemeral.point C.curve)).toNat < order
  · simp only [hlt, if_true, ok_bind]
    rfl
  · simp only [hlt, if_false, error_bind]

/-! ## When they agree -/

/-- The hash is a scalar, and neither it nor the one-time key is zero. -/
theorem agreement_of_scalar (hpos : 0 < (sharedHash C view (ephemeral.point C.curve)).toNat)
    (hlt : (sharedHash C view (ephemeral.point C.curve)).toNat < order)
    (hstealth : stealthScalar C view spend (ephemeral.point C.curve) ≠ 0) :
    Agreement C view spend ephemeral
      (C.curve.compressed (view.point C.curve) ++ C.curve.compressed (spend.point C.curve))
      (stealthPayment C view spend ephemeral) (stealthKey C view spend ephemeral)
      (addressBytes C (C.curve.uncompressed (stealthPoint C view spend ephemeral))) := by
  have hscalar : (sharedHash C view (ephemeral.point C.curve)).toNat % order ≠ 0 := by
    rw [Nat.mod_eq_of_lt hlt]
    exact Nat.pos_iff_ne_zero.mp hpos
  have hderived : Rust.derive_stealth_address C view (spend.publicKey C) (ephemeral.publicKey C) = _ :=
    Rust.derive_stealth_address_eq
  rw [if_pos hlt, if_neg hstealth] at hderived
  refine
    { registered := keysToStealthMetaAddress_eq
      sent := by rw [computeStealthAddressAndViewTag_eq, if_neg hscalar, if_neg hstealth]
      tagged := ⟨_, recipientSharedSecretHash_eq fromHex_ephemeralPubKey⟩
      reconstructed := reconstructStealthPrivateKey_payment hstealth
      identified := stealthIdFromPrivateKey_stealthKey hstealth
      account := deriveStealthStellarAddress_stealthKey hstealth
      viewed := deriveStealthAddressViewOnly_payment hstealth hscalar
      scanned := scanAnnouncements_payment hstealth
      scannedViewOnly := scanAnnouncementsViewOnly_payment hstealth hscalar
      decoded := fromHex_ephemeralPubKey
      derived := hderived
      shown := rfl
      signing := by rw [Rust.derive_stealth_signing_key_eq, if_pos hlt]
      checked := ?_ }
  have htag : Rust.check_announcement_view_tag C (stealthPayment C view spend ephemeral).viewTag view
      (ephemeral.publicKey C) = .PossibleMatch := if_neg fun hne => hne rfl
  simp only [Rust.check_announcement, htag, hderived, ok_bind, decide_true]
  rfl

end Parties

/-- For all keys the implementations agree on a payment exactly if the hash of the shared secret is a scalar
other than zero and does not cancel the spending key. -/
theorem implementations_agree_iff (C : Crypto) (view spend ephemeral : SecretKey) :
    (∃ metaAddress payment key address,
        Agreement C view spend ephemeral metaAddress payment key address) ↔
      let h := (C.keccak256 (C.curve.compressed ((view.scalar * ephemeral.scalar) • C.curve.base))).toNat
      0 < h ∧ h < order ∧ (spend.scalar + h) % order ≠ 0 := by
  rw [← sharedHash_publicKey]
  constructor
  · rintro ⟨metaAddress, payment, key, address, h⟩
    obtain rfl := Except.ok.inj (h.registered.symm.trans keysToStealthMetaAddress_eq)
    have hsent := h.sent
    have hderived := h.derived
    rw [computeStealthAddressAndViewTag_eq] at hsent
    rw [Rust.derive_stealth_address_eq] at hderived
    have hlt : (sharedHash C view (ephemeral.point C.curve)).toNat < order := by
      by_contra hlarge
      rw [if_neg hlarge] at hderived
      cases hderived
    have hscalar : (sharedHash C view (ephemeral.point C.curve)).toNat ≠ 0 := by
      intro hzero
      rw [hzero, if_pos (Nat.zero_mod _)] at hsent
      cases hsent
    have hstealth : stealthScalar C view spend (ephemeral.point C.curve) ≠ 0 := by
      intro hzero
      rw [if_pos hlt, if_pos hzero] at hderived
      cases hderived
    exact ⟨Nat.pos_of_ne_zero hscalar, hlt, hstealth⟩
  · rintro ⟨hpos, hlt, hstealth⟩
    exact ⟨_, _, _, _, agreement_of_scalar hpos hlt hstealth⟩

/-! ## A hash that is no scalar -/

namespace Toy

/-- The hash function with the largest value only. -/
def cryptoLarge : Crypto where
  curve := curve
  keccak256 _ := BytesN.ofNat 32 (256 ^ 32 - 1)
  stellarAddress _ := []

end Toy

/-- The sender pays and the recipient finds the payment, but the Rust scanner refuses it. -/
theorem implementations_disagree :
    ¬ (∃ metaAddress payment key address,
        Agreement Toy.cryptoLarge Toy.one Toy.one Toy.one metaAddress payment key address) ∧
      computeStealthAddressAndViewTag Toy.cryptoLarge
        (toHex (Toy.cryptoLarge.curve.compressed (Toy.one.point Toy.cryptoLarge.curve) ++
          Toy.cryptoLarge.curve.compressed (Toy.one.point Toy.cryptoLarge.curve))) Toy.one =
            .ok (stealthPayment Toy.cryptoLarge Toy.one Toy.one Toy.one) ∧
      scanAnnouncements Toy.cryptoLarge Toy.one.bytes Toy.one.bytes
        [(stealthPayment Toy.cryptoLarge Toy.one Toy.one Toy.one).announcement] =
          .ok [⟨(stealthPayment Toy.cryptoLarge Toy.one Toy.one Toy.one).announcement,
            stealthKey Toy.cryptoLarge Toy.one Toy.one Toy.one, []⟩] ∧
      Rust.derive_stealth_address Toy.cryptoLarge Toy.one (Toy.one.publicKey Toy.cryptoLarge)
        (Toy.one.publicKey Toy.cryptoLarge) = .error .InvalidScalar ∧
      Rust.derive_stealth_signing_key Toy.cryptoLarge Toy.one Toy.one (Toy.one.publicKey Toy.cryptoLarge) =
        .error .InvalidScalar := by
  have hhash : sharedHash Toy.cryptoLarge Toy.one (Toy.one.point Toy.cryptoLarge.curve) =
      BytesN.ofNat 32 (256 ^ 32 - 1) := rfl
  have hscalar : ¬ (BytesN.ofNat 32 (256 ^ 32 - 1)).toNat % order = 0 := by decide
  have hlarge : ¬ (BytesN.ofNat 32 (256 ^ 32 - 1)).toNat < order := by decide
  have hstealth : stealthScalar Toy.cryptoLarge Toy.one Toy.one
      (Toy.one.point Toy.cryptoLarge.curve) ≠ 0 := by
    rw [stealthScalar, hhash]
    decide
  have hderived : Rust.derive_stealth_address Toy.cryptoLarge Toy.one (Toy.one.publicKey Toy.cryptoLarge)
      (Toy.one.publicKey Toy.cryptoLarge) = .error .InvalidScalar := by
    rw [Rust.derive_stealth_address_eq, hhash, if_neg hlarge]
  refine ⟨?_, ?_, ?_, hderived, ?_⟩
  · rintro ⟨metaAddress, payment, key, address, h⟩
    cases hderived.symm.trans h.derived
  · rw [computeStealthAddressAndViewTag_eq, hhash, if_neg hscalar, if_neg hstealth]
  · exact scanAnnouncements_payment hstealth
  · rw [Rust.derive_stealth_signing_key_eq, hhash, if_neg hlarge]

end OpaqueStellar.Stealth
