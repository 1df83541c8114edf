import OpaqueStellar.Stealth.Scan

/-! # Scanning for attestations

The scanner of `scanner/src/attestation.rs` looks for announcements to the recipient that carry an
attestation: the metadata name a schema, an issuer and the attestation. What is found counts if the schema is
known and active and the issuer may issue under it.

An error of the derivation leaves the loop. So an announcement that has none decides about all others. -/

namespace OpaqueStellar.Stealth.Rust

open OpaqueStellar.Lib OpaqueStellar.Schemas OpaqueStellar.Soroban

/-! ## Metadata -/

def V2_ATTESTATION_MARKER : UInt8 := 0xB2

def V2_METADATA_MIN_LEN : ℕ := 130

def V2_METADATA_WITH_EXPIRY_LEN : ℕ := 134

structure V2AnnouncementFields where
  schema_id : BytesN 32
  issuer : BytesN 32
  attestation_uid : BytesN 32
  nonce : BytesN 32
  -- zero is never
  expiration_ledger : UInt32
  deriving DecidableEq

/-- `metadata[start..start + 32]` -/
def slice32 (metadata : List UInt8) (start : ℕ) (h : start + 32 ≤ metadata.length) : BytesN 32 :=
  ⟨(metadata.drop start).take 32, by rw [List.length_take, List.length_drop]; omega⟩

/-- `none` where the metadata are not of this version. -/
def extract_v2_fields (metadata : List UInt8) : Option V2AnnouncementFields :=
  if h : metadata.length < V2_METADATA_MIN_LEN then none
  else
    have hlength : 130 ≤ metadata.length := Nat.le_of_not_lt h
    if metadata[1] ≠ V2_ATTESTATION_MARKER then none
    else some
      { schema_id := slice32 metadata 2 (by omega)
        issuer := slice32 metadata 34 (by omega)
        attestation_uid := slice32 metadata 66 (by omega)
        nonce := slice32 metadata 98 hlength
        expiration_ledger :=
          if V2_METADATA_WITH_EXPIRY_LEN ≤ metadata.length then
            UInt32.ofNat (beNat ((metadata.drop 130).take 4))
          else 0 }

def encode_v2_attestation_metadata (view_tag : UInt8) (schema_id issuer attestation_uid nonce : BytesN 32)
    (expiration_ledger : UInt32) : List UInt8 :=
  [view_tag, V2_ATTESTATION_MARKER] ++ schema_id.1 ++ issuer.1 ++ attestation_uid.1 ++ nonce.1 ++
    beBytes 4 expiration_ledger.toNat

/-! ## Schemas -/

structure SchemaInfo where
  schema_id : BytesN 32
  authority : BytesN 32
  delegates : List (BytesN 32)
  deprecated : Bool
  -- zero is never
  schema_expiry_slot : UInt64
  name : Str

def SchemaInfo.is_authorized_issuer (schema : SchemaInfo) (candidate : BytesN 32) : Bool :=
  candidate = schema.authority || candidate ∈ schema.delegates

def SchemaInfo.is_active (schema : SchemaInfo) (current_slot : UInt64) : Bool :=
  !schema.deprecated && (schema.schema_expiry_slot = 0 || current_slot < schema.schema_expiry_slot)

/-! ## The scanner -/

structure RawAnnouncement (C : Crypto) where
  stealth_address : BytesN 20
  view_tag : UInt8
  ephemeral_pubkey : PublicKey C
  metadata : List UInt8
  tx_hash : Str
  block_number : UInt64

/-- What the circuit's leaf is made of; the caller fills in the zeros. -/
structure MerkleLeafPreimage where
  stealth_pk_field : Str
  schema_id_field : Str
  issuer_pk_x : Str
  trait_data_hash : Str
  nonce_field : Str
  deriving DecidableEq

structure V2StealthAttestation where
  stealth_address : Str
  schema_id : Str
  schema_name : Option Str
  issuer : Str
  attestation_uid : Str
  data_hex : Str
  nonce : Str
  merkle_leaf_preimage : MerkleLeafPreimage
  tx_hash : Str
  slot : UInt64
  is_valid : Bool
  issuer_authorized : Bool
  expiration_slot : UInt64
  deriving DecidableEq

def bytes_to_field_decimal (bytes : BytesN 32) : Str := toHex bytes.1

section Scan

variable (C : Crypto)

/-- The record of what was found. -/
def attestation (ann : RawAnnouncement C) (v2 : V2AnnouncementFields) (schema : SchemaInfo)
    (current_slot : UInt64) : V2StealthAttestation :=
  let expiration_slot := v2.expiration_ledger.toUInt64
  { stealth_address := toHex ann.stealth_address.1
    schema_id := Hex.encode v2.schema_id.1
    schema_name := some schema.name
    issuer := Hex.encode v2.issuer.1
    attestation_uid := Hex.encode v2.attestation_uid.1
    data_hex := []
    nonce := Hex.encode v2.nonce.1
    merkle_leaf_preimage :=
      { stealth_pk_field := "0".toList
        schema_id_field := bytes_to_field_decimal v2.schema_id
        issuer_pk_x := bytes_to_field_decimal v2.issuer
        trait_data_hash := "0".toList
        nonce_field := bytes_to_field_decimal v2.nonce }
    tx_hash := ann.tx_hash
    slot := ann.block_number
    is_valid := expiration_slot = 0 || current_slot < expiration_slot
    issuer_authorized := schema.is_authorized_issuer v2.issuer
    expiration_slot := expiration_slot }

variable (view_privkey : SecretKey) (spend_pubkey : PublicKey C) (schemas : List SchemaInfo)
  (current_slot : UInt64) (trusted_issuers : Option (Finset Str))

/-- One turn of the loop, from the metadata on. -/
def readAttestation (ann : RawAnnouncement C) : Option V2StealthAttestation := do
  let v2 ← extract_v2_fields ann.metadata
  let schema ← schemas.find? fun s => s.schema_id = v2.schema_id
  if !schema.is_active current_slot then none
  else if !schema.is_authorized_issuer v2.issuer then none
  else
    match trusted_issuers with
    | none => some (attestation C ann v2 schema current_slot)
    | some trusted =>
      if Hex.encode v2.issuer.1 ∉ trusted then none
      else some (attestation C ann v2 schema current_slot)

/-- One turn of the loop. -/
def scanAttestation (ann : RawAnnouncement C) : Except StealthAddressError (Option V2StealthAttestation) :=
  match check_announcement_view_tag C ann.view_tag view_privkey ann.ephemeral_pubkey with
  | .NoMatch => pure none
  | .PossibleMatch => do
    let (derived_addr, _) ← derive_stealth_address C view_privkey spend_pubkey ann.ephemeral_pubkey
    if derived_addr ≠ ann.stealth_address.1 then pure none
    else pure (readAttestation C schemas current_slot trusted_issuers ann)

def scan_for_attestations_v2 (announcements : List (RawAnnouncement C)) :
    Except StealthAddressError (List V2StealthAttestation) :=
  collect (scanAttestation C view_privkey spend_pubkey schemas current_slot trusted_issuers) announcements

end Scan

/-! ## The metadata are read as they were written -/

section Metadata

theorem slice32_append {metadata : List UInt8} {start : ℕ} (pre : List UInt8) (bytes : BytesN 32)
    (post : List UInt8) (h : start + 32 ≤ metadata.length) (hmetadata : metadata = pre ++ bytes.1 ++ post)
    (hpre : pre.length = start) : slice32 metadata start h = bytes := by
  subst hmetadata hpre
  apply Subtype.ext
  show ((pre ++ bytes.1 ++ post).drop pre.length).take 32 = bytes.1
  rw [List.append_assoc, List.drop_left, List.take_left' bytes.2]

theorem extract_v2_fields_encode (view_tag : UInt8) (schema_id issuer attestation_uid nonce : BytesN 32)
    (expiration_ledger : UInt32) :
    extract_v2_fields
        (encode_v2_attestation_metadata view_tag schema_id issuer attestation_uid nonce expiration_ledger) =
      some ⟨schema_id, issuer, attestation_uid, nonce, expiration_ledger⟩ := by
  have hlength : (encode_v2_attestation_metadata view_tag schema_id issuer attestation_uid nonce
      expiration_ledger).length = 134 := by
    simp [encode_v2_attestation_metadata, schema_id.2, issuer.2, attestation_uid.2, nonce.2]
  have hexpiry : ((encode_v2_attestation_metadata view_tag schema_id issuer attestation_uid nonce
      expiration_ledger).drop 130).take 4 = beBytes 4 expiration_ledger.toNat := by
    rw [encode_v2_attestation_metadata, List.drop_left', List.take_of_length_le]
    · simp
    · simp [schema_id.2, issuer.2, attestation_uid.2, nonce.2]
  have hnat : UInt32.ofNat (beNat (beBytes 4 expiration_ledger.toNat)) = expiration_ledger := by
    have hlt : expiration_ledger.toNat < 256 ^ 4 := expiration_ledger.toNat_lt
    rw [beNat_beBytes, Nat.mod_eq_of_lt hlt, UInt32.ofNat_toNat]
  unfold extract_v2_fields
  rw [dif_neg (by rw [hlength]; decide)]
  dsimp only
  rw [if_neg (by simp [encode_v2_attestation_metadata])]
  simp only [hlength, hexpiry, hnat]
  rw [Option.some.injEq, V2AnnouncementFields.mk.injEq]
  -- for each field, what stands before it and what stands after it
  refine ⟨?_, ?_, ?_, ?_, rfl⟩
  · apply slice32_append [view_tag, V2_ATTESTATION_MARKER] schema_id
      (issuer.1 ++ attestation_uid.1 ++ nonce.1 ++ beBytes 4 expiration_ledger.toNat)
    · simp [encode_v2_attestation_metadata]
    · rfl
  · apply slice32_append ([view_tag, V2_ATTESTATION_MARKER] ++ schema_id.1) issuer
      (attestation_uid.1 ++ nonce.1 ++ beBytes 4 expiration_ledger.toNat)
    · simp [encode_v2_attestation_metadata]
    · simp [schema_id.2]
  · apply slice32_append ([view_tag, V2_ATTESTATION_MARKER] ++ schema_id.1 ++ issuer.1) attestation_uid
      (nonce.1 ++ beBytes 4 expiration_ledger.toNat)
    · simp [encode_v2_attestation_metadata]
    · simp [schema_id.2, issuer.2]
  · apply slice32_append ([view_tag, V2_ATTESTATION_MARKER] ++ schema_id.1 ++ issuer.1 ++ attestation_uid.1)
      nonce (beBytes 4 expiration_ledger.toNat)
    · simp [encode_v2_attestation_metadata]
    · simp [schema_id.2, issuer.2, attestation_uid.2]

end Metadata

/-! ## What is found -/

section Found

variable (C : Crypto) (view_privkey : SecretKey) (spend_pubkey : PublicKey C) (schemas : List SchemaInfo)
  (current_slot : UInt64) (trusted_issuers : Option (Finset Str))

/-- An announcement to the recipient of an attestation that counts, and its record. -/
structure Discovered (ann : RawAnnouncement C) (record : V2StealthAttestation) : Prop where
  view_tag : viewTagOf (sharedHash C view_privkey ann.ephemeral_pubkey.1) = ann.view_tag
  address : derive_stealth_address C view_privkey spend_pubkey ann.ephemeral_pubkey =
    .ok (ann.stealth_address.1, ann.view_tag)
  attested : ∃ v2 schema, extract_v2_fields ann.metadata = some v2 ∧
    schemas.find? (fun s => s.schema_id = v2.schema_id) = some schema ∧
    schema.deprecated = false ∧ (schema.schema_expiry_slot = 0 ∨ current_slot < schema.schema_expiry_slot) ∧
    (v2.issuer = schema.authority ∨ v2.issuer ∈ schema.delegates) ∧
    (∀ trusted ∈ trusted_issuers, Hex.encode v2.issuer.1 ∈ trusted) ∧
    record = attestation C ann v2 schema current_slot

/-- If the view tag matches, the hash is a scalar and the stealth key is not infinity. -/
def Derivable (ann : RawAnnouncement C) : Prop :=
  viewTagOf (sharedHash C view_privkey ann.ephemeral_pubkey.1) = ann.view_tag →
    (sharedHash C view_privkey ann.ephemeral_pubkey.1).toNat < order ∧
      spend_pubkey.1 + (sharedHash C view_privkey ann.ephemeral_pubkey.1).toNat • C.curve.base ≠ 0

/-- Of each announcement its record, if there is one, whatever the others are. -/
def Finds (announcements : List (RawAnnouncement C)) : Prop :=
  ∃ found : RawAnnouncement C → Option V2StealthAttestation,
    (∀ ann record, found ann = some record ↔
      Discovered C view_privkey spend_pubkey schemas current_slot trusted_issuers ann record) ∧
    scan_for_attestations_v2 C view_privkey spend_pubkey schemas current_slot trusted_issuers announcements =
      .ok (announcements.filterMap found)

/-- What is found in two lists is found in both together. -/
def Appends (xs ys : List (RawAnnouncement C)) : Prop :=
  ∃ found found',
    scan_for_attestations_v2 C view_privkey spend_pubkey schemas current_slot trusted_issuers xs = .ok found ∧
    scan_for_attestations_v2 C view_privkey spend_pubkey schemas current_slot trusted_issuers ys = .ok found' ∧
    scan_for_attestations_v2 C view_privkey spend_pubkey schemas current_slot trusted_issuers (xs ++ ys) =
      .ok (found ++ found')

variable {C view_privkey spend_pubkey schemas current_slot trusted_issuers} {ann : RawAnnouncement C}

theorem check_announcement_view_tag_eq : check_announcement_view_tag C ann.view_tag view_privkey
    ann.ephemeral_pubkey = if viewTagOf (sharedHash C view_privkey ann.ephemeral_pubkey.1) = ann.view_tag
      then .PossibleMatch else .NoMatch := by
  have hhash : C.keccak256 (shared_secret_bytes C view_privkey ann.ephemeral_pubkey) =
      sharedHash C view_privkey ann.ephemeral_pubkey.1 := rfl
  simp only [check_announcement_view_tag, hhash]
  by_cases htag : viewTagOf (sharedHash C view_privkey ann.ephemeral_pubkey.1) = ann.view_tag
  · simp [htag]
  · simp [htag, Ne.symm htag]

variable (view_privkey spend_pubkey) in
/-- The derivation fails on a hash that is no scalar, and at infinity. -/
theorem derive_stealth_address_cases (P : PublicKey C) :
    (derive_stealth_address C view_privkey spend_pubkey P =
        .ok (addressBytes C (C.curve.uncompressed
          (spend_pubkey.1 + (sharedHash C view_privkey P.1).toNat • C.curve.base)),
          viewTagOf (sharedHash C view_privkey P.1)) ∧
      (sharedHash C view_privkey P.1).toNat < order ∧
      spend_pubkey.1 + (sharedHash C view_privkey P.1).toNat • C.curve.base ≠ 0) ∨
    (∃ e, derive_stealth_address C view_privkey spend_pubkey P = .error e) ∧
      ¬ ((sharedHash C view_privkey P.1).toNat < order ∧
        spend_pubkey.1 + (sharedHash C view_privkey P.1).toNat • C.curve.base ≠ 0) := by
  have hhash : C.keccak256 (shared_secret_bytes C view_privkey P) = sharedHash C view_privkey P.1 := rfl
  simp only [derive_stealth_address, hhash, scalar_from_repr, public_key_from_affine]
  by_cases hlt : (sharedHash C view_privkey P.1).toNat < order
  · by_cases hpoint : spend_pubkey.1 + (sharedHash C view_privkey P.1).toNat • C.curve.base = 0
    · simp [hlt, hpoint]
    · simp [hlt, hpoint, pubkey_to_address, pure, Except.pure]
  · simp [hlt]

theorem scanAttestation_isOk :
    (∃ r, scanAttestation C view_privkey spend_pubkey schemas current_slot trusted_issuers ann = .ok r) ↔
      Derivable C view_privkey spend_pubkey ann := by
  simp only [scanAttestation, check_announcement_view_tag_eq, Derivable]
  by_cases htag : viewTagOf (sharedHash C view_privkey ann.ephemeral_pubkey.1) = ann.view_tag
  · rcases derive_stealth_address_cases view_privkey spend_pubkey ann.ephemeral_pubkey with
      ⟨hderive, hscalar⟩ | ⟨⟨e, hderive⟩, hscalar⟩
    · simp only [htag, if_true, hderive, ok_bind, pure, Except.pure, forall_const]
      refine iff_of_true ?_ hscalar
      split
      · exact ⟨_, rfl⟩
      · exact ⟨_, rfl⟩
    · simp only [htag, if_true, hderive, error_bind, forall_const]
      refine iff_of_false ?_ hscalar
      simp
  · simp [htag, pure, Except.pure]

theorem readAttestation_eq_some {record : V2StealthAttestation} :
    readAttestation C schemas current_slot trusted_issuers ann = some record ↔
      ∃ v2 schema, extract_v2_fields ann.metadata = some v2 ∧
        schemas.find? (fun s => s.schema_id = v2.schema_id) = some schema ∧
        schema.deprecated = false ∧
        (schema.schema_expiry_slot = 0 ∨ current_slot < schema.schema_expiry_slot) ∧
        (v2.issuer = schema.authority ∨ v2.issuer ∈ schema.delegates) ∧
        (∀ trusted ∈ trusted_issuers, Hex.encode v2.issuer.1 ∈ trusted) ∧
        record = attestation C ann v2 schema current_slot := by
  simp only [readAttestation, Option.bind_eq_bind, Option.bind_eq_some_iff, ← exists_and_left]
  apply exists_congr
  intro v2
  apply exists_congr
  intro schema
  apply and_congr_right
  intro _
  apply and_congr_right
  intro _
  have hactive : schema.is_active current_slot = true ↔ schema.deprecated = false ∧
      (schema.schema_expiry_slot = 0 ∨ current_slot < schema.schema_expiry_slot) := by
    simp [SchemaInfo.is_active]
  have hissuer : schema.is_authorized_issuer v2.issuer = true ↔
      v2.issuer = schema.authority ∨ v2.issuer ∈ schema.delegates := by
    simp [SchemaInfo.is_authorized_issuer]
  rw [← and_assoc, ← hactive, ← hissuer]
  cases schema.is_active current_slot
  · simp
  · cases schema.is_authorized_issuer v2.issuer
    · simp
    · cases trusted_issuers with
      | none => simp [eq_comm]
      | some trusted =>
        by_cases htrusted : Hex.encode v2.issuer.1 ∈ trusted
        · simp [htrusted, eq_comm]
        · simp [htrusted]

theorem scanAttestation_eq_some {record : V2StealthAttestation} :
    scanAttestation C view_privkey spend_pubkey schemas current_slot trusted_issuers ann = .ok (some record) ↔
      Discovered C view_privkey spend_pubkey schemas current_slot trusted_issuers ann record := by
  simp only [scanAttestation, check_announcement_view_tag_eq]
  by_cases htag : viewTagOf (sharedHash C view_privkey ann.ephemeral_pubkey.1) = ann.view_tag
  · rcases derive_stealth_address_cases view_privkey spend_pubkey ann.ephemeral_pubkey with
      ⟨hderive, -⟩ | ⟨⟨e, hderive⟩, -⟩
    · generalize addressBytes C _ = address at hderive
      simp only [htag, if_true, hderive, ok_bind, pure, Except.pure]
      by_cases haddress : address = ann.stealth_address.1
      · rw [if_neg (not_not.mpr haddress), Except.ok.injEq, readAttestation_eq_some]
        refine ⟨fun h => ⟨htag, ?_, h⟩, fun h => h.attested⟩
        rw [hderive, haddress, htag]
      · rw [if_pos haddress]
        refine iff_of_false (by simp) fun h => haddress ?_
        have hderived := hderive.symm.trans h.address
        simpa [htag] using hderived
    · simp only [htag, if_true, hderive, error_bind]
      refine iff_of_false (by simp) fun h => ?_
      cases hderive.symm.trans h.address
  · simp only [htag, if_false, pure, Except.pure]
    exact iff_of_false (by simp) fun h => htag h.view_tag

variable (C view_privkey spend_pubkey schemas current_slot trusted_issuers)

theorem finds_iff (announcements : List (RawAnnouncement C)) :
    Finds C view_privkey spend_pubkey schemas current_slot trusted_issuers announcements ↔
      ∀ ann ∈ announcements, Derivable C view_privkey spend_pubkey ann := by
  constructor
  · intro h ann hann
    obtain ⟨found, -, hscan⟩ := h
    exact scanAttestation_isOk.mp (collect_isOk hscan ann hann)
  · intro h
    refine ⟨fun ann => (scanAttestation C view_privkey spend_pubkey schemas current_slot trusted_issuers
      ann).toOption.join, ?_, ?_⟩
    · intro ann record
      rw [← scanAttestation_eq_some]
      cases hscan : scanAttestation C view_privkey spend_pubkey schemas current_slot trusted_issuers ann with
      | ok r => simp [hscan, Except.toOption]
      | error e => simp [hscan, Except.toOption]
    · rw [scan_for_attestations_v2, ← flatMap_alone]
      apply collect_eq_of_isOk
      intro ann hann
      exact scanAttestation_isOk.mpr (h ann hann)

theorem appends_iff (xs ys : List (RawAnnouncement C)) :
    Appends C view_privkey spend_pubkey schemas current_slot trusted_issuers xs ys ↔
      ∀ ann ∈ xs ++ ys, Derivable C view_privkey spend_pubkey ann := by
  constructor
  · intro h ann hann
    obtain ⟨found, found', -, -, hscan⟩ := h
    exact scanAttestation_isOk.mp (collect_isOk hscan ann hann)
  · intro h
    have hscan : ∀ announcements : List (RawAnnouncement C), announcements ⊆ xs ++ ys →
        scan_for_attestations_v2 C view_privkey spend_pubkey schemas current_slot trusted_issuers
          announcements = .ok (announcements.flatMap (alone (scanAttestation C view_privkey spend_pubkey
            schemas current_slot trusted_issuers))) := by
      intro announcements hsub
      apply collect_eq_of_isOk
      intro ann hann
      exact scanAttestation_isOk.mpr (h ann (hsub hann))
    refine ⟨_, _, hscan xs (List.subset_append_left xs ys), hscan ys (List.subset_append_right xs ys), ?_⟩
    rw [hscan (xs ++ ys) (List.Subset.refl _), List.flatMap_append]

/-- **What the scan finds.** The metadata of an attestation are read as they were written. Of a list of
announcements the scan finds one record for each attestation that counts and nothing else, in their order,
exactly if there is none whose view tag matches and whose derivation fails; and what it finds in two lists is
what it finds in both together under that condition. -/
theorem attestation_scan_iff :
    (∀ view_tag schema_id issuer attestation_uid nonce expiration_ledger,
      extract_v2_fields
          (encode_v2_attestation_metadata view_tag schema_id issuer attestation_uid nonce expiration_ledger) =
        some ⟨schema_id, issuer, attestation_uid, nonce, expiration_ledger⟩) ∧
    (∀ announcements, Finds C view_privkey spend_pubkey schemas current_slot trusted_issuers announcements ↔
      ∀ ann ∈ announcements, Derivable C view_privkey spend_pubkey ann) ∧
    ∀ xs ys, Appends C view_privkey spend_pubkey schemas current_slot trusted_issuers xs ys ↔
      ∀ ann ∈ xs ++ ys, Derivable C view_privkey spend_pubkey ann :=
  ⟨extract_v2_fields_encode, finds_iff C view_privkey spend_pubkey schemas current_slot trusted_issuers,
    appends_iff C view_privkey spend_pubkey schemas current_slot trusted_issuers⟩

end Found

/-! ## A hash that is no scalar -/

namespace Toy

open Stealth.Toy (curve one)

/-- The hash of the encoding of two is larger than the order, and every other hash is one. -/
def crypto : Crypto where
  curve := curve
  keccak256 bytes :=
    if bytes = curve.compressed (2 : ZMod order) then ⟨List.replicate 32 0xff, rfl⟩ else BytesN.ofNat 32 1
  stellarAddress _ := []

theorem two_ne_zero : (2 : ZMod order) ≠ 0 := by
  have hnot : ¬ order ∣ 2 := Nat.not_dvd_of_pos_of_lt (by decide) (by decide)
  intro h
  apply hnot
  rw [← ZMod.natCast_eq_zero_iff]
  exact_mod_cast h

theorem one_ne_zero : (1 : ZMod order) ≠ 0 := NeZero.ne 1

def pointOne : PublicKey crypto := ⟨(1 : ZMod order), one_ne_zero⟩

def pointTwo : PublicKey crypto := ⟨(2 : ZMod order), two_ne_zero⟩

def zeros : BytesN 32 := ⟨List.replicate 32 0, rfl⟩

def schema : SchemaInfo where
  schema_id := zeros
  authority := zeros
  delegates := []
  deprecated := false
  schema_expiry_slot := 0
  name := []

def payment : RawAnnouncement crypto where
  stealth_address := ⟨(BytesN.ofNat 32 1).1.drop 12, rfl⟩
  view_tag := 0
  ephemeral_pubkey := pointOne
  metadata := encode_v2_attestation_metadata 0 zeros zeros zeros zeros 0
  tx_hash := []
  block_number := 0

/-- Nobody is paid. -/
def largeHash : RawAnnouncement crypto where
  stealth_address := ⟨List.replicate 20 0, rfl⟩
  view_tag := 0xff
  ephemeral_pubkey := pointTwo
  metadata := []
  tx_hash := []
  block_number := 0

theorem one_scalar : one.scalar = 1 := by decide

theorem keccak256_eq {bytes : List UInt8} (h : bytes ≠ curve.compressed (2 : ZMod order)) :
    crypto.keccak256 bytes = BytesN.ofNat 32 1 := if_neg h

theorem sharedHash_two : sharedHash crypto one pointTwo.1 = ⟨List.replicate 32 0xff, rfl⟩ := by
  have htwo : curve.compressed (2 : ZMod order) = curve.compressed (2 : ZMod order) := rfl
  rw [sharedHash, one_scalar, one_nsmul]
  exact if_pos (e := BytesN.ofNat 32 1) htwo

theorem sharedHash_one : sharedHash crypto one pointOne.1 = BytesN.ofNat 32 1 := by
  have hne : curve.compressed (1 : ZMod order) ≠ curve.compressed (2 : ZMod order) := by
    intro h
    have hdecode := curve.fromHex_compressed (1 : ZMod order) one_ne_zero
    rw [h, curve.fromHex_compressed (2 : ZMod order) two_ne_zero] at hdecode
    have hone : (2 : ZMod order) = 1 := Option.some.inj hdecode
    rw [← one_add_one_eq_two, add_eq_left] at hone
    exact one_ne_zero hone
  rw [sharedHash, one_scalar, one_nsmul]
  exact keccak256_eq hne

theorem addressBytes_eq (P : crypto.curve.Point) :
    addressBytes crypto (crypto.curve.uncompressed P) = (BytesN.ofNat 32 1).1.drop 12 := by
  have hne : (crypto.curve.uncompressed P).drop 1 ≠ curve.compressed (2 : ZMod order) := by
    intro h
    have hlengths := congrArg List.length h
    rw [curve.length_compressed (2 : ZMod order) two_ne_zero] at hlengths
    simp [crypto, curve] at hlengths
  exact congrArg (fun hash : BytesN 32 => hash.1.drop 12) (keccak256_eq hne)

theorem derive_payment : derive_stealth_address crypto one pointOne pointOne =
    .ok (payment.stealth_address.1, payment.view_tag) := by
  have hnat : (sharedHash crypto one pointOne.1).toNat = 1 := by
    rw [sharedHash_one]
    decide
  have hpoint : pointOne.1 + 1 • crypto.curve.base ≠ 0 := by
    rw [one_nsmul]
    show (1 : ZMod order) + 1 ≠ 0
    rw [one_add_one_eq_two]
    exact two_ne_zero
  rcases derive_stealth_address_cases one pointOne pointOne with ⟨hderive, -⟩ | ⟨-, hscalar⟩
  · rw [hderive, addressBytes_eq, sharedHash_one]
    rfl
  · exact absurd ⟨by rw [hnat]; decide, by rwa [hnat]⟩ hscalar

theorem scan_largeHash : scanAttestation crypto one pointOne [schema] 0 none largeHash = .error .InvalidScalar := by
  have hhash : crypto.keccak256 (shared_secret_bytes crypto one largeHash.ephemeral_pubkey) = _ := sharedHash_two
  have hlarge : ¬ BytesN.toNat (n := 32) ⟨List.replicate 32 0xff, rfl⟩ < order := by decide
  have htag : viewTagOf (sharedHash crypto one largeHash.ephemeral_pubkey.1) = largeHash.view_tag := by
    rw [largeHash, sharedHash_two]
    rfl
  simp only [scanAttestation, check_announcement_view_tag_eq, htag, if_true, derive_stealth_address, hhash,
    scalar_from_repr, if_neg hlarge, error_bind]

theorem not_derivable_largeHash : ¬ Derivable crypto one pointOne largeHash := by
  intro h
  have hlt := (h (by rw [largeHash, sharedHash_two]; rfl)).1
  rw [largeHash, sharedHash_two] at hlt
  exact absurd hlt (by decide)

theorem discovered_payment : Discovered crypto one pointOne [schema] 0 none payment
    (attestation crypto payment ⟨zeros, zeros, zeros, zeros, 0⟩ schema 0) := by
  refine ⟨?_, derive_payment, ⟨zeros, zeros, zeros, zeros, 0⟩, schema, extract_v2_fields_encode .., ?_, rfl,
    .inl rfl, .inl rfl, by simp, rfl⟩
  · rw [payment, sharedHash_one]
    rfl
  · simp [schema]

end Toy

/-- An announcement whose hash is no scalar hides the attestation after it. -/
theorem attestation_scan_iff_fails :
    scan_for_attestations_v2 Toy.crypto Stealth.Toy.one Toy.pointOne [Toy.schema] 0 none [Toy.payment] =
        .ok [attestation Toy.crypto Toy.payment ⟨Toy.zeros, Toy.zeros, Toy.zeros, Toy.zeros, 0⟩ Toy.schema 0] ∧
      scan_for_attestations_v2 Toy.crypto Stealth.Toy.one Toy.pointOne [Toy.schema] 0 none
        [Toy.largeHash, Toy.payment] = .error .InvalidScalar ∧
      ¬ Finds Toy.crypto Stealth.Toy.one Toy.pointOne [Toy.schema] 0 none [Toy.largeHash, Toy.payment] ∧
      ¬ Appends Toy.crypto Stealth.Toy.one Toy.pointOne [Toy.schema] 0 none [Toy.payment] [Toy.largeHash] := by
  refine ⟨?_, ?_, ?_, ?_⟩
  · exact collect_singleton (scanAttestation_eq_some.mpr Toy.discovered_payment)
  · rw [scan_for_attestations_v2, collect, List.foldlM_cons, Toy.scan_largeHash]
    rfl
  · rw [finds_iff]
    exact fun h => Toy.not_derivable_largeHash (h _ List.mem_cons_self)
  · rw [appends_iff]
    exact fun h => Toy.not_derivable_largeHash (h _ (by simp))

end OpaqueStellar.Stealth.Rust
