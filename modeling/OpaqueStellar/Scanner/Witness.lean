import Mathlib.Data.List.TakeWhile
import OpaqueStellar.Circuit.Signals
import OpaqueStellar.Publisher.Validate

/-! # The scanner's witness

`generate_reputation_witness_v2` of `scanner/src/lib.rs`. The leaves are hashed from the numbers that
`field_string_to_bytes` reads; the witness carries the texts of the attestation that was selected. What
comes back from Rust is read in JavaScript, by `BigInt`. -/

namespace OpaqueStellar.Scanner

open OpaqueStellar.Lib OpaqueStellar.Circuit OpaqueStellar.Asp.MerkleTree
open OpaqueStellar.Publisher (BN254_MODULUS Scalar toScalar bigintToHex32 toScalar_bigintToHex32 digitsOf_hexDecode)
open OpaqueStellar.Relayer (bigIntOfString bigIntToString bigIntOfString_bigIntToString bytesToHex
  digitsOf)
open OpaqueStellar.Schemas (Str trim isWhitespace)
open OpaqueStellar.Soroban (bind_eq_ok pure_eq_ok mapError_eq_ok)

/-! ## Attestations -/

structure MerkleLeafPreimage where
  schemaIdField : Str
  issuerPkX : Str
  traitDataHash : Str
  nonceField : Str
  deriving DecidableEq

structure V2StealthAttestation where
  schemaId : Str
  attestationUid : Str
  merkleLeafPreimage : MerkleLeafPreimage
  deriving DecidableEq

/-- What a leaf is hashed from. -/
structure LeafInputs where
  stealthPk : BytesN 32
  schemaId : BytesN 32
  issuerPkX : BytesN 32
  traitDataHash : BytesN 32
  nonce : BytesN 32

/-! ## Texts -/

/-- `trim_start_matches("0x")`, which goes on as long as it matches. -/
def trimStartMatches0x : Str → Str
  | '0' :: 'x' :: rest => trimStartMatches0x rest
  | s => s

/-- The text of a field element: hexadecimal, except for zero. -/
def bytesToDecimalString (bytes : BytesN 32) : Str :=
  if (Hex.encode bytes.1).dropWhile (· = '0') = [] then ['0'] else bytesToHex bytes.1

instance : Zero (BytesN 32) := ⟨BytesN.ofNat 32 0⟩

section Generate

-- `BigUint::parse_bytes`, with the base
variable (parseBytes : Str → ℕ → Option ℕ) (toLowercase : Str → Str)
  (hash2 : Scalar → Scalar → Scalar) (hash5 : Scalar → Scalar → Scalar → Scalar → Scalar → Scalar)

def parseField : Str → Option ℕ
  | '0' :: 'x' :: hex => parseBytes hex 16
  | digits => parseBytes digits 10

def fieldStringToBytes (input : Str) : Except Str (BytesN 32) :=
  (orThrow (parseField parseBytes (trim input))
    ("invalid BN254 field element: ".toList ++ input)).map fun value =>
      bigintToHex32 (value : Scalar)

def poseidonHashPair (left right : BytesN 32) : BytesN 32 :=
  bigintToHex32 (hash2 (toScalar left) (toScalar right))

/-- `poseidon_hash_fields` of a leaf. -/
def hashLeaf (l : LeafInputs) : BytesN 32 :=
  bigintToHex32 (hash5 (toScalar l.stealthPk) (toScalar l.schemaId) (toScalar l.issuerPkX)
    (toScalar l.traitDataHash) (toScalar l.nonce))

def insertV2Leaf (t : MerkleTree (poseidonHashPair hash2)) (l : LeafInputs) :
    Except MerkleError (MerkleTree (poseidonHashPair hash2) × ℕ) :=
  t.insert (hashLeaf hash5 l)

/-- The hash of the target's data comes from the caller. -/
def leafTraitDataHash (uid : Str) (traitDataHash : BytesN 32) (att : V2StealthAttestation) :
    Except Str (BytesN 32) :=
  if att.attestationUid = uid then .ok traitDataHash
  else fieldStringToBytes parseBytes att.merkleLeafPreimage.traitDataHash

/-- What the loop reads of an attestation. -/
def leafInputs (uid : Str) (stealthPk traitDataHash : BytesN 32) (att : V2StealthAttestation) :
    Except Str LeafInputs := do
  let schemaId ← fieldStringToBytes parseBytes att.merkleLeafPreimage.schemaIdField
  let issuerPkX ← fieldStringToBytes parseBytes att.merkleLeafPreimage.issuerPkX
  let nonce ← fieldStringToBytes parseBytes att.merkleLeafPreimage.nonceField
  let leafHash ← leafTraitDataHash parseBytes uid traitDataHash att
  pure ⟨stealthPk, schemaId, issuerPkX, leafHash, nonce⟩

/-- The loop over the attestations, with the tree and the index of the target's leaf. -/
def addLeaf (uid : Str) (stealthPk traitDataHash : BytesN 32)
    (s : MerkleTree (poseidonHashPair hash2) × Option ℕ) (att : V2StealthAttestation) :
    Except Str (MerkleTree (poseidonHashPair hash2) × Option ℕ) := do
  let l ← leafInputs parseBytes uid stealthPk traitDataHash att
  let (tree, idx) ← (insertV2Leaf hash2 hash5 s.1 l).mapError fun e =>
    "Merkle insert error: ".toList ++ e.message.toList
  pure (tree, if att.attestationUid = uid ∧ s.2 = none then some idx else s.2)

def targetAtt (attestations : List V2StealthAttestation) (targetSchemaIdHex : Str) :
    Option V2StealthAttestation :=
  let targetId := toLowercase (trimStartMatches0x targetSchemaIdHex)
  attestations.find? fun a => decide (toLowercase (trimStartMatches0x a.schemaId) = targetId)

/-- The witness for a target and a proof of its leaf. -/
def witnessOf (target : V2StealthAttestation) (stealthPkField traitDataHashHex externalNullifier : Str)
    (proof : MerkleProof (BytesN 32)) : ReputationSignals where
  stealthPk := stealthPkField
  schemaId := target.merkleLeafPreimage.schemaIdField
  issuerPkX := target.merkleLeafPreimage.issuerPkX
  traitDataHash := '0' :: 'x' :: trimStartMatches0x traitDataHashHex
  nonce := target.merkleLeafPreimage.nonceField
  merklePath := proof.pathElements.map bytesToDecimalString
  merklePathIndices := proof.pathIndices
  merkleRoot := bytesToDecimalString proof.root
  attestationId := target.merkleLeafPreimage.schemaIdField
  externalNullifier := externalNullifier
  nullifierHash := "__COMPUTE_IN_BROWSER__".toList

def generateReputationWitnessV2 (attestations : List V2StealthAttestation) (targetSchemaIdHex : Str)
    (stealthPrivkeyBytes : List UInt8) (traitDataHashHex externalNullifier : Str) :
    Except Str ReputationSignals := do
  let target ← orThrow (targetAtt toLowercase attestations targetSchemaIdHex)
    "No attestation found for target schema_id".toList
  require (stealthPrivkeyBytes.length = 32) "Stealth private key must be 32 bytes".toList
  let stealthPkField := bytesToHex stealthPrivkeyBytes
  let stealthPk ← fieldStringToBytes parseBytes stealthPkField
  let traitDataHash ← fieldStringToBytes parseBytes traitDataHashHex
  let (tree, targetLeafIdx) ← attestations.foldlM
    (addLeaf parseBytes hash2 hash5 target.attestationUid stealthPk traitDataHash)
    (MerkleTree.new (poseidonHashPair hash2) 20, none)
  let leafIdx ← orThrow targetLeafIdx "Failed to locate target attestation in Merkle tree".toList
  let proof ← (tree.proof leafIdx).mapError fun e =>
    "Merkle proof error: ".toList ++ e.message.toList
  pure (witnessOf target stealthPkField traitDataHashHex externalNullifier proof)

end Generate

/-! ## The loop -/

section Loop

variable {parseBytes : Str → ℕ → Option ℕ} {hash2 : Scalar → Scalar → Scalar}
  {hash5 : Scalar → Scalar → Scalar → Scalar → Scalar → Scalar} {uid : Str}
  {stealthPk traitDataHash : BytesN 32}

theorem addLeaf_eq_ok {t t' : MerkleTree (poseidonHashPair hash2)} (hdepth : t.depth = 20)
    {found found' : Option ℕ} {att : V2StealthAttestation} :
    addLeaf parseBytes hash2 hash5 uid stealthPk traitDataHash (t, found) att = .ok (t', found') ↔
      ∃ l, leafInputs parseBytes uid stealthPk traitDataHash att = .ok l ∧
        t.leaves.length < 2 ^ 20 ∧ t' = t.push (hashLeaf hash5 l) ∧
        found' = if att.attestationUid = uid ∧ found = none then some t.leaves.length else found := by
  have hinsert := appends_insert (poseidonHashPair hash2) 20 t
  simp only [addLeaf, insertV2Leaf, bind_eq_ok, mapError_eq_ok, pure_eq_ok, Prod.mk.injEq]
  refine exists_congr fun l => and_congr_right fun _ => ?_
  constructor
  · rintro ⟨⟨tree, idx⟩, h, rfl, rfl⟩
    obtain ⟨hroom, rfl, rfl⟩ := (hinsert _ _ _ hdepth).mp h
    exact ⟨hroom, rfl, rfl⟩
  · rintro ⟨hroom, rfl, rfl⟩
    exact ⟨_, (hinsert _ _ _ hdepth).mpr ⟨hroom, rfl, rfl⟩, rfl, rfl⟩

/-- The index that one attestation more leads to. -/
theorem or_findIdx?_cons (uid : Str) (found : Option ℕ) (att : V2StealthAttestation)
    (atts : List V2StealthAttestation) (n : ℕ) :
    (if att.attestationUid = uid ∧ found = none then some n else found).or
        ((atts.findIdx? fun att => decide (att.attestationUid = uid)).map (n + 1 + ·)) =
      found.or (((att :: atts).findIdx? fun att => decide (att.attestationUid = uid)).map (n + ·)) := by
  rw [List.findIdx?_cons]
  cases found with
  | some i => simp
  | none =>
      by_cases huid : att.attestationUid = uid
      · simp [huid]
      · simp only [huid, false_and, decide_false, if_false, Option.none_or, Bool.false_eq_true,
          Option.map_map]
        congr 1
        funext i
        simp only [Function.comp]
        omega

/-- The leaves are those of the attestations, and the index is that of the first with the target's
identifier. -/
theorem foldlM_addLeaf {atts : List V2StealthAttestation}
    {t t' : MerkleTree (poseidonHashPair hash2)} (hdepth : t.depth = 20)
    (hfit : t.leaves.length ≤ 2 ^ 20) {found found' : Option ℕ} :
    atts.foldlM (addLeaf parseBytes hash2 hash5 uid stealthPk traitDataHash) (t, found) =
        .ok (t', found') ↔
      t.leaves.length + atts.length ≤ 2 ^ 20 ∧ ∃ ls,
        List.Forall₂ (fun att l => leafInputs parseBytes uid stealthPk traitDataHash att = .ok l)
          atts ls ∧
        t' = { t with leaves := t.leaves ++ ls.map (hashLeaf hash5) } ∧
        found' = found.or ((atts.findIdx? fun att => decide (att.attestationUid = uid)).map
          (t.leaves.length + ·)) := by
  induction atts generalizing t found with
  | nil =>
      rw [List.foldlM_nil, pure_eq_ok, Prod.mk.injEq]
      simp only [List.length_nil, Nat.add_zero, hfit, true_and, List.forall₂_nil_left_iff,
        exists_eq_left, List.map_nil, List.append_nil, List.findIdx?_nil, Option.map_none,
        Option.or_none, eq_comm]
  | cons att atts ih =>
      have hfound := or_findIdx?_cons uid found att atts t.leaves.length
      rw [List.foldlM_cons, bind_eq_ok]
      constructor
      · rintro ⟨s, hfirst, hrest⟩
        obtain ⟨l, hl, hroom, htree, hindex⟩ := (addLeaf_eq_ok hdepth).mp hfirst
        have hlength : s.1.leaves.length = t.leaves.length + 1 := by
          rw [htree, MerkleTree.push, List.length_append, List.length_singleton]
        obtain ⟨hfits, ls, hls, rfl, rfl⟩ := (ih (t := s.1) (by rw [htree]; exact hdepth) (by omega)).mp hrest
        refine ⟨by rw [List.length_cons]; omega, l :: ls, .cons hl hls, ?_, ?_⟩
        · rw [htree, MerkleTree.push, List.append_assoc]
          rfl
        · rw [hindex, hlength, hfound]
      · rintro ⟨hfits, ls, hls, rfl, rfl⟩
        cases hls with
        | cons hl hls =>
            rw [List.length_cons] at hfits
            refine ⟨_, (addLeaf_eq_ok hdepth).mpr ⟨_, hl, by omega, rfl, rfl⟩, ?_⟩
            have hlength : ∀ l, (t.push (hashLeaf hash5 l)).leaves.length = t.leaves.length + 1 := by
              simp [MerkleTree.push]
            have hsmall : ∀ l, (t.push (hashLeaf hash5 l)).leaves.length ≤ 2 ^ 20 := by
              intro l
              rw [hlength]
              omega
            refine (ih (t := t.push _) hdepth (hsmall _)).mpr ⟨?_, _, hls, ?_, ?_⟩
            · rw [hlength]
              omega
            · simp [MerkleTree.push]
            · rw [hlength, hfound]

end Loop

/-! ## What it returns -/

/-- The tree of these leaves. -/
def filled (hash2 : Scalar → Scalar → Scalar) (leaves : List (BytesN 32)) :
    MerkleTree (poseidonHashPair hash2) :=
  { MerkleTree.new (poseidonHashPair hash2) 20 with leaves := leaves }

/-- The proof of the leaf at an index. -/
def leafProof (hash2 : Scalar → Scalar → Scalar) (leaves : List (BytesN 32)) (index : ℕ) :
    MerkleProof (BytesN 32) :=
  let path := Merkle.authPath (poseidonHashPair hash2) (padded leaves) index 20
  { leaf := padded leaves index
    pathElements := elements path
    pathIndices := bits path
    root := Merkle.node (poseidonHashPair hash2) (padded leaves) 20 0 }

theorem proof_filled {hash2 : Scalar → Scalar → Scalar} {leaves : List (BytesN 32)} {index : ℕ}
    (h : index < leaves.length) : (filled hash2 leaves).proof index = .ok (leafProof hash2 leaves index) := by
  rw [MerkleTree.proof_of_lt _ h, MerkleTree.root_eq_node]
  rfl

section Returns

variable {parseBytes : Str → ℕ → Option ℕ} {toLowercase : Str → Str}
  {hash2 : Scalar → Scalar → Scalar} {hash5 : Scalar → Scalar → Scalar → Scalar → Scalar → Scalar}
  {attestations : List V2StealthAttestation} {target : V2StealthAttestation}
  {targetSchemaIdHex : Str} {key : List UInt8} {traitDataHashHex externalNullifier uid : Str}
  {stealthPk traitDataHash : BytesN 32} {ls : List LeafInputs} {index : ℕ}

theorem foldlM_addLeaf_new {tree : MerkleTree (poseidonHashPair hash2)} {found : Option ℕ} :
    attestations.foldlM (addLeaf parseBytes hash2 hash5 uid stealthPk traitDataHash)
        (MerkleTree.new (poseidonHashPair hash2) 20, none) = .ok (tree, found) ↔
      attestations.length ≤ 2 ^ 20 ∧ ∃ ls,
        List.Forall₂ (fun att l => leafInputs parseBytes uid stealthPk traitDataHash att = .ok l)
          attestations ls ∧
        tree = filled hash2 (ls.map (hashLeaf hash5)) ∧
        found = attestations.findIdx? fun att => decide (att.attestationUid = uid) := by
  rw [foldlM_addLeaf rfl (Nat.zero_le _)]
  simp only [MerkleTree.new, List.length_nil, Nat.zero_add, List.nil_append, filled, Option.map_id',
    Option.none_or]

variable (parseBytes toLowercase attestations targetSchemaIdHex key traitDataHashHex) in
/-- The texts can all be read, a target is there, and its leaf is the one at the index. -/
structure Located (target : V2StealthAttestation) (stealthPk traitDataHash : BytesN 32)
    (ls : List LeafInputs) (index : ℕ) : Prop where
  selected : targetAtt toLowercase attestations targetSchemaIdHex = some target
  length_key : key.length = 32
  read_key : fieldStringToBytes parseBytes (bytesToHex key) = .ok stealthPk
  read_hash : fieldStringToBytes parseBytes traitDataHashHex = .ok traitDataHash
  fits : attestations.length ≤ 2 ^ 20
  leaves : List.Forall₂ (fun att l =>
    leafInputs parseBytes target.attestationUid stealthPk traitDataHash att = .ok l) attestations ls
  first : attestations.findIdx? (fun att => decide (att.attestationUid = target.attestationUid)) =
    some index

theorem mem_of_targetAtt (h : targetAtt toLowercase attestations targetSchemaIdHex = some target) :
    target ∈ attestations := List.mem_of_find?_eq_some h

/-- The target is one of the attestations. -/
theorem exists_first_of_targetAtt (h : targetAtt toLowercase attestations targetSchemaIdHex = some target) :
    ∃ first, attestations.find? (fun att => decide (att.attestationUid = target.attestationUid)) =
      some first := by
  rw [← Option.isSome_iff_exists, List.find?_isSome]
  exact ⟨target, mem_of_targetAtt h, decide_eq_true rfl⟩

theorem exists_findIdx?_of_targetAtt (h : targetAtt toLowercase attestations targetSchemaIdHex = some target) :
    ∃ index, attestations.findIdx? (fun att => decide (att.attestationUid = target.attestationUid)) =
      some index := by
  obtain ⟨first, hfirst⟩ := exists_first_of_targetAtt h
  rw [List.find?_eq_bind_findIdx?_getElem?] at hfirst
  obtain ⟨index, hindex, -⟩ := Option.bind_eq_some_iff.mp hfirst
  exact ⟨index, hindex⟩

theorem Located.index_lt
    (h : Located parseBytes toLowercase attestations targetSchemaIdHex key traitDataHashHex target
      stealthPk traitDataHash ls index) : index < ls.length := by
  rw [← h.leaves.length_eq]
  exact (List.findIdx?_eq_some_iff_findIdx_eq.mp h.first).1

theorem generate_eq_ok {w : ReputationSignals} :
    generateReputationWitnessV2 parseBytes toLowercase hash2 hash5 attestations targetSchemaIdHex key
        traitDataHashHex externalNullifier = .ok w ↔
      ∃ target stealthPk traitDataHash ls index,
        Located parseBytes toLowercase attestations targetSchemaIdHex key traitDataHashHex target
          stealthPk traitDataHash ls index ∧
        w = witnessOf target (bytesToHex key) traitDataHashHex externalNullifier
          (leafProof hash2 (ls.map (hashLeaf hash5)) index) := by
  simp only [generateReputationWitnessV2, bind_eq_ok, orThrow_eq_ok, require_eq_ok, mapError_eq_ok,
    pure_eq_ok]
  constructor
  · rintro ⟨target, hselected, -, hkey, stealthPk, hpk, traitDataHash, hhash, ⟨tree, found⟩, hloop, index,
      hindex, proof, hproof, rfl⟩
    obtain ⟨hfits, ls, hls, rfl, hfound⟩ := foldlM_addLeaf_new.mp hloop
    have h : Located parseBytes toLowercase attestations targetSchemaIdHex key traitDataHashHex target
        stealthPk traitDataHash ls index :=
      ⟨hselected, hkey, hpk, hhash, hfits, hls, hfound.symm.trans hindex⟩
    have hlt : index < (ls.map (hashLeaf hash5)).length := by simpa using h.index_lt
    obtain rfl := Except.ok.inj ((proof_filled hlt).symm.trans hproof)
    exact ⟨target, stealthPk, traitDataHash, ls, index, h, rfl⟩
  · rintro ⟨target, stealthPk, traitDataHash, ls, index, h, rfl⟩
    have hlt : index < (ls.map (hashLeaf hash5)).length := by simpa using h.index_lt
    exact ⟨target, h.selected, (), h.length_key, stealthPk, h.read_key, traitDataHash, h.read_hash,
      _, foldlM_addLeaf_new.mpr ⟨h.fits, ls, h.leaves, rfl, rfl⟩, index, h.first, _, proof_filled hlt,
      rfl⟩

end Returns

/-! ## Reading it -/

section Digits

variable {s : Str} {bytes : List UInt8}

theorem beNat_of_zeros (h : ∀ c ∈ Hex.encode bytes, c = '0') : beNat bytes = 0 := by
  have hdigit : ∀ n < 16, Hex.digit n = '0' → n = 0 := by decide
  induction bytes with
  | nil => rfl
  | cons b bytes ih =>
      have hcons : Hex.encode (b :: bytes) =
        Hex.digit (b.toNat / 16) :: Hex.digit (b.toNat % 16) :: Hex.encode bytes := rfl
      rw [hcons, List.forall_mem_cons, List.forall_mem_cons] at h
      have hb := b.toNat_lt
      have hhigh := hdigit _ (by omega) h.1
      have hlow := hdigit _ (by omega) h.2.1
      have hzero : b.toNat = 0 := by omega
      rw [beNat, hzero, ih h.2.2, Nat.zero_mul]

/-- What the scanner writes for a field element is read back. -/
theorem readSignal_bytesToDecimalString (b : BytesN 32) :
    readSignal (bytesToDecimalString b) = some (toScalar b) := by
  have hne : b.1 ≠ [] := by
    intro hnil
    have hlength := b.2
    rw [hnil] at hlength
    cases hlength
  rw [bytesToDecimalString]
  split
  · next hzeros =>
      have hall : ∀ c ∈ Hex.encode b.1, c = '0' := by
        intro c hc
        have hc := List.dropWhile_eq_nil_iff.mp hzeros c hc
        simpa using hc
      rw [toScalar, BytesN.toNat, beNat_of_zeros hall]
      rfl
  · exact readSignal_hex (encode_ne_nil hne) (Hex.decode_encode b.1)

theorem trim_hex (h : ∀ c ∈ s, isWhitespace c = false) : trim s = s := trimBy_eq_self h

end Digits

/-- The witness once `nullifier_hash` is set, with functions in the place of Poseidon. -/
def Completed (hash2 : Scalar → Scalar → Scalar)
    (hash5 : Scalar → Scalar → Scalar → Scalar → Scalar → Scalar) (w : ReputationSignals) : Prop :=
  ∃ stealthPk externalNullifier, readSignal w.stealthPk = some stealthPk ∧
    readSignal w.externalNullifier = some externalNullifier ∧
    ReputationSignals.Satisfy hash2 hash5 20
      { w with nullifierHash := bigIntToString (hash2 stealthPk externalNullifier).val }

section Completed

variable {hash2 : Scalar → Scalar → Scalar}
  {hash5 : Scalar → Scalar → Scalar → Scalar → Scalar → Scalar} {leaves : List (BytesN 32)} {index : ℕ}
  {target : V2StealthAttestation} {key : List UInt8} {traitDataHashHex externalNullifier : Str}

/-- The siblings of a leaf as field elements. -/
def leafPath (hash2 : Scalar → Scalar → Scalar) (leaves : List (BytesN 32)) (index : ℕ) :
    List (Scalar × Bool) :=
  (Merkle.authPath (poseidonHashPair hash2) (padded leaves) index 20).map fun s => (toScalar s.1, s.2)

theorem length_leafPath : (leafPath hash2 leaves index).length = 20 := by
  simp [leafPath, Merkle.authPath]

theorem toScalar_root (h : index < 2 ^ 20) :
    toScalar (leafProof hash2 leaves index).root =
      Merkle.fold hash2 (toScalar (padded leaves index)) (leafPath hash2 leaves index) := by
  have hroot : Merkle.fold (poseidonHashPair hash2) (padded leaves index)
      (Merkle.authPath (poseidonHashPair hash2) (padded leaves) index 20) =
        (leafProof hash2 leaves index).root := by
    rw [Merkle.fold_authPath, Nat.div_eq_of_lt h, Nat.zero_mul]
    rfl
  rw [← hroot]
  exact Merkle.map_fold (fun a b => toScalar_bigintToHex32 _) _ _

/-- What the readings have to be for the witness to satisfy the circuit. -/
theorem completed_iff (hkey : key ≠ []) (hindex : index < 2 ^ 20) :
    Completed hash2 hash5 (witnessOf target (bytesToHex key) traitDataHashHex externalNullifier
        (leafProof hash2 leaves index)) ↔
      ∃ schemaId issuerPkX traitDataHash nonce e,
        readSignal target.merkleLeafPreimage.schemaIdField = some schemaId ∧
        readSignal target.merkleLeafPreimage.issuerPkX = some issuerPkX ∧
        readSignal ('0' :: 'x' :: trimStartMatches0x traitDataHashHex) = some traitDataHash ∧
        readSignal target.merkleLeafPreimage.nonceField = some nonce ∧
        readSignal externalNullifier = some e ∧
        Merkle.fold hash2 (hash5 (beNat key : Scalar) schemaId issuerPkX traitDataHash nonce)
            (leafPath hash2 leaves index) =
          Merkle.fold hash2 (toScalar (padded leaves index)) (leafPath hash2 leaves index) := by
  have hpk : readSignal (bytesToHex key) = some (beNat key : Scalar) :=
    readSignal_hex (encode_ne_nil hkey) (Hex.decode_encode key)
  have hnullifier : ∀ x : Scalar, readSignal (bigIntToString x.val) = some x := by
    intro x
    rw [readSignal, bigIntOfString_bigIntToString, Option.map_some, Int.cast_natCast,
      ZMod.natCast_zmod_val]
  have hnumbers : ∀ schemaId issuerPkX traitDataHash nonce e,
      readSignal target.merkleLeafPreimage.schemaIdField = some schemaId →
      readSignal target.merkleLeafPreimage.issuerPkX = some issuerPkX →
      readSignal ('0' :: 'x' :: trimStartMatches0x traitDataHashHex) = some traitDataHash →
      readSignal target.merkleLeafPreimage.nonceField = some nonce →
      readSignal externalNullifier = some e →
      ReputationSignals.Numbers
        { witnessOf target (bytesToHex key) traitDataHashHex externalNullifier
            (leafProof hash2 leaves index) with
          nullifierHash := bigIntToString (hash2 (beNat key : Scalar) e).val }
        ⟨beNat key, schemaId, issuerPkX, traitDataHash, nonce, leafPath hash2 leaves index,
          toScalar (leafProof hash2 leaves index).root, schemaId, e, hash2 (beNat key : Scalar) e⟩ := by
    intro schemaId issuerPkX traitDataHash nonce e hschema hissuer hhash hnonce he
    constructor
    case merklePath =>
      simp [witnessOf, leafProof, elements, leafPath, readSignal_bytesToDecimalString, Function.comp_def]
    case merklePathIndices =>
      simp [witnessOf, leafProof, bits, leafPath, Function.comp_def]
    case merkleRoot => exact readSignal_bytesToDecimalString _
    case stealthPk => exact hpk
    case schemaId => exact hschema
    case issuerPkX => exact hissuer
    case traitDataHash => exact hhash
    case nonce => exact hnonce
    case attestationId => exact hschema
    case externalNullifier => exact he
    case nullifierHash => exact hnullifier _
  constructor
  · rintro ⟨pk, e, hreadPk, hreadExt, h⟩
    obtain rfl := Option.some.inj (hpk.symm.trans hreadPk)
    obtain ⟨-, -, pub, w, hreads, -⟩ := id h
    refine ⟨w.schemaId, w.issuerPkX, w.traitDataHash, w.nonce, e, hreads.schemaId, hreads.issuerPkX,
      hreads.traitDataHash, hreads.nonce, hreadExt, ?_⟩
    have hv := hnumbers _ _ _ _ _ hreads.schemaId hreads.issuerPkX hreads.traitDataHash hreads.nonce
      hreadExt
    rw [← toScalar_root hindex]
    exact ((hv.satisfy_iff length_leafPath).mp h).1
  · rintro ⟨schemaId, issuerPkX, traitDataHash, nonce, e, hschema, hissuer, hhash, hnonce, he, hfold⟩
    have hv := hnumbers _ _ _ _ _ hschema hissuer hhash hnonce he
    refine ⟨beNat key, e, hpk, he, (hv.satisfy_iff length_leafPath).mpr ⟨?_, rfl, rfl⟩⟩
    rw [toScalar_root hindex]
    exact hfold

end Completed

/-! ## When the leaf is the one the witness opens -/

/-- Digits of a base are read as their number. -/
def ReadsDigits (parseBytes : Str → ℕ → Option ℕ) : Prop :=
  ∀ base s (n : ℕ), digitsOf base s = some (n : ℤ) → parseBytes s base = some n

section Agreement

variable (parseBytes : Str → ℕ → Option ℕ)

/-- A text as the scanner takes it. -/
def readField (text : Str) : Option Scalar :=
  (parseField parseBytes (trim text)).map fun n : ℕ => (n : Scalar)

/-- The scanner can read what there is, and the tree has room for it. -/
structure Accepted (attestations : List V2StealthAttestation) (traitDataHashHex : Str)
    (target : V2StealthAttestation) : Prop where
  fits : attestations.length ≤ 2 ^ 20
  traitDataHash : (readField parseBytes traitDataHashHex).isSome
  fields : ∀ att ∈ attestations, (readField parseBytes att.merkleLeafPreimage.schemaIdField).isSome ∧
    (readField parseBytes att.merkleLeafPreimage.issuerPkX).isSome ∧
    (readField parseBytes att.merkleLeafPreimage.nonceField).isSome ∧
    (att.attestationUid = target.attestationUid ∨
      (readField parseBytes att.merkleLeafPreimage.traitDataHash).isSome)

/-- `BigInt` reads in the selected attestation what the scanner reads in the first one with its
identifier, and the external nullifier is a number. -/
structure Consistent (target first : V2StealthAttestation) (externalNullifier : Str) : Prop where
  schemaId : readSignal target.merkleLeafPreimage.schemaIdField =
    readField parseBytes first.merkleLeafPreimage.schemaIdField
  issuerPkX : readSignal target.merkleLeafPreimage.issuerPkX =
    readField parseBytes first.merkleLeafPreimage.issuerPkX
  nonce : readSignal target.merkleLeafPreimage.nonceField =
    readField parseBytes first.merkleLeafPreimage.nonceField
  externalNullifier : (readSignal externalNullifier).isSome

variable {parseBytes} {toLowercase : Str → Str}
  {hash2 : Scalar → Scalar → Scalar} {hash5 : Scalar → Scalar → Scalar → Scalar → Scalar → Scalar}
  {attestations : List V2StealthAttestation} {target first : V2StealthAttestation}
  {targetSchemaIdHex : Str} {key : List UInt8} {traitDataHashHex externalNullifier uid text : Str}
  {stealthPk traitDataHash b : BytesN 32} {ls : List LeafInputs} {index : ℕ}

theorem fieldStringToBytes_eq_ok :
    fieldStringToBytes parseBytes text = .ok b ↔
      ∃ x, readField parseBytes text = some x ∧ b = bigintToHex32 x := by
  rw [fieldStringToBytes, readField]
  cases parseField parseBytes (trim text) with
  | none => simp [orThrow, Except.map]
  | some n => simp [orThrow, Except.map, eq_comm]

theorem exists_fieldStringToBytes :
    (∃ b, fieldStringToBytes parseBytes text = .ok b) ↔ (readField parseBytes text).isSome := by
  simp only [fieldStringToBytes_eq_ok, Option.isSome_iff_exists]
  constructor
  · rintro ⟨-, x, hx, -⟩
    exact ⟨x, hx⟩
  · rintro ⟨x, hx⟩
    exact ⟨_, x, hx, rfl⟩

theorem toScalar_of_fieldStringToBytes (h : fieldStringToBytes parseBytes text = .ok b) :
    readField parseBytes text = some (toScalar b) := by
  obtain ⟨x, hx, rfl⟩ := fieldStringToBytes_eq_ok.mp h
  rw [hx, toScalar_bigintToHex32]

theorem exists_leafInputs {att : V2StealthAttestation} :
    (∃ l, leafInputs parseBytes uid stealthPk traitDataHash att = .ok l) ↔
      (readField parseBytes att.merkleLeafPreimage.schemaIdField).isSome ∧
      (readField parseBytes att.merkleLeafPreimage.issuerPkX).isSome ∧
      (readField parseBytes att.merkleLeafPreimage.nonceField).isSome ∧
      (att.attestationUid = uid ∨ (readField parseBytes att.merkleLeafPreimage.traitDataHash).isSome) := by
  have hhash : (∃ b, leafTraitDataHash parseBytes uid traitDataHash att = .ok b) ↔
      att.attestationUid = uid ∨ (readField parseBytes att.merkleLeafPreimage.traitDataHash).isSome := by
    rw [← exists_fieldStringToBytes, leafTraitDataHash]
    by_cases huid : att.attestationUid = uid
    · simp [huid]
    · simp [huid]
  rw [← hhash]
  simp only [leafInputs, ← exists_fieldStringToBytes, bind_eq_ok, pure_eq_ok]
  constructor
  · rintro ⟨-, schemaId, hschema, issuerPkX, hissuer, nonce, hnonce, hash, hhash, -⟩
    exact ⟨⟨schemaId, hschema⟩, ⟨issuerPkX, hissuer⟩, ⟨nonce, hnonce⟩, hash, hhash⟩
  · rintro ⟨⟨schemaId, hschema⟩, ⟨issuerPkX, hissuer⟩, ⟨nonce, hnonce⟩, hash, hhash⟩
    exact ⟨_, schemaId, hschema, issuerPkX, hissuer, nonce, hnonce, hash, hhash, rfl⟩

/-- The leaf of an attestation with the target's identifier. -/
theorem readField_of_leafInputs {att : V2StealthAttestation} {l : LeafInputs}
    (h : leafInputs parseBytes uid stealthPk traitDataHash att = .ok l) (huid : att.attestationUid = uid) :
    l.stealthPk = stealthPk ∧ l.traitDataHash = traitDataHash ∧
      readField parseBytes att.merkleLeafPreimage.schemaIdField = some (toScalar l.schemaId) ∧
      readField parseBytes att.merkleLeafPreimage.issuerPkX = some (toScalar l.issuerPkX) ∧
      readField parseBytes att.merkleLeafPreimage.nonceField = some (toScalar l.nonce) := by
  simp only [leafInputs, leafTraitDataHash, if_pos huid, bind_eq_ok, pure_eq_ok, Except.ok.injEq] at h
  obtain ⟨schemaId, hschema, issuerPkX, hissuer, nonce, hnonce, hash, rfl, rfl⟩ := h
  exact ⟨rfl, rfl, toScalar_of_fieldStringToBytes hschema, toScalar_of_fieldStringToBytes hissuer,
    toScalar_of_fieldStringToBytes hnonce⟩

/-- The key is read as its number. -/
theorem fieldStringToBytes_key (hparse : ReadsDigits parseBytes) (hkey : key ≠ []) :
    fieldStringToBytes parseBytes (bytesToHex key) = .ok (bigintToHex32 (beNat key : Scalar)) := by
  have hspace : ∀ c ∈ bytesToHex key, isWhitespace c = false := by
    rw [bytesToHex, List.forall_mem_cons, List.forall_mem_cons]
    exact ⟨by decide, by decide, fun c hc =>
      (hexDigit_of_isSome (Hex.isSome_of_decode (Hex.decode_encode key) c hc)).1⟩
  have hread := hparse 16 (Hex.encode key) (beNat key)
    (digitsOf_hexDecode (encode_ne_nil hkey) (Hex.decode_encode key))
  rw [fieldStringToBytes, trim_hex hspace, bytesToHex, parseField, hread]
  rfl

theorem exists_located_iff (hparse : ReadsDigits parseBytes) (hkey : key.length = 32) :
    (∃ stealthPk traitDataHash ls index, Located parseBytes toLowercase attestations targetSchemaIdHex
        key traitDataHashHex target stealthPk traitDataHash ls index) ↔
      targetAtt toLowercase attestations targetSchemaIdHex = some target ∧
        Accepted parseBytes attestations traitDataHashHex target := by
  have hne : key ≠ [] := by
    rintro rfl
    cases hkey
  constructor
  · rintro ⟨stealthPk, traitDataHash, ls, index, h⟩
    refine ⟨h.selected, h.fits, exists_fieldStringToBytes.mp ⟨_, h.read_hash⟩, ?_⟩
    intro att hatt
    exact exists_leafInputs.mp (exists_forall₂_iff.mp ⟨ls, h.leaves⟩ att hatt)
  · rintro ⟨hselected, h⟩
    obtain ⟨traitDataHash, hhash⟩ := exists_fieldStringToBytes.mpr h.traitDataHash
    obtain ⟨index, hindex⟩ := exists_findIdx?_of_targetAtt hselected
    obtain ⟨ls, hls⟩ := exists_forall₂_iff.mpr fun att hatt => exists_leafInputs.mpr (h.fields att hatt)
    exact ⟨_, traitDataHash, ls, index, hselected, hkey, fieldStringToBytes_key hparse hne, hhash, h.fits,
      hls, hindex⟩

/-- The leaf at the index is hashed from the first attestation with the target's identifier. -/
theorem Located.leaf (h : Located parseBytes toLowercase attestations targetSchemaIdHex key
      traitDataHashHex target stealthPk traitDataHash ls index)
    (hfirst : attestations.find? (fun att => decide (att.attestationUid = target.attestationUid)) =
      some first) :
    ∃ schemaId issuerPkX nonce, readField parseBytes first.merkleLeafPreimage.schemaIdField = some schemaId ∧
      readField parseBytes first.merkleLeafPreimage.issuerPkX = some issuerPkX ∧
      readField parseBytes first.merkleLeafPreimage.nonceField = some nonce ∧
      ∀ hash5, toScalar (padded (ls.map (hashLeaf hash5)) index) =
        hash5 (toScalar stealthPk) schemaId issuerPkX (toScalar traitDataHash) nonce := by
  rw [List.find?_eq_bind_findIdx?_getElem?, h.first, Option.bind_some] at hfirst
  obtain ⟨hatt, hget⟩ := List.getElem?_eq_some_iff.mp hfirst
  have hlt := h.index_lt
  have hl := List.Forall₂.get h.leaves hatt hlt
  have huid := List.findIdx?_eq_some_iff_getElem.mp h.first
  rw [List.get_eq_getElem, hget] at hl
  obtain ⟨hpk, hhash, hschema, hissuer, hnonce⟩ := readField_of_leafInputs hl (by simpa [hget] using huid.2.1)
  refine ⟨_, _, _, hschema, hissuer, hnonce, fun hash5 => ?_⟩
  have hpadded : padded (ls.map (hashLeaf hash5)) index = hashLeaf hash5 ls[index] := by
    simp [padded, hlt]
  rw [hpadded, hashLeaf, toScalar_bigintToHex32, ← hpk, ← hhash]
  rfl

/-- A witness is right for any hashes exactly when the leaf is the one that it opens. -/
theorem Located.completed_iff (hparse : ReadsDigits parseBytes)
    (h : Located parseBytes toLowercase attestations targetSchemaIdHex key traitDataHashHex target stealthPk
      traitDataHash ls index)
    (hfirst : attestations.find? (fun att => decide (att.attestationUid = target.attestationUid)) =
      some first) :
    (∀ hash2 hash5, Completed hash2 hash5 (witnessOf target (bytesToHex key) traitDataHashHex
        externalNullifier (leafProof hash2 (ls.map (hashLeaf hash5)) index))) ↔
      readSignal ('0' :: 'x' :: trimStartMatches0x traitDataHashHex) =
          readField parseBytes traitDataHashHex ∧
        Consistent parseBytes target first externalNullifier := by
  have hne : key ≠ [] := by
    rintro rfl
    cases h.length_key
  have hindex : index < 2 ^ 20 :=
    lt_of_lt_of_le (h.leaves.length_eq ▸ h.index_lt) h.fits
  have hpk : toScalar stealthPk = (beNat key : Scalar) := by
    have hread := h.read_key
    rw [fieldStringToBytes_key hparse hne] at hread
    rw [← Except.ok.inj hread, toScalar_bigintToHex32]
  obtain ⟨schemaId, issuerPkX, nonce, hschema, hissuer, hnonce, hleaf⟩ := h.leaf hfirst
  have hhash := toScalar_of_fieldStringToBytes h.read_hash
  constructor
  · intro hall
    -- hashes that tell the readings of the witness from all others
    obtain ⟨s, i, t, n, e, hs, hi, ht, hn, he, -⟩ :=
      (Scanner.completed_iff hne hindex).mp (hall (· + ·) fun _ _ _ _ _ => 0)
    obtain ⟨s', i', t', n', -, hs', hi', ht', hn', -, hfold⟩ := (Scanner.completed_iff hne hindex).mp
      (hall (· + ·) fun _ a b c d => if a = s ∧ b = i ∧ c = t ∧ d = n then 1 else 0)
    obtain rfl := Option.some.inj (hs.symm.trans hs')
    obtain rfl := Option.some.inj (hi.symm.trans hi')
    obtain rfl := Option.some.inj (ht.symm.trans ht')
    obtain rfl := Option.some.inj (hn.symm.trans hn')
    have heq := Merkle.fold_cancel (h := fun a b : Scalar => a + b) add_right_cancel add_left_cancel hfold
    rw [hleaf] at heq
    have hsame : schemaId = s ∧ issuerPkX = i ∧ toScalar traitDataHash = t ∧ nonce = n := by
      by_contra hother
      have : Fact (1 < BN254_MODULUS) := ⟨by decide⟩
      simp only [and_self, if_true, hother, if_false] at heq
      exact one_ne_zero heq
    obtain ⟨rfl, rfl, rfl, rfl⟩ := hsame
    refine ⟨ht.trans hhash.symm, hs.trans hschema.symm, hi.trans hissuer.symm, hn.trans hnonce.symm, ?_⟩
    rw [he]
    rfl
  · rintro ⟨hhash', hconsistent⟩ hash2 hash5
    obtain ⟨e, he⟩ := Option.isSome_iff_exists.mp hconsistent.externalNullifier
    refine (Scanner.completed_iff hne hindex).mpr ⟨schemaId, issuerPkX, toScalar traitDataHash, nonce, e,
      hconsistent.schemaId.trans hschema, hconsistent.issuerPkX.trans hissuer, hhash'.trans hhash,
      hconsistent.nonce.trans hnonce, he, ?_⟩
    rw [hleaf, hpk]

/-- The hash of the data: behind `0x` it is read as it is written. -/
theorem readSignal_traitDataHash {digits : Str} {bytes : List UInt8} (hparse : ReadsDigits parseBytes)
    (hdigits : Hex.decode digits = some bytes) (hlength : digits.length = 64)
    (htext : traitDataHashHex = digits ∨ traitDataHashHex = '0' :: 'x' :: digits)
    (hread : (readField parseBytes traitDataHashHex).isSome) :
    readSignal ('0' :: 'x' :: trimStartMatches0x traitDataHashHex) =
        readField parseBytes traitDataHashHex ↔
      traitDataHashHex = '0' :: 'x' :: digits ∨
        ∃ n, parseBytes digits 10 = some n ∧ (n : Scalar) = (beNat bytes : Scalar) := by
  have hne : digits ≠ [] := by
    rintro rfl
    cases hlength
  have hspec := fun c hc => hexDigit_of_isSome (Hex.isSome_of_decode hdigits c hc)
  have hspace : ∀ c ∈ digits, isWhitespace c = false := fun c hc => (hspec c hc).1
  have hx : ∀ a rest, digits ≠ a :: 'x' :: rest := by
    rintro a rest rfl
    exact (hspec 'x' (by simp)).2.2 rfl
  have htrim : trimStartMatches0x digits = digits := by
    unfold trimStartMatches0x
    split
    · next rest => exact absurd rfl (hx '0' rest)
    · rfl
  have hvalue := readSignal_hex hne hdigits
  rcases htext with rfl | rfl
  · have hfield : parseField parseBytes traitDataHashHex = parseBytes traitDataHashHex 10 := by
      unfold parseField
      split
      · next rest => exact absurd rfl (hx '0' rest)
      · rfl
    have hdifferent : traitDataHashHex ≠ '0' :: 'x' :: traitDataHashHex := fun heq => hx _ _ heq
    rw [htrim, hvalue, readField, trim_hex hspace, hfield, eq_comm, Option.map_eq_some_iff]
    simp only [hdifferent, false_or]
  · have hspace' : ∀ c ∈ '0' :: 'x' :: digits, isWhitespace c = false := by
      rw [List.forall_mem_cons, List.forall_mem_cons]
      exact ⟨by decide, by decide, hspace⟩
    have hparsed := hparse 16 digits (beNat bytes) (digitsOf_hexDecode hne hdigits)
    rw [trimStartMatches0x, htrim, hvalue, readField, trim_hex hspace', parseField, hparsed]
    simp

end Agreement

/-! ## A hash without its prefix -/

/-- Digits only. -/
def plainParse (s : Str) (base : ℕ) : Option ℕ := (digitsOf base s).map Int.toNat

theorem readsDigits_plainParse : ReadsDigits plainParse := by
  intro base s n h
  rw [plainParse, h, Option.map_some, Int.toNat_natCast]

def plainAttestation : V2StealthAttestation where
  schemaId := "01".toList
  attestationUid := "02".toList
  merkleLeafPreimage :=
    { schemaIdField := "1".toList
      issuerPkX := "0x2".toList
      traitDataHash := "0".toList
      nonceField := "3".toList }

/-- The number sixteen, as a text of 64 digits. -/
def plainHash : Str := List.replicate 62 '0' ++ "10".toList

def plainKey : List UInt8 := List.replicate 32 7

theorem decode_plainHash : Hex.decode plainHash = some (beBytes 32 16) := by decide

set_option maxRecDepth 10000 in
theorem plainHash_in_base_ten : plainParse plainHash 10 = some 10 := by decide

theorem sixteen_ne_ten : ((10 : ℕ) : Scalar) ≠ (beNat (beBytes 32 16) : Scalar) := by decide

theorem plainHash_differs : ¬ (plainHash = '0' :: 'x' :: plainHash ∨
    ∃ n, plainParse plainHash 10 = some n ∧ (n : Scalar) = (beNat (beBytes 32 16) : Scalar)) := by
  rintro (heq | ⟨n, hn, heq⟩)
  · revert heq
    decide
  · obtain rfl := Option.some.inj (plainHash_in_base_ten.symm.trans hn)
    exact sixteen_ne_ten heq

theorem accepted_plainAttestation (text : Str) (h : (readField plainParse text).isSome) :
    Accepted plainParse [plainAttestation] text plainAttestation where
  fits := by decide
  traitDataHash := h
  fields := by
    intro att hatt
    rw [List.mem_singleton.mp hatt]
    decide

theorem consistent_plainAttestation :
    Consistent plainParse plainAttestation plainAttestation "7".toList := by
  constructor <;> decide

/-! ## The witness is right -/

section Generated

variable {parseBytes : Str → ℕ → Option ℕ}

theorem generate_completed_iff (hparse : ReadsDigits parseBytes) (toLowercase : Str → Str)
    (attestations : List V2StealthAttestation) (targetSchemaIdHex : Str) {key : List UInt8}
    (hkey : key.length = 32) (traitDataHashHex externalNullifier : Str) :
    (∀ hash2 hash5 w, generateReputationWitnessV2 parseBytes toLowercase hash2 hash5 attestations
        targetSchemaIdHex key traitDataHashHex externalNullifier = .ok w → Completed hash2 hash5 w) ↔
      ∀ target first, targetAtt toLowercase attestations targetSchemaIdHex = some target →
        attestations.find? (fun att => decide (att.attestationUid = target.attestationUid)) = some first →
        Accepted parseBytes attestations traitDataHashHex target →
        readSignal ('0' :: 'x' :: trimStartMatches0x traitDataHashHex) =
            readField parseBytes traitDataHashHex ∧
          Consistent parseBytes target first externalNullifier := by
  constructor
  · intro hall target first hselected hfirst haccepted
    obtain ⟨stealthPk, traitDataHash, ls, index, hlocated⟩ :=
      (exists_located_iff hparse hkey).mpr ⟨hselected, haccepted⟩
    apply (hlocated.completed_iff hparse hfirst).mp
    intro hash2 hash5
    exact hall hash2 hash5 _ (generate_eq_ok.mpr ⟨_, _, _, _, _, hlocated, rfl⟩)
  · intro hall hash2 hash5 w hw
    obtain ⟨target, stealthPk, traitDataHash, ls, index, hlocated, rfl⟩ := generate_eq_ok.mp hw
    obtain ⟨hselected, haccepted⟩ := (exists_located_iff hparse hkey).mp ⟨_, _, _, _, hlocated⟩
    obtain ⟨first, hfirst⟩ := exists_first_of_targetAtt hselected
    exact (hlocated.completed_iff hparse hfirst).mpr (hall target first hselected hfirst haccepted)
      hash2 hash5

/-- **The scanner's witness and the circuit.** Whatever the hashes are, what comes back satisfies the
circuit, exactly when the hash of the data is written with `0x` or is the same number in base ten, and
`BigInt` reads in the selected attestation what the scanner reads in the first one that has its
identifier. -/
theorem reputation_witness_iff (hparse : ReadsDigits parseBytes) (toLowercase : Str → Str)
    (attestations : List V2StealthAttestation) (targetSchemaIdHex : Str) {key : List UInt8}
    (hkey : key.length = 32) {digits : Str} {bytes : List UInt8}
    (hdigits : Hex.decode digits = some bytes) (hlength : digits.length = 64) {traitDataHashHex : Str}
    (htext : traitDataHashHex = digits ∨ traitDataHashHex = '0' :: 'x' :: digits)
    (externalNullifier : Str) :
    (∀ hash2 hash5 w, generateReputationWitnessV2 parseBytes toLowercase hash2 hash5 attestations
        targetSchemaIdHex key traitDataHashHex externalNullifier = .ok w → Completed hash2 hash5 w) ↔
      ∀ target first, targetAtt toLowercase attestations targetSchemaIdHex = some target →
        attestations.find? (fun att => decide (att.attestationUid = target.attestationUid)) = some first →
        Accepted parseBytes attestations traitDataHashHex target →
        (traitDataHashHex = '0' :: 'x' :: digits ∨
            ∃ n, parseBytes digits 10 = some n ∧ (n : Scalar) = (beNat bytes : Scalar)) ∧
          Consistent parseBytes target first externalNullifier := by
  rw [generate_completed_iff hparse toLowercase attestations targetSchemaIdHex hkey]
  refine forall_congr' fun target => forall_congr' fun first => ?_
  refine imp_congr_right fun _ => imp_congr_right fun _ => imp_congr_right fun haccepted => ?_
  rw [readSignal_traitDataHash hparse hdigits hlength htext haccepted.traitDataHash]

/-- One attestation, and the number sixteen with the prefix and without it. -/
theorem reputation_witness_sixteen :
    (∀ hash2 hash5 w, generateReputationWitnessV2 plainParse id hash2 hash5 [plainAttestation]
        "01".toList plainKey ('0' :: 'x' :: plainHash) "7".toList = .ok w → Completed hash2 hash5 w) ∧
      ¬ ∀ hash2 hash5 w, generateReputationWitnessV2 plainParse id hash2 hash5 [plainAttestation]
        "01".toList plainKey plainHash "7".toList = .ok w → Completed hash2 hash5 w := by
  have hfirst : ∀ target first, targetAtt id [plainAttestation] "01".toList = some target →
      [plainAttestation].find? (fun att => decide (att.attestationUid = target.attestationUid)) =
        some first → target = plainAttestation ∧ first = plainAttestation := by
    intro target first htarget hfirst
    exact ⟨List.mem_singleton.mp (mem_of_targetAtt htarget),
      List.mem_singleton.mp (List.mem_of_find?_eq_some hfirst)⟩
  constructor
  · apply (reputation_witness_iff readsDigits_plainParse id [plainAttestation] "01".toList (by decide)
      decode_plainHash (by decide) (.inr rfl) "7".toList).mpr
    intro target first htarget hsame _
    obtain ⟨rfl, rfl⟩ := hfirst target first htarget hsame
    exact ⟨.inl rfl, consistent_plainAttestation⟩
  · intro hall
    have hcondition := (reputation_witness_iff readsDigits_plainParse id [plainAttestation] "01".toList
      (by decide) decode_plainHash (by decide) (.inl rfl) "7".toList).mp hall
    obtain ⟨hhash, -⟩ := hcondition plainAttestation plainAttestation (by decide) (by decide)
      (accepted_plainAttestation plainHash (by decide))
    exact plainHash_differs hhash

/-- Without the prefix the leaf holds the number ten and the witness says sixteen. -/
theorem unprefixed_hash_fails :
    ∃ hash2 hash5 w, generateReputationWitnessV2 plainParse id hash2 hash5 [plainAttestation]
      "01".toList plainKey plainHash "7".toList = .ok w ∧ ¬ Completed hash2 hash5 w := by
  by_contra hnone
  simp only [not_exists, not_and, not_not] at hnone
  have hcondition := (generate_completed_iff readsDigits_plainParse id [plainAttestation] "01".toList
    (by decide) plainHash "7".toList).mp hnone
  obtain ⟨hhash, -⟩ := hcondition plainAttestation plainAttestation (by decide) (by decide)
    (accepted_plainAttestation plainHash (by decide))
  exact plainHash_differs ((readSignal_traitDataHash readsDigits_plainParse decode_plainHash (by decide)
    (.inl rfl) (by decide)).mp hhash)

end Generated

end OpaqueStellar.Scanner
