import OpaqueStellar.Lib.JsonText
import OpaqueStellar.Lib.Utf8
import OpaqueStellar.Relayer.Messages
import OpaqueStellar.Relayer.Payload

/-! # Payloads as bytes

The codec of `sdk/src/relayer-protocol/payload.ts`: a payload becomes texts, the texts an object, the object
JSON and the JSON bytes. A box is sealed with these bytes, and the node that opens it hashes what it decodes.

A payload is decoded from any JSON with the right fields. Byte strings and amounts have several spellings
there, but decoding leaves none of them: what was decoded is encoded in one way, and decoded from it again. -/

namespace OpaqueStellar.Relayer.PayloadCodec

open OpaqueStellar.Lib OpaqueStellar.Lib.JsonText OpaqueStellar.Schemas
open OpaqueStellar.Lib.JsonValue (units)
open OpaqueStellar.Soroban (Address bind_eq_ok pure_eq_ok)

/-! ## The codec -/

/-- The pool, the recipient and the relayer are given as texts. When decoded they are whatever stands in
their place. -/
structure PoolWithdrawPayload (Id : Type) where
  poolId : Id
  proofA : List UInt8
  proofB : List UInt8
  proofC : List UInt8
  withdrawnValue : ℤ
  stateRoot : List UInt8
  aspRoot : List UInt8
  nullifierHash : List UInt8
  newCommitment : List UInt8
  recipient : Id
  poolFee : ℤ
  poolRelayer : Id

/-- A payload as it is decoded, if its addresses are texts. -/
def PoolWithdrawPayload.ofTexts (p : PoolWithdrawPayload Units) : PoolWithdrawPayload (Option JsonValue) where
  poolId := some (.string p.poolId)
  proofA := p.proofA
  proofB := p.proofB
  proofC := p.proofC
  withdrawnValue := p.withdrawnValue
  stateRoot := p.stateRoot
  aspRoot := p.aspRoot
  nullifierHash := p.nullifierHash
  newCommitment := p.newCommitment
  recipient := some (.string p.recipient)
  poolFee := p.poolFee
  poolRelayer := some (.string p.poolRelayer)

def hexText (bytes : List UInt8) : Units := Utf16.encode (bytesToHex bytes)

def bigIntText (n : ℤ) : Units := Utf16.encode (bigIntToString n)

def serializePoolWithdrawPayload (p : PoolWithdrawPayload Units) : Dict String Units :=
  [("poolId", p.poolId), ("proofA", hexText p.proofA), ("proofB", hexText p.proofB),
    ("proofC", hexText p.proofC), ("withdrawnValue", bigIntText p.withdrawnValue),
    ("stateRoot", hexText p.stateRoot), ("aspRoot", hexText p.aspRoot),
    ("nullifierHash", hexText p.nullifierHash), ("newCommitment", hexText p.newCommitment),
    ("recipient", p.recipient), ("poolFee", bigIntText p.poolFee), ("poolRelayer", p.poolRelayer)]

/-- `JSON.stringify` of an object of texts. -/
def writeTexts (texts : Dict String Units) : List Char :=
  writeObject (texts.map fun e => (units e.1, writeString e.2))

def encodePoolWithdrawPayload (p : PoolWithdrawPayload Units) : List UInt8 :=
  asBytes (writeObject [(units "t", writeString (units "pool-withdraw")), (units "v", ['1']),
    (units "payload", writeTexts (serializePoolWithdrawPayload p))])

inductive PayloadError where
  -- `JSON.parse` throws
  | notJson
  -- a property of `null`, or bytes that are given by no text
  | typeError
  -- `BigInt` throws
  | bigInt
  -- "Unsupported relayer payload."
  | unsupported
  -- "Invalid hex string."
  | hex
  -- "… must be … bytes, got …."
  | length (label : String) (len got : ℕ)
  deriving DecidableEq

def readProperty (v : JsonValue) (name : String) : Except PayloadError (Option JsonValue) :=
  match v.property name with
  | some x => .ok x
  | none => .error .typeError

/-- `assertLength(hexToBytes(payload.name), len, "name")` -/
def readBytes (payload : JsonValue) (name : String) (len : ℕ) : Except PayloadError (List UInt8) := do
  match ← readProperty payload name with
  | some (.string s) =>
    match hexToBytes (Utf16.decode s) with
    | some bytes => if bytes.length = len then .ok bytes else .error (.length name len bytes.length)
    | none => .error .hex
  | _ => .error .typeError

/-- `BigInt(payload.name)` -/
def readBigInt (payload : JsonValue) (name : String) : Except PayloadError ℤ := do
  match bigIntOfValue (← readProperty payload name) with
  | some n => .ok n
  | none => .error .bigInt

def parsePoolWithdrawPayload (payload : JsonValue) :
    Except PayloadError (PoolWithdrawPayload (Option JsonValue)) := do
  let poolId ← readProperty payload "poolId"
  let proofA ← readBytes payload "proofA" 64
  let proofB ← readBytes payload "proofB" 128
  let proofC ← readBytes payload "proofC" 64
  let withdrawnValue ← readBigInt payload "withdrawnValue"
  let stateRoot ← readBytes payload "stateRoot" 32
  let aspRoot ← readBytes payload "aspRoot" 32
  let nullifierHash ← readBytes payload "nullifierHash" 32
  let newCommitment ← readBytes payload "newCommitment" 32
  let recipient ← readProperty payload "recipient"
  let poolFee ← readBigInt payload "poolFee"
  let poolRelayer ← readProperty payload "poolRelayer"
  return ⟨poolId, proofA, proofB, proofC, withdrawnValue, stateRoot, aspRoot, nullifierHash, newCommitment,
    recipient, poolFee, poolRelayer⟩

def decodePoolWithdrawPayload (bytes : List UInt8) :
    Except PayloadError (PoolWithdrawPayload (Option JsonValue)) :=
  match parse (utf8Decode bytes) with
  | none => .error .notJson
  | some decoded => do
    let t ← readProperty decoded "t"
    let v ← readProperty decoded "v"
    let payload ← readProperty decoded "payload"
    if JsonValue.strictEq t (some (.string (units "pool-withdraw"))) &&
        JsonValue.strictEq v (some (.count 1)) && JsonValue.truthy payload then
      match payload with
      | some payload => parsePoolWithdrawPayload payload
      | none => .error .typeError
    else .error .unsupported

/-! ## The hash -/

section Hash

variable {D : Type} (keccak_256 : List UInt8 → D) (addressOf : Units → Option Address)

/-- `new Address(…)`, which takes texts only. -/
def addressOfValue : Option JsonValue → Option Address
  | some (.string s) => addressOf s
  | _ => none

/-- `none` where it throws. -/
def hashPoolWithdrawPayload (p : PoolWithdrawPayload (Option JsonValue)) : Option D := do
  let poolId ← addressOfValue addressOf p.poolId
  let recipient ← addressOfValue addressOf p.recipient
  let poolRelayer ← addressOfValue addressOf p.poolRelayer
  let preimage ← poolWithdrawPayloadPreimage ⟨poolId, p.proofA, p.proofB, p.proofC, p.withdrawnValue,
    p.stateRoot, p.aspRoot, p.nullifierHash, p.newCommitment, recipient, p.poolFee, poolRelayer⟩
  return keccak_256 preimage

end Hash

/-! ## Fields are read back -/

section Fields

/-- The object that is written. -/
def textsObject (texts : Dict String Units) : Dict Units JsonValue :=
  texts.map fun e => (units e.1, .string e.2)

theorem find_textsObject (texts : Dict String Units) (name : String) :
    Dict.find (textsObject texts) (units name) = (Dict.find texts name).map .string := by
  induction texts with
  | nil => rfl
  | cons e texts ih =>
      obtain ⟨k, s⟩ := e
      show Dict.find ((units k, .string s) :: textsObject texts) (units name) = _
      by_cases hk : k = name
      · subst hk
        rw [Dict.find_cons_self, Dict.find_cons_self, Option.map_some]
      · have hunits : units k ≠ units name := fun heq => hk (JsonValue.units_injective heq)
        rw [Dict.find_cons_of_ne hk, Dict.find_cons_of_ne hunits, ih]

theorem distinct_units {V W : Type} {d : Dict String V} (h : d.Distinct) (f : V → W) :
    Dict.Distinct (d.map fun e => (units e.1, f e.2)) := by
  have hkeys : (d.map fun e => (units e.1, f e.2)).map (·.1) = (d.map (·.1)).map units := by simp
  unfold Dict.Distinct
  rw [hkeys]
  exact h.map fun _ _ => JsonValue.units_injective

theorem members_textsObject (texts : Dict String Units) :
    Members (texts.map fun e => (units e.1, writeString e.2)) (textsObject texts) := by
  induction texts with
  | nil => exact .nil
  | cons e texts ih => exact .cons ⟨rfl, reads_writeString e.2⟩ ih

theorem reads_writeTexts {texts : Dict String Units} (h : texts.Distinct) :
    Reads (writeTexts texts) (.object (textsObject texts)) :=
  fun _ _ _ _ => run_writeObject (members_textsObject texts) (distinct_units h JsonValue.string)

variable {texts : Dict String Units} {name : String}

theorem readProperty_textsObject {s : Units} (h : texts.find name = some s) :
    readProperty (.object (textsObject texts)) name = .ok (some (.string s)) := by
  have hfind := find_textsObject texts name
  rw [h, Option.map_some] at hfind
  simp only [readProperty, JsonValue.property, hfind]

theorem readBytes_textsObject {bytes : List UInt8} (h : texts.find name = some (hexText bytes)) {len : ℕ}
    (hlen : bytes.length = len) : readBytes (.object (textsObject texts)) name len = .ok bytes := by
  have hhex : hexToBytes (Utf16.decode (hexText bytes)) = some bytes := by
    rw [hexText, Utf16.decode_encode, hexToBytes_bytesToHex]
  refine bind_eq_ok.mpr ⟨_, readProperty_textsObject h, ?_⟩
  simp only [hhex, if_pos hlen]

theorem readBigInt_textsObject {n : ℤ} (h : texts.find name = some (bigIntText n)) :
    readBigInt (.object (textsObject texts)) name = .ok n := by
  have hvalue : bigIntOfValue (some (.string (bigIntText n))) = some n := by
    rw [bigIntText, bigIntOfValue_encode, bigIntOfString_bigIntToString]
  refine bind_eq_ok.mpr ⟨_, readProperty_textsObject h, ?_⟩
  simp only [hvalue]

theorem length_of_readBytes {payload : JsonValue} {len : ℕ} {bytes : List UInt8}
    (h : readBytes payload name len = .ok bytes) : bytes.length = len := by
  obtain ⟨v, -, h⟩ := bind_eq_ok.mp h
  split at h
  · split at h
    · split at h
      next hlen =>
        cases h
        exact hlen
      · cases h
    · cases h
  · cases h

end Fields

/-! ## The round trip -/

/-- The lengths that are checked before a payload is hashed. -/
structure PoolWithdrawPayload.HasLengths {Id : Type} (p : PoolWithdrawPayload Id) : Prop where
  proofA : p.proofA.length = 64
  proofB : p.proofB.length = 128
  proofC : p.proofC.length = 64
  stateRoot : p.stateRoot.length = 32
  aspRoot : p.aspRoot.length = 32
  nullifierHash : p.nullifierHash.length = 32
  newCommitment : p.newCommitment.length = 32

theorem parse_serialize {p : PoolWithdrawPayload Units} (h : p.HasLengths) :
    parsePoolWithdrawPayload (.object (textsObject (serializePoolWithdrawPayload p))) = .ok p.ofTexts := by
  refine bind_eq_ok.mpr ⟨_, readProperty_textsObject rfl, ?_⟩
  refine bind_eq_ok.mpr ⟨_, readBytes_textsObject rfl h.proofA, ?_⟩
  refine bind_eq_ok.mpr ⟨_, readBytes_textsObject rfl h.proofB, ?_⟩
  refine bind_eq_ok.mpr ⟨_, readBytes_textsObject rfl h.proofC, ?_⟩
  refine bind_eq_ok.mpr ⟨_, readBigInt_textsObject rfl, ?_⟩
  refine bind_eq_ok.mpr ⟨_, readBytes_textsObject rfl h.stateRoot, ?_⟩
  refine bind_eq_ok.mpr ⟨_, readBytes_textsObject rfl h.aspRoot, ?_⟩
  refine bind_eq_ok.mpr ⟨_, readBytes_textsObject rfl h.nullifierHash, ?_⟩
  refine bind_eq_ok.mpr ⟨_, readBytes_textsObject rfl h.newCommitment, ?_⟩
  refine bind_eq_ok.mpr ⟨_, readProperty_textsObject rfl, ?_⟩
  refine bind_eq_ok.mpr ⟨_, readBigInt_textsObject rfl, ?_⟩
  refine bind_eq_ok.mpr ⟨_, readProperty_textsObject rfl, ?_⟩
  rfl

theorem hasLengths_of_parse {payload : JsonValue} {d : PoolWithdrawPayload (Option JsonValue)}
    (h : parsePoolWithdrawPayload payload = .ok d) : d.HasLengths := by
  obtain ⟨poolId, -, h⟩ := bind_eq_ok.mp h
  obtain ⟨proofA, hA, h⟩ := bind_eq_ok.mp h
  obtain ⟨proofB, hB, h⟩ := bind_eq_ok.mp h
  obtain ⟨proofC, hC, h⟩ := bind_eq_ok.mp h
  obtain ⟨withdrawnValue, -, h⟩ := bind_eq_ok.mp h
  obtain ⟨stateRoot, hstate, h⟩ := bind_eq_ok.mp h
  obtain ⟨aspRoot, hasp, h⟩ := bind_eq_ok.mp h
  obtain ⟨nullifierHash, hnullifier, h⟩ := bind_eq_ok.mp h
  obtain ⟨newCommitment, hcommitment, h⟩ := bind_eq_ok.mp h
  obtain ⟨recipient, -, h⟩ := bind_eq_ok.mp h
  obtain ⟨poolFee, -, h⟩ := bind_eq_ok.mp h
  obtain ⟨poolRelayer, -, h⟩ := bind_eq_ok.mp h
  obtain rfl := pure_eq_ok.mp h
  exact ⟨length_of_readBytes hA, length_of_readBytes hB, length_of_readBytes hC, length_of_readBytes hstate,
    length_of_readBytes hasp, length_of_readBytes hnullifier, length_of_readBytes hcommitment⟩

theorem hasLengths_of_decode {bytes : List UInt8} {d : PoolWithdrawPayload (Option JsonValue)}
    (h : decodePoolWithdrawPayload bytes = .ok d) : d.HasLengths := by
  unfold decodePoolWithdrawPayload at h
  split at h
  · cases h
  · obtain ⟨t, -, h⟩ := bind_eq_ok.mp h
    obtain ⟨v, -, h⟩ := bind_eq_ok.mp h
    obtain ⟨payload, -, h⟩ := bind_eq_ok.mp h
    split at h
    · split at h
      · exact hasLengths_of_parse h
      · cases h
    · cases h

theorem utf8Decode_asBytes_writeObject (members : List (Units × List Char)) :
    utf8Decode (asBytes (writeObject members)) = writeObject members :=
  Utf8Decoder.run_utf8 (writeObject members)

theorem distinct_serialize (p : PoolWithdrawPayload Units) : (serializePoolWithdrawPayload p).Distinct := by
  show List.Nodup ["poolId", "proofA", "proofB", "proofC", "withdrawnValue", "stateRoot", "aspRoot",
    "nullifierHash", "newCommitment", "recipient", "poolFee", "poolRelayer"]
  decide

theorem decode_encode {p : PoolWithdrawPayload Units} (h : p.HasLengths) :
    decodePoolWithdrawPayload (encodePoolWithdrawPayload p) = .ok p.ofTexts := by
  have hmembers : Members
      [(units "t", writeString (units "pool-withdraw")), (units "v", ['1']),
        (units "payload", writeTexts (serializePoolWithdrawPayload p))]
      [(units "t", .string (units "pool-withdraw")), (units "v", .count 1),
        (units "payload", .object (textsObject (serializePoolWithdrawPayload p)))] :=
    .cons ⟨rfl, reads_writeString _⟩ (.cons ⟨rfl, reads_one⟩
      (.cons ⟨rfl, reads_writeTexts (distinct_serialize p)⟩ .nil))
  have hdistinct : List.Nodup [units "t", units "v", units "payload"] := by decide
  have hparse := parse_writeObject hmembers hdistinct
  unfold decodePoolWithdrawPayload encodePoolWithdrawPayload
  rw [utf8Decode_asBytes_writeObject, hparse]
  exact parse_serialize h

theorem hasLengths_of_ofTexts {p : PoolWithdrawPayload Units} (h : p.ofTexts.HasLengths) : p.HasLengths :=
  ⟨h.proofA, h.proofB, h.proofC, h.stateRoot, h.aspRoot, h.nullifierHash, h.newCommitment⟩

/-- A payload that has a hash has texts for its addresses. -/
theorem exists_ofTexts {D : Type} {keccak_256 : List UInt8 → D} {addressOf : Units → Option Address}
    {d : PoolWithdrawPayload (Option JsonValue)} {hash : D}
    (h : hashPoolWithdrawPayload keccak_256 addressOf d = some hash) :
    ∃ p : PoolWithdrawPayload Units, d = p.ofTexts := by
  have htext : ∀ {v : Option JsonValue} {a : Address}, addressOfValue addressOf v = some a →
      ∃ s, v = some (.string s) := by
    intro v a hv
    unfold addressOfValue at hv
    split at hv
    · exact ⟨_, rfl⟩
    · cases hv
  obtain ⟨poolId, hpool, h⟩ := Option.bind_eq_some_iff.mp h
  obtain ⟨recipient, hrecipient, h⟩ := Option.bind_eq_some_iff.mp h
  obtain ⟨poolRelayer, hrelayer, -⟩ := Option.bind_eq_some_iff.mp h
  obtain ⟨poolText, hpool⟩ := htext hpool
  obtain ⟨recipientText, hrecipient⟩ := htext hrecipient
  obtain ⟨relayerText, hrelayer⟩ := htext hrelayer
  refine ⟨⟨poolText, d.proofA, d.proofB, d.proofC, d.withdrawnValue, d.stateRoot, d.aspRoot,
    d.nullifierHash, d.newCommitment, recipientText, d.poolFee, relayerText⟩, ?_⟩
  cases d
  simp_all [PoolWithdrawPayload.ofTexts]

/-- **Payloads are read back, and hash as they did.** What is encoded is decoded again, whatever texts stand
for the addresses and however large the amounts. And what is decoded from any bytes is encoded and decoded
again with the same hash; if one of its addresses is no text, it has none. -/
theorem payload_codec {D : Type} (keccak_256 : List UInt8 → D) (addressOf : Units → Option Address) :
    (∀ p : PoolWithdrawPayload Units, p.HasLengths →
      decodePoolWithdrawPayload (encodePoolWithdrawPayload p) = .ok p.ofTexts) ∧
    ∀ bytes d, decodePoolWithdrawPayload bytes = .ok d →
      (∃ p : PoolWithdrawPayload Units, d = p.ofTexts ∧
        ∃ d', decodePoolWithdrawPayload (encodePoolWithdrawPayload p) = .ok d' ∧
          hashPoolWithdrawPayload keccak_256 addressOf d' = hashPoolWithdrawPayload keccak_256 addressOf d) ∨
      (¬ ∃ p : PoolWithdrawPayload Units, d = p.ofTexts) ∧
        hashPoolWithdrawPayload keccak_256 addressOf d = none := by
  refine ⟨fun p hp => decode_encode hp, ?_⟩
  intro bytes d hd
  have hlengths := hasLengths_of_decode hd
  by_cases htexts : ∃ p : PoolWithdrawPayload Units, d = p.ofTexts
  · obtain ⟨p, rfl⟩ := htexts
    exact .inl ⟨p, rfl, _, decode_encode (hasLengths_of_ofTexts hlengths), rfl⟩
  · refine .inr ⟨htexts, ?_⟩
    rcases hhash : hashPoolWithdrawPayload keccak_256 addressOf d with - | hash
    · rfl
    · exact absurd (exists_ofTexts hhash) htexts

end OpaqueStellar.Relayer.PayloadCodec
