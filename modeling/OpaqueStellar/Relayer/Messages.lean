import Mathlib.Data.Rat.Floor
import OpaqueStellar.Lib.Json
import OpaqueStellar.Relayer.Engine

/-! # The messages of the job market

`relayer/src/messages.ts` and the bids of `sdk/src/relayer-protocol/messages.ts`. Operators sign bids,
outcomes and heartbeats; a hub reads them from peers it knows nothing of, so that a message is at first
whatever its fields are.

Hashing and the keys of accounts are parameters. `Crypto.Lawful` says what they are relied on for: a
hash stands for one message, and a signature for one hash.

Nodes sign bids under the second version of their domain and the SDK verifies them under the first, so
no bid is good for both. And a node sends outcomes and heartbeats without a signature, which no hub
takes. -/

namespace OpaqueStellar.Relayer

open OpaqueStellar.Lib OpaqueStellar.Schemas

/-! ## Numbers -/

/-- `Number`; `none` is one that is not finite. -/
abbrev Number := Option ℚ

/-- `n >>> 0` -/
def toUint32 : Number → ℕ
  | none => 0
  | some q => ((if 0 ≤ q then ⌊q⌋ else ⌈q⌉) % 2 ^ 32).toNat

def uint32BE (n : Number) : List UInt8 := beBytes 4 (toUint32 n)

def uint64BE (n : ℤ) : List UInt8 := beBytes 8 (n % 2 ^ 64).toNat

/-- `BigInt` of a number; `none` where it throws. -/
def bigIntOfNumber (n : Number) : Option ℤ := n.bind fun q => if q.den = 1 then some q.num else none

def bigIntToString (n : ℤ) : Str :=
  if n < 0 then '-' :: Decimal.encode n.natAbs else Decimal.encode n.natAbs

/-- Digits of this base, at least one. -/
def digitsOf (base : ℕ) (s : Str) : Option ℤ :=
  if s = [] then none
  else do
    let digits ← s.reverse.mapM fun c => (Hex.digitValue c).filter fun d => decide (d < base)
    return (Nat.ofDigits base digits : ℤ)

/-- `BigInt` of a text; `none` where it throws. -/
def bigIntOfString (s : Str) : Option ℤ :=
  match trimSpaces s with
  | [] => some 0
  | '0' :: 'x' :: digits => digitsOf 16 digits
  | '0' :: 'X' :: digits => digitsOf 16 digits
  | '0' :: 'o' :: digits => digitsOf 8 digits
  | '0' :: 'O' :: digits => digitsOf 8 digits
  | '0' :: 'b' :: digits => digitsOf 2 digits
  | '0' :: 'B' :: digits => digitsOf 2 digits
  | '-' :: digits => (Decimal.decode digits).map fun n : ℕ => -(n : ℤ)
  | '+' :: digits => (Decimal.decode digits).map fun n : ℕ => (n : ℤ)
  | digits => (Decimal.decode digits).map fun n : ℕ => (n : ℤ)

/-- Length-prefixed, modulo what two bytes can say. -/
def lengthPrefixedUtf8 (s : Str) : List UInt8 := beBytes 2 (asBytes s).length ++ asBytes s

/-- **Big integers are read back from their texts.** -/
theorem bigIntOfString_bigIntToString (n : ℤ) : bigIntOfString (bigIntToString n) = some n := by
  have hspace : ∀ c ∈ Decimal.encode n.natAbs, isSpace c = false := by
    intro c hc
    obtain ⟨d, hd, rfl⟩ := Decimal.mem_encode hc
    interval_cases d <;> decide
  by_cases hneg : n < 0
  · have htrim : trimSpaces ('-' :: Decimal.encode n.natAbs) = '-' :: Decimal.encode n.natAbs := by
      refine trimSpaces_eq_self fun c hc => ?_
      rcases List.mem_cons.mp hc with rfl | hc
      · decide
      · exact hspace c hc
    rw [bigIntToString, if_pos hneg, bigIntOfString, htrim]
    simp only [Decimal.decode_encode, Option.map_some]
    congr 1
    omega
  · have hother : ∀ c ∈ Decimal.encode n.natAbs, c ∉ ['x', 'X', 'o', 'O', 'b', 'B', '-', '+'] := by
      intro c hc
      obtain ⟨d, hd, rfl⟩ := Decimal.mem_encode hc
      interval_cases d <;> decide
    rw [bigIntToString, if_neg hneg, bigIntOfString, trimSpaces_eq_self hspace]
    split
    case h_1 heq =>
      obtain ⟨d, -, hhead⟩ := Decimal.encode_head n.natAbs
      rw [heq] at hhead
      cases hhead
    case h_10 =>
      rw [Decimal.decode_encode, Option.map_some]
      congr 1
      omega
    -- the texts of the other forms hold a character that is no digit
    all_goals
      next heq =>
        rw [heq] at hother
        simp at hother

/-! ## Big integers of values that nobody has checked -/

def numberOf : Double → Number
  | .finite value => some value
  | _ => none

/-- `BigInt` of the text that an array with this one item is turned into. From 10^21 on a number is
written with an exponent. -/
def bigIntOfItem : JsonValue → Option ℤ
  | .null => some 0
  | .number n => (bigIntOfNumber (numberOf n)).filter fun v => decide (v.natAbs < 10 ^ 21)
  | .string s => bigIntOfString (Utf16.decode s)
  | .array [] => some 0
  | .array [v] => bigIntOfItem v
  | _ => none

/-- `BigInt` of a value; `none` where it throws. -/
def bigIntOfValue : Option JsonValue → Option ℤ
  | some (.bool b) => some (if b then 1 else 0)
  | some (.number n) => bigIntOfNumber (numberOf n)
  | some (.string s) => bigIntOfString (Utf16.decode s)
  | some (.array items) => bigIntOfItem (.array items)
  | _ => none

/-- The value of a text. -/
theorem bigIntOfValue_encode (s : Str) :
    bigIntOfValue (some (.string (Utf16.encode s))) = bigIntOfString s :=
  congrArg bigIntOfString (Utf16.decode_encode s)

/-! ## Messages -/

/-- The `chain` of a message, whose type is not checked. -/
inductive ChainId where
  | number (n : Number)
  -- anything else, and the number that the shift in `uint32BE` makes of it
  | other (n : Number)
  deriving DecidableEq

def ChainId.toNumber : ChainId → Number
  | .number n => n
  | .other n => n

structure JobAdvert where
  jobId : Str
  chain : ChainId
  fee : Str
  deadline : Number
  payloadHash : Str
  deriving DecidableEq

structure RelayerBid where
  jobId : Str
  chain : ChainId
  operator : Str
  x25519Pk : Str
  sig : Str
  endpoint : Option Str := none
  freeStake : Option Str := none
  deriving DecidableEq

structure RelayerOutcome where
  jobId : Str
  operator : Str
  result : Settlement
  sig : Str
  timestamp : Number
  deriving DecidableEq

structure RelayerHeartbeat where
  operator : Str
  sig : Str
  timestamp : Number
  deriving DecidableEq

inductive RelayerMessage where
  | advert (m : JobAdvert)
  | bid (m : RelayerBid)
  | payload (m : EncryptedPayload)
  | outcome (m : RelayerOutcome)
  | heartbeat (m : RelayerHeartbeat)
  deriving DecidableEq

/-- What a peer sends: fields that are there, of the type that they are looked at as, or not. -/
structure RawMessage where
  t : Option Str := none
  v : Option Number := none
  jobId : Option Str := none
  chain : Option ChainId := none
  fee : Option Str := none
  deadline : Option Number := none
  payloadHash : Option Str := none
  operator : Option Str := none
  x25519Pk : Option Str := none
  sig : Option Str := none
  endpoint : Option Str := none
  freeStake : Option Str := none
  -- `to`
  recipient : Option Str := none
  box : Option Str := none
  idempotencyKey : Option Str := none
  result : Option Str := none
  timestamp : Option Number := none

inductive MessageError where
  -- `Invalid relayer …`
  | invalid (kind : Str)
  -- `Invalid hex string.`
  | hex
  -- `… must be 32 bytes, got …`
  | length (label : Str) (got : ℕ)
  deriving DecidableEq

def RELAY_CHAIN_STELLAR : ChainId := .number (some 3000)

/-- `assertLength(hexToBytes(…), 32, label)` -/
def check32 (label hex : Str) : Except MessageError Unit :=
  match hexToBytes hex with
  | none => .error .hex
  | some bytes => if bytes.length = 32 then .ok () else .error (.length label bytes.length)

def RawMessage.isA (m : RawMessage) (kind : Str) : Bool := m.t = some kind && m.v = some (some 1)

def validateAdvert (m : RawMessage) : Except MessageError JobAdvert :=
  match m.isA "advert".toList, m.jobId, m.payloadHash, m.fee, m.deadline with
  | true, some jobId, some payloadHash, some fee, some deadline => do
      check32 "jobId".toList jobId
      check32 "payloadHash".toList payloadHash
      return ⟨jobId, m.chain.getD RELAY_CHAIN_STELLAR, fee, deadline, payloadHash⟩
  | _, _, _, _, _ => .error (.invalid "advert".toList)

def validateBid (m : RawMessage) : Except MessageError RelayerBid :=
  match m.isA "bid".toList, m.jobId, m.operator, m.x25519Pk, m.sig with
  | true, some jobId, some operator, some x25519Pk, some sig => do
      check32 "jobId".toList jobId
      check32 "x25519Pk".toList x25519Pk
      return ⟨jobId, m.chain.getD RELAY_CHAIN_STELLAR, operator, x25519Pk, sig, m.endpoint, m.freeStake⟩
  | _, _, _, _, _ => .error (.invalid "bid".toList)

def settlementOf (result : Str) : Option Settlement :=
  if result = "completed".toList then some .completed
  else if result = "failed".toList then some .failed
  else none

def validateOutcome (m : RawMessage) : Except MessageError RelayerOutcome :=
  match m.isA "outcome".toList, m.jobId, m.operator, m.result.bind settlementOf, m.sig,
    m.timestamp with
  | true, some jobId, some operator, some result, some sig, some timestamp => do
      check32 "jobId".toList jobId
      return ⟨jobId, operator, result, sig, timestamp⟩
  | _, _, _, _, _, _ => .error (.invalid "outcome".toList)

def validateHeartbeat (m : RawMessage) : Except MessageError RelayerHeartbeat :=
  match m.isA "heartbeat".toList, m.operator, m.sig, m.timestamp with
  | true, some operator, some sig, some timestamp => .ok ⟨operator, sig, timestamp⟩
  | _, _, _, _ => .error (.invalid "heartbeat".toList)

def validatePayload (m : RawMessage) : Except MessageError EncryptedPayload :=
  match m.isA "payload".toList, m.jobId, m.recipient, m.box with
  | true, some jobId, some recipient, some box => do
      check32 "jobId".toList jobId
      check32 "payload recipient".toList recipient
      return ⟨jobId, recipient, box, m.idempotencyKey⟩
  | _, _, _, _ => .error (.invalid "payload".toList)

def validateRelayerMessage (m : RawMessage) : Except MessageError RelayerMessage :=
  if m.t = some "advert".toList then (validateAdvert m).map .advert
  else if m.t = some "bid".toList then (validateBid m).map .bid
  else if m.t = some "payload".toList then (validatePayload m).map .payload
  else if m.t = some "outcome".toList then (validateOutcome m).map .outcome
  else if m.t = some "heartbeat".toList then (validateHeartbeat m).map .heartbeat
  else .error (.invalid "message".toList)

/-! ## Signatures -/

/-- Keccak-256 and the key pairs of accounts, with hashes `D` and secret keys `K`. -/
structure Crypto (D K : Type) where
  keccak256 : List UInt8 → D
  publicKey : K → Str
  sign : K → D → List UInt8
  -- `Keypair.fromPublicKey(key).verify(…)`; `none` where it throws
  verify : Str → D → List UInt8 → Option Bool

structure Crypto.Lawful {D K : Type} (C : Crypto D K) : Prop where
  keccak256_inj : ∀ a b, C.keccak256 a = C.keccak256 b → a = b
  verify_sign : ∀ key d, C.verify (C.publicKey key) d (C.sign key d) = some true
  /-- A signature is good for what was signed and nothing else. -/
  sign_binds : ∀ key d d', C.verify (C.publicKey key) d' (C.sign key d) = some true → d' = d

section Signatures

variable {D K : Type} (C : Crypto D K)

def BID_DOMAIN : List UInt8 := asBytes "opaque-relayer-bid-v2".toList

def OUTCOME_DOMAIN : List UInt8 := asBytes "opaque-relayer-outcome-v1".toList

def HEARTBEAT_DOMAIN : List UInt8 := asBytes "opaque-relayer-heartbeat-v1".toList

def bidSigningDigest (jobId x25519Pk : List UInt8) (chain : Number) (endpoint : Str)
    (freeStake : ℤ) : Option D := do
  let jobId ← assertLength 32 jobId
  let x25519Pk ← assertLength 32 x25519Pk
  return C.keccak256 (BID_DOMAIN ++ jobId.1 ++ x25519Pk.1 ++ uint32BE chain ++
    lengthPrefixedUtf8 endpoint ++ uint64BE freeStake)

def makeBid (advert : JobAdvert) (operator : K) (x25519Pk : List UInt8) (endpoint : Option Str)
    (freeStake : Option ℤ) : Option RelayerBid := do
  let x25519Pk ← assertLength 32 x25519Pk
  let jobId ← hexToBytes advert.jobId
  let digest ← bidSigningDigest C jobId x25519Pk.1 advert.chain.toNumber (endpoint.getD []) (freeStake.getD 0)
  return {
    jobId := advert.jobId
    chain := advert.chain
    operator := C.publicKey operator
    x25519Pk := bytesToHex x25519Pk.1
    sig := Base64.encode (C.sign operator digest)
    endpoint := endpoint
    freeStake := freeStake.map bigIntToString }

/-- What follows the digest in every check; anything that throws is no. -/
def verifyDigest (operator sig : Str) (digest : Option D) : Bool :=
  (do
    let digest ← digest
    let sig ← Base64.decode sig
    C.verify operator digest sig).getD false

/-- `freeStake !== undefined ? BigInt(freeStake) : 0n` -/
def freeStakeOf : Option Str → Option ℤ
  | some text => bigIntOfString text
  | none => some 0

/-- The digest that a node computes for a bid. -/
def bidDigest (bid : RelayerBid) : Option D := do
  let jobId ← hexToBytes bid.jobId
  let x25519Pk ← hexToBytes bid.x25519Pk
  let freeStake ← freeStakeOf bid.freeStake
  bidSigningDigest C jobId x25519Pk bid.chain.toNumber (bid.endpoint.getD []) freeStake

def verifyBid (bid : RelayerBid) : Bool := verifyDigest C bid.operator bid.sig (bidDigest C bid)

def outcomeSigningDigest (jobId : List UInt8) (operator : Str) (result : Settlement)
    (timestamp : Number) : Option D := do
  let jobId ← assertLength 32 jobId
  let timestamp ← bigIntOfNumber timestamp
  return C.keccak256 (OUTCOME_DOMAIN ++ jobId.1 ++ asBytes operator ++
    [if result = .completed then 1 else 0] ++ uint64BE timestamp)

def heartbeatSigningDigest (operator : Str) (timestamp : Number) : Option D := do
  let timestamp ← bigIntOfNumber timestamp
  return C.keccak256 (HEARTBEAT_DOMAIN ++ asBytes operator ++ uint64BE timestamp)

def verifyOutcome (m : RelayerOutcome) : Bool :=
  verifyDigest C m.operator m.sig do
    let jobId ← hexToBytes m.jobId
    outcomeSigningDigest C jobId m.operator m.result m.timestamp

def verifyHeartbeat (m : RelayerHeartbeat) : Bool :=
  verifyDigest C m.operator m.sig (heartbeatSigningDigest C m.operator m.timestamp)

/-! ### The SDK -/

namespace Sdk

def BID_DOMAIN : List UInt8 := asBytes "opaque-relayer-bid-v1".toList

def bidSigningDigest (jobId x25519Pk : List UInt8) : Option D := do
  let jobId ← assertLength 32 jobId
  let x25519Pk ← assertLength 32 x25519Pk
  return C.keccak256 (BID_DOMAIN ++ jobId.1 ++ x25519Pk.1)

/-- The digest that the SDK computes for a bid. -/
def bidDigest (bid : RelayerBid) : Option D := do
  let jobId ← hexToBytes bid.jobId
  let x25519Pk ← hexToBytes bid.x25519Pk
  bidSigningDigest C jobId x25519Pk

def verifyBid (bid : RelayerBid) : Bool := verifyDigest C bid.operator bid.sig (bidDigest C bid)

end Sdk

/-! ### Bids of a node -/

/-- A bid that node and SDK take alike, for the same digest. -/
def Interoperable (bid : RelayerBid) : Prop :=
  verifyBid C bid = true ∧ Sdk.verifyBid C bid = true ∧ bidDigest C bid = Sdk.bidDigest C bid

variable {C}

/-- What a node has signed in a bid. -/
theorem makeBid_eq_some {advert : JobAdvert} {operator : K} {x25519Pk : List UInt8}
    {endpoint : Option Str} {freeStake : Option ℤ} {bid : RelayerBid}
    (h : makeBid C advert operator x25519Pk endpoint freeStake = some bid) :
    ∃ d, bidDigest C bid = some d ∧ bid.operator = C.publicKey operator ∧
      bid.sig = Base64.encode (C.sign operator d) := by
  obtain ⟨pk, hpk, h⟩ := Option.bind_eq_some_iff.mp h
  obtain ⟨jobId, hjobId, h⟩ := Option.bind_eq_some_iff.mp h
  obtain ⟨d, hd, h⟩ := Option.bind_eq_some_iff.mp h
  obtain rfl := Option.some.inj h
  refine ⟨d, ?_, rfl, rfl⟩
  -- the stake is read back from its text, and none at all as zero
  have hstake : freeStakeOf (freeStake.map bigIntToString) = some (freeStake.getD 0) := by
    cases freeStake with
    | none => rfl
    | some n => exact bigIntOfString_bigIntToString n
  unfold bidDigest
  simp only [hjobId, hexToBytes_bytesToHex, hstake, Option.bind_eq_bind, Option.bind_some]
  exact hd

theorem bidDigest_eq_some {bid : RelayerBid} {d : D} (h : bidDigest C bid = some d) :
    ∃ rest, d = C.keccak256 (BID_DOMAIN ++ rest) := by
  obtain ⟨jobId, -, h⟩ := Option.bind_eq_some_iff.mp h
  obtain ⟨pk, -, h⟩ := Option.bind_eq_some_iff.mp h
  obtain ⟨stake, -, h⟩ := Option.bind_eq_some_iff.mp h
  obtain ⟨jobId, -, h⟩ := Option.bind_eq_some_iff.mp h
  obtain ⟨pk, -, h⟩ := Option.bind_eq_some_iff.mp h
  obtain rfl := Option.some.inj h
  exact ⟨jobId.1 ++ (pk.1 ++ (uint32BE bid.chain.toNumber ++ (lengthPrefixedUtf8 (bid.endpoint.getD []) ++
    uint64BE stake))), by simp only [List.append_assoc]⟩

theorem sdk_bidDigest_eq_some {bid : RelayerBid} {d : D} (h : Sdk.bidDigest C bid = some d) :
    ∃ rest, d = C.keccak256 (Sdk.BID_DOMAIN ++ rest) := by
  obtain ⟨jobId, -, h⟩ := Option.bind_eq_some_iff.mp h
  obtain ⟨pk, -, h⟩ := Option.bind_eq_some_iff.mp h
  obtain ⟨jobId, -, h⟩ := Option.bind_eq_some_iff.mp h
  obtain ⟨pk, -, h⟩ := Option.bind_eq_some_iff.mp h
  obtain rfl := Option.some.inj h
  exact ⟨jobId.1 ++ pk.1, by simp only [List.append_assoc]⟩

/-- The two versions of the domain are of one length and differ. -/
theorem domain_append_ne (rest rest' : List UInt8) : BID_DOMAIN ++ rest ≠ Sdk.BID_DOMAIN ++ rest' := by
  intro h
  exact absurd (List.append_inj_left h (by decide)) (by decide)

theorem bidDigest_ne (hC : C.Lawful) {bid : RelayerBid} {d : D} (h : bidDigest C bid = some d) :
    Sdk.bidDigest C bid ≠ some d := by
  intro hsdk
  obtain ⟨rest, rfl⟩ := bidDigest_eq_some h
  obtain ⟨rest', hrest⟩ := sdk_bidDigest_eq_some hsdk
  exact domain_append_ne rest rest' (hC.keccak256_inj _ _ hrest)

theorem verifyDigest_sign {operator : K} {d : D} {digest : Option D} :
    verifyDigest C (C.publicKey operator) (Base64.encode (C.sign operator d)) digest =
      (digest.bind fun d' => C.verify (C.publicKey operator) d' (C.sign operator d)).getD false := by
  unfold verifyDigest
  simp only [Base64.decode_encode, Option.bind_eq_bind, Option.bind_some]

/-- **No bid is good for both sides.** The node that made it takes it back, and the SDK refuses it, since
it computes another digest for the same fields. -/
theorem bid_not_interoperable (hC : C.Lawful) {advert : JobAdvert} {operator : K}
    {x25519Pk : List UInt8} {endpoint : Option Str} {freeStake : Option ℤ} {bid : RelayerBid}
    (hmade : makeBid C advert operator x25519Pk endpoint freeStake = some bid) :
    verifyBid C bid = true ∧ Sdk.verifyBid C bid = false ∧ bidDigest C bid ≠ Sdk.bidDigest C bid ∧
      ¬ Interoperable C bid := by
  obtain ⟨d, hd, hoperator, hsig⟩ := makeBid_eq_some hmade
  have hnode : verifyBid C bid = true := by
    rw [verifyBid, hoperator, hsig, verifyDigest_sign, hd, Option.bind_some, hC.verify_sign]
    rfl
  have hsdk : Sdk.verifyBid C bid = false := by
    rw [Sdk.verifyBid, hoperator, hsig, verifyDigest_sign]
    rcases hdigest : Sdk.bidDigest C bid with - | d'
    · rfl
    · -- a signature that is good for two digests would make them one
      rw [Option.bind_some]
      rcases hverify : C.verify (C.publicKey operator) d' (C.sign operator d) with - | ok
      · rfl
      · cases ok with
        | false => rfl
        | true =>
          obtain rfl := hC.sign_binds operator d d' hverify
          exact absurd hdigest (bidDigest_ne hC hd)
  refine ⟨hnode, hsdk, ?_, ?_⟩
  · intro heq
    exact bidDigest_ne hC hd (heq ▸ hd)
  · rintro ⟨-, htrue, -⟩
    rw [hsdk] at htrue
    cases htrue

/-- Signatures that spell out who signed what. -/
def plainCrypto : Crypto (List UInt8) Str where
  keccak256 := id
  publicKey := id
  sign key d := asBytes key ++ d
  verify key d sig := some (decide (sig = asBytes key ++ d))

theorem plainCrypto_lawful : plainCrypto.Lawful where
  keccak256_inj _ _ h := h
  verify_sign key d := by simp [plainCrypto]
  sign_binds key d d' h := by
    have heq : asBytes key ++ d = asBytes key ++ d' := by simpa [plainCrypto] using h
    exact (List.append_cancel_left heq).symm

/-- The bid of an operator `a` for job zero. -/
def plainBid : RelayerBid :=
  { jobId := bytesToHex (List.replicate 32 0)
    chain := RELAY_CHAIN_STELLAR
    operator := ['a']
    x25519Pk := bytesToHex (List.replicate 32 1)
    sig := Base64.encode (asBytes ['a'] ++ (BID_DOMAIN ++ List.replicate 32 0 ++ List.replicate 32 1 ++
      [0, 0, 11, 184] ++ [0, 0] ++ [0, 0, 0, 0, 0, 0, 0, 7]))
    freeStake := some ['7'] }

theorem makeBid_plainBid :
    makeBid plainCrypto ⟨bytesToHex (List.replicate 32 0), RELAY_CHAIN_STELLAR, ['5'], some 9,
      bytesToHex (List.replicate 32 2)⟩ ['a'] (List.replicate 32 1) none (some 7) = some plainBid := by
  decide +kernel

theorem bid_not_interoperable_plain :
    plainCrypto.Lawful ∧ verifyBid plainCrypto plainBid = true ∧
      Sdk.verifyBid plainCrypto plainBid = false ∧
      bidDigest plainCrypto plainBid ≠ Sdk.bidDigest plainCrypto plainBid ∧
      ¬ Interoperable plainCrypto plainBid :=
  ⟨plainCrypto_lawful, bid_not_interoperable plainCrypto_lawful makeBid_plainBid⟩

/-- Not every bid of a node is good for the SDK. -/
theorem bids_not_all_interoperable :
    ¬ ∀ (advert : JobAdvert) (operator : Str) (x25519Pk : List UInt8) (endpoint : Option Str)
      (freeStake : Option ℤ) (bid : RelayerBid),
      makeBid plainCrypto advert operator x25519Pk endpoint freeStake = some bid →
      Interoperable plainCrypto bid := by
  intro h
  have hsdk := (h _ _ _ _ _ _ makeBid_plainBid).2.1
  revert hsdk
  decide +kernel

variable (C)

/-! ### Outcomes and heartbeats of a node -/

def settlementText : Settlement → Str
  | .completed => "completed".toList
  | .failed => "failed".toList

/-- What `onSettled` hands to the transport. -/
def outcomeMessage (operator jobId : Str) (result : Settlement) : RawMessage :=
  { t := some "outcome".toList, v := some (some 1), jobId := some jobId, operator := some operator,
    result := some (settlementText result) }

/-- What `publishHeartbeat` hands to the transport. -/
def heartbeatMessage (operator : Str) : RawMessage :=
  { t := some "heartbeat".toList, v := some (some 1), operator := some operator }

/-- A message that passes its checks, with the signature where it has to have one. -/
def Accepted (m : RawMessage) : Prop :=
  match validateRelayerMessage m with
  | .ok (.bid bid) => verifyBid C bid = true
  | .ok (.outcome outcome) => verifyOutcome C outcome = true
  | .ok (.heartbeat heartbeat) => verifyHeartbeat C heartbeat = true
  | .ok _ => True
  | .error _ => False

/-- An outcome has to be signed. -/
theorem unsigned_outcome {m : RawMessage} (ht : m.t = some "outcome".toList) (h : m.sig = none) :
    validateRelayerMessage m = .error (.invalid "outcome".toList) := by
  have houtcome : validateOutcome m = .error (.invalid "outcome".toList) := by
    unfold validateOutcome
    rw [h]
    split
    · contradiction
    · rfl
  unfold validateRelayerMessage
  rw [ht, houtcome]
  rfl

/-- A heartbeat has to be signed. -/
theorem unsigned_heartbeat {m : RawMessage} (ht : m.t = some "heartbeat".toList) (h : m.sig = none) :
    validateRelayerMessage m = .error (.invalid "heartbeat".toList) := by
  have hheartbeat : validateHeartbeat m = .error (.invalid "heartbeat".toList) := by
    unfold validateHeartbeat
    rw [h]
    split
    · contradiction
    · rfl
  unfold validateRelayerMessage
  rw [ht, hheartbeat]
  rfl

/-- **No hub takes what a node reports.** Its outcomes and heartbeats are not signed, so they fall at the
first check. -/
theorem reports_not_accepted (operator jobId : Str) (result : Settlement) :
    ¬ Accepted C (outcomeMessage operator jobId result) ∧ ¬ Accepted C (heartbeatMessage operator) := by
  constructor
  · unfold Accepted
    rw [unsigned_outcome rfl rfl]
    exact id
  · unfold Accepted
    rw [unsigned_heartbeat rfl rfl]
    exact id

/-- The completion of job zero by `a`, which its node reports and no hub hears of. -/
theorem report_not_always_accepted :
    ¬ ∀ (operator jobId : Str) (result : Settlement),
      Accepted plainCrypto (outcomeMessage operator jobId result) ∧
        Accepted plainCrypto (heartbeatMessage operator) := by
  intro h
  have houtcome := (h ['a'] (bytesToHex (List.replicate 32 0)) .completed).1
  unfold Accepted at houtcome
  rw [unsigned_outcome rfl rfl] at houtcome
  exact houtcome

end Signatures

end OpaqueStellar.Relayer
