import OpaqueStellar.Lib.Utf16
import OpaqueStellar.Relayer.Messages
import OpaqueStellar.Schemas.Utf8

/-! # What the signature of a bid covers

`bidSigningDigest` hashes a job id, a key, a chain, an endpoint after its length, and a free stake. All of
them but the endpoint are of one length, so that an endpoint that is too long for its two bytes of length
still ends where the stake begins.

Two fields are not hashed as they are. Of a free stake the lowest eight bytes are kept, and `TextEncoder`
reads a code unit of an endpoint that is half of no pair as U+FFFD. -/

namespace OpaqueStellar.Relayer

open OpaqueStellar.Lib OpaqueStellar.Schemas

/-- What an operator signs for. -/
@[ext]
structure BidTerms where
  jobId : BytesN 32
  x25519Pk : BytesN 32
  chain : ℕ
  chain_lt : chain < 2 ^ 32
  -- a string: the units of UTF-16
  endpoint : List UInt16
  freeStake : ℕ

namespace BidTerms

/-- What `bidSigningDigest` hashes. -/
def signedBytes (terms : BidTerms) : List UInt8 :=
  BID_DOMAIN ++ terms.jobId.1 ++ terms.x25519Pk.1 ++ uint32BE (some terms.chain) ++
    lengthPrefixedUtf8 (Utf16.decode terms.endpoint) ++ uint64BE terms.freeStake

/-- The terms differ, and in two fields only that look the same when they are hashed: their stakes by a
multiple of `2 ^ 64`, or their endpoints in halves of pairs. -/
structure Confusable (terms other : BidTerms) : Prop where
  jobId : terms.jobId = other.jobId
  x25519Pk : terms.x25519Pk = other.x25519Pk
  chain : terms.chain = other.chain
  endpoint : Utf16.decode terms.endpoint = Utf16.decode other.endpoint
  freeStake : terms.freeStake % 2 ^ 64 = other.freeStake % 2 ^ 64
  differ : terms.endpoint ≠ other.endpoint ∨ terms.freeStake ≠ other.freeStake

/-! ## Fields of the preimage -/

theorem uint32BE_natCast (n : ℕ) : uint32BE (some (n : ℚ)) = beBytes 4 (n % 2 ^ 32) := by
  have hfloor : toUint32 (some (n : ℚ)) = n % 2 ^ 32 := by
    have hn : (0 : ℚ) ≤ n := Nat.cast_nonneg n
    simp only [toUint32, if_pos hn, Int.floor_natCast]
    omega
  rw [uint32BE, hfloor]

theorem uint64BE_natCast (n : ℕ) : uint64BE n = beBytes 8 (n % 2 ^ 64) := by
  have hlow : ((n : ℤ) % 2 ^ 64).toNat = n % 2 ^ 64 := by omega
  rw [uint64BE, hlow]

variable {terms other : BidTerms}

theorem signedBytes_eq (terms : BidTerms) : terms.signedBytes = BID_DOMAIN ++ (terms.jobId.1 ++
    (terms.x25519Pk.1 ++ (beBytes 4 terms.chain ++ (beBytes 2 (asBytes (Utf16.decode terms.endpoint)).length ++
      (asBytes (Utf16.decode terms.endpoint) ++ beBytes 8 (terms.freeStake % 2 ^ 64)))))) := by
  simp only [signedBytes, uint32BE_natCast, uint64BE_natCast, lengthPrefixedUtf8, List.append_assoc,
    Nat.mod_eq_of_lt terms.chain_lt]

/-- **What is hashed of a bid**: each field, the stake up to multiples of `2 ^ 64`. -/
theorem signedBytes_eq_iff : terms.signedBytes = other.signedBytes ↔
    terms.jobId = other.jobId ∧ terms.x25519Pk = other.x25519Pk ∧ terms.chain = other.chain ∧
      Utf16.decode terms.endpoint = Utf16.decode other.endpoint ∧
      terms.freeStake % 2 ^ 64 = other.freeStake % 2 ^ 64 := by
  constructor
  · intro h
    rw [signedBytes_eq, signedBytes_eq, List.append_cancel_left_eq] at h
    obtain ⟨hjobId, h⟩ := List.append_inj h (terms.jobId.2.trans other.jobId.2.symm)
    obtain ⟨hkey, h⟩ := List.append_inj h (terms.x25519Pk.2.trans other.x25519Pk.2.symm)
    obtain ⟨hchain, h⟩ := List.append_inj h (by rw [length_beBytes, length_beBytes])
    obtain ⟨-, h⟩ := List.append_inj h (by rw [length_beBytes, length_beBytes])
    -- the stake is the last eight bytes, whatever the length says
    obtain ⟨hendpoint, hstake⟩ := List.append_inj' h (by rw [length_beBytes, length_beBytes])
    exact ⟨Subtype.ext hjobId, Subtype.ext hkey, beBytes_inj terms.chain_lt other.chain_lt hchain,
      asBytes_injective hendpoint,
      beBytes_inj (Nat.mod_lt _ (by norm_num)) (Nat.mod_lt _ (by norm_num)) hstake⟩
  · rintro ⟨hjobId, hkey, hchain, hendpoint, hstake⟩
    rw [signedBytes_eq, signedBytes_eq, hjobId, hkey, hchain, hendpoint, hstake]

/-- Terms that are hashed alike differ as `Confusable` says, or not at all. -/
theorem eq_or_confusable (h : terms.signedBytes = other.signedBytes) :
    terms = other ∨ terms.Confusable other := by
  obtain ⟨hjobId, hkey, hchain, hendpoint, hstake⟩ := signedBytes_eq_iff.mp h
  by_cases hsame : terms.endpoint = other.endpoint ∧ terms.freeStake = other.freeStake
  · exact .inl (BidTerms.ext hjobId hkey hchain hsame.1 hsame.2)
  · exact .inr ⟨hjobId, hkey, hchain, hendpoint, hstake, not_and_or.mp hsame⟩

theorem Confusable.signedBytes_eq (h : terms.Confusable other) : terms.signedBytes = other.signedBytes :=
  signedBytes_eq_iff.mpr ⟨h.jobId, h.x25519Pk, h.chain, h.endpoint, h.freeStake⟩

theorem Confusable.ne (h : terms.Confusable other) : terms ≠ other := by
  rintro rfl
  exact h.differ.elim (absurd rfl) (absurd rfl)

/-- Stakes of eight bytes and endpoints that are texts cannot be confused. -/
theorem not_confusable (hstake : terms.freeStake < 2 ^ 64) (hstake' : other.freeStake < 2 ^ 64)
    (hendpoint : Utf16.WellFormed terms.endpoint) (hendpoint' : Utf16.WellFormed other.endpoint) :
    ¬ terms.Confusable other := by
  intro h
  rcases h.differ with hne | hne
  · exact hne (hendpoint.eq_of_decode_eq hendpoint' h.endpoint)
  · have hmod := h.freeStake
    rw [Nat.mod_eq_of_lt hstake, Nat.mod_eq_of_lt hstake'] at hmod
    exact hne hmod

/-! ## Signatures -/

section Signatures

variable {D K : Type} (C : Crypto D K)

def digest (terms : BidTerms) : Option D :=
  bidSigningDigest C terms.jobId.1 terms.x25519Pk.1 (some terms.chain) (Utf16.decode terms.endpoint)
    terms.freeStake

/-- What an operator signs for the one bid is taken as its signature under the other. -/
def GoodFor (operator : K) (signed received : BidTerms) : Prop :=
  ∃ d, signed.digest C = some d ∧
    verifyDigest C (C.publicKey operator) (Base64.encode (C.sign operator d)) (received.digest C) = true

variable {C}

theorem digest_eq (terms : BidTerms) : terms.digest C = some (C.keccak256 terms.signedBytes) := by
  have hjobId : assertLength 32 terms.jobId.1 = some terms.jobId := dif_pos terms.jobId.2
  have hkey : assertLength 32 terms.x25519Pk.1 = some terms.x25519Pk := dif_pos terms.x25519Pk.2
  simp only [digest, bidSigningDigest, hjobId, hkey, Option.bind_eq_bind, Option.bind_some]
  rfl

/-- A signature is good for the bids that are hashed alike. -/
theorem goodFor_iff (hC : C.Lawful) {operator : K} :
    GoodFor C operator terms other ↔ terms.signedBytes = other.signedBytes := by
  unfold GoodFor
  simp only [digest_eq, Option.some.injEq, exists_eq_left', verifyDigest_sign, Option.bind_some]
  constructor
  · intro h
    have hverify : C.verify (C.publicKey operator) (C.keccak256 other.signedBytes)
        (C.sign operator (C.keccak256 terms.signedBytes)) = some true := by
      rcases hcase : C.verify (C.publicKey operator) (C.keccak256 other.signedBytes)
        (C.sign operator (C.keccak256 terms.signedBytes)) with - | ok
      · rw [hcase] at h
        cases h
      · rw [hcase] at h
        exact congrArg some h
    exact (hC.keccak256_inj _ _ (hC.sign_binds _ _ _ hverify)).symm
  · intro h
    rw [h, hC.verify_sign]
    rfl

/-- **A signature binds a bid exactly if no other field than these is changed.** For every two bids: that
they are one if they are hashed alike, and that they are one if the signature of an operator under the
first is good for the second, are both the case if and only if the two are not confusable. -/
theorem bid_binding_iff (hC : C.Lawful) (operator : K) (signed received : BidTerms) :
    ((signed.signedBytes = received.signedBytes → signed = received) ↔ ¬ signed.Confusable received) ∧
      ((GoodFor C operator signed received → signed = received) ↔ ¬ signed.Confusable received) := by
  have hbinding : (signed.signedBytes = received.signedBytes → signed = received) ↔
      ¬ signed.Confusable received := by
    constructor
    · intro h hconfusable
      exact hconfusable.ne (h hconfusable.signedBytes_eq)
    · intro h hbytes
      exact (eq_or_confusable hbytes).resolve_right h
  refine ⟨hbinding, ?_⟩
  rw [goodFor_iff hC]
  exact hbinding

/-- A bid for job zero. -/
def demo (freeStake : ℕ) : BidTerms where
  jobId := BytesN.ofNat 32 0
  x25519Pk := BytesN.ofNat 32 1
  chain := 3000
  chain_lt := by norm_num
  endpoint := []
  freeStake := freeStake

theorem bid_binding_small :
    ¬ (demo 7).Confusable (demo 8) ∧ ¬ GoodFor plainCrypto ['a'] (demo 7) (demo 8) := by
  have hconfusable : ¬ (demo 7).Confusable (demo 8) := fun h => absurd h.freeStake (by decide)
  refine ⟨hconfusable, fun hgood => ?_⟩
  have hsame : demo 7 = demo 8 := (bid_binding_iff plainCrypto_lawful ['a'] (demo 7) (demo 8)).2.mpr hconfusable hgood
  exact absurd (congrArg BidTerms.freeStake hsame) (by decide)

/-- A bid without a stake is passed on as one with a stake of `2 ^ 64`. -/
theorem stake_rewritten : (demo 0).signedBytes = (demo (2 ^ 64)).signedBytes ∧
    GoodFor plainCrypto ['a'] (demo 0) (demo (2 ^ 64)) ∧ demo 0 ≠ demo (2 ^ 64) := by
  have hconfusable : (demo 0).Confusable (demo (2 ^ 64)) :=
    ⟨rfl, rfl, rfl, rfl, by decide, .inr (by decide)⟩
  exact ⟨hconfusable.signedBytes_eq,
    (goodFor_iff plainCrypto_lawful).mpr hconfusable.signedBytes_eq, hconfusable.ne⟩

/-! ## Messages -/

/-- The fields of a message that say the terms. -/
structure SaidBy (bid : RelayerBid) (terms : BidTerms) : Prop where
  jobId : hexToBytes bid.jobId = some terms.jobId.1
  x25519Pk : hexToBytes bid.x25519Pk = some terms.x25519Pk.1
  chain : bid.chain.toNumber = some (terms.chain : ℚ)
  endpoint : Utf16.encode (bid.endpoint.getD []) = terms.endpoint
  freeStake : freeStakeOf bid.freeStake = some (terms.freeStake : ℤ)

theorem SaidBy.bidDigest_eq {bid : RelayerBid} (h : SaidBy bid terms) :
    bidDigest C bid = terms.digest C := by
  have hendpoint : bid.endpoint.getD [] = Utf16.decode terms.endpoint := by
    rw [← h.endpoint, Utf16.decode_encode]
  simp only [bidDigest, digest, h.jobId, h.x25519Pk, h.chain, h.freeStake, hendpoint,
    Option.bind_eq_bind, Option.bind_some]

/-- A bid that is rewritten on its way is verified exactly if its signature is good for what it says. -/
theorem verifyBid_rewritten {advert : JobAdvert} {operator : K} {x25519Pk : List UInt8}
    {endpoint : Option Str} {freeStake : Option ℤ} {bid rewritten : RelayerBid}
    (hmade : makeBid C advert operator x25519Pk endpoint freeStake = some bid)
    (hoperator : rewritten.operator = bid.operator) (hsig : rewritten.sig = bid.sig)
    (hbid : SaidBy bid terms) (hrewritten : SaidBy rewritten other) :
    verifyBid C rewritten = true ↔ GoodFor C operator terms other := by
  obtain ⟨d, hd, hkey, hsign⟩ := makeBid_eq_some hmade
  rw [hbid.bidDigest_eq] at hd
  rw [verifyBid, hoperator, hsig, hkey, hsign, hrewritten.bidDigest_eq]
  constructor
  · intro h
    exact ⟨d, hd, h⟩
  · rintro ⟨d', hd', h⟩
    obtain rfl : d = d' := Option.some.inj (hd.symm.trans hd')
    exact h

end Signatures

end BidTerms

end OpaqueStellar.Relayer
