import OpaqueStellar.Lib.Lists
import OpaqueStellar.Lib.Text
import OpaqueStellar.Lib.Weighted
import OpaqueStellar.Relayer.JobIds

/-! # Bids at a client

`sdk/src/relayer-protocol/gateway.ts`: how a client comes from the bids that a gateway serves to the one
that it takes. `fetchBids` checks what it is served entry by entry, but the first of its checks throws, and
one entry that is no bid at all makes the call fail. `pickStakeWeightedBid` draws one of the bids that are
left, each as often as its stake says. -/

namespace OpaqueStellar.Relayer.Sdk

open OpaqueStellar.Lib
open OpaqueStellar.Schemas (Str)

/-! ## Fetching -/

section Fetch

variable {D K : Type} (C : Crypto D K) (view : RegistryView) (jobIdHex : Str)

/-- What is made of one entry: it is a bid, signed, for the job and the chain, and the registry agrees. -/
def checkedBid (raw : RawMessage) : Option VerifiedBid := do
  let bid ← (validateBid raw).toOption
  if verifyBid C bid ∧ toLowerCase bid.jobId = toLowerCase jobIdHex ∧ bid.chain = RELAY_CHAIN_STELLAR then
    verifyBidRegistryState view jobIdHex bid
  else none

variable {C view jobIdHex}

/-- What throws for one element throws for the list. -/
theorem mapM_eq_ok_iff {ε α β : Type} {f : α → Except ε β} {xs : List α} :
    (∃ ys, xs.mapM f = .ok ys) ↔ ∀ x ∈ xs, ∃ y, f x = .ok y := by
  simp only [mapM_eq_ok_forall₂, exists_forall₂_iff]

theorem filterMap_of_mapM {ε α β : Type} {f : α → Except ε β} {xs : List α} {ys : List β}
    (h : xs.mapM f = .ok ys) : xs.filterMap (fun x => (f x).toOption) = ys := by
  rw [mapM_eq_ok_forall₂] at h
  induction h with
  | nil => rfl
  | cons hy _ ih =>
      rw [List.filterMap_cons, hy, ih]
      rfl

/-- Where every entry is a bid, each is checked for itself. -/
theorem fetchBids_of_mapM {bids : List RawMessage} {valid : List RelayerBid}
    (h : bids.mapM validateBid = .ok valid) :
    fetchBids C view jobIdHex bids = .ok (bids.filterMap (checkedBid C view jobIdHex)) := by
  have hchecked : checkedBid C view jobIdHex = fun raw => (validateBid raw).toOption.bind fun bid =>
      if verifyBid C bid && decide (toLowerCase bid.jobId = toLowerCase jobIdHex) &&
        decide (bid.chain = RELAY_CHAIN_STELLAR) then verifyBidRegistryState view jobIdHex bid else none := by
    funext raw
    simp only [checkedBid, Option.bind_eq_bind, Bool.and_eq_true, decide_eq_true_eq, and_assoc]
  rw [fetchBids, h, hchecked]
  show Except.ok _ = _
  rw [← filterMap_of_mapM h, List.filterMap_filter, List.filterMap_filterMap]

/-- **Fetching is robust exactly if there is nothing to be robust against.** For every list of entries:
the call comes to the bids among them that pass all checks if and only if every entry is a bid by its
shape. -/
theorem fetchBids_iff (C : Crypto D K) (view : RegistryView) (jobIdHex : Str) (bids : List RawMessage) :
    fetchBids C view jobIdHex bids = .ok (bids.filterMap (checkedBid C view jobIdHex)) ↔
      ∀ raw ∈ bids, ∃ bid, validateBid raw = .ok bid := by
  rw [← mapM_eq_ok_iff]
  constructor
  · intro h
    cases hvalid : bids.mapM validateBid with
    | error e =>
        rw [fetchBids, hvalid] at h
        cases h
    | ok valid => exact ⟨valid, rfl⟩
  · rintro ⟨valid, hvalid⟩
    exact fetchBids_of_mapM hvalid

/-- One entry without any field, and the call fails. -/
theorem fetchBids_empty_entry :
    let view : RegistryView := ⟨fun _ _ => none, fun _ => none⟩
    fetchBids plainCrypto view [] [{}] = .error (.invalid "bid".toList) ∧
      fetchBids plainCrypto view [] [{}] ≠ .ok ([{}].filterMap (checkedBid plainCrypto view [])) := by
  intro view
  have herror : fetchBids plainCrypto view [] [{}] = .error (.invalid "bid".toList) := rfl
  refine ⟨herror, ?_⟩
  rw [herror]
  intro h
  cases h

end Fetch

/-! ## Choosing -/

/-- Two 32-bit numbers as one of 64 bits. -/
def draw (rand : UInt32 × UInt32) : ℤ := rand.1.toNat * 2 ^ 32 + rand.2.toNat

def pickStakeWeightedBid (bids : List VerifiedBid) (rand : UInt32 × UInt32) : Option VerifiedBid :=
  if bids.length = 0 then none
  else
    let total := bids.foldl (fun sum bid => sum + bid.freeStakeValue) 0
    if total ≤ 0 then bids[0]?
    -- the loop, and the last bid where it falls through
    else (Weighted.pick (·.freeStakeValue) (draw rand % total) bids).or bids.getLast?

/-- The sum of all stakes. -/
def totalStake (bids : List VerifiedBid) : ℤ := (bids.map (·.freeStakeValue)).sum

/-- Each bid has as many of the numbers below the total as it has stake. -/
abbrev Holds (bids : List VerifiedBid) (x : ℤ) (i : ℕ) : Prop := Weighted.InInterval (·.freeStakeValue) bids x i

theorem foldl_stake (bids : List VerifiedBid) :
    bids.foldl (fun sum bid => sum + bid.freeStakeValue) 0 = totalStake bids := by
  rw [totalStake, List.sum_eq_foldl, List.foldl_map]

theorem draw_lt (rand : UInt32 × UInt32) : 0 ≤ draw rand ∧ draw rand < 2 ^ 64 := by
  have hhigh := rand.1.toNat_lt
  have hlow := rand.2.toNat_lt
  unfold draw
  omega

/-- Every number of 64 bits may be drawn. -/
theorem exists_draw {x : ℤ} (h : 0 ≤ x) (h' : x < 2 ^ 64) : ∃ rand, draw rand = x := by
  refine ⟨(UInt32.ofNat (x / 2 ^ 32).toNat, UInt32.ofNat (x % 2 ^ 32).toNat), ?_⟩
  simp only [draw, UInt32.toNat_ofNat']
  omega

/-- **The bid that is chosen is the one that holds the number.** For every list of bids whose stakes are
not negative and have a positive total, and every draw: one bid holds what the draw is modulo the total,
the loop comes to it, and it has a stake. -/
theorem pickStakeWeightedBid_exact (bids : List VerifiedBid) (hstake : ∀ bid ∈ bids, 0 ≤ bid.freeStakeValue)
    (htotal : 0 < totalStake bids) (rand : UInt32 × UInt32) :
    ∃ i bid, bids[i]? = some bid ∧ Holds bids (draw rand % totalStake bids) i ∧
      (∀ j, Holds bids (draw rand % totalStake bids) j → j = i) ∧
      Weighted.pick (·.freeStakeValue) (draw rand % totalStake bids) bids = some bid ∧
      pickStakeWeightedBid bids rand = some bid ∧ 0 < bid.freeStakeValue := by
  have hnonneg := Int.emod_nonneg (draw rand) htotal.ne'
  obtain ⟨i, hi⟩ := Weighted.exists_inInterval hnonneg (Int.emod_lt_of_pos (draw rand) htotal)
  have hlt := hi.lt_length
  have hbid : bids[i]? = some bids[i] := List.getElem?_eq_getElem hlt
  have hpick := Weighted.pick_eq_of_inInterval hstake hi
  rw [hbid] at hpick
  refine ⟨i, _, hbid, hi, ?_, hpick, ?_, Weighted.weight_pos_of_inInterval hi hbid⟩
  · intro j hj
    exact Weighted.inInterval_unique hstake hj hi
  · have hlength : bids.length ≠ 0 := (Nat.zero_lt_of_lt hi.lt_length).ne'
    rw [pickStakeWeightedBid, if_neg hlength]
    simp only [foldl_stake, if_neg (not_le_of_gt htotal), hpick, Option.some_or]

/-- Three bids, the first of them without a stake. -/
def demoBids : List VerifiedBid := [⟨plainBid, 0⟩, ⟨plainBid, 5⟩, ⟨plainBid, 2⟩]

theorem pickStakeWeightedBid_three : ∃ i bid, demoBids[i]? = some bid ∧
    Holds demoBids (draw (0, 6) % totalStake demoBids) i ∧
    (∀ j, Holds demoBids (draw (0, 6) % totalStake demoBids) j → j = i) ∧
    Weighted.pick (·.freeStakeValue) (draw (0, 6) % totalStake demoBids) demoBids = some bid ∧
    pickStakeWeightedBid demoBids (0, 6) = some bid ∧ 0 < bid.freeStakeValue :=
  pickStakeWeightedBid_exact demoBids (by simp [demoBids]) (by simp [demoBids, totalStake]) (0, 6)

end OpaqueStellar.Relayer.Sdk
