import Mathlib.Data.List.Sort
import Mathlib.Order.Bounds.Basic
import OpaqueStellar.Lib.Binary64
import OpaqueStellar.Lib.Lists
import OpaqueStellar.Registry.EventReads

/-! # The relayer directory

`frontend/src/lib/relayerDirectory.ts` puts the market together from what the registry shows. Who
takes part is read off the events of registrations and jobs, what became of the jobs off the events
of each kind, and the stakes off the records. The reads follow one another while the registry goes
on, so every number is the registry's own at the moments between which it was read. -/

namespace OpaqueStellar.Registry

open OpaqueStellar.Lib OpaqueStellar.Soroban
open OpaqueStellar.Stealth (EventResponse RpcError Service)

/-! ## What the directory computes -/

structure RelayerJobEvent where
  kind : RelayerJobEventKind
  operator : Address
  feeStroops : ℤ
  ledger : ℕ

structure RelayerActivity where
  accepted : ℕ
  submitted : ℕ
  slashed : ℕ
  completionRate : Option ℚ
  recentFeesStroops : List ℤ
  medianFeeStroops : Option ℤ
  lastActiveLedger : Option ℕ

structure RelayerListing where
  operator : Address
  endpoint : List Char
  x25519Pubkey : BytesN 32
  freeStakeStroops : ℤ
  bondedStakeStroops : ℤ
  pendingUnstakeStroops : ℤ
  totalStakeStroops : ℤ
  activity : RelayerActivity
  eligible : Bool

def RECENT_FEE_WINDOW : ℕ := 10

/-- The lower one of the two in the middle, if there are two. -/
def medianStroops (values : List ℤ) : Option ℤ :=
  (values.mergeSort fun a b => decide (a ≤ b))[(values.length - 1) / 2]?

/-- What `summarizeRelayerActivity` has counted so far. -/
structure Tally where
  accepted : ℕ := 0
  submitted : ℕ := 0
  slashed : ℕ := 0
  lastActiveLedger : Option ℕ := none
  paidFees : List (ℤ × ℕ) := []

def Tally.add (t : Tally) (event : RelayerJobEvent) : Tally where
  accepted := if event.kind = .accepted then t.accepted + 1 else t.accepted
  submitted := if event.kind = .submitted then t.submitted + 1 else t.submitted
  slashed := if event.kind = .slashed then t.slashed + 1 else t.slashed
  lastActiveLedger :=
    match t.lastActiveLedger with
    | none => some event.ledger
    | some ledger => some (if ledger < event.ledger then event.ledger else ledger)
  paidFees :=
    if event.kind = .submitted then t.paidFees ++ [(event.feeStroops, event.ledger)] else t.paidFees

/-- The quotient of two counts, which is no infinity. -/
def rate (submitted resolved : ℕ) : Option ℚ :=
  match Double.round (submitted / resolved) with
  | .finite value => some value
  | _ => none

def summarizeRelayerActivity (events : List RelayerJobEvent) : RelayerActivity :=
  let t := events.foldl Tally.add {}
  let resolved := t.submitted + t.slashed
  let recentFees := ((t.paidFees.mergeSort fun a b => decide (b.2 ≤ a.2)).take RECENT_FEE_WINDOW).map (·.1)
  { accepted := t.accepted
    submitted := t.submitted
    slashed := t.slashed
    completionRate := if resolved = 0 then none else rate t.submitted resolved
    recentFeesStroops := recentFees
    medianFeeStroops := medianStroops recentFees
    lastActiveLedger := t.lastActiveLedger }

/-- The events of one topic. -/
def readJobEvents (kind : RelayerJobEventKind) (log : List (EventResponse RegistryEvent)) : List RelayerJobEvent :=
  log.filterMap fun e =>
    match kind, e.value with
    | .accepted, .JobAccepted _ operator fee => some ⟨.accepted, operator, fee.val, e.ledger⟩
    | .submitted, .JobSubmitted _ operator fee => some ⟨.submitted, operator, fee.val, e.ledger⟩
    | .slashed, .JobSlashed _ operator fee => some ⟨.slashed, operator, fee.val, e.ledger⟩
    | _, _ => none

def readRegistrations (log : List (EventResponse RegistryEvent)) : List Address :=
  log.filterMap fun e =>
    match e.value with
    | .RelayerRegistered operator _ => some operator
    | _ => none

/-- What is read; `records` is none where the read fails. -/
structure DirectoryReads where
  registered : List (EventResponse RegistryEvent)
  jobs : RelayerJobEventKind → List (EventResponse RegistryEvent)
  records : Address → Option RelayerRecord

def DirectoryReads.jobEvents (reads : DirectoryReads) : List RelayerJobEvent :=
  readJobEvents .accepted (reads.jobs .accepted) ++ readJobEvents .submitted (reads.jobs .submitted) ++
    readJobEvents .slashed (reads.jobs .slashed)

/-- A set, in the order its elements came. -/
def DirectoryReads.operators (reads : DirectoryReads) : List Address :=
  (reads.jobEvents.map (·.operator)).foldl addLast ((readRegistrations reads.registered).foldl addLast [])

inductive RelayerSortKey where
  | fee
  | stake
  | completion
  | jobs

inductive SortDirection where
  | asc
  | desc
  deriving DecidableEq

def SortDirection.sign : SortDirection → ℤ
  | .asc => 1
  | .desc => -1

def compareBigint (a b : ℤ) : ℤ := if a < b then -1 else if b < a then 1 else 0

/-- JavaScript's `||` on numbers. -/
def orElse (a b : ℤ) : ℤ := if a = 0 then b else a

section Compare

variable (compareOperator : Address → Address → ℤ)

/-- The comparison of two values that may be missing. -/
def compareMissing {α : Type} (compare : α → α → ℤ) (a b : RelayerListing) :
    Option α → Option α → ℤ
  | none, none => compareOperator a.operator b.operator
  | none, some _ => 1
  | some _, none => -1
  | some x, some y => orElse (compare x y) (compareOperator a.operator b.operator)

/-- The sign of the difference of two doubles. -/
def compareRate (a b : ℚ) : ℤ := if a < b then -1 else if b < a then 1 else 0

def compareListings (key : RelayerSortKey) (direction : SortDirection) (a b : RelayerListing) : ℤ :=
  match key with
  | .fee => compareMissing compareOperator (fun x y => compareBigint x y * direction.sign) a b
      a.activity.medianFeeStroops b.activity.medianFeeStroops
  | .stake => orElse (compareBigint a.totalStakeStroops b.totalStakeStroops * direction.sign)
      (compareOperator a.operator b.operator)
  | .completion => compareMissing compareOperator (fun x y => compareRate x y * direction.sign) a b
      a.activity.completionRate b.activity.completionRate
  | .jobs => orElse (((a.activity.submitted : ℤ) - b.activity.submitted) * direction.sign)
      (compareOperator a.operator b.operator)

def sortRelayerListings (listings : List RelayerListing) (key : RelayerSortKey)
    (direction : SortDirection) : List RelayerListing :=
  listings.mergeSort fun a b => decide (compareListings compareOperator key direction a b ≤ 0)

end Compare

/-! ## What the events of a window are -/

section Windows

variable (host : Host) (pool : Pool.World) {calls : List Invocation} (window : Window calls)

end Windows

/-! ## The summary -/

section Summary

/-- The value at the middle of the sorted list, the lower one of two. -/
def IsLowerMedian (values : List ℤ) : Option ℤ → Prop
  | none => values = []
  | some median => median ∈ values ∧ values.countP (· < median) ≤ (values.length - 1) / 2 ∧
      (values.length - 1) / 2 < values.countP (· ≤ median)

end Summary

/-! ## The directory -/

/-- What a listing says, against the record and the jobs of each kind that it was made of. -/
structure RelayerListing.Faithful (l : RelayerListing) (minimumStake : ℤ) (record : RelayerRecord)
    (jobs : RelayerJobEventKind → List JobMove) : Prop where
  stakes : l.freeStakeStroops = record.freeStake.val ∧ l.bondedStakeStroops = record.bondedStake.val ∧
    l.pendingUnstakeStroops = record.pendingUnstake.val ∧
    l.totalStakeStroops = record.freeStake.val + record.bondedStake.val
  eligible : l.eligible = true ↔ minimumStake ≤ record.freeStake.val
  accepted : l.activity.accepted = (jobs .accepted).length
  submitted : l.activity.submitted = (jobs .submitted).length
  slashed : l.activity.slashed = (jobs .slashed).length
  -- the share of the jobs that were settled, rounded, unless none is settled
  unknown : l.activity.completionRate = none ↔ jobs .submitted = [] ∧ jobs .slashed = []
  completion : ∀ share ∈ l.activity.completionRate, 0 ≤ share ∧ share ≤ 1 ∧ Double.finite share =
    Double.round ((jobs .submitted).length / ((jobs .submitted).length + (jobs .slashed).length : ℕ))
  -- what was paid for the latest jobs, the latest one first
  recent : ∃ latest : List JobMove, latest.Perm (jobs .submitted) ∧ latest.Pairwise (fun a b => b.ledger ≤ a.ledger) ∧
    l.activity.recentFeesStroops = (latest.take RECENT_FEE_WINDOW).map (·.fee.val)
  median : IsLowerMedian l.activity.recentFeesStroops l.activity.medianFeeStroops
  active : ∀ ledger, l.activity.lastActiveLedger = some ledger ↔
    IsGreatest {n | ∃ kind, ∃ m ∈ jobs kind, m.ledger = n} ledger

section Listing

variable {events : List RelayerJobEvent} {jobs : RelayerJobEventKind → List JobMove}

end Listing

section Directory

variable (host : Host) (pool : Pool.World) (calls : List Invocation)

variable {calls}

section Fetched

variable {service : ∀ topic, Service (topicLog host topic ((machine host).trace (.deployed pool) calls))}
  {health : RegistryTopic → Option ℕ} {deployedAt : Option ℕ} {cfg : RelayerConfig} {moments : Address → Option ℕ}
  {compareOperator : Address → Address → ℤ} {trim : List Char → List Char} {listings : List RelayerListing}

end Fetched

end Directory

namespace Demo

def missedCalls : List RegistryStep := (machine host).trace (.deployed bondingPool) missed

theorem ledger_le (topic : RegistryTopic) : ∀ ev ∈ topicLog host topic missedCalls, ev.ledger ≤ 30 := by
  rcases topic with - | (- | - | -) <;> decide +kernel

/-- An RPC that answers with all that happened, at ledger thirty. -/
def service (topic : RegistryTopic) : Service (topicLog host topic missedCalls) where
  getLatestLedger := .ok 30
  getEvents _ request := match request with
    | .fromLedger startLedger _ =>
      if startLedger ≤ 30 then
        .ok ⟨(topicLog host topic missedCalls).dropWhile fun ev => ev.ledger < startLedger, [], 30⟩
      else .error .other
    | .fromCursor _ _ => .error .other
  place _ := 0
  closed _ := 30
  closed_mono := monotone_const
  latest_le latest h := by
    obtain rfl := Except.ok.inj h
    exact le_rfl
  latestLedger_eq n request res h := by
    cases request with
    | fromLedger startLedger limit =>
      dsimp only at h
      split at h
      · cases h
        rfl
      · cases h
    | fromCursor cursor limit => cases h
  answers n request res h := by
    cases request with
    | fromLedger startLedger limit =>
      dsimp only at h
      split at h
      next hstarted =>
        cases h
        refine ⟨⟨[], (List.append_nil _).symm, fun hne => absurd rfl hne, fun _ => List.forall_mem_nil _⟩, ?_, ?_⟩
        · intro ev hev
          exact ledger_le topic ev ((List.dropWhile_sublist _).subset hev)
        · intro startLedger' limit' heq
          cases heq
          exact hstarted
      · cases h
    | fromCursor cursor limit => cases h

end Demo

section Sorted

variable {compareOperator : Address → Address → ℤ} {a b c : RelayerListing}

/-- `localeCompare` orders the operators. -/
structure Collation (compareOperator : Address → Address → ℤ) : Prop where
  total : ∀ a b, compareOperator a b ≤ 0 ∨ compareOperator b a ≤ 0
  trans : ∀ a b c, compareOperator a b ≤ 0 → compareOperator b c ≤ 0 → compareOperator a c ≤ 0

/-- What the listings are sorted by, if it is known. -/
def RelayerListing.datum (l : RelayerListing) : RelayerSortKey → Option ℚ
  | .fee => l.activity.medianFeeStroops.map (↑)
  | .stake => some l.totalStakeStroops
  | .completion => l.activity.completionRate
  | .jobs => some l.activity.submitted

/-- The first number comes first in this direction. -/
def SortDirection.Before : SortDirection → ℚ → ℚ → Prop
  | .asc, x, y => x < y
  | .desc, x, y => y < x

/-- What is unknown comes last in both directions. -/
def InOrder (compareOperator : Address → Address → ℤ) (key : RelayerSortKey)
    (direction : SortDirection) (a b : RelayerListing) : Prop :=
  match a.datum key, b.datum key with
  | some x, some y => direction.Before x y ∨ x = y ∧ compareOperator a.operator b.operator ≤ 0
  | some _, none => True
  | none, some _ => False
  | none, none => compareOperator a.operator b.operator ≤ 0

theorem orElse_le_zero {x y : ℤ} : orElse x y ≤ 0 ↔ x < 0 ∨ x = 0 ∧ y ≤ 0 := by
  unfold orElse
  split <;> omega

theorem compareBigint_before (x y : ℤ) (direction : SortDirection) :
    (compareBigint x y * direction.sign < 0 ↔ direction.Before x y) ∧
      (compareBigint x y * direction.sign = 0 ↔ (x : ℚ) = y) := by
  rcases lt_trichotomy x y with h | rfl | h
  · cases direction <;>
      simp [compareBigint, SortDirection.sign, SortDirection.Before, h, h.ne, h.not_gt]
  · cases direction <;> simp [compareBigint, SortDirection.Before]
  · cases direction <;>
      simp [compareBigint, SortDirection.sign, SortDirection.Before, h, h.ne', h.not_gt]

theorem compareRate_before (x y : ℚ) (direction : SortDirection) :
    (compareRate x y * direction.sign < 0 ↔ direction.Before x y) ∧
      (compareRate x y * direction.sign = 0 ↔ x = y) := by
  rcases lt_trichotomy x y with h | rfl | h
  · cases direction <;>
      simp [compareRate, SortDirection.sign, SortDirection.Before, h, h.ne, h.not_gt]
  · cases direction <;> simp [compareRate, SortDirection.Before]
  · cases direction <;>
      simp [compareRate, SortDirection.sign, SortDirection.Before, h, h.ne', h.not_gt]

theorem difference_before (x y : ℤ) (direction : SortDirection) :
    ((x - y) * direction.sign < 0 ↔ direction.Before x y) ∧
      ((x - y) * direction.sign = 0 ↔ (x : ℚ) = y) := by
  cases direction with
  | asc => simp [SortDirection.sign, SortDirection.Before, sub_eq_zero]
  | desc => simp [SortDirection.sign, SortDirection.Before, sub_eq_zero, eq_comm]

/-- **The comparison is the order.** -/
theorem compareListings_le_zero (key : RelayerSortKey) (direction : SortDirection) :
    compareListings compareOperator key direction a b ≤ 0 ↔ InOrder compareOperator key direction a b := by
  cases key with
  | stake =>
    obtain ⟨hlt, heq⟩ := compareBigint_before a.totalStakeStroops b.totalStakeStroops direction
    rw [compareListings, orElse_le_zero, hlt, heq]
    rfl
  | jobs =>
    obtain ⟨hlt, heq⟩ := difference_before a.activity.submitted b.activity.submitted direction
    rw [compareListings, orElse_le_zero, hlt, heq]
    rfl
  | fee =>
    unfold compareListings InOrder RelayerListing.datum
    cases a.activity.medianFeeStroops with
    | none => cases b.activity.medianFeeStroops <;> simp [compareMissing]
    | some x =>
      cases b.activity.medianFeeStroops with
      | none => simp [compareMissing]
      | some y =>
        obtain ⟨hlt, heq⟩ := compareBigint_before x y direction
        simp only [compareMissing, orElse_le_zero, hlt, heq, Option.map_some]
  | completion =>
    unfold compareListings InOrder RelayerListing.datum
    cases a.activity.completionRate with
    | none => cases b.activity.completionRate <;> simp [compareMissing]
    | some x =>
      cases b.activity.completionRate with
      | none => simp [compareMissing]
      | some y =>
        obtain ⟨hlt, heq⟩ := compareRate_before x y direction
        simp only [compareMissing, orElse_le_zero, hlt, heq]

theorem SortDirection.before_trichotomy (direction : SortDirection) (x y : ℚ) :
    direction.Before x y ∨ x = y ∨ direction.Before y x := by
  cases direction with
  | asc => exact lt_trichotomy x y
  | desc => exact (lt_trichotomy y x).imp_right (Or.imp_left Eq.symm)

theorem SortDirection.Before.trans {direction : SortDirection} {x y z : ℚ}
    (h : direction.Before x y) (h' : direction.Before y z) : direction.Before x z := by
  cases direction with
  | asc => exact lt_trans h h'
  | desc => exact lt_trans h' h

theorem InOrder.total (hc : Collation compareOperator) (key : RelayerSortKey)
    (direction : SortDirection) (a b : RelayerListing) :
    InOrder compareOperator key direction a b ∨ InOrder compareOperator key direction b a := by
  unfold InOrder
  rcases a.datum key with _ | x <;> rcases b.datum key with _ | y
  · exact hc.total _ _
  · exact .inr trivial
  · exact .inl trivial
  · rcases direction.before_trichotomy x y with h | rfl | h
    · exact .inl (.inl h)
    · exact (hc.total _ _).imp (fun h => .inr ⟨rfl, h⟩) fun h => .inr ⟨rfl, h⟩
    · exact .inr (.inl h)

theorem InOrder.trans (hc : Collation compareOperator) {key : RelayerSortKey}
    {direction : SortDirection} (hab : InOrder compareOperator key direction a b)
    (hbc : InOrder compareOperator key direction b c) : InOrder compareOperator key direction a c := by
  unfold InOrder at *
  cases hx : a.datum key <;> cases hy : b.datum key <;> cases hz : c.datum key <;>
    simp only [hx, hy, hz] at hab hbc ⊢
  case none.none.none => exact hc.trans _ _ _ hab hbc
  case some.some.some =>
    rcases hab with hab | ⟨rfl, hab⟩
    · rcases hbc with hbc | ⟨rfl, -⟩
      · exact .inl (hab.trans hbc)
      · exact .inl hab
    · rcases hbc with hbc | ⟨rfl, hbc⟩
      · exact .inl hbc
      · exact .inr ⟨rfl, hc.trans _ _ _ hab hbc⟩

/-- **The table is sorted, and the unknown is at its end.** The listings are those that were given;
of two of them the one with the smaller (larger) number comes first, operators decide between equal
ones, and a listing that has no number comes after all that have one, in both directions. -/
theorem sorted_listings (hc : Collation compareOperator) (listings : List RelayerListing)
    (key : RelayerSortKey) (direction : SortDirection) :
    (sortRelayerListings compareOperator listings key direction).Perm listings ∧
      (sortRelayerListings compareOperator listings key direction).Pairwise
        (InOrder compareOperator key direction) := by
  let le := fun a b => decide (compareListings compareOperator key direction a b ≤ 0)
  have htrans : ∀ a b c, le a b = true → le b c = true → le a c = true := by
    intro a b c hab hbc
    simp only [le, decide_eq_true_eq, compareListings_le_zero] at *
    exact hab.trans hc hbc
  have htotal : ∀ a b, (le a b || le b a) = true := by
    intro a b
    simp only [le, Bool.or_eq_true, decide_eq_true_eq, compareListings_le_zero]
    exact InOrder.total hc key direction a b
  refine ⟨List.mergeSort_perm _ _, (List.pairwise_mergeSort htrans htotal listings).imp ?_⟩
  intro a b h
  exact (compareListings_le_zero key direction).mp (of_decide_eq_true h)

theorem collation_of_rank (rank : Address → ℕ) : Collation fun a b => (rank a : ℤ) - rank b where
  total a b := by omega
  trans a b c := by omega

def keyRank (a : Address) : ℕ := a.toXdr.foldl (fun n b => 256 * n + b.toNat) 0

def listingWithFees (operator : Address) (fees : List ℤ) : RelayerListing where
  operator := operator
  endpoint := []
  x25519Pubkey := BytesN.ofNat 32 0
  freeStakeStroops := 0
  bondedStakeStroops := 0
  pendingUnstakeStroops := 0
  totalStakeStroops := 0
  activity := summarizeRelayerActivity (fees.map (⟨.submitted, operator, ·, 1⟩))
  eligible := true

theorem sorted_listings_by_fee :
    let idle := listingWithFees (.account (BytesN.ofNat 32 0)) []
    let paid := listingWithFees (.account (BytesN.ofNat 32 (256 ^ 31))) [70000, 90000]
    let table := sortRelayerListings (fun a b => (keyRank a : ℤ) - keyRank b) [idle, paid] .fee .desc
    table.Perm [idle, paid] ∧
      table.Pairwise (InOrder (fun a b => (keyRank a : ℤ) - keyRank b) .fee .desc) :=
  sorted_listings (collation_of_rank keyRank) _ .fee .desc

end Sorted

end OpaqueStellar.Registry
