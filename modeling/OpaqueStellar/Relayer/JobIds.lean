import OpaqueStellar.Relayer.Hub

/-! # The identifiers of one job

An identifier is checked by `hexToBytes`, which takes off a `0x` and reads digits of either case. What is
known of a job stands in six maps: the bids and assignments of a hub, and the bids, pending jobs, accepted
jobs and job ledger of an engine. Each of them has the identifier in lower case for its key, and leaves
the `0x` where it is.

So a job has two keys, the one with and the one without `0x`. -/

namespace OpaqueStellar.Relayer

open OpaqueStellar.Lib
open OpaqueStellar.Schemas (Str)

/-! ## Maps of the engine -/

/-- `RelayerEngine.bids` -/
abbrev EngineBids := Dict Str (List BidEntry)

namespace EngineBids

variable (bids : EngineBids)

def bidsFor (jobId : Str) : List BidEntry := (bids.find (toLowerCase jobId)).getD []

def rememberBid (now : ℤ) (bid : RelayerBid) : EngineBids :=
  let key := toLowerCase bid.jobId
  let list := (bids.find key).getD []
  if list.any fun b => b.operator = bid.operator then bids else bids.set key (list ++ [⟨bid, now⟩])

end EngineBids

/-- `RelayerEngine.pendingJobs`, with the time at which work on a job began. -/
abbrev PendingJobs := Dict Str ℤ

def PendingJobs.start (jobs : PendingJobs) (jobId : Str) (now : ℤ) : PendingJobs :=
  jobs.set (toLowerCase jobId) now

def PendingJobs.finish (jobs : PendingJobs) (jobId : Str) : PendingJobs := jobs.delete (toLowerCase jobId)

abbrev JobLedger := Dict Str JobLedgerEntry

namespace JobLedger

variable (ledger : JobLedger)

def record (entry : JobLedgerEntry) : JobLedger := ledger.set (toLowerCase entry.jobId) entry

def get (jobId : Str) : Option JobLedgerEntry := ledger.find (toLowerCase jobId)

def remove (jobId : Str) : JobLedger := ledger.delete (toLowerCase jobId)

end JobLedger

/-! ## The SDK -/

namespace Sdk

structure NativeRegistryJob where
  status : ℕ
  fee : ℤ

structure NativeRegistryRelayer where
  freeStake : ℤ
  x25519Pubkey : List UInt8
  endpoint : Option Str

/-- `registryView`: reads of the registry for a source account; `none` where there is nothing or the read
throws. -/
structure RegistryView where
  getJob : Str → List UInt8 → Option NativeRegistryJob
  getRelayer : Str → Option NativeRegistryRelayer

structure VerifiedBid extends RelayerBid where
  freeStakeValue : ℤ

def verifyBidRegistryState (view : RegistryView) (jobIdHex : Str) (bid : RelayerBid) :
    Option VerifiedBid := do
  let jobId ← hexToBytes jobIdHex
  let job ← view.getJob bid.operator jobId
  let relayer ← view.getRelayer bid.operator
  if job.status ≠ 0 ∨ relayer.freeStake < job.fee then none
  else if toLowerCase (bytesToHex relayer.x25519Pubkey) ≠ toLowerCase bid.x25519Pk then none
  else
    some ⟨{ bid with
      endpoint := ((relayer.endpoint.map trimSpaces).filter (· ≠ [])).or bid.endpoint
      freeStake := some (bigIntToString relayer.freeStake) }, relayer.freeStake⟩

/-- The bids that `fetchBids` takes from an answer of the gateway. -/
def fetchBids {D K : Type} (C : Crypto D K) (view : RegistryView) (jobIdHex : Str)
    (bids : List RawMessage) : Except MessageError (List VerifiedBid) := do
  let bids ← bids.mapM validateBid
  return (bids.filter fun bid => verifyBid C bid && decide (toLowerCase bid.jobId = toLowerCase jobIdHex) &&
    decide (bid.chain = RELAY_CHAIN_STELLAR)).filterMap (verifyBidRegistryState view jobIdHex)

/-- What `deliverPayload` posts, for a box that is sealed. -/
def deliverPayload (jobIdHex x25519Pk box : Str) : Source × RawMessage :=
  (.payload jobIdHex (some (jobIdHex ++ ":".toList ++ x25519Pk)),
    { t := some "payload".toList
      v := some (some 1)
      jobId := some jobIdHex
      recipient := some x25519Pk
      box := some box })

end Sdk

/-! ## Identifiers in lower case -/

/-- The message, with another identifier. -/
def RelayerMessage.mapId (f : Str → Str) : RelayerMessage → RelayerMessage
  | .advert m => .advert { m with jobId := f m.jobId }
  | .bid m => .bid { m with jobId := f m.jobId }
  | .payload m => .payload { m with jobId := f m.jobId }
  | .outcome m => .outcome { m with jobId := f m.jobId }
  | .heartbeat m => .heartbeat m

def BidEntry.lower (entry : BidEntry) : BidEntry := { entry with jobId := toLowerCase entry.jobId }

/-- The bids, with every identifier in them in lower case. -/
def EngineBids.lower (bids : EngineBids) : EngineBids := Dict.mapValues (List.map BidEntry.lower) bids

def JobLedgerEntry.lower (entry : JobLedgerEntry) : JobLedgerEntry :=
  { entry with jobId := toLowerCase entry.jobId }

def JobLedger.lower (ledger : JobLedger) : JobLedger := Dict.mapValues JobLedgerEntry.lower ledger

def Hub.lower (hub : Hub) : Hub := { hub with bids := EngineBids.lower hub.bids }

theorem toLowerCase_toLowerCase (s : Str) : toLowerCase (toLowerCase s) = toLowerCase s := by
  unfold toLowerCase
  rw [List.map_map]
  exact List.map_congr_left fun c _ => Hex.toLower_toLower c

namespace EngineBids

variable {bids : EngineBids} {now : ℤ}

theorem getD_find_lower (bids : EngineBids) (key : Str) :
    (bids.lower.find key).getD [] = ((bids.find key).getD []).map BidEntry.lower := by
  rw [lower, Dict.find_mapValues]
  cases Dict.find bids key <;> rfl

/-- What is remembered of a bid does not depend on the case of letters in its identifier. -/
theorem lower_rememberBid (bids : EngineBids) (now : ℤ) (bid : RelayerBid) :
    (bids.rememberBid now bid).lower =
      bids.lower.rememberBid now { bid with jobId := toLowerCase bid.jobId } := by
  have hany : ∀ list : List BidEntry, (list.map BidEntry.lower).any (fun b => b.operator = bid.operator) =
      list.any fun b => b.operator = bid.operator := fun list => List.any_map
  simp only [rememberBid, toLowerCase_toLowerCase, getD_find_lower, hany]
  split_ifs
  · rfl
  · rw [lower, Dict.mapValues_set, List.map_append]
    rfl

end EngineBids

namespace Hub

variable {hub : Hub} {now : ℤ}

theorem lower_rememberBid (bid : RelayerBid) :
    (hub.rememberBid now bid).lower =
      hub.lower.rememberBid now { bid with jobId := toLowerCase bid.jobId } := by
  have hbids := EngineBids.lower_rememberBid hub.bids now bid
  unfold lower rememberBid
  exact congrArg (fun bids => { hub with bids := bids, knownOperators := hub.know bid.operator }) hbids

theorem lower_rememberAssignment (payload : EncryptedPayload) :
    (hub.rememberAssignment now payload).lower =
      hub.lower.rememberAssignment now { payload with jobId := toLowerCase payload.jobId } := by
  have hfind : ∀ key, (hub.lower.bidsFor key).find?
      (fun b => toLowerCase b.x25519Pk = toLowerCase payload.recipient) =
      ((hub.bidsFor key).find? fun b => toLowerCase b.x25519Pk = toLowerCase payload.recipient).map
        BidEntry.lower := by
    intro key
    have hlower : hub.lower.bidsFor key = (hub.bidsFor key).map BidEntry.lower :=
      EngineBids.getD_find_lower hub.bids _
    rw [hlower, List.find?_map]
    rfl
  unfold rememberAssignment
  simp only [toLowerCase_toLowerCase, hfind]
  cases (hub.bidsFor (toLowerCase payload.jobId)).find?
    fun b => toLowerCase b.x25519Pk = toLowerCase payload.recipient <;> rfl

/-- **A hub does not tell letters of either case apart.** -/
theorem lower_receive (m : RelayerMessage) :
    (hub.receive now m).lower = hub.lower.receive now (m.mapId toLowerCase) := by
  cases m with
  | advert m => rfl
  | bid bid => exact lower_rememberBid bid
  | payload payload => exact lower_rememberAssignment payload
  | outcome outcome =>
    have hbids := Dict.mapValues_delete (List.map BidEntry.lower) hub.bids (toLowerCase outcome.jobId)
    simp only [receive, recordOutcome, lower, EngineBids.lower, RelayerMessage.mapId,
      toLowerCase_toLowerCase, hbids]
    rfl
  | heartbeat heartbeat => rfl

/-- The hub after these messages, each with the time at which it came in. -/
def hear (hub : Hub) (ms : List (ℤ × RelayerMessage)) : Hub :=
  ms.foldl (fun hub e => hub.receive e.1 e.2) hub

/-- Nor does it over any run. -/
theorem lower_hear (hub : Hub) (ms : List (ℤ × RelayerMessage)) :
    (hub.hear ms).lower = hub.lower.hear (ms.map fun e => (e.1, e.2.mapId toLowerCase)) := by
  induction ms generalizing hub with
  | nil => rfl
  | cons e ms ih =>
    show ((hub.receive e.1 e.2).hear ms).lower = (hub.lower.receive e.1 (e.2.mapId toLowerCase)).hear _
    rw [ih, lower_receive]

end Hub

/-! ## One job -/

/-- `0x` and what it is written before. -/
def Prefixed (jobId : Str) : Prop := ∃ digits, jobId = '0' :: 'x' :: digits

/-- One identifier in the place of another. -/
def respell (jobId jobId' : Str) : Str → Str := fun id => if id = jobId then jobId' else id

/-- The two identifiers name one job for each map and each comparison: where one of them is asked for,
the answer is that of the other, and what is done about the one leaves what doing it about the other would
leave, but for the case of letters in the texts that are kept. -/
structure OneJob (jobId jobId' : Str) : Prop where
  -- the hub, over any run of messages
  heard : ∀ (hub : Hub) (ms : List (ℤ × RelayerMessage)),
    (hub.hear (ms.map fun e => (e.1, e.2.mapId (respell jobId jobId')))).lower = (hub.hear ms).lower
  hubBids : ∀ hub : Hub, hub.bidsFor jobId = hub.bidsFor jobId'
  -- the bids and the pending jobs of an engine
  remembered : ∀ (bids : EngineBids) (now : ℤ) (bid : RelayerBid),
    (bids.rememberBid now { bid with jobId := jobId }).lower =
      (bids.rememberBid now { bid with jobId := jobId' }).lower
  engineBids : ∀ bids : EngineBids, bids.bidsFor jobId = bids.bidsFor jobId'
  started : ∀ (jobs : PendingJobs) (now : ℤ), jobs.start jobId now = jobs.start jobId' now
  finished : ∀ jobs : PendingJobs, jobs.finish jobId = jobs.finish jobId'
  -- the queue of accepted jobs
  enqueued : ∀ {W : Type} (n : Node W) (entry : AcceptedJobEntry W),
    (n.insert { entry with jobId := jobId }).entries = (n.insert { entry with jobId := jobId' }).entries
  queued : ∀ {W : Type} (n : Node W), n.get jobId = n.get jobId'
  accepted : ∀ {W : Type} (tx : TxRef), markAccepted (W := W) jobId tx = markAccepted jobId' tx
  resolved : ∀ {W : Type}, resolve (W := W) jobId = resolve jobId'
  failed : ∀ {W : Type} (error : EngineError), recordFailure (W := W) jobId error = recordFailure jobId' error
  -- the job ledger
  recorded : ∀ (ledger : JobLedger) (entry : JobLedgerEntry),
    (ledger.record { entry with jobId := jobId }).lower = (ledger.record { entry with jobId := jobId' }).lower
  found : ∀ ledger : JobLedger, ledger.get jobId = ledger.get jobId'
  removed : ∀ ledger : JobLedger, ledger.remove jobId = ledger.remove jobId'
  -- the SDK, and the route that it delivers to
  fetched : ∀ {D K : Type} (C : Crypto D K) (view : Sdk.RegistryView) (bids : List RawMessage),
    Sdk.fetchBids C view jobId bids = Sdk.fetchBids C view jobId' bids
  delivered : ∀ {D K : Type} (C : Crypto D K) (hub : Hub) (now : ℤ) (x25519Pk box : Str),
    hub.step C (.deliver now (Sdk.deliverPayload jobId x25519Pk box).1 (Sdk.deliverPayload jobId x25519Pk box).2) =
      hub.step C
        (.deliver now (Sdk.deliverPayload jobId' x25519Pk box).1 (Sdk.deliverPayload jobId' x25519Pk box).2)
  routed : ∀ {D K : Type} (C : Crypto D K) (idempotencyKey : Option Str) (m : RawMessage),
    ingest C (.payload jobId idempotencyKey) m = ingest C (.payload jobId' idempotencyKey) m

section OneJob

variable {jobId jobId' : Str} {key : BytesN 32}

theorem hexToBytes_of_jobKey (h : jobKey jobId = some key) : hexToBytes jobId = some key.1 := by
  obtain ⟨bytes, hbytes, hkey⟩ := Option.bind_eq_some_iff.mp h
  unfold assertLength at hkey
  split at hkey
  · obtain rfl := Option.some.inj hkey
    exact hbytes
  · cases hkey

/-- What the validators ask of an identifier. -/
theorem check32_eq_ok {label : Str} : check32 label jobId = .ok () ↔ ∃ key, jobKey jobId = some key := by
  unfold check32 jobKey assertLength
  cases hexToBytes jobId with
  | none => simp
  | some bytes =>
      by_cases hlen : bytes.length = 32
      · simp only [hlen, Option.bind_some, dite_true, if_true]
        exact ⟨fun _ => ⟨_, rfl⟩, fun _ => trivial⟩
      · simp [hlen]

theorem toLowerCase_of_prefixed (h : jobKey jobId = some key) (hprefixed : Prefixed jobId) :
    toLowerCase jobId = '0' :: 'x' :: Hex.encode key.1 := by
  have hbytes := hexToBytes_of_jobKey h
  obtain ⟨digits, rfl⟩ := hprefixed
  exact congrArg (fun digits => '0' :: 'x' :: digits) (Hex.toLower_of_decode hbytes)

theorem toLowerCase_of_not_prefixed (h : jobKey jobId = some key) (hprefixed : ¬ Prefixed jobId) :
    toLowerCase jobId = Hex.encode key.1 := by
  have hbytes := hexToBytes_of_jobKey h
  have hstrip : strip0x jobId = jobId := by
    unfold strip0x
    split
    · exact absurd ⟨_, rfl⟩ hprefixed
    · rfl
  unfold hexToBytes at hbytes
  rw [hstrip] at hbytes
  exact Hex.toLower_of_decode hbytes

/-- The keys of a job are its digits, with and without `0x`. -/
theorem toLowerCase_eq_iff (h : jobKey jobId = some key) (h' : jobKey jobId' = some key) :
    toLowerCase jobId = toLowerCase jobId' ↔ (Prefixed jobId ↔ Prefixed jobId') := by
  have hne : '0' :: 'x' :: Hex.encode key.1 ≠ Hex.encode key.1 := by
    intro heq
    have hlength := congrArg List.length heq
    simp only [List.length_cons] at hlength
    omega
  by_cases hprefixed : Prefixed jobId
  · by_cases hprefixed' : Prefixed jobId'
    · simp only [toLowerCase_of_prefixed h hprefixed, toLowerCase_of_prefixed h' hprefixed', hprefixed,
        hprefixed']
    · simp only [toLowerCase_of_prefixed h hprefixed, toLowerCase_of_not_prefixed h' hprefixed', hne, hprefixed,
        hprefixed', iff_false, not_true_eq_false]
  · by_cases hprefixed' : Prefixed jobId'
    · simp only [toLowerCase_of_not_prefixed h hprefixed, toLowerCase_of_prefixed h' hprefixed', hne.symm,
        hprefixed, hprefixed', iff_true]
    · simp only [toLowerCase_of_not_prefixed h hprefixed, toLowerCase_of_not_prefixed h' hprefixed',
        hprefixed, hprefixed']

/-! ### One key -/

theorem toLowerCase_respell (h : toLowerCase jobId = toLowerCase jobId') (id : Str) :
    toLowerCase (respell jobId jobId' id) = toLowerCase id := by
  unfold respell
  split
  next heq => rw [heq, h]
  next => rfl

theorem mapId_respell (h : toLowerCase jobId = toLowerCase jobId') (m : RelayerMessage) :
    (m.mapId (respell jobId jobId')).mapId toLowerCase = m.mapId toLowerCase := by
  cases m <;> simp only [RelayerMessage.mapId, toLowerCase_respell h]

/-- Both are delivered alike. -/
theorem step_deliverPayload {D K : Type} (C : Crypto D K) (h : jobKey jobId = some key) (hub : Hub)
    (now : ℤ) (x25519Pk box : Str) :
    hub.step C (.deliver now (Sdk.deliverPayload jobId x25519Pk box).1 (Sdk.deliverPayload jobId x25519Pk box).2) =
      if (jobKey x25519Pk).isSome then
        hub.rememberAssignment now ⟨toLowerCase jobId, x25519Pk, box, none⟩
      else hub := by
  have hid : ∀ label, check32 label jobId = .ok () := fun label => check32_eq_ok.mpr ⟨key, h⟩
  have hvalid : validatePayload (Sdk.deliverPayload jobId x25519Pk box).2 =
      (check32 "payload recipient".toList x25519Pk).map fun _ => ⟨jobId, x25519Pk, box, none⟩ := by
    simp only [validatePayload, Sdk.deliverPayload, RawMessage.isA, decide_true, Bool.and_self, hid]
    cases check32 "payload recipient".toList x25519Pk <;> rfl
  have hingest : ingest C (Sdk.deliverPayload jobId x25519Pk box).1 (Sdk.deliverPayload jobId x25519Pk box).2 =
      (check32 "payload recipient".toList x25519Pk).toOption.map fun _ =>
        .payload ⟨jobId, x25519Pk, box, some (jobId ++ ":".toList ++ x25519Pk)⟩ := by
    show (validatePayload _).toOption.bind _ = _
    rw [hvalid]
    cases check32 "payload recipient".toList x25519Pk with
    | error e => rfl
    | ok u => simp [Except.map, Except.toOption]
  simp only [Hub.step, hingest]
  cases hrecipient : check32 "payload recipient".toList x25519Pk with
  | error e =>
    have hnone : ¬ (jobKey x25519Pk).isSome := by
      intro hsome
      have hok : check32 "payload recipient".toList x25519Pk = .ok () :=
        check32_eq_ok.mpr (Option.isSome_iff_exists.mp hsome)
      rw [hrecipient] at hok
      cases hok
    rw [if_neg hnone]
    rfl
  | ok u =>
    have hsome := Option.isSome_iff_exists.mpr (check32_eq_ok.mp hrecipient)
    rw [if_pos hsome]
    show hub.rememberAssignment now _ = _
    simp only [Hub.rememberAssignment, toLowerCase_toLowerCase]

theorem OneJob.of_lower (h : jobKey jobId = some key) (h' : jobKey jobId' = some key)
    (hlower : toLowerCase jobId = toLowerCase jobId') : OneJob jobId jobId' where
  heard hub ms := by
    rw [Hub.lower_hear, Hub.lower_hear, List.map_map]
    congr 1
    apply List.map_congr_left
    intro e _
    exact congrArg (Prod.mk e.1) (mapId_respell hlower e.2)
  hubBids hub := by rw [Hub.bidsFor, Hub.bidsFor, hlower]
  remembered bids now bid := by
    rw [EngineBids.lower_rememberBid, EngineBids.lower_rememberBid, hlower]
  engineBids bids := by rw [EngineBids.bidsFor, EngineBids.bidsFor, hlower]
  started jobs now := by rw [PendingJobs.start, PendingJobs.start, hlower]
  finished jobs := by rw [PendingJobs.finish, PendingJobs.finish, hlower]
  enqueued n entry := by simp only [Node.insert, hlower]
  queued n := by rw [Node.get, Node.get, hlower]
  accepted tx := by simp only [markAccepted, Node.get, hlower]
  resolved := by
    intro W
    simp only [resolve, Node.remove, hlower]
  failed error := by simp only [recordFailure, Node.get, hlower]
  recorded ledger entry := by
    simp only [JobLedger.record, JobLedger.lower, Dict.mapValues_set, JobLedgerEntry.lower, hlower]
  found ledger := by rw [JobLedger.get, JobLedger.get, hlower]
  removed ledger := by rw [JobLedger.remove, JobLedger.remove, hlower]
  fetched C view bids := by
    have hview : Sdk.verifyBidRegistryState view jobId = Sdk.verifyBidRegistryState view jobId' := by
      funext bid
      rw [Sdk.verifyBidRegistryState, Sdk.verifyBidRegistryState, hexToBytes_of_jobKey h,
        hexToBytes_of_jobKey h']
    rw [Sdk.fetchBids, Sdk.fetchBids, hlower, hview]
  delivered C hub now x25519Pk box := by
    rw [step_deliverPayload C h, step_deliverPayload C h', hlower]
  routed C idempotencyKey m := by rw [ingest, ingest, hlower]

/-- **Two identifiers of one job are one where both or neither carries a `0x`.** For every two texts that
the validators take and that stand for the same 32 bytes, whatever the case of their letters. -/
theorem one_job_iff (h : jobKey jobId = some key) (h' : jobKey jobId' = some key) :
    OneJob jobId jobId' ↔ (Prefixed jobId ↔ Prefixed jobId') := by
  rw [← toLowerCase_eq_iff h h']
  constructor
  · intro hone
    -- a pending job under the one key only
    have hfound := congrArg (fun jobs : PendingJobs => jobs.find (toLowerCase jobId')) (hone.started [] 0)
    by_contra hne
    simp only [PendingJobs.start, Dict.find_set_self, Dict.find_set_of_ne _ _ (Ne.symm hne)] at hfound
    cases hfound
  · exact OneJob.of_lower h h'

/-- The key of a delivery is the identifier as it is spelled. -/
theorem deliveryKey_eq_iff {x25519Pk box : Str} :
    (Sdk.deliverPayload jobId x25519Pk box).1 = (Sdk.deliverPayload jobId' x25519Pk box).1 ↔ jobId = jobId' := by
  constructor
  · intro heq
    exact (Source.payload.inj heq).1
  · rintro rfl
    rfl

/-- A job whose digits are all letters, in either case. -/
theorem one_job_letters : OneJob ("0x".toList ++ List.replicate 64 'a') ("0x".toList ++ List.replicate 64 'A') :=
  (@one_job_iff _ _ ⟨List.replicate 32 0xaa, by decide⟩ (by decide) (by decide)).mpr
    ⟨fun _ => ⟨_, rfl⟩, fun _ => ⟨_, rfl⟩⟩

/-- A bid for job zero is not found under the identifier without `0x`. -/
theorem job_without_prefix :
    let jobId := bytesToHex (List.replicate 32 0)
    let jobId' := List.replicate 64 '0'
    jobKey jobId = jobKey jobId' ∧ (jobKey jobId').isSome ∧
      (Hub.rememberBid {} 0 { plainBid with jobId := jobId }).bidsFor jobId' = [] ∧
      ¬ OneJob jobId jobId' := by
  intro jobId jobId'
  have hkey : jobKey jobId = some ⟨List.replicate 32 0, by decide⟩ := by decide
  have hkey' : jobKey jobId' = some ⟨List.replicate 32 0, by decide⟩ := by decide
  have hprefixed : ¬ Prefixed jobId' := by
    rintro ⟨digits, hdigits⟩
    have hsecond : '0' = 'x' := congrArg (fun s => s.getD 1 '0') hdigits
    exact absurd hsecond (by decide)
  refine ⟨hkey.trans hkey'.symm, by rw [hkey']; rfl, by decide, ?_⟩
  intro hone
  exact hprefixed (((one_job_iff hkey hkey').mp hone).mp ⟨_, rfl⟩)

end OneJob

end OpaqueStellar.Relayer
