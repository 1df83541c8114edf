import OpaqueStellar.Lib.Dict
import OpaqueStellar.Lib.Machine
import OpaqueStellar.Stealth.Attestations

/-! # Attestations on their way

An attestation is issued on the chain before the page knows its UID, and its recipient is told of it after
that. `frontend/src/lib/pendingAttestations.ts` keeps what is still to be done in a store
(`frontend/src/store/pendingAttestationStore.ts`), and `frontend/src/hooks/usePendingAttestationRecovery.ts`
goes through the store again and again, each time as it was when the round began.

Rounds overlap, lookups and announcements fail, and the page may be reloaded. The stores are written behind
its back (`frontend/src/lib/encryptedStorage.ts`), and each comes back as an older version of itself, or empty
where there is no passphrase to read it with. Still a version of the store loses no attestation that it has
seen before that is recorded (`frontend/src/store/issuedAttestationStore.ts`) and its recipient was told, no
two calls deal with one transaction at once, and what a recipient is told the scanner can read. Calls for one
transaction may follow one another, though, so that its recipient may be told again. -/

namespace OpaqueStellar.Web.PendingAttestations

open OpaqueStellar.Lib
open OpaqueStellar.Schemas (Str)
open OpaqueStellar.Stealth.Rust (extract_v2_fields extract_v2_fields_encode encode_v2_attestation_metadata
  V2_ATTESTATION_MARKER)

/-! ## The stores -/

structure PendingAnnouncement where
  stealthAddressHex : Str
  ephemeralPubKeyHex : Str
  viewTag : ℕ

/-- The cluster and the hash of a transaction. -/
abbrev Key := Str × Str

/-- Identifiers are the bytes that their texts write. -/
structure PendingAttestation where
  cluster : Str
  txHash : Str
  issuer : Str
  schemaId : BytesN 32
  schemaName : Str
  stealthAddressHash : BytesN 32
  isRevocable : Bool
  createdAtSlot : ℕ
  expirationSlot : ℕ
  uid : Option (BytesN 32) := none
  announcement : Option PendingAnnouncement := none
  announceError : Option Str := none
  createdAt : ℕ := 0

def PendingAttestation.key (record : PendingAttestation) : Key := (record.cluster, record.txHash)

structure PendingAttestationState where
  pending : List PendingAttestation := []
  -- what was issued to this version and those before it; the code does not keep it
  issuances : List PendingAttestation := []

def upsert (pending : List PendingAttestation) (record : PendingAttestation) : List PendingAttestation :=
  record :: pending.filter fun x => x.key ≠ record.key

def remove (pending : List PendingAttestation) (key : Key) : List PendingAttestation :=
  pending.filter fun x => x.key ≠ key

structure IssuedAttestation where
  cluster : Str
  uid : BytesN 32
  schemaId : BytesN 32
  schemaName : Str
  stealthAddressHash : BytesN 32
  createdAtSlot : ℕ
  expirationSlot : ℕ
  isRevocable : Bool
  revoked : Bool
  txHash : Str

def IssuedAttestation.key (a : IssuedAttestation) : Str × BytesN 32 := (a.cluster, a.uid)

structure IssuedAttestationState where
  issued : List IssuedAttestation := []
  -- the rows that were added to this version and those before it; the code does not keep them
  recorded : List (Str × BytesN 32) := []

def addIssued (issued : List IssuedAttestation) (a : IssuedAttestation) : List IssuedAttestation :=
  a :: issued.filter fun x => x.key ≠ a.key

/-- What the chain says, but for the hash of a transaction that it does not know. -/
def mergeIssued (issued list : List IssuedAttestation) : List IssuedAttestation :=
  let own := issued.foldl (fun byKey x => Dict.set byKey x.key x) []
  let byKey := list.foldl (fun byKey x =>
    let prev := Dict.find byKey x.key
    let txHash := if x.txHash ≠ [] then x.txHash else (prev.map (·.txHash)).getD []
    Dict.set byKey x.key { x with txHash := txHash }) own
  byKey.map (·.2)

def markRevoked (issued : List IssuedAttestation) (uid : BytesN 32) (cluster : Str) :
    List IssuedAttestation :=
  issued.map fun x => if x.key = (cluster, uid) then { x with revoked := true } else x

/-! ## What the recipient is told -/

/-- `buffer.set(bytes, offset)` -/
def setBytes (buffer bytes : List UInt8) (offset : ℕ) : List UInt8 :=
  buffer.take offset ++ bytes ++ buffer.drop (offset + bytes.length)

def buildAttestationAnnouncementMetadata (viewTag : ℕ) (schemaId issuerBytes uid nonce : BytesN 32)
    (expirySlot : ℕ) : List UInt8 :=
  let metadata := List.replicate 134 0
  let metadata := (metadata.set 0 (UInt8.ofNat viewTag)).set 1 0xb2
  let metadata := setBytes metadata schemaId.1 2
  let metadata := setBytes metadata issuerBytes.1 34
  let metadata := setBytes metadata uid.1 66
  let metadata := setBytes metadata nonce.1 98
  setBytes metadata (beBytes 4 (expirySlot % 2 ^ 32)) 130

/-! ## Recovery -/

/-- Where the call for one record is, from one `await` to the next. -/
inductive Stage where
  | starting
  -- awaits `resolveUid`
  | resolving
  -- awaits `announce`
  | announcing (uid : BytesN 32)
  -- `advance` is over, but the record is still in flight
  | finishing (next : Option PendingAttestation)
  -- `recoverPendingAttestation` is over
  | returned (next : Option PendingAttestation)

/-- A round over records as they were when it began. -/
structure Run where
  record : PendingAttestation
  stage : Stage := .starting
  rest : List PendingAttestation := []

/-- The page, and what is kept on the device. -/
structure Page where
  pendingStore : PendingAttestationState := {}
  issuedStore : IssuedAttestationState := {}
  -- versions that were written: the storage may have any of them after a reload
  writtenPending : List PendingAttestationState := []
  writtenIssued : List IssuedAttestationState := []
  inFlight : List Key := []
  runs : List Run := []
  -- what was issued, recorded and announced so far; the code does not keep it
  issuances : List PendingAttestation := []
  recorded : List (Str × BytesN 32) := []
  announced : List (Key × List UInt8) := []

/-- The transaction that a call has put in flight. -/
def Run.holds (run : Run) : Option Key :=
  match run.stage with
  | .resolving | .announcing _ | .finishing _ => some run.record.key
  | .starting | .returned _ => none

def PendingAttestation.toIssued (record : PendingAttestation) (uid : BytesN 32) : IssuedAttestation where
  cluster := record.cluster
  uid := uid
  schemaId := record.schemaId
  schemaName := record.schemaName
  stealthAddressHash := record.stealthAddressHash
  createdAtSlot := record.createdAtSlot
  expirationSlot := record.expirationSlot
  isRevocable := record.isRevocable
  revoked := false
  txHash := record.txHash

/-- `advance`, once the UID is there. -/
def Run.resolved (run : Run) (uid : BytesN 32) : Run :=
  match run.record.announcement with
  | none => { run with stage := .finishing none }
  | some _ => { run with stage := .announcing uid }

/-- The first part of `recoverPendingAttestation`. -/
def Page.enter (page : Page) (i : ℕ) (run : Run) : Page :=
  if run.record.key ∈ page.inFlight then
    { page with runs := page.runs.set i { run with stage := .returned (some run.record) } }
  else
    let next := match run.record.uid with
      | some uid => run.resolved uid
      | none => { run with stage := .resolving }
    { page with inFlight := run.record.key :: page.inFlight, runs := page.runs.set i next }

/-- What `advancePendingAttestation` does with the outcome; then the round goes on. -/
def Page.leave (page : Page) (i : ℕ) (run : Run) (next : Option PendingAttestation) : Page :=
  { page with
    pendingStore := { page.pendingStore with
      pending := match next with
        | some record => upsert page.pendingStore.pending record
        | none => remove page.pendingStore.pending run.record.key }
    runs := match run.rest with
      | [] => page.runs.eraseIdx i
      | record :: rest => page.runs.set i { record := record, rest := rest } }

/-- One turn of a round that does not await an answer. -/
def Page.turn (page : Page) (i : ℕ) : Page :=
  match page.runs[i]? with
  | none => page
  | some run =>
    match run.stage with
    | .starting => page.enter i run
    | .finishing next =>
      { page with
        inFlight := page.inFlight.filter (· ≠ run.record.key)
        runs := page.runs.set i { run with stage := .returned next } }
    | .returned next => page.leave i run next
    | .resolving | .announcing _ => page

section Chain

-- the UID that the event of a transaction has, and the bytes of an address
variable (uidOf : Key → BytesN 32) (addressToAuthorityBytes : Str → BytesN 32)

/-- `resolveUid` has answered; it fails, or the event cannot be seen yet. -/
def Page.answerUid (page : Page) (i : ℕ) (visible : Bool) : Page :=
  match page.runs[i]? with
  | none => page
  | some run =>
    match run.stage with
    | .resolving =>
      if visible then
        let uid := uidOf run.record.key
        let record := { run.record with uid := some uid }
        { page with
          issuedStore :=
            { issued := addIssued page.issuedStore.issued (record.toIssued uid)
              recorded := page.issuedStore.recorded ++ [(record.cluster, uid)] }
          recorded := page.recorded ++ [(record.cluster, uid)]
          runs := page.runs.set i (Run.resolved { run with record := record } uid) }
      else { page with runs := page.runs.set i { run with stage := .finishing (some run.record) } }
    | _ => page

/-- `announce` has answered. -/
def Page.answerAnnounce (page : Page) (i : ℕ) (nonce : BytesN 32) (error : Option Str) : Page :=
  match page.runs[i]? with
  | none => page
  | some run =>
    match run.stage with
    | .announcing uid =>
      match error with
      | none =>
        let metadata := buildAttestationAnnouncementMetadata
          ((run.record.announcement.map (·.viewTag)).getD 0) run.record.schemaId
          (addressToAuthorityBytes run.record.issuer) uid nonce run.record.expirationSlot
        { page with
          announced := page.announced ++ [(run.record.key, metadata)]
          runs := page.runs.set i { run with stage := .finishing none } }
      | some message =>
        let record := { run.record with announceError := some message }
        { page with runs := page.runs.set i { run with stage := .finishing (some record) } }
    | _ => page

inductive PageEvent where
  -- the transaction has landed
  | issue (record : PendingAttestation)
  -- the timer, for the connected issuer
  | recover (cluster issuer : Str)
  -- the user retries one
  | retry (key : Key)
  | turn (i : ℕ)
  | answerUid (i : ℕ) (visible : Bool)
  | answerAnnounce (i : ℕ) (nonce : BytesN 32) (error : Option Str)
  | mergeIssued (list : List IssuedAttestation)
  | markRevoked (uid : BytesN 32) (cluster : Str)
  -- what was encrypted of a store lands in the storage
  | savePending
  | saveIssued
  | reload
  -- what was read of a store is there; without a passphrase nothing is
  | hydratePending (version : ℕ)
  | hydrateIssued (version : ℕ)

/-- The transaction that an event reports. -/
def PageEvent.issues : PageEvent → Option Key
  | .issue record => some record.key
  | _ => none

def Page.startRun (page : Page) : List PendingAttestation → Page
  | [] => page
  | record :: rest => { page with runs := page.runs ++ [{ record := record, rest := rest }] }

def Page.step (page : Page) : PageEvent → Page
  | .issue record =>
    let record := { record with uid := none, announceError := none }
    { page with
      pendingStore :=
        { pending := upsert page.pendingStore.pending record
          issuances := page.pendingStore.issuances ++ [record] }
      issuances := page.issuances ++ [record] }.startRun [record]
  | .recover cluster issuer =>
    let records := page.pendingStore.pending.filter fun x => x.cluster = cluster
    page.startRun (records.filter fun x => x.issuer = issuer)
  | .retry key => page.startRun (page.pendingStore.pending.find? fun x => x.key = key).toList
  | .turn i => page.turn i
  | .answerUid i visible => page.answerUid uidOf i visible
  | .answerAnnounce i nonce error => page.answerAnnounce addressToAuthorityBytes i nonce error
  | .mergeIssued list =>
    { page with issuedStore := { page.issuedStore with issued := mergeIssued page.issuedStore.issued list } }
  | .markRevoked uid cluster =>
    { page with
      issuedStore := { page.issuedStore with issued := markRevoked page.issuedStore.issued uid cluster } }
  | .savePending => { page with writtenPending := page.pendingStore :: page.writtenPending }
  | .saveIssued => { page with writtenIssued := page.issuedStore :: page.writtenIssued }
  | .reload => { page with pendingStore := {}, issuedStore := {}, inFlight := [], runs := [] }
  | .hydratePending version =>
    { page with pendingStore := (page.writtenPending[version]?).getD page.pendingStore }
  | .hydrateIssued version =>
    { page with issuedStore := (page.writtenIssued[version]?).getD page.issuedStore }

def recovery : Machine Page PageEvent Unit :=
  ⟨fun page event => (page.step uidOf addressToAuthorityBytes event, ())⟩

end Chain

/-! ## The metadata -/

section Metadata

variable {pre bytes : List UInt8} {offset n k : ℕ}

/-- What is written into the zeros that follow. -/
theorem setBytes_append (hpre : pre.length = offset) (hbytes : bytes.length = n) :
    setBytes (pre ++ List.replicate (n + k) 0) bytes offset = (pre ++ bytes) ++ List.replicate k 0 := by
  subst hpre hbytes
  unfold setBytes
  rw [List.take_left, List.drop_append, List.drop_of_length_le (Nat.le_add_right _ _), List.nil_append,
    Nat.add_sub_cancel_left, List.drop_replicate, Nat.add_sub_cancel_left]

/-- The page writes what the scanner would write. -/
theorem buildAttestationAnnouncementMetadata_eq (viewTag : ℕ) (schemaId issuerBytes uid nonce : BytesN 32)
    (expirySlot : ℕ) :
    buildAttestationAnnouncementMetadata viewTag schemaId issuerBytes uid nonce expirySlot =
      encode_v2_attestation_metadata (UInt8.ofNat viewTag) schemaId issuerBytes uid nonce
        (UInt32.ofNat expirySlot) := by
  have hstart : ((List.replicate 134 0).set 0 (UInt8.ofNat viewTag)).set 1 0xb2 =
      [UInt8.ofNat viewTag, 0xb2] ++ List.replicate (32 + (32 + (32 + (32 + (4 + 0))))) 0 := rfl
  -- how much is written before each field
  have h34 : ([UInt8.ofNat viewTag, 0xb2] ++ schemaId.1).length = 34 := by simp [schemaId.2]
  have h66 : ([UInt8.ofNat viewTag, 0xb2] ++ schemaId.1 ++ issuerBytes.1).length = 66 := by
    simp [schemaId.2, issuerBytes.2]
  have h98 : ([UInt8.ofNat viewTag, 0xb2] ++ schemaId.1 ++ issuerBytes.1 ++ uid.1).length = 98 := by
    simp [schemaId.2, issuerBytes.2, uid.2]
  have h130 : ([UInt8.ofNat viewTag, 0xb2] ++ schemaId.1 ++ issuerBytes.1 ++ uid.1 ++ nonce.1).length =
      130 := by
    simp [schemaId.2, issuerBytes.2, uid.2, nonce.2]
  unfold buildAttestationAnnouncementMetadata
  dsimp only
  rw [hstart, setBytes_append (show [UInt8.ofNat viewTag, 0xb2].length = 2 from rfl) schemaId.2,
    setBytes_append h34 issuerBytes.2, setBytes_append h66 uid.2, setBytes_append h98 nonce.2,
    setBytes_append h130 (length_beBytes _ _), List.replicate_zero, List.append_nil,
    encode_v2_attestation_metadata, UInt32.toNat_ofNat']
  rfl

end Metadata

/-! ## Rows of the issued store -/

section Issued

variable {issued list : List IssuedAttestation} {a x : IssuedAttestation}

/-- A row for each key, and none goes. -/
structure Keeps (issued issued' : List IssuedAttestation) : Prop where
  oneRow : (issued'.map (·.key)).Nodup
  kept : ∀ x ∈ issued, x.key ∈ issued'.map (·.key)

theorem keeps_addIssued (h : (issued.map (·.key)).Nodup) (a : IssuedAttestation) :
    Keeps issued (addIssued issued a) where
  oneRow := by
    refine List.nodup_cons.mpr ⟨?_, h.sublist (List.filter_sublist.map _)⟩
    intro hmem
    obtain ⟨x, hx, hkey⟩ := List.mem_map.mp hmem
    simpa [hkey] using (List.mem_filter.mp hx).2
  kept := by
    intro x hx
    by_cases hkey : x.key = a.key
    · exact List.mem_cons.mpr (.inl hkey)
    · exact List.mem_cons_of_mem _ (List.mem_map_of_mem (List.mem_filter.mpr ⟨hx, by simpa using hkey⟩))

theorem keeps_markRevoked (h : (issued.map (·.key)).Nodup) (uid : BytesN 32) (cluster : Str) :
    Keeps issued (markRevoked issued uid cluster) := by
  have hkeys : (markRevoked issued uid cluster).map (·.key) = issued.map (·.key) := by
    unfold markRevoked
    rw [List.map_map]
    apply List.map_congr_left
    intro x _
    show IssuedAttestation.key (if _ then _ else _) = _
    split <;> rfl
  refine ⟨hkeys ▸ h, ?_⟩
  intro x hx
  rw [hkeys]
  exact List.mem_map_of_mem hx

/-- Rows under their own keys. -/
def Own (byKey : Dict (Str × BytesN 32) IssuedAttestation) : Prop := ∀ e ∈ byKey, e.2.key = e.1

theorem Own.set {byKey : Dict (Str × BytesN 32) IssuedAttestation} (h : Own byKey) (hkey : x.key = a.key) :
    Own (byKey.set a.key x) := by
  intro e he
  rcases Dict.mem_set he with rfl | ⟨he, -⟩
  · exact hkey
  · exact h e he

theorem Own.keys {byKey : Dict (Str × BytesN 32) IssuedAttestation} (h : Own byKey) :
    (byKey.map (·.2)).map (·.key) = byKey.map (·.1) := by
  rw [List.map_map]
  exact List.map_congr_left h

/-- Setting rows one after the other, whatever becomes of their other fields. -/
theorem own_foldl_set {f : Dict (Str × BytesN 32) IssuedAttestation → IssuedAttestation → IssuedAttestation}
    (hf : ∀ byKey x, (f byKey x).key = x.key) (list : List IssuedAttestation)
    {byKey : Dict (Str × BytesN 32) IssuedAttestation} (hd : byKey.Distinct) (h : Own byKey) :
    Dict.Distinct (list.foldl (fun byKey x => Dict.set byKey x.key (f byKey x)) byKey) ∧
      Own (list.foldl (fun byKey x => Dict.set byKey x.key (f byKey x)) byKey) ∧
      ∀ key, key ∈ byKey.map (·.1) ∨ key ∈ list.map (·.key) →
        key ∈ (list.foldl (fun byKey x => Dict.set byKey x.key (f byKey x)) byKey).map (·.1) := by
  induction list generalizing byKey with
  | nil => exact ⟨hd, h, fun key hkey => hkey.resolve_right (List.not_mem_nil)⟩
  | cons x list ih =>
      obtain ⟨hd', h', hkeys⟩ := ih (Dict.distinct_set hd x.key (f byKey x)) (h.set (hf byKey x))
      refine ⟨hd', h', ?_⟩
      intro key hkey
      apply hkeys
      rw [Dict.mem_keys_set]
      simp only [List.map_cons, List.mem_cons] at hkey
      tauto

theorem keeps_mergeIssued (issued list : List IssuedAttestation) :
    Keeps issued (mergeIssued issued list) := by
  have hempty : Dict.Distinct ([] : Dict (Str × BytesN 32) IssuedAttestation) := List.nodup_nil
  obtain ⟨hd, h, hkeys⟩ := own_foldl_set (f := fun _ x => x) (fun _ _ => rfl) issued hempty
    (List.forall_mem_nil _)
  obtain ⟨hd', h', hkeys'⟩ := own_foldl_set (f := fun byKey x =>
    { x with txHash := if x.txHash ≠ [] then x.txHash else ((Dict.find byKey x.key).map (·.txHash)).getD [] })
    (fun _ _ => rfl) list hd h
  constructor
  · exact h'.keys ▸ hd'
  · intro x hx
    exact h'.keys ▸ hkeys' x.key (.inl (hkeys x.key (.inr (List.mem_map_of_mem hx))))

end Issued

/-! ## Nothing is lost -/

section Invariant

variable (uidOf : Key → BytesN 32) (addressToAuthorityBytes : Str → BytesN 32)

def Recorded (page : Page) (key : Key) : Prop := (key.1, uidOf key) ∈ page.recorded

/-- It was recorded, and the recipient was told if there is a way to. -/
structure Done (page : Page) (r : PendingAttestation) : Prop where
  recorded : Recorded uidOf page r.key
  told : r.announcement.isSome → r.key ∈ page.announced.map (·.1)

/-- A record as it is kept somewhere, of an attestation that was issued. -/
structure Copy (page : Page) (p : PendingAttestation) : Prop where
  issued : ∃ r ∈ page.issuances, p = { r with uid := p.uid, announceError := p.announceError }
  recorded : ∀ uid, p.uid = some uid → uid = uidOf p.key ∧ Recorded uidOf page p.key

/-- What a call for a transaction leaves behind. -/
def Outcome (page : Page) (key : Key) : Option PendingAttestation → Prop
  | some p => Copy uidOf page p ∧ p.key = key
  | none => ∃ r ∈ page.issuances, r.key = key ∧ Done uidOf page r

/-- What is known of a round where it stands. -/
structure RunOk (page : Page) (run : Run) : Prop where
  record : Copy uidOf page run.record
  rest : ∀ p ∈ run.rest, Copy uidOf page p
  stage : match run.stage with
    | .starting | .resolving => True
    | .announcing uid => run.record.uid = some uid
    | .finishing next | .returned next => Outcome uidOf page run.record.key next

/-- The rounds, in whatever order they are listed. -/
structure Runs (page : Page) (runs : List Run) : Prop where
  ok : ∀ run ∈ runs, RunOk uidOf page run
  exclusive : (runs.filterMap Run.holds).Nodup
  held : ∀ key ∈ runs.filterMap Run.holds, key ∈ page.inFlight

/-- What one can read of an announcement. -/
def Readable (page : Page) (a : Key × List UInt8) : Prop :=
  ∃ r ∈ page.issuances, r.key = a.1 ∧ ∃ nonce, extract_v2_fields a.2 =
    some ⟨r.schemaId, addressToAuthorityBytes r.issuer, uidOf r.key, nonce, UInt32.ofNat r.expirationSlot⟩

/-- A version of the pending store has what was issued to it, but for what is done. -/
structure PendingOk (page : Page) (store : PendingAttestationState) : Prop where
  copies : ∀ p ∈ store.pending, Copy uidOf page p
  issued : store.issuances ⊆ page.issuances
  kept : ∀ r ∈ store.issuances, r.key ∈ store.pending.map (·.key) ∨ Done uidOf page r

/-- A version of the issued store has the rows that were added to it, each once. -/
structure IssuedOk (store : IssuedAttestationState) : Prop where
  oneRow : (store.issued.map (·.key)).Nodup
  kept : store.recorded ⊆ store.issued.map (·.key)

structure Page.Inv (page : Page) : Prop where
  distinct : (page.issuances.map (·.key)).Nodup
  pendingStore : PendingOk uidOf page page.pendingStore
  writtenPending : ∀ store ∈ page.writtenPending, PendingOk uidOf page store
  issuedStore : IssuedOk page.issuedStore
  writtenIssued : ∀ store ∈ page.writtenIssued, IssuedOk store
  runs : Runs uidOf page page.runs
  readable : ∀ a ∈ page.announced, Readable uidOf addressToAuthorityBytes page a

/-- What is issued, recorded and announced stays so. -/
structure Grows (page page' : Page) : Prop where
  issuances : page.issuances ⊆ page'.issuances
  recorded : page.recorded ⊆ page'.recorded
  announced : page.announced ⊆ page'.announced

variable {uidOf addressToAuthorityBytes} {page page' : Page} {p r : PendingAttestation} {run run' : Run}
  {runs others : List Run} {key : Key} {next : Option PendingAttestation} {store : PendingAttestationState}

theorem Done.mono (h : Done uidOf page r) (hg : Grows page page') : Done uidOf page' r where
  recorded := hg.recorded h.recorded
  told hsome := List.map_subset _ hg.announced (h.told hsome)

theorem Copy.mono (h : Copy uidOf page p) (hg : Grows page page') : Copy uidOf page' p where
  issued := h.issued.imp fun _ hr => ⟨hg.issuances hr.1, hr.2⟩
  recorded uid huid := ⟨(h.recorded uid huid).1, hg.recorded (h.recorded uid huid).2⟩

theorem PendingOk.mono (h : PendingOk uidOf page store) (hg : Grows page page') :
    PendingOk uidOf page' store where
  copies p hp := (h.copies p hp).mono hg
  issued _ hr := hg.issuances (h.issued hr)
  kept r hr := (h.kept r hr).imp_right fun hdone => hdone.mono hg

theorem Outcome.mono (h : Outcome uidOf page key next) (hg : Grows page page') :
    Outcome uidOf page' key next := by
  cases next with
  | none =>
      obtain ⟨r, hr, hkey, hdone⟩ := h
      exact ⟨r, hg.issuances hr, hkey, hdone.mono hg⟩
  | some p => exact ⟨h.1.mono hg, h.2⟩

theorem RunOk.mono (h : RunOk uidOf page run) (hg : Grows page page') : RunOk uidOf page' run where
  record := h.record.mono hg
  rest p hp := (h.rest p hp).mono hg
  stage := by
    have hstage := h.stage
    split at hstage
    · trivial
    · trivial
    · exact hstage
    · exact hstage.mono hg
    · exact hstage.mono hg

theorem Readable.mono {a : Key × List UInt8} (h : Readable uidOf addressToAuthorityBytes page a)
    (hg : Grows page page') : Readable uidOf addressToAuthorityBytes page' a :=
  h.imp fun _ hr => ⟨hg.issuances hr.1, hr.2⟩

theorem pendingOk_empty (page : Page) : PendingOk uidOf page {} :=
  ⟨List.forall_mem_nil _, List.nil_subset _, List.forall_mem_nil _⟩

theorem issuedOk_empty : IssuedOk {} := ⟨List.nodup_nil, List.nil_subset _⟩

theorem IssuedOk.keeps {store : IssuedAttestationState} (h : IssuedOk store) {issued : List IssuedAttestation}
    (hkeeps : Keeps store.issued issued) : IssuedOk { store with issued := issued } where
  oneRow := hkeeps.oneRow
  kept key hkey := by
    obtain ⟨x, hx, rfl⟩ := List.mem_map.mp (h.kept hkey)
    exact hkeeps.kept x hx

/-- A row that is there is one of those that were added. -/
theorem IssuedOk.add {store : IssuedAttestationState} (h : IssuedOk store) {key : Str × BytesN 32}
    (hkey : key ∈ store.issued.map (·.key)) : IssuedOk { store with recorded := store.recorded ++ [key] } where
  oneRow := h.oneRow
  kept := List.append_subset.mpr ⟨h.kept, List.cons_subset.mpr ⟨hkey, List.nil_subset _⟩⟩

theorem Runs.perm (h : Runs uidOf page runs) {runs' : List Run} (hperm : runs.Perm runs') :
    Runs uidOf page runs' where
  ok run hrun := h.ok run (hperm.mem_iff.mpr hrun)
  exclusive := (hperm.filterMap _).nodup_iff.mp h.exclusive
  held key hkey := h.held key ((hperm.filterMap _).mem_iff.mpr hkey)

/-- The other rounds, while one is at its turn. -/
theorem Runs.tail (h : Runs uidOf page (run :: others)) (hg : Grows page page')
    (hinFlight : page'.inFlight = page.inFlight) : Runs uidOf page' others where
  ok run hrun := (h.ok run (List.mem_cons_of_mem _ hrun)).mono hg
  exclusive := h.exclusive.sublist ((List.sublist_cons_self _ _).filterMap _)
  held key hkey := by
    rw [hinFlight]
    exact h.held key (((List.sublist_cons_self _ _).filterMap _).subset hkey)

/-- A turn that puts nothing in flight and takes nothing out. -/
theorem Runs.same (h : Runs uidOf page (run :: others)) (hg : Grows page page')
    (hinFlight : page'.inFlight = page.inFlight) (hrun : RunOk uidOf page' run')
    (hholds : run'.holds = run.holds) : Runs uidOf page' (run' :: others) := by
  have heq : (run' :: others).filterMap Run.holds = (run :: others).filterMap Run.holds := by
    rw [List.filterMap_cons, List.filterMap_cons, hholds]
  refine ⟨List.forall_mem_cons.mpr ⟨hrun, (h.tail hg hinFlight).ok⟩, ?_, ?_⟩
  · rw [heq]
    exact h.exclusive
  · rw [heq, hinFlight]
    exact h.held

theorem Runs.acquire (h : Runs uidOf page (run :: others)) (hg : Grows page page')
    (hfree : run.holds = none) (hnew : key ∉ page.inFlight)
    (hinFlight : page'.inFlight = key :: page.inFlight) (hrun : RunOk uidOf page' run')
    (hholds : run'.holds = some key) : Runs uidOf page' (run' :: others) := by
  have hbefore : (run :: others).filterMap Run.holds = others.filterMap Run.holds :=
    List.filterMap_cons_none hfree
  have hafter : (run' :: others).filterMap Run.holds = key :: others.filterMap Run.holds :=
    List.filterMap_cons_some hholds
  have hexclusive := h.exclusive
  have hheld := h.held
  rw [hbefore] at hexclusive hheld
  refine ⟨List.forall_mem_cons.mpr ⟨hrun, ?_⟩, ?_, ?_⟩
  · exact fun run hmem => (h.ok run (List.mem_cons_of_mem _ hmem)).mono hg
  · rw [hafter]
    exact List.nodup_cons.mpr ⟨fun hmem => hnew (hheld key hmem), hexclusive⟩
  · rw [hafter, hinFlight]
    intro key' hkey'
    rcases List.mem_cons.mp hkey' with rfl | hkey'
    · exact List.mem_cons_self
    · exact List.mem_cons_of_mem _ (hheld key' hkey')

theorem Runs.release (h : Runs uidOf page (run :: others)) (hg : Grows page page')
    (hheld : run.holds = some key) (hinFlight : page'.inFlight = page.inFlight.filter (· ≠ key))
    (hrun : RunOk uidOf page' run') (hholds : run'.holds = none) : Runs uidOf page' (run' :: others) := by
  have hbefore : (run :: others).filterMap Run.holds = key :: others.filterMap Run.holds :=
    List.filterMap_cons_some hheld
  have hafter : (run' :: others).filterMap Run.holds = others.filterMap Run.holds :=
    List.filterMap_cons_none hholds
  have hexclusive := h.exclusive
  have hin := h.held
  rw [hbefore] at hexclusive hin
  rw [List.nodup_cons] at hexclusive
  refine ⟨List.forall_mem_cons.mpr ⟨hrun, ?_⟩, ?_, ?_⟩
  · exact fun run hmem => (h.ok run (List.mem_cons_of_mem _ hmem)).mono hg
  · rw [hafter]
    exact hexclusive.2
  · rw [hafter, hinFlight]
    intro key' hkey'
    refine List.mem_filter.mpr ⟨hin key' (List.mem_cons_of_mem _ hkey'), ?_⟩
    simpa using ne_of_mem_of_not_mem hkey' hexclusive.1

/-! ### One turn -/

theorem runs_perm {i : ℕ} (hi : runs[i]? = some run) : runs.Perm (run :: runs.eraseIdx i) := by
  obtain ⟨hlt, rfl⟩ := List.getElem?_eq_some_iff.mp hi
  exact (List.getElem_cons_eraseIdx_perm hlt).symm

theorem runs_set_perm {i : ℕ} (hi : runs[i]? = some run) (run' : Run) :
    (runs.set i run').Perm (run' :: runs.eraseIdx i) :=
  List.set_perm_cons_eraseIdx (List.getElem?_eq_some_iff.mp hi).1 run'

theorem grows_inFlight (page : Page) (inFlight : List Key) (runs : List Run) :
    Grows page { page with inFlight := inFlight, runs := runs } :=
  ⟨List.Subset.refl _, List.Subset.refl _, List.Subset.refl _⟩

/-- What is issued, recorded and announced grows, and no store is written. -/
theorem Page.Inv.grow (h : page.Inv uidOf addressToAuthorityBytes) (hg : Grows page page')
    (hdistinct : (page'.issuances.map (·.key)).Nodup)
    (hpending : PendingOk uidOf page' page'.pendingStore)
    (hwrittenPending : page'.writtenPending = page.writtenPending)
    (hissued : IssuedOk page'.issuedStore) (hwrittenIssued : page'.writtenIssued = page.writtenIssued)
    (hruns : Runs uidOf page' page'.runs)
    (hreadable : ∀ a ∈ page'.announced, a ∉ page.announced → Readable uidOf addressToAuthorityBytes page' a) :
    page'.Inv uidOf addressToAuthorityBytes := by
  refine ⟨hdistinct, hpending, ?_, hissued, hwrittenIssued ▸ h.writtenIssued, hruns, ?_⟩
  · rw [hwrittenPending]
    exact fun store hstore => (h.writtenPending store hstore).mono hg
  · intro a ha
    by_cases hold : a ∈ page.announced
    · exact (h.readable a hold).mono hg
    · exact hreadable a ha hold

/-- A round goes on, and none of the stores changes. -/
theorem Page.Inv.setRun (h : page.Inv uidOf addressToAuthorityBytes) {inFlight : List Key}
    (hruns : Runs uidOf { page with inFlight := inFlight, runs := runs } runs) :
    ({ page with inFlight := inFlight, runs := runs } : Page).Inv uidOf addressToAuthorityBytes :=
  h.grow (grows_inFlight page _ _) h.distinct (h.pendingStore.mono (grows_inFlight page _ _)) rfl
    h.issuedStore rfl hruns fun _ ha hnew => absurd ha hnew

/-- With the UID at hand, a call either announces or has nothing more to do. -/
theorem runOk_resolved (hrun : RunOk uidOf page run) {uid : BytesN 32} (huid : run.record.uid = some uid) :
    RunOk uidOf page (run.resolved uid) ∧ (run.resolved uid).holds = some run.record.key := by
  unfold Run.resolved
  rcases hannouncement : run.record.announcement with - | announcement
  · refine ⟨⟨hrun.record, hrun.rest, ?_⟩, rfl⟩
    obtain ⟨r, hr, heq⟩ := hrun.record.issued
    have hkey : r.key = run.record.key := by rw [heq]; rfl
    have hnone : r.announcement = none := by rw [← hannouncement, heq]
    refine ⟨r, hr, hkey, ?_, by simp [hnone]⟩
    rw [hkey]
    exact (hrun.record.recorded uid huid).2
  · exact ⟨⟨hrun.record, hrun.rest, huid⟩, rfl⟩

theorem Page.Inv.enter (h : page.Inv uidOf addressToAuthorityBytes) {i : ℕ} (hi : page.runs[i]? = some run)
    (hstarting : run.stage = .starting) : (page.enter i run).Inv uidOf addressToAuthorityBytes := by
  have hruns := h.runs.perm (runs_perm hi)
  have hrun := hruns.ok run List.mem_cons_self
  have hfree : run.holds = none := by rw [Run.holds, hstarting]
  unfold Page.enter
  split
  · apply h.setRun
    apply Runs.perm _ (runs_set_perm hi _).symm
    refine hruns.same (grows_inFlight page _ _) rfl ⟨?_, ?_, ?_⟩ hfree.symm
    · exact hrun.record.mono (grows_inFlight page _ _)
    · exact fun p hp => (hrun.rest p hp).mono (grows_inFlight page _ _)
    · exact ⟨hrun.record.mono (grows_inFlight page _ _), rfl⟩
  next hnew =>
    apply h.setRun
    apply Runs.perm _ (runs_set_perm hi _).symm
    apply hruns.acquire (grows_inFlight page _ _) hfree hnew rfl
    · rcases huid : run.record.uid with - | uid
      · exact ⟨hrun.record.mono (grows_inFlight page _ _),
          fun p hp => (hrun.rest p hp).mono (grows_inFlight page _ _), trivial⟩
      · exact (runOk_resolved hrun huid).1.mono (grows_inFlight page _ _)
    · rcases huid : run.record.uid with - | uid
      · rfl
      · exact (runOk_resolved hrun huid).2

theorem Page.Inv.finish (h : page.Inv uidOf addressToAuthorityBytes) {i : ℕ} (hi : page.runs[i]? = some run)
    (hstage : run.stage = .finishing next) :
    ({ page with
      inFlight := page.inFlight.filter (· ≠ run.record.key)
      runs := page.runs.set i { run with stage := .returned next } } : Page).Inv uidOf
        addressToAuthorityBytes := by
  have hruns := h.runs.perm (runs_perm hi)
  have hrun := hruns.ok run List.mem_cons_self
  have houtcome := hrun.stage
  rw [hstage] at houtcome
  apply h.setRun
  apply Runs.perm _ (runs_set_perm hi _).symm
  refine hruns.release (grows_inFlight page _ _) ?_ rfl ⟨?_, ?_, ?_⟩ rfl
  · rw [Run.holds, hstage]
  · exact hrun.record.mono (grows_inFlight page _ _)
  · exact fun p hp => (hrun.rest p hp).mono (grows_inFlight page _ _)
  · exact houtcome.mono (grows_inFlight page _ _)

theorem map_key_upsert (pending : List PendingAttestation) (p : PendingAttestation) {key : Key}
    (h : key ∈ pending.map (·.key)) : key ∈ (upsert pending p).map (·.key) := by
  unfold upsert
  obtain ⟨x, hx, rfl⟩ := List.mem_map.mp h
  by_cases hkey : x.key = p.key
  · exact List.mem_cons.mpr (.inl hkey)
  · exact List.mem_cons_of_mem _ (List.mem_map_of_mem (List.mem_filter.mpr ⟨hx, by simpa using hkey⟩))

theorem forall_mem_upsert {P : PendingAttestation → Prop} {pending : List PendingAttestation}
    (h : ∀ x ∈ pending, P x) (hp : P p) : ∀ x ∈ upsert pending p, P x :=
  List.forall_mem_cons.mpr ⟨hp, fun x hx => h x (List.mem_of_mem_filter hx)⟩

/-- **A record leaves the store when there is nothing left to do for it.** -/
theorem Page.Inv.leave (h : page.Inv uidOf addressToAuthorityBytes) {i : ℕ} (hi : page.runs[i]? = some run)
    (hstage : run.stage = .returned next) : (page.leave i run next).Inv uidOf addressToAuthorityBytes := by
  have hruns := h.runs.perm (runs_perm hi)
  have hrun := hruns.ok run List.mem_cons_self
  have houtcome := hrun.stage
  rw [hstage] at houtcome
  have hgrows : Grows page (page.leave i run next) :=
    ⟨List.Subset.refl _, List.Subset.refl _, List.Subset.refl _⟩
  have hstore := h.pendingStore.mono hgrows
  refine h.grow hgrows h.distinct ⟨?_, hstore.issued, ?_⟩ rfl h.issuedStore rfl ?_
    fun _ ha hnew => absurd ha hnew
  · cases next with
    | none => exact fun p hp => hstore.copies p (List.mem_of_mem_filter hp)
    | some p => exact forall_mem_upsert hstore.copies (houtcome.1.mono hgrows)
  · intro r hr
    rcases h.pendingStore.kept r hr with hpending | hdone
    · cases next with
      | some p => exact .inl (map_key_upsert page.pendingStore.pending p hpending)
      | none =>
          by_cases hkey : r.key = run.record.key
          · -- the one attestation with this transaction is done
            obtain ⟨r', hr', hkey', hdone⟩ := houtcome
            have heq : r' = r := List.inj_on_of_nodup_map h.distinct hr' (h.pendingStore.issued hr)
              (hkey'.trans hkey.symm)
            exact .inr (heq ▸ hdone.mono hgrows)
          · obtain ⟨x, hx, hxkey⟩ := List.mem_map.mp hpending
            refine .inl (List.mem_map.mpr ⟨x, List.mem_filter.mpr ⟨hx, ?_⟩, hxkey⟩)
            simpa [hxkey] using hkey
    · exact .inr (hdone.mono hgrows)
  · show Runs uidOf (page.leave i run next) (match run.rest with
      | [] => page.runs.eraseIdx i
      | record :: rest => page.runs.set i { record := record, rest := rest })
    rcases hrest : run.rest with - | ⟨record, rest⟩
    · exact hruns.tail hgrows rfl
    · apply Runs.perm _ (runs_set_perm hi _).symm
      refine hruns.same hgrows rfl ⟨?_, ?_, trivial⟩ (by rw [Run.holds, Run.holds, hstage])
      · exact (hrun.rest record (hrest ▸ List.mem_cons_self)).mono hgrows
      · exact fun p hp => (hrun.rest p (hrest ▸ List.mem_cons_of_mem _ hp)).mono hgrows

theorem Page.Inv.turn (h : page.Inv uidOf addressToAuthorityBytes) (i : ℕ) :
    (page.turn i).Inv uidOf addressToAuthorityBytes := by
  unfold Page.turn
  split
  · exact h
  next run hi =>
    split
    next hstage => exact h.enter hi hstage
    next next hstage => exact h.finish hi hstage
    next next hstage => exact h.leave hi hstage
    · exact h
    · exact h

/-! ### Answers -/

theorem Page.Inv.answerUid (h : page.Inv uidOf addressToAuthorityBytes) (i : ℕ) (visible : Bool) :
    (page.answerUid uidOf i visible).Inv uidOf addressToAuthorityBytes := by
  unfold Page.answerUid
  split
  · exact h
  next run hi =>
    split
    next hstage =>
      have hruns := h.runs.perm (runs_perm hi)
      have hrun := hruns.ok run List.mem_cons_self
      have hholds : run.holds = some run.record.key := by rw [Run.holds, hstage]
      split
      · let record := { run.record with uid := some (uidOf run.record.key) }
        let run' := { run with record := record }
        let page' := { page with
          issuedStore :=
            { issued := addIssued page.issuedStore.issued (record.toIssued (uidOf run.record.key))
              recorded := page.issuedStore.recorded ++ [(record.cluster, uidOf run.record.key)] }
          recorded := page.recorded ++ [(record.cluster, uidOf run.record.key)]
          runs := page.runs.set i (run'.resolved (uidOf run.record.key)) }
        have hgrows : Grows page page' :=
          ⟨List.Subset.refl _, List.subset_append_left _ _, List.Subset.refl _⟩
        have hissued : IssuedOk page'.issuedStore := by
          refine (h.issuedStore.keeps (keeps_addIssued h.issuedStore.oneRow _)).add ?_
          exact List.mem_cons_self
        have hcopy : Copy uidOf page' record := by
          refine ⟨?_, fun uid huid => ⟨(Option.some.inj huid).symm,
            List.mem_append_right _ (List.mem_singleton.mpr rfl)⟩⟩
          obtain ⟨r, hr, heq⟩ := hrun.record.issued
          exact ⟨r, hr, congrArg (fun p : PendingAttestation =>
            { p with uid := some (uidOf run.record.key) }) heq⟩
        have hrun' : RunOk uidOf page' run' := by
          refine ⟨hcopy, fun p hp => (hrun.rest p hp).mono hgrows, ?_⟩
          dsimp only [run']
          rw [hstage]
          trivial
        obtain ⟨hresolved, hstill⟩ := runOk_resolved hrun' rfl
        show page'.Inv uidOf addressToAuthorityBytes
        refine h.grow hgrows h.distinct (h.pendingStore.mono hgrows) rfl hissued rfl ?_
          fun _ ha hnew => absurd ha hnew
        apply Runs.perm _ (runs_set_perm hi _).symm
        exact hruns.same hgrows rfl hresolved (hstill.trans hholds.symm)
      · apply h.setRun
        apply Runs.perm _ (runs_set_perm hi _).symm
        refine hruns.same (grows_inFlight page _ _) rfl ⟨?_, ?_, ?_⟩ hholds.symm
        · exact hrun.record.mono (grows_inFlight page _ _)
        · exact fun p hp => (hrun.rest p hp).mono (grows_inFlight page _ _)
        · exact ⟨hrun.record.mono (grows_inFlight page _ _), rfl⟩
    · exact h

theorem Page.Inv.answerAnnounce (h : page.Inv uidOf addressToAuthorityBytes) (i : ℕ) (nonce : BytesN 32)
    (error : Option Str) :
    (page.answerAnnounce addressToAuthorityBytes i nonce error).Inv uidOf addressToAuthorityBytes := by
  unfold Page.answerAnnounce
  split
  · exact h
  next run hi =>
    split
    next uid hstage =>
      have hruns := h.runs.perm (runs_perm hi)
      have hrun := hruns.ok run List.mem_cons_self
      have hholds : run.holds = some run.record.key := by rw [Run.holds, hstage]
      have hhas := hrun.stage
      rw [hstage] at hhas
      obtain ⟨huid, hrecorded⟩ := hrun.record.recorded uid hhas
      obtain ⟨r, hr, heq⟩ := hrun.record.issued
      have hkey : r.key = run.record.key := by rw [heq]; rfl
      split
      · let metadata := buildAttestationAnnouncementMetadata
          ((run.record.announcement.map (·.viewTag)).getD 0) run.record.schemaId
          (addressToAuthorityBytes run.record.issuer) uid nonce run.record.expirationSlot
        let page' := { page with
          announced := page.announced ++ [(run.record.key, metadata)]
          runs := page.runs.set i { run with stage := .finishing none } }
        have hgrows : Grows page page' :=
          ⟨List.Subset.refl _, List.Subset.refl _, List.subset_append_left _ _⟩
        have hdone : Done uidOf page' r := by
          refine ⟨hkey ▸ hrecorded, fun _ => ?_⟩
          show r.key ∈ (page.announced ++ [(run.record.key, metadata)]).map (·.1)
          simp [hkey]
        have hreadable : Readable uidOf addressToAuthorityBytes page' (run.record.key, metadata) := by
          refine ⟨r, hr, hkey, nonce, ?_⟩
          have hschema : run.record.schemaId = r.schemaId := congrArg (·.schemaId) heq
          have hissuer : run.record.issuer = r.issuer := congrArg (·.issuer) heq
          have hexpiry : run.record.expirationSlot = r.expirationSlot := congrArg (·.expirationSlot) heq
          dsimp only [metadata]
          rw [buildAttestationAnnouncementMetadata_eq, extract_v2_fields_encode, huid, ← hkey, hschema,
            hissuer, hexpiry]
        show page'.Inv uidOf addressToAuthorityBytes
        refine h.grow hgrows h.distinct (h.pendingStore.mono hgrows) rfl h.issuedStore rfl ?_ ?_
        · apply Runs.perm _ (runs_set_perm hi _).symm
          refine hruns.same hgrows rfl ⟨hrun.record.mono hgrows, fun p hp => (hrun.rest p hp).mono hgrows, ?_⟩
            hholds.symm
          exact ⟨r, hr, hkey, hdone⟩
        · intro a ha hnew
          exact List.mem_singleton.mp ((List.mem_append.mp ha).resolve_left hnew) ▸ hreadable
      next message =>
        apply h.setRun
        apply Runs.perm _ (runs_set_perm hi _).symm
        refine hruns.same (grows_inFlight page _ _) rfl ⟨?_, ?_, ?_⟩ hholds.symm
        · exact hrun.record.mono (grows_inFlight page _ _)
        · exact fun p hp => (hrun.rest p hp).mono (grows_inFlight page _ _)
        · refine ⟨⟨⟨r, hr, ?_⟩, ?_⟩, rfl⟩
          · exact congrArg (fun p : PendingAttestation => { p with announceError := some message }) heq
          · exact fun uid huid => hrun.record.recorded uid huid
    · exact h

/-! ### Events -/

theorem Page.Inv.startRun (h : page.Inv uidOf addressToAuthorityBytes) {records : List PendingAttestation}
    (hrecords : ∀ p ∈ records, Copy uidOf page p) :
    (page.startRun records).Inv uidOf addressToAuthorityBytes := by
  cases records with
  | nil => exact h
  | cons record rest =>
      rw [List.forall_mem_cons] at hrecords
      have hidle : [({ record := record, rest := rest } : Run)].filterMap Run.holds = [] := rfl
      apply h.setRun
      refine ⟨?_, ?_, ?_⟩
      · intro run hrun
        rcases List.mem_append.mp hrun with hrun | hrun
        · exact (h.runs.ok run hrun).mono (grows_inFlight page _ _)
        · rw [List.mem_singleton.mp hrun]
          exact ⟨hrecords.1.mono (grows_inFlight page _ _),
            fun p hp => (hrecords.2 p hp).mono (grows_inFlight page _ _), trivial⟩
      · rw [List.filterMap_append, hidle, List.append_nil]
        exact h.runs.exclusive
      · rw [List.filterMap_append, hidle, List.append_nil]
        exact h.runs.held

/-- Only the stores change. -/
theorem Page.Inv.setStores (h : page.Inv uidOf addressToAuthorityBytes) {issuedStore : IssuedAttestationState}
    (hpending : PendingOk uidOf page store) (hissued : IssuedOk issuedStore) :
    ({ page with pendingStore := store, issuedStore := issuedStore } : Page).Inv uidOf
      addressToAuthorityBytes := by
  have hgrows : Grows page { page with pendingStore := store, issuedStore := issuedStore } :=
    ⟨List.Subset.refl _, List.Subset.refl _, List.Subset.refl _⟩
  refine h.grow hgrows h.distinct (hpending.mono hgrows) rfl hissued rfl ?_ fun _ ha hnew => absurd ha hnew
  exact ⟨fun run hrun => (h.runs.ok run hrun).mono hgrows, h.runs.exclusive, h.runs.held⟩

/-- Only what is written changes. -/
theorem Page.Inv.setWritten (h : page.Inv uidOf addressToAuthorityBytes)
    {writtenPending : List PendingAttestationState} {writtenIssued : List IssuedAttestationState}
    (hpending : ∀ store ∈ writtenPending, PendingOk uidOf page store)
    (hissued : ∀ store ∈ writtenIssued, IssuedOk store) :
    ({ page with writtenPending := writtenPending, writtenIssued := writtenIssued } : Page).Inv uidOf
      addressToAuthorityBytes := by
  have hgrows : Grows page { page with writtenPending := writtenPending, writtenIssued := writtenIssued } :=
    ⟨List.Subset.refl _, List.Subset.refl _, List.Subset.refl _⟩
  exact ⟨h.distinct, h.pendingStore.mono hgrows, fun store hstore => (hpending store hstore).mono hgrows,
    h.issuedStore, hissued,
    ⟨fun run hrun => (h.runs.ok run hrun).mono hgrows, h.runs.exclusive, h.runs.held⟩,
    fun a ha => (h.readable a ha).mono hgrows⟩

theorem Page.Inv.issue (h : page.Inv uidOf addressToAuthorityBytes) {r : PendingAttestation}
    (hnew : r.key ∉ page.issuances.map (·.key)) (huid : r.uid = none) :
    ({ page with
      pendingStore := ⟨upsert page.pendingStore.pending r, page.pendingStore.issuances ++ [r]⟩
      issuances := page.issuances ++ [r] }.startRun [r]).Inv uidOf addressToAuthorityBytes := by
  let page' : Page := { page with
    pendingStore := ⟨upsert page.pendingStore.pending r, page.pendingStore.issuances ++ [r]⟩
    issuances := page.issuances ++ [r] }
  have hgrows : Grows page page' :=
    ⟨List.subset_append_left _ _, List.Subset.refl _, List.Subset.refl _⟩
  have hcopy : Copy uidOf page' r := by
    refine ⟨⟨r, List.mem_append_right _ (List.mem_singleton.mpr rfl), rfl⟩, ?_⟩
    intro uid hsome
    cases huid.symm.trans hsome
  have hstore := h.pendingStore.mono hgrows
  apply Page.Inv.startRun
  · refine h.grow hgrows ?_ ⟨forall_mem_upsert hstore.copies hcopy, ?_, ?_⟩ rfl h.issuedStore rfl
      ⟨fun run hrun => (h.runs.ok run hrun).mono hgrows, h.runs.exclusive, h.runs.held⟩
      fun _ ha hnew => absurd ha hnew
    · show ((page.issuances ++ [r]).map (·.key)).Nodup
      rw [List.map_append, List.nodup_append]
      refine ⟨h.distinct, by simp, ?_⟩
      intro key hkey key' hkey'
      rw [List.map_singleton, List.mem_singleton] at hkey'
      exact ne_of_mem_of_not_mem hkey (hkey' ▸ hnew)
    · exact List.append_subset.mpr ⟨hstore.issued, List.subset_append_right _ _⟩
    · intro r' hr'
      rcases List.mem_append.mp hr' with hr' | hr'
      · exact (hstore.kept r' hr').imp_left (map_key_upsert page.pendingStore.pending r)
      · rw [List.mem_singleton.mp hr']
        exact .inl List.mem_cons_self
  · exact List.forall_mem_singleton.mpr hcopy

theorem issuances_startRun (page : Page) (records : List PendingAttestation) :
    (page.startRun records).issuances = page.issuances := by cases records <;> rfl

theorem issuances_turn (page : Page) (i : ℕ) : (page.turn i).issuances = page.issuances := by
  unfold Page.turn Page.enter Page.leave
  split
  · rfl
  · split
    · split <;> rfl
    · rfl
    · rfl
    · rfl
    · rfl

theorem issuances_answerUid (page : Page) (i : ℕ) (visible : Bool) :
    (page.answerUid uidOf i visible).issuances = page.issuances := by
  unfold Page.answerUid
  split
  · rfl
  · split
    · split <;> rfl
    · rfl

theorem issuances_answerAnnounce (page : Page) (i : ℕ) (nonce : BytesN 32) (error : Option Str) :
    (page.answerAnnounce addressToAuthorityBytes i nonce error).issuances = page.issuances := by
  unfold Page.answerAnnounce
  split
  · rfl
  · split
    · split <;> rfl
    · rfl

variable {event : PageEvent}

theorem issuances_step (page : Page) (event : PageEvent) :
    (page.step uidOf addressToAuthorityBytes event).issuances.map (·.key) =
      page.issuances.map (·.key) ++ event.issues.toList := by
  cases event with
  | issue record =>
      show List.map (·.key) (Page.startRun _ _).issuances = _
      rw [issuances_startRun, List.map_append]
      rfl
  | recover cluster issuer => simp [Page.step, issuances_startRun, PageEvent.issues]
  | retry key => simp [Page.step, issuances_startRun, PageEvent.issues]
  | turn i => simp [Page.step, issuances_turn, PageEvent.issues]
  | answerUid i visible => simp [Page.step, issuances_answerUid, PageEvent.issues]
  | answerAnnounce i nonce error => simp [Page.step, issuances_answerAnnounce, PageEvent.issues]
  | mergeIssued list => simp [Page.step, PageEvent.issues]
  | markRevoked uid cluster => simp [Page.step, PageEvent.issues]
  | savePending => simp [Page.step, PageEvent.issues]
  | saveIssued => simp [Page.step, PageEvent.issues]
  | reload => simp [Page.step, PageEvent.issues]
  | hydratePending version => simp [Page.step, PageEvent.issues]
  | hydrateIssued version => simp [Page.step, PageEvent.issues]

/-- One event. -/
theorem Page.Inv.step (h : page.Inv uidOf addressToAuthorityBytes)
    (hnew : ∀ key, event.issues = some key → key ∉ page.issuances.map (·.key)) :
    (page.step uidOf addressToAuthorityBytes event).Inv uidOf addressToAuthorityBytes := by
  cases event with
  | issue record => exact h.issue (hnew _ rfl) rfl
  | recover cluster issuer =>
      apply h.startRun
      intro p hp
      exact h.pendingStore.copies p (List.mem_of_mem_filter (List.mem_of_mem_filter hp))
  | retry key =>
      apply h.startRun
      intro p hp
      exact h.pendingStore.copies p (List.mem_of_find?_eq_some (Option.mem_toList.mp hp))
  | turn i => exact h.turn i
  | answerUid i visible => exact h.answerUid i visible
  | answerAnnounce i nonce error => exact h.answerAnnounce i nonce error
  | mergeIssued list =>
      exact h.setStores h.pendingStore (h.issuedStore.keeps (keeps_mergeIssued page.issuedStore.issued list))
  | markRevoked uid cluster =>
      exact h.setStores h.pendingStore
        (h.issuedStore.keeps (keeps_markRevoked h.issuedStore.oneRow uid cluster))
  | savePending =>
      exact h.setWritten (List.forall_mem_cons.mpr ⟨h.pendingStore, h.writtenPending⟩) h.writtenIssued
  | saveIssued =>
      exact h.setWritten h.writtenPending (List.forall_mem_cons.mpr ⟨h.issuedStore, h.writtenIssued⟩)
  | reload =>
      have hempty := h.setStores (pendingOk_empty page) issuedOk_empty
      exact hempty.setRun ⟨List.forall_mem_nil _, List.nodup_nil, List.forall_mem_nil _⟩
  | hydratePending version =>
      refine h.setStores ?_ h.issuedStore
      rcases hversion : page.writtenPending[version]? with - | store
      · exact h.pendingStore
      · exact h.writtenPending store (List.mem_of_getElem? hversion)
  | hydrateIssued version =>
      refine h.setStores h.pendingStore ?_
      rcases hversion : page.writtenIssued[version]? with - | store
      · exact h.issuedStore
      · exact h.writtenIssued store (List.mem_of_getElem? hversion)

theorem inv_run {events : List PageEvent} (honce : (events.filterMap PageEvent.issues).Nodup) :
    ((recovery uidOf addressToAuthorityBytes).final {} events).Inv uidOf addressToAuthorityBytes ∧
      ((recovery uidOf addressToAuthorityBytes).final {} events).issuances.map (·.key) =
        events.filterMap PageEvent.issues := by
  induction events using List.reverseRecOn with
  | nil =>
      exact ⟨⟨List.nodup_nil, pendingOk_empty _, List.forall_mem_nil _, issuedOk_empty, List.forall_mem_nil _,
        ⟨List.forall_mem_nil _, List.nodup_nil, List.forall_mem_nil _⟩, List.forall_mem_nil _⟩, rfl⟩
  | append_singleton events event ih =>
      rw [Machine.final_snoc]
      rw [List.filterMap_append] at honce ⊢
      obtain ⟨hbefore, -, hnew⟩ := List.nodup_append.mp honce
      obtain ⟨hinv, hissued⟩ := ih hbefore
      have hone : [event].filterMap PageEvent.issues = event.issues.toList := by
        rcases hissues : event.issues with - | key
        · exact List.filterMap_cons_none hissues
        · exact List.filterMap_cons_some hissues
      rw [hone, ← hissued] at hnew ⊢
      refine ⟨hinv.step ?_, issuances_step _ event⟩
      intro key hkey hmem
      exact hnew key hmem key (by simp [hkey]) rfl

end Invariant

/-- What the issuer may rely on. -/
structure Page.Safe (uidOf : Key → BytesN 32) (addressToAuthorityBytes : Str → BytesN 32) (page : Page) :
    Prop where
  -- no attestation that the store has seen is lost: it is still there, or recorded, with its recipient told
  kept : ∀ r ∈ page.pendingStore.issuances,
    r.key ∈ page.pendingStore.pending.map (·.key) ∨ Done uidOf page r
  -- no row that was added is lost, and no key has two
  rows : page.issuedStore.recorded ⊆ page.issuedStore.issued.map (·.key)
  oneRow : (page.issuedStore.issued.map (·.key)).Nodup
  -- no two calls deal with one transaction at once
  exclusive : (page.runs.filterMap Run.holds).Nodup
  -- what was announced is read by the scanner, as what was issued
  readable : ∀ a ∈ page.announced, Readable uidOf addressToAuthorityBytes page a

/-- **Attestations on their way**, through overlapping rounds, failures and reloads: a store comes back as what
it was when it was written, with what it had seen by then. -/
theorem attestations_kept (uidOf : Key → BytesN 32) (addressToAuthorityBytes : Str → BytesN 32)
    (events : List PageEvent) (honce : (events.filterMap PageEvent.issues).Nodup) :
    ((recovery uidOf addressToAuthorityBytes).final {} events).Safe uidOf addressToAuthorityBytes := by
  have h : Page.Inv uidOf addressToAuthorityBytes
    ((recovery uidOf addressToAuthorityBytes).final {} events) := (inv_run honce).1
  exact ⟨h.pendingStore.kept, h.issuedStore.kept, h.issuedStore.oneRow, h.runs.exclusive, h.readable⟩

namespace TwoIssued

def uidOf (key : Key) : BytesN 32 := BytesN.ofNat 32 key.2.length

def record (txHash : String) : PendingAttestation where
  cluster := "testnet".toList
  txHash := txHash.toList
  issuer := "GA".toList
  schemaId := BytesN.ofNat 32 1
  schemaName := "kyc".toList
  stealthAddressHash := BytesN.ofNat 32 2
  isRevocable := true
  createdAtSlot := 5
  expirationSlot := 9
  announcement := some ⟨"0x01".toList, "0x02".toList, 7⟩

/-- The page comes back, and a second round begins while the wallet still asks about the first record of the
first round. -/
def events : List PageEvent :=
  let nonce := BytesN.ofNat 32 3
  [.issue (record "a"), .issue (record "ab"), .savePending, .reload, .hydratePending 0,
    .recover (record "a").cluster (record "a").issuer, .turn 0, .answerUid 0 true,
    .answerAnnounce 0 nonce none,
    .recover (record "a").cluster (record "a").issuer, .turn 1, .turn 1, .turn 1, .answerUid 1 true,
    .answerAnnounce 1 nonce none, .turn 1, .turn 1,
    .turn 0, .turn 0, .turn 0, .answerUid 0 true, .answerAnnounce 0 nonce none, .turn 0, .turn 0]

end TwoIssued

theorem attestations_kept_two :
    (TwoIssued.events.filterMap PageEvent.issues).Nodup ∧
      ((recovery TwoIssued.uidOf fun _ => BytesN.ofNat 32 4).final {} TwoIssued.events).Safe TwoIssued.uidOf
        fun _ => BytesN.ofNat 32 4 :=
  ⟨by decide, attestations_kept TwoIssued.uidOf (fun _ => BytesN.ofNat 32 4) TwoIssued.events (by decide)⟩

/-- A round goes by the records as they were when it began: the recipient of `a` is told twice. -/
example : ((recovery TwoIssued.uidOf fun _ => BytesN.ofNat 32 4).final {} TwoIssued.events).announced.map
    (·.1.2) = ["ab".toList, "a".toList, "a".toList] := by decide

end OpaqueStellar.Web.PendingAttestations
