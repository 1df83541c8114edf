import OpaqueStellar.Lib.Machine
import OpaqueStellar.Stealth.Events
import OpaqueStellar.Web.Cache

/-! # The scanner of the web client

`fetchLogsAdaptive` and `runScan` of `frontend/src/hooks/useScanner.ts`. A run reads the ledgers after the
saved cursor in pages, which up to four workers fetch at once and hand over in order. A handed-over page is
put into the cache, and then the cursor is moved to the page's end. Ledgers that the RPC no longer has are
recorded first.

The machine's inputs are the answers of the RPC, the ends of the database's transactions and the turns of
the workers, in any order; between two runs the chain and the RPC's window go on. -/

namespace OpaqueStellar.Web.Scanner

open OpaqueStellar.Lib
open OpaqueStellar.Schemas (Str)
open OpaqueStellar.Stealth (RpcError parseOldestLedgerFromRangeError)

/-! ## Events -/

/-- The value is `(scheme_id, stealth_address, caller, ephemeral_pub_key, metadata)`. -/
structure AnnouncementEvent where
  txHash : Str
  ledger : ℕ
  stealthAddress : List UInt8
  ephemeralPubKey : List UInt8
  metadata : List UInt8

/-- The announcements of every ledger, those to come included. -/
structure Chronicle where
  events : ℕ → List AnnouncementEvent
  ledger_eq : ∀ l, ∀ ev ∈ events l, ev.ledger = l
  inOneLedger : ∀ l l', ∀ ev ∈ events l, ∀ ev' ∈ events l', ev.txHash = ev'.txHash → ev.ledger = ev'.ledger

def Chronicle.between (h : Chronicle) (first last : ℕ) : List AnnouncementEvent :=
  (List.range' first (last + 1 - first)).flatMap h.events

def cachedAnnouncement (cluster : Str) (ev : AnnouncementEvent) (idx : ℕ) : CachedAnnouncement where
  id := announcementId cluster ev.txHash idx
  slot := ev.ledger
  transactionSignature := ev.txHash
  logIndex := idx
  args :=
    { stealthAddress := '0' :: 'x' :: Hex.encode ev.stealthAddress
      ephemeralPubKey := '0' :: 'x' :: Hex.encode ev.ephemeralPubKey
      metadata := '0' :: 'x' :: Hex.encode ev.metadata }

def nextIndex (txEventIndex : Dict Str ℕ) (ev : AnnouncementEvent) : ℕ :=
  (txEventIndex.find ev.txHash).getD 0

def countEvent (txEventIndex : Dict Str ℕ) (ev : AnnouncementEvent) : Dict Str ℕ :=
  txEventIndex.set ev.txHash (nextIndex txEventIndex ev + 1)

/-- The rest of the loop. -/
def mapEvents (cluster : Str) : Dict Str ℕ → List AnnouncementEvent → List CachedAnnouncement
  | _, [] => []
  | txEventIndex, ev :: evs =>
    cachedAnnouncement cluster ev (nextIndex txEventIndex ev) ::
      mapEvents cluster (countEvent txEventIndex ev) evs

def mapAnnouncementEvents (cluster : Str) (events : List AnnouncementEvent) : List CachedAnnouncement :=
  mapEvents cluster [] events

/-- The announcements of a ledger as they belong into the cache. -/
def announcementsOf (cluster : Str) (h : Chronicle) (ledger : ℕ) : List CachedAnnouncement :=
  mapAnnouncementEvents cluster (h.events ledger)

section Events

variable {cluster : Str} {d d' : Dict Str ℕ} {ev ev' : AnnouncementEvent} {evs evs' : List AnnouncementEvent}

theorem nextIndex_countEvent_of_ne (hne : ev'.txHash ≠ ev.txHash) :
    nextIndex (countEvent d ev) ev' = nextIndex d ev' := by
  simp [nextIndex, countEvent, Dict.find_set_of_ne _ _ hne]

theorem nextIndex_countEvent (heq : ev'.txHash = ev.txHash) :
    nextIndex (countEvent d ev) ev' = nextIndex d ev' + 1 := by
  simp [nextIndex, countEvent, heq]

theorem nextIndex_le_countEvent : nextIndex d ev' ≤ nextIndex (countEvent d ev) ev' := by
  by_cases heq : ev'.txHash = ev.txHash
  · rw [nextIndex_countEvent heq]
    omega
  · rw [nextIndex_countEvent_of_ne heq]

/-- Only the counts of the transactions that occur matter. -/
theorem mapEvents_congr (hd : ∀ ev ∈ evs, nextIndex d ev = nextIndex d' ev) :
    mapEvents cluster d evs = mapEvents cluster d' evs := by
  induction evs generalizing d d' with
  | nil => rfl
  | cons ev evs ih =>
    have hrest : mapEvents cluster (countEvent d ev) evs = mapEvents cluster (countEvent d' ev) evs := by
      apply ih
      intro later hlater
      have hold := hd later (List.mem_cons_of_mem _ hlater)
      by_cases heq : later.txHash = ev.txHash
      · rw [nextIndex_countEvent heq, nextIndex_countEvent heq, hold]
      · rw [nextIndex_countEvent_of_ne heq, nextIndex_countEvent_of_ne heq, hold]
    rw [mapEvents, mapEvents, hd ev List.mem_cons_self, hrest]

theorem mapEvents_append (hdisjoint : ∀ ev ∈ evs, ∀ ev' ∈ evs', ev'.txHash ≠ ev.txHash) :
    mapEvents cluster d (evs ++ evs') = mapEvents cluster d evs ++ mapEvents cluster d evs' := by
  induction evs generalizing d with
  | nil => rfl
  | cons ev evs ih =>
    have hfirst : mapEvents cluster (countEvent d ev) evs' = mapEvents cluster d evs' := by
      apply mapEvents_congr
      intro ev' hev'
      exact nextIndex_countEvent_of_ne (hdisjoint ev List.mem_cons_self ev' hev')
    rw [List.cons_append, mapEvents, mapEvents, List.cons_append,
      ih fun e he => hdisjoint e (List.mem_cons_of_mem _ he), hfirst]

theorem prefix_mapEvents (hinitial : evs <+: evs') : mapEvents cluster d evs <+: mapEvents cluster d evs' := by
  induction evs generalizing d evs' with
  | nil => exact List.nil_prefix
  | cons ev evs ih =>
    obtain ⟨rest, rfl⟩ := hinitial
    rw [List.cons_append, mapEvents, mapEvents]
    exact List.cons_prefix_cons.mpr ⟨rfl, ih (List.prefix_append evs rest)⟩

theorem mem_mapEvents {r : CachedAnnouncement} (hr : r ∈ mapEvents cluster d evs) :
    r.id = announcementId cluster r.transactionSignature r.logIndex ∧
      ∃ ev ∈ evs, r.transactionSignature = ev.txHash ∧ nextIndex d ev ≤ r.logIndex := by
  induction evs generalizing d with
  | nil => cases hr
  | cons ev evs ih =>
    rcases List.mem_cons.mp hr with rfl | hr
    · exact ⟨rfl, ev, List.mem_cons_self, rfl, le_rfl⟩
    · obtain ⟨hid, later, hlater, htx, hindex⟩ := ih hr
      exact ⟨hid, later, List.mem_cons_of_mem _ hlater, htx, nextIndex_le_countEvent.trans hindex⟩

/-- An announcement that comes later in the same transaction has a greater index. -/
theorem logIndex_lt {r : CachedAnnouncement} (hr : r ∈ mapEvents cluster (countEvent d ev) evs)
    (htx : r.transactionSignature = ev.txHash) : nextIndex d ev < r.logIndex := by
  obtain ⟨-, later, -, hlater, hindex⟩ := mem_mapEvents hr
  have hsame : later.txHash = ev.txHash := hlater.symm.trans htx
  rw [nextIndex_countEvent hsame] at hindex
  have hcount : nextIndex d later = nextIndex d ev := by rw [nextIndex, nextIndex, hsame]
  omega

theorem mapEvents_unique {r r' : CachedAnnouncement} (hr : r ∈ mapEvents cluster d evs)
    (hr' : r' ∈ mapEvents cluster d evs) (htx : r.transactionSignature = r'.transactionSignature)
    (hindex : r.logIndex = r'.logIndex) : r = r' := by
  induction evs generalizing d with
  | nil => cases hr
  | cons ev evs ih =>
    rcases List.mem_cons.mp hr with rfl | hr
    · rcases List.mem_cons.mp hr' with rfl | hr'
      · rfl
      · have hlt := logIndex_lt hr' htx.symm
        exact absurd hindex hlt.ne
    · rcases List.mem_cons.mp hr' with rfl | hr'
      · have hlt := logIndex_lt hr htx
        exact absurd hindex hlt.ne'
      · exact ih hr hr'

end Events

section Chronicle

variable {cluster : Str} {h : Chronicle}

theorem Chronicle.same_ledger {l l' : ℕ} {ev ev' : AnnouncementEvent} (hev : ev ∈ h.events l)
    (hev' : ev' ∈ h.events l') (heq : ev.txHash = ev'.txHash) : l = l' := by
  rw [← h.ledger_eq l ev hev, ← h.ledger_eq l' ev' hev']
  exact h.inOneLedger l l' ev hev ev' hev' heq

/-- Announcements of one id are one. -/
theorem announcementsOf_unique {l l' : ℕ} {r r' : CachedAnnouncement} (hr : r ∈ announcementsOf cluster h l)
    (hr' : r' ∈ announcementsOf cluster h l') (hid : r.id = r'.id) : r = r' := by
  obtain ⟨hr_id, ev, hev, htx, -⟩ := mem_mapEvents hr
  obtain ⟨hr'_id, ev', hev', htx', -⟩ := mem_mapEvents hr'
  rw [hr_id, hr'_id] at hid
  obtain ⟨hsame, hindex⟩ := announcementId_inj hid
  obtain rfl : l = l' := h.same_ledger hev hev' (by rw [← htx, ← htx', hsame])
  exact mapEvents_unique hr hr' hsame hindex

/-- A transaction's announcements are counted alike, whatever other ledgers a page begins with. -/
theorem mapAnnouncementEvents_flatMap {ledgers : List ℕ} (hnodup : ledgers.Nodup) :
    mapAnnouncementEvents cluster (ledgers.flatMap h.events) =
      ledgers.flatMap (announcementsOf cluster h) := by
  induction ledgers with
  | nil => rfl
  | cons l ledgers ih =>
    obtain ⟨hl, hrest⟩ := List.nodup_cons.mp hnodup
    rw [List.flatMap_cons, List.flatMap_cons, ← ih hrest]
    apply mapEvents_append
    intro ev hev ev' hev' heq
    obtain ⟨l', hl', hev'⟩ := List.mem_flatMap.mp hev'
    exact hl (h.same_ledger hev hev' heq.symm ▸ hl')

theorem mapAnnouncementEvents_between (first last : ℕ) :
    mapAnnouncementEvents cluster (h.between first last) =
      (List.range' first (last + 1 - first)).flatMap (announcementsOf cluster h) :=
  mapAnnouncementEvents_flatMap List.nodup_range'

theorem prefix_between {first last latest : ℕ} (hlast : last ≤ latest) :
    h.between first last <+: h.between first latest := by
  obtain ⟨n, hn⟩ := Nat.exists_eq_add_of_le (show last + 1 - first ≤ latest + 1 - first by omega)
  rw [Chronicle.between, Chronicle.between, hn, ← List.range'_append_1, List.flatMap_append]
  exact List.prefix_append _ _

/-- What is got is what belongs into the cache, if not all of it. -/
theorem exists_of_mem_take {first last n : ℕ} {r : CachedAnnouncement}
    (hr : r ∈ mapAnnouncementEvents cluster ((h.between first last).take n)) :
    ∃ l, r ∈ announcementsOf cluster h l := by
  have hall := (prefix_mapEvents (List.take_prefix n _)).subset hr
  change r ∈ mapAnnouncementEvents cluster (h.between first last) at hall
  rw [mapAnnouncementEvents_between] at hall
  obtain ⟨l, -, hl⟩ := List.mem_flatMap.mp hall
  exact ⟨l, hl⟩

/-- An answer that is not cut off before the end of the page has the announcements of the page. -/
theorem mem_take_of_whole {first last latest n l : ℕ} {r : CachedAnnouncement} (hlast : last ≤ latest)
    (hwhole : (h.between first last).length ≤ n) (hfirst : first ≤ l) (hl : l ≤ last)
    (hr : r ∈ announcementsOf cluster h l) :
    r ∈ mapAnnouncementEvents cluster ((h.between first latest).take n) := by
  have hinitial : h.between first last <+: (h.between first latest).take n :=
    List.prefix_take_iff.mpr ⟨prefix_between hlast, hwhole⟩
  apply (prefix_mapEvents hinitial).subset
  change r ∈ mapAnnouncementEvents cluster (h.between first last)
  rw [mapAnnouncementEvents_between]
  exact List.mem_flatMap.mpr ⟨l, List.mem_range'_1.mpr ⟨hfirst, by omega⟩, hr⟩

end Chronicle

/-! ## Pages -/

structure PageRange where
  fromBlock : ℕ
  toBlock : ℕ
  deriving DecidableEq

def PageRange.Contains (range : PageRange) (ledger : ℕ) : Prop :=
  range.fromBlock ≤ ledger ∧ ledger ≤ range.toBlock

def BATCH_SIZE : ℕ := 10000

def currentTo (batchSize toBlock currentFrom : ℕ) : ℕ :=
  if currentFrom + batchSize > toBlock then toBlock else currentFrom + batchSize

/-- The loop; a page takes one ledger at least. -/
def buildPages (batchSize toBlock : ℕ) : ℕ → ℕ → List PageRange
  | 0, _ => []
  | fuel + 1, currentFrom =>
    if currentFrom ≤ toBlock then
      ⟨currentFrom, currentTo batchSize toBlock currentFrom⟩ ::
        buildPages batchSize toBlock fuel (currentTo batchSize toBlock currentFrom + 1)
    else []

def buildPageRanges (fromBlock toBlock batchSize : ℕ) : List PageRange :=
  buildPages batchSize toBlock (toBlock + 1 - fromBlock) fromBlock

section Pages

variable {batchSize fromBlock toBlock fuel : ℕ}

theorem currentTo_le {currentFrom : ℕ} : currentTo batchSize toBlock currentFrom ≤ toBlock := by
  unfold currentTo
  split_ifs <;> omega

theorem le_currentTo {currentFrom : ℕ} (h : currentFrom ≤ toBlock) :
    currentFrom ≤ currentTo batchSize toBlock currentFrom := by
  unfold currentTo
  split_ifs <;> omega

theorem buildPages_head {currentFrom : ℕ} {range : PageRange}
    (h : (buildPages batchSize toBlock fuel currentFrom)[0]? = some range) :
    range.fromBlock = currentFrom := by
  cases fuel with
  | zero => cases h
  | succ fuel =>
    rw [buildPages] at h
    split_ifs at h
    · cases h
      rfl
    · simp at h

theorem buildPages_next {currentFrom k : ℕ} {range next : PageRange}
    (h : (buildPages batchSize toBlock fuel currentFrom)[k]? = some range)
    (hnext : (buildPages batchSize toBlock fuel currentFrom)[k + 1]? = some next) :
    next.fromBlock = range.toBlock + 1 := by
  induction fuel generalizing currentFrom k with
  | zero => cases h
  | succ fuel ih =>
    rw [buildPages] at h hnext
    split_ifs at h hnext
    · cases k with
      | zero =>
        cases h
        exact buildPages_head hnext
      | succ k => exact ih h hnext
    · simp at h

theorem toBlock_le_of_mem_buildPages {currentFrom : ℕ} {range : PageRange}
    (h : range ∈ buildPages batchSize toBlock fuel currentFrom) : range.toBlock ≤ toBlock := by
  induction fuel generalizing currentFrom with
  | zero => cases h
  | succ fuel ih =>
    rw [buildPages] at h
    split_ifs at h
    · rcases List.mem_cons.mp h with rfl | h
      · exact currentTo_le
      · exact ih h
    · cases h

/-- **The pages leave nothing out.** -/
theorem exists_page {ledger : ℕ} (hfrom : fromBlock ≤ ledger) (hto : ledger ≤ toBlock) :
    ∃ range ∈ buildPageRanges fromBlock toBlock batchSize, range.Contains ledger := by
  suffices hpages : ∀ fuel currentFrom, toBlock + 1 ≤ currentFrom + fuel → currentFrom ≤ ledger →
      ∃ range ∈ buildPages batchSize toBlock fuel currentFrom, range.Contains ledger from
    hpages _ _ (by omega) hfrom
  intro fuel
  induction fuel with
  | zero => omega
  | succ fuel ih =>
    intro currentFrom hfuel hle
    have hprogress : currentFrom ≤ currentTo batchSize toBlock currentFrom := le_currentTo (by omega)
    rw [buildPages, if_pos (by omega)]
    by_cases hin : ledger ≤ currentTo batchSize toBlock currentFrom
    · exact ⟨_, List.mem_cons_self, hle, hin⟩
    · obtain ⟨range, hmem, hl⟩ := ih (currentTo batchSize toBlock currentFrom + 1) (by omega) (by omega)
      exact ⟨range, List.mem_cons_of_mem _ hmem, hl⟩

end Pages

structure FetchedPage where
  range : PageRange
  logs : List CachedAnnouncement

/-! ## The workers -/

inductive Worker where
  -- at the top of its loop
  | ready
  | asking (index : ℕ) (range : PageRange)
  -- the window has moved on, and what is gone is being recorded
  | reporting (index : ℕ) (range : PageRange) (oldest : ℕ)
  | retrying (index : ℕ) (range : PageRange) (oldest : ℕ)
  -- in `drainReady`
  | putting (index : ℕ) (page : FetchedPage)
  | saving (index : ℕ) (range : PageRange)
  | stopped

/-- The page a worker is busy with. -/
def Worker.index : Worker → Option ℕ
  | ready => none
  | asking index _ => some index
  | reporting index _ _ => some index
  | retrying index _ _ => some index
  | putting index _ => some index
  | saving index _ => some index
  | stopped => none

/-- The ledger that `getEvents` was asked for, and the page it is for. -/
def Worker.request : Worker → Option (ℕ × PageRange)
  | asking _ range => some (range.fromBlock, range)
  | retrying _ range oldest => some (oldest, range)
  | _ => none

def Worker.isStopped : Worker → Bool
  | stopped => true
  | _ => false

structure Fetch where
  ranges : List PageRange
  results : Dict ℕ FetchedPage
  nextToFlush : ℕ
  nextToDispatch : ℕ
  -- `firstError`
  failed : Bool
  workers : List Worker

namespace Fetch

def setWorker (f : Fetch) (i : ℕ) (worker : Worker) : Fetch :=
  { f with workers := f.workers.set i worker }

def start (ranges : List PageRange) (concurrency : ℕ) : Fetch where
  ranges := ranges
  results := []
  nextToFlush := 0
  nextToDispatch := 0
  failed := false
  workers := List.replicate (max 1 (min concurrency ranges.length)) .ready

/-- Once more through the loop of `worker`. -/
def dispatch (f : Fetch) (i : ℕ) : Fetch :=
  if f.failed then f.setWorker i .stopped
  else
    match f.ranges[f.nextToDispatch]? with
    | none => f.setWorker i .stopped
    | some range =>
      { f with nextToDispatch := f.nextToDispatch + 1 }.setWorker i (.asking f.nextToDispatch range)

def fail (f : Fetch) (i : ℕ) : Fetch := { f with failed := true }.setWorker i .stopped

/-- To the next `onChunk`, or out of the loop. -/
def drainReady (f : Fetch) (i : ℕ) : Fetch :=
  match f.results.find f.nextToFlush with
  | some page =>
    { f with results := f.results.delete f.nextToFlush }.setWorker i (.putting f.nextToFlush page)
  | none => f.setWorker i .ready

def deliver (f : Fetch) (i index : ℕ) (page : FetchedPage) : Fetch :=
  let f := { f with results := f.results.set index page }
  if index = f.nextToFlush then f.drainReady i else f.setWorker i .ready

/-- A worker's transaction is through. -/
def write (cluster : Str) (f : Fetch) (db : OpaqueCache) (i : ℕ) : Fetch × OpaqueCache :=
  match f.workers[i]? with
  | some (.reporting index range oldest) =>
    (f.setWorker i (.retrying index range oldest),
      recordUnscannedRange ⟨range.fromBlock, min (oldest - 1) range.toBlock⟩ db)
  | some (.putting index page) =>
    (f.setWorker i (.saving index page.range), putAnnouncements cluster page.logs db)
  | some (.saving _ range) =>
    ({ f with nextToFlush := f.nextToFlush + 1 }.drainReady i, setSyncState range.toBlock db)
  | _ => (f, db)

end Fetch

/-! ## Runs of the scanner -/

inductive Phase where
  | idle
  -- waiting for `getSlot`; `backfilling` without a cache and a cursor, unless it is a rescan
  | starting (fromBlock : ℕ) (backfilling : Bool)
  -- waiting for `getHealth`
  | clamping (fromBlock toBlock : ℕ)
  | fetching (f : Fetch)

def Phase.isIdle : Phase → Bool
  | idle => true
  | _ => false

/-- The RPC's window ends at the latest ledger. -/
structure World where
  oldest : ℕ
  latest : ℕ
  db : OpaqueCache
  phase : Phase

inductive Input where
  -- a ledger closes
  | close
  -- the RPC drops the ledgers before `oldest`
  | prune (oldest : ℕ)
  | runScan (clearCache : Bool)
  | slot (answered : Bool)
  -- `getHealth` reports a window that may lag behind, or fails
  | health (lag : Option ℕ)
  | dispatch (i : ℕ)
  -- `getEvents` answers worker `i` with so many events at most, or fails
  | events (i : ℕ) (count : Option ℕ)
  | write (i : ℕ)
  -- all workers have returned
  | join
  deriving DecidableEq

structure ScannerOptions where
  cluster : Str
  deploymentLedger : Option ℕ

def getStartBlock (opts : ScannerOptions) : ℕ :=
  match opts.deploymentLedger with
  | some deployLedger => if deployLedger > 0 then deployLedger else 1
  | none => 1

def DEFAULT_FETCH_CONCURRENCY : ℕ := 4

/-- A new device. -/
def World.fresh (oldest latest : ℕ) : World := ⟨oldest, latest, ⟨[], none⟩, .idle⟩

/-- Whether the newest announcement is older than the cursor. -/
def gapDetected (cached : List CachedAnnouncement) (lastScanned : Option ℕ) : Bool :=
  match lastScanned with
  | none => false
  | some lastScanned => !cached.isEmpty && (cached.map (·.slot)).foldl max 0 < lastScanned

/-- `fromBlock` -/
def scanFrom (opts : ScannerOptions) (clearCache : Bool) (lastScanned : Option ℕ) : ℕ :=
  match lastScanned with
  | none => getStartBlock opts
  | some lastScanned =>
    if clearCache then getStartBlock opts else max (lastScanned + 1) (getStartBlock opts)

/-- `runScan` up to `getSlot`. -/
def beginScan (opts : ScannerOptions) (clearCache : Bool) (db : OpaqueCache) : OpaqueCache × Phase :=
  let db := if clearCache then clearSyncState (clearClusterCache db) else db
  let cached := getAnnouncementsForCluster db
  let lastScanned := db.syncState.map (·.lastScannedSlot)
  let db := if gapDetected cached lastScanned then clearSyncState db else db
  let fromBlock := scanFrom opts clearCache lastScanned
  (db, .starting fromBlock (cached.isEmpty && lastScanned.isNone && !clearCache))

/-- `fetchLogsAdaptive` up to its workers; `health` is the oldest ledger as reported. -/
def fetchLogsAdaptive (fromBlock toBlock : ℕ) (health : Option ℕ) (db : OpaqueCache) : OpaqueCache × Phase :=
  let clampedTo := health.filter fun oldest => fromBlock < oldest
  let effectiveFrom := clampedTo.getD fromBlock
  let db :=
    match clampedTo with
    | some oldest =>
      if fromBlock ≤ toBlock then
        recordUnscannedRange ⟨fromBlock, if oldest - 1 < toBlock then oldest - 1 else toBlock⟩ db
      else db
    | none => db
  if effectiveFrom > toBlock then (db, .idle)
  else
    (db, .fetching (.start (buildPageRanges effectiveFrom toBlock BATCH_SIZE) DEFAULT_FETCH_CONCURRENCY))

section Machine

variable (opts : ScannerOptions) (h : Chronicle)

/-- The first `count` events from a ledger on. -/
def getEvents (w : World) (startLedger : ℕ) (count : Option ℕ) : Except RpcError (List AnnouncementEvent) :=
  match count with
  | none => .error .other
  | some n =>
    if startLedger < w.oldest then .error (.range w.oldest w.latest)
    else .ok ((h.between startLedger w.latest).take n)

/-- `fetchPage` goes on with an answer. -/
def answered (w : World) (f : Fetch) (i : ℕ) (count : Option ℕ) : Fetch :=
  match f.workers[i]? with
  | some (.asking index range) =>
    match getEvents h w range.fromBlock count with
    | .ok events => f.deliver i index ⟨range, mapAnnouncementEvents opts.cluster events⟩
    | .error err =>
      match parseOldestLedgerFromRangeError err with
      | some oldest =>
        if range.fromBlock < oldest then f.setWorker i (.reporting index range oldest) else f.fail i
      | none => f.fail i
  | some (.retrying index range oldest) =>
    match getEvents h w oldest count with
    | .ok events => f.deliver i index ⟨range, mapAnnouncementEvents opts.cluster events⟩
    | .error _ => f.fail i
  | _ => f

/-- What does not fit is ignored. -/
def step (w : World) (i : Input) : World :=
  match i, w.phase with
  | .close, _ => { w with latest := w.latest + 1 }
  | .prune oldest, _ => { w with oldest := max w.oldest oldest }
  | .runScan clearCache, .idle =>
    let (db, phase) := beginScan opts clearCache w.db
    { w with db := db, phase := phase }
  | .slot true, .starting fromBlock backfilling =>
    if !backfilling && w.latest < fromBlock then { w with phase := .idle }
    else { w with phase := .clamping fromBlock w.latest }
  | .slot false, .starting _ _ => { w with phase := .idle }
  | .health lag, .clamping fromBlock toBlock =>
    let (db, phase) := fetchLogsAdaptive fromBlock toBlock (lag.map (w.oldest - ·)) w.db
    { w with db := db, phase := phase }
  | .dispatch i, .fetching f =>
    match f.workers[i]? with
    | some .ready => { w with phase := .fetching (f.dispatch i) }
    | _ => w
  | .events i count, .fetching f => { w with phase := .fetching (answered opts h w f i count) }
  | .write i, .fetching f =>
    let (f, db) := f.write opts.cluster w.db i
    { w with db := db, phase := .fetching f }
  | .join, .fetching f =>
    if f.workers.all Worker.isStopped then
      if f.failed then { w with phase := .idle }
      else
        match f.results.find f.nextToFlush with
        | none => { w with phase := .idle }
        -- one worker does what is left of `drainReady`
        | some _ => { w with phase := .fetching ({ f with workers := [.ready] }.drainReady 0) }
    else w
  | _, _ => w

def machine : Machine World Input Unit where
  step w i := (step opts h w i, ())

end Machine

end OpaqueStellar.Web.Scanner
