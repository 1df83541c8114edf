import OpaqueStellar.Web.Scanner

/-! # What the web client's scanner has covered

Up to the saved cursor every ledger should be recorded as unscanned or have all its announcements in the
cache. That is so in runs whose pages are answered in full and whose gap detection finds no recorded ranges
to clear. `fetchPage` does not follow the cursor of a page that is cut off, and the gap detection clears the
recorded ranges but goes on from the old cursor. -/

namespace OpaqueStellar.Web.Scanner

open OpaqueStellar.Lib
open OpaqueStellar.Schemas (Str)
open OpaqueStellar.Stealth (RpcError parseOldestLedgerFromRangeError)

/-! ## Coverage -/

def Recorded (db : OpaqueCache) (ledger : ℕ) : Prop :=
  ∃ range ∈ getUnscannedRanges db.syncState, range.Contains ledger

/-- Each range lies within a range that is recorded afterwards. -/
def KeepsRanges (before after : OpaqueCache) : Prop :=
  ∀ range ∈ getUnscannedRanges before.syncState,
    ∃ range' ∈ getUnscannedRanges after.syncState, range.Within range'

theorem Recorded.mono {db db' : OpaqueCache} (hkeeps : KeepsRanges db db') {ledger : ℕ}
    (h : Recorded db ledger) : Recorded db' ledger := by
  obtain ⟨range, hmem, hl⟩ := h
  obtain ⟨range', hmem', hwithin⟩ := hkeeps range hmem
  exact ⟨range', hmem', hwithin.contains hl⟩

section Coverage

variable (opts : ScannerOptions) (h : Chronicle)

def Cached (db : OpaqueCache) (ledger : ℕ) : Prop :=
  ∀ r ∈ announcementsOf opts.cluster h ledger, db.Has r

def Accounted (db : OpaqueCache) (ledger : ℕ) : Prop := Recorded db ledger ∨ Cached opts h db ledger

def AccountedBelow (db : OpaqueCache) (bound : ℕ) : Prop :=
  ∀ ledger, getStartBlock opts ≤ ledger → ledger < bound → Accounted opts h db ledger

/-- From the start ledger to the saved cursor, nothing is missing. -/
def Covered (db : OpaqueCache) : Prop :=
  ∀ sync ∈ db.syncState, AccountedBelow opts h db (sync.lastScannedSlot + 1)

/-- What is not lost by a step. -/
structure Extends (db db' : OpaqueCache) : Prop where
  ranges : KeepsRanges db db'
  has : ∀ ledger, ∀ r ∈ announcementsOf opts.cluster h ledger, db.Has r → db'.Has r

end Coverage

section Database

variable {opts : ScannerOptions} {h : Chronicle} {db db' : OpaqueCache} {ledger bound : ℕ}

theorem KeepsRanges.refl (db : OpaqueCache) : KeepsRanges db db := by
  intro range hmem
  exact ⟨range, hmem, .refl range⟩

theorem Extends.refl (db : OpaqueCache) : Extends opts h db db :=
  ⟨.refl db, fun _ _ _ hhas => hhas⟩

theorem Accounted.mono (hext : Extends opts h db db') (hacc : Accounted opts h db ledger) :
    Accounted opts h db' ledger :=
  hacc.imp (Recorded.mono hext.ranges) fun hcached r hr => hext.has ledger r hr (hcached r hr)

theorem AccountedBelow.mono (hext : Extends opts h db db') (hacc : AccountedBelow opts h db bound) :
    AccountedBelow opts h db' bound := by
  intro ledger hstart hlt
  exact (hacc ledger hstart hlt).mono hext

theorem getStartBlock_pos (opts : ScannerOptions) : 0 < getStartBlock opts := by
  unfold getStartBlock
  split
  · split_ifs <;> omega
  · omega

theorem accountedBelow_start : AccountedBelow opts h db (getStartBlock opts) := by
  intro ledger hstart hlt
  omega

/-- Nothing is saved. -/
theorem covered_of_none (hnone : db.syncState = none) : Covered opts h db := by
  intro sync hsync
  rw [hnone] at hsync
  cases hsync

theorem extends_setSyncState (n : ℕ) : Extends opts h db (setSyncState n db) := by
  refine ⟨?_, fun _ _ _ hhas => hhas⟩
  have hranges : getUnscannedRanges (setSyncState n db).syncState = getUnscannedRanges db.syncState := by
    unfold setSyncState updateSyncState
    cases db.syncState <;> rfl
  intro range hmem
  exact ⟨range, hranges ▸ hmem, .refl range⟩

theorem covered_setSyncState {n : ℕ} (hacc : AccountedBelow opts h db (n + 1)) :
    Covered opts h (setSyncState n db) := by
  intro sync hsync
  have hcursor : sync.lastScannedSlot = n := by
    unfold setSyncState updateSyncState at hsync
    cases hstate : db.syncState <;> rw [hstate] at hsync <;> cases hsync <;> rfl
  rw [hcursor]
  exact hacc.mono (extends_setSyncState n)

theorem extends_recordUnscannedRange (range : UnscannedRange) :
    Extends opts h db (recordUnscannedRange range db) := by
  refine ⟨?_, fun _ _ _ hhas => hhas⟩
  intro range₀ hmem
  exact exists_within_merge (.inl hmem)

theorem recorded_recordUnscannedRange {range : UnscannedRange} (hl : range.Contains ledger) :
    Recorded (recordUnscannedRange range db) ledger :=
  contains_mergeUnscannedRanges.mpr (.inl hl)

/-- Recording does not move the cursor, or sets it before the start ledger. -/
theorem covered_recordUnscannedRange {range : UnscannedRange} (hcov : Covered opts h db) :
    Covered opts h (recordUnscannedRange range db) := by
  intro sync hsync
  obtain rfl := Option.some.inj hsync
  apply AccountedBelow.mono (extends_recordUnscannedRange range)
  cases hstate : db.syncState with
  | none =>
    intro ledger hstart hlt
    have hpos := getStartBlock_pos opts
    have hzero : ledger < 0 + 1 := hlt
    omega
  | some prev => exact hcov prev hstate

/-- Of announcements that belong into the cache. -/
def Genuine (opts : ScannerOptions) (h : Chronicle) (logs : List CachedAnnouncement) : Prop :=
  ∀ r ∈ logs, ∃ ledger, r ∈ announcementsOf opts.cluster h ledger

theorem has_putAnnouncements_of_genuine {logs : List CachedAnnouncement} (hlogs : Genuine opts h logs)
    {r : CachedAnnouncement} (hr : r ∈ announcementsOf opts.cluster h ledger) (hhas : db.Has r ∨ r ∈ logs) :
    (putAnnouncements opts.cluster logs db).Has r := by
  refine has_putAnnouncements (fun log hlog => ?_) (fun log hlog hid => ?_) hhas
  · obtain ⟨l, hl⟩ := hlogs log hlog
    exact (mem_mapEvents hl).1
  · obtain ⟨l, hl⟩ := hlogs log hlog
    exact announcementsOf_unique hl hr hid

theorem extends_putAnnouncements {logs : List CachedAnnouncement} (hlogs : Genuine opts h logs) :
    Extends opts h db (putAnnouncements opts.cluster logs db) :=
  ⟨.refl db, fun _ _ hr hhas => has_putAnnouncements_of_genuine hlogs hr (.inl hhas)⟩

end Database

/-! ## The pages under way -/

section Fetch

variable (opts : ScannerOptions) (h : Chronicle)

/-- Of the ledgers of a page, the announcements are recorded as out of reach or have been fetched. -/
structure PageOk (db : OpaqueCache) (page : FetchedPage) : Prop where
  genuine : Genuine opts h page.logs
  whole : ∀ ledger, page.range.Contains ledger →
    Recorded db ledger ∨ ∀ r ∈ announcementsOf opts.cluster h ledger, r ∈ page.logs

def WorkerOk (db : OpaqueCache) (ranges : List PageRange) (nextToFlush : ℕ) : Worker → Prop
  | .ready => True
  | .asking index range => ranges[index]? = some range
  | .reporting index range _ => ranges[index]? = some range
  | .retrying index range oldest =>
    ranges[index]? = some range ∧ ∀ ledger, range.Contains ledger → ledger < oldest → Recorded db ledger
  | .putting index page =>
    ranges[index]? = some page.range ∧ index = nextToFlush ∧ PageOk opts h db page
  | .saving index range =>
    ranges[index]? = some range ∧ index = nextToFlush ∧
      ∀ ledger, range.Contains ledger → Accounted opts h db ledger
  | .stopped => True

/-- No two workers are busy with one page. -/
def Apart (workers : List Worker) : Prop :=
  ∀ (i j : ℕ) (worker worker' : Worker), workers[i]? = some worker → workers[j]? = some worker' →
    ∀ k ∈ worker.index, k ∈ worker'.index → i = j

/-- **The invariant of the workers.** No page is with two workers, or with a worker and in the buffer;
so one worker at most hands pages over, and everything before its page is accounted for. -/
structure FetchOk (db : OpaqueCache) (latest : ℕ) (f : Fetch) : Prop where
  closed : ∀ range ∈ f.ranges, range.toBlock ≤ latest
  consecutive : ∀ (k : ℕ) (range next : PageRange), f.ranges[k]? = some range →
    f.ranges[k + 1]? = some next → next.fromBlock = range.toBlock + 1
  flushed : ∀ range, f.ranges[f.nextToFlush]? = some range → AccountedBelow opts h db range.fromBlock
  working : ∀ (i : ℕ) (worker : Worker), f.workers[i]? = some worker →
    WorkerOk opts h db f.ranges f.nextToFlush worker
  dispatched : ∀ (i : ℕ) (worker : Worker), f.workers[i]? = some worker →
    ∀ k ∈ worker.index, k < f.nextToDispatch
  apart : Apart f.workers
  buffered : ∀ (k : ℕ) (page : FetchedPage), f.results.find k = some page →
    f.ranges[k]? = some page.range ∧ k < f.nextToDispatch ∧ PageOk opts h db page
  free : ∀ (k : ℕ) (page : FetchedPage), f.results.find k = some page →
    ∀ (i : ℕ) (worker : Worker), f.workers[i]? = some worker → k ∉ worker.index

end Fetch

section Workers

variable {opts : ScannerOptions} {h : Chronicle} {db db' : OpaqueCache} {latest latest' i : ℕ} {f : Fetch}
  {worker worker' : Worker}

theorem Apart.set {workers : List Worker} (hapart : Apart workers)
    (hfree : ∀ k ∈ worker'.index, ∀ (j : ℕ) (worker : Worker), i ≠ j → workers[j]? = some worker →
      k ∉ worker.index) : Apart (workers.set i worker') := by
  intro j₁ j₂ w₁ w₂ hj₁ hj₂ k hk₁ hk₂
  rcases getElem?_set_cases hj₁ with ⟨heq₁, hw₁⟩ | ⟨hne₁, hold₁⟩
  · rcases getElem?_set_cases hj₂ with ⟨heq₂, -⟩ | ⟨hne₂, hold₂⟩
    · exact heq₁.symm.trans heq₂
    · exact absurd hk₂ (hfree k (hw₁ ▸ hk₁) j₂ w₂ hne₂ hold₂)
  · rcases getElem?_set_cases hj₂ with ⟨heq₂, hw₂⟩ | ⟨hne₂, hold₂⟩
    · exact absurd hk₁ (hfree k (hw₂ ▸ hk₂) j₁ w₁ hne₁ hold₁)
    · exact hapart j₁ j₂ w₁ w₂ hold₁ hold₂ k hk₁ hk₂

theorem PageOk.mono {page : FetchedPage} (hext : Extends opts h db db') (hpage : PageOk opts h db page) :
    PageOk opts h db' page :=
  ⟨hpage.genuine, fun ledger hl => (hpage.whole ledger hl).imp_left (Recorded.mono hext.ranges)⟩

theorem WorkerOk.mono {ranges : List PageRange} {nextToFlush : ℕ} (hext : Extends opts h db db')
    (hok : WorkerOk opts h db ranges nextToFlush worker) :
    WorkerOk opts h db' ranges nextToFlush worker := by
  cases worker with
  | ready => trivial
  | stopped => trivial
  | asking index range => exact hok
  | reporting index range oldest => exact hok
  | retrying index range oldest =>
    exact ⟨hok.1, fun ledger hl hlt => (hok.2 ledger hl hlt).mono hext.ranges⟩
  | putting index page => exact ⟨hok.1, hok.2.1, hok.2.2.mono hext⟩
  | saving index range => exact ⟨hok.1, hok.2.1, fun ledger hl => (hok.2.2 ledger hl).mono hext⟩

theorem FetchOk.mono (hok : FetchOk opts h db latest f) (hext : Extends opts h db db')
    (hlatest : latest ≤ latest') : FetchOk opts h db' latest' f where
  closed range hmem := (hok.closed range hmem).trans hlatest
  consecutive := hok.consecutive
  flushed range hrange := (hok.flushed range hrange).mono hext
  working i worker hi := (hok.working i worker hi).mono hext
  dispatched := hok.dispatched
  apart := hok.apart
  buffered k page hfind :=
    have hold := hok.buffered k page hfind
    ⟨hold.1, hold.2.1, hold.2.2.mono hext⟩
  free := hok.free

/-- Workers that are busy with nothing. -/
theorem fetchOk_of_ready (hready : ∀ worker ∈ f.workers, worker = .ready)
    (hclosed : ∀ range ∈ f.ranges, range.toBlock ≤ latest)
    (hconsecutive : ∀ (k : ℕ) (range next : PageRange), f.ranges[k]? = some range →
      f.ranges[k + 1]? = some next → next.fromBlock = range.toBlock + 1)
    (hflushed : ∀ range, f.ranges[f.nextToFlush]? = some range → AccountedBelow opts h db range.fromBlock)
    (hbuffered : ∀ (k : ℕ) (page : FetchedPage), f.results.find k = some page →
      f.ranges[k]? = some page.range ∧ k < f.nextToDispatch ∧ PageOk opts h db page) :
    FetchOk opts h db latest f := by
  have hidle : ∀ (i : ℕ) (worker : Worker), f.workers[i]? = some worker → ∀ k, k ∉ worker.index := by
    intro i worker hi k hk
    obtain rfl := hready worker (List.mem_of_getElem? hi)
    cases hk
  exact
    { closed := hclosed
      consecutive := hconsecutive
      flushed := hflushed
      working := by
        intro i worker hi
        obtain rfl := hready worker (List.mem_of_getElem? hi)
        trivial
      dispatched := fun i worker hi k hk => absurd hk (hidle i worker hi k)
      apart := fun i j worker worker' hi hj k hk => absurd hk (hidle i worker hi k)
      buffered := hbuffered
      free := fun k page hfind i worker hi => hidle i worker hi k }

/-- A worker goes on with its page, or lets it go. -/
theorem FetchOk.setWorker (hok : FetchOk opts h db latest f) (hi : f.workers[i]? = some worker)
    (hindex : ∀ k ∈ worker'.index, k ∈ worker.index)
    (hworker' : WorkerOk opts h db f.ranges f.nextToFlush worker') :
    FetchOk opts h db latest (f.setWorker i worker') where
  closed := hok.closed
  consecutive := hok.consecutive
  flushed := hok.flushed
  working j w hj := by
    rcases getElem?_set_cases hj with ⟨-, rfl⟩ | ⟨-, hj⟩
    · exact hworker'
    · exact hok.working j w hj
  dispatched j w hj k hk := by
    rcases getElem?_set_cases hj with ⟨-, rfl⟩ | ⟨-, hj⟩
    · exact hok.dispatched i worker hi k (hindex k hk)
    · exact hok.dispatched j w hj k hk
  apart := by
    apply hok.apart.set
    intro k hk j w hij hj hkw
    exact hij (hok.apart i j worker w hi hj k (hindex k hk) hkw)
  buffered := hok.buffered
  free k page hfind j w hj hk := by
    rcases getElem?_set_cases hj with ⟨-, rfl⟩ | ⟨-, hj⟩
    · exact hok.free k page hfind i worker hi (hindex k hk)
    · exact hok.free k page hfind j w hj hk

theorem FetchOk.ready (hok : FetchOk opts h db latest f) (hi : f.workers[i]? = some worker) :
    FetchOk opts h db latest (f.setWorker i .ready) :=
  hok.setWorker hi (by simp [Worker.index]) trivial

theorem FetchOk.stopped (hok : FetchOk opts h db latest f) (hi : f.workers[i]? = some worker) :
    FetchOk opts h db latest (f.setWorker i .stopped) :=
  hok.setWorker hi (by simp [Worker.index]) trivial

theorem FetchOk.withFailed (hok : FetchOk opts h db latest f) (failed : Bool) :
    FetchOk opts h db latest { f with failed := failed } :=
  ⟨hok.closed, hok.consecutive, hok.flushed, hok.working, hok.dispatched, hok.apart, hok.buffered,
    hok.free⟩

theorem FetchOk.fail (hok : FetchOk opts h db latest f) (hi : f.workers[i]? = some worker) :
    FetchOk opts h db latest (f.fail i) :=
  (hok.withFailed true).stopped hi

/-- The page that is taken next is nobody's. -/
theorem FetchOk.dispatch (hok : FetchOk opts h db latest f) (hi : f.workers[i]? = some .ready) :
    FetchOk opts h db latest (f.dispatch i) := by
  unfold Fetch.dispatch
  split_ifs
  · exact hok.stopped hi
  · split
    · exact hok.stopped hi
    · next range hrange =>
        exact
          { closed := hok.closed
            consecutive := hok.consecutive
            flushed := hok.flushed
            working := by
              intro j w hj
              rcases getElem?_set_cases hj with ⟨-, rfl⟩ | ⟨-, hj⟩
              · exact hrange
              · exact hok.working j w hj
            dispatched := by
              intro j w hj k hk
              rcases getElem?_set_cases hj with ⟨-, rfl⟩ | ⟨-, hj⟩
              · obtain rfl := Option.some.inj hk
                exact Nat.lt_succ_self _
              · exact Nat.lt_succ_of_lt (hok.dispatched j w hj k hk)
            apart := by
              apply hok.apart.set
              intro k hk j w _ hj hkw
              obtain rfl := Option.some.inj hk
              exact lt_irrefl _ (hok.dispatched j w hj _ hkw)
            buffered := by
              intro k page hfind
              obtain ⟨hpage, hlt, hok⟩ := hok.buffered k page hfind
              exact ⟨hpage, Nat.lt_succ_of_lt hlt, hok⟩
            free := by
              intro k page hfind j w hj hk
              rcases getElem?_set_cases hj with ⟨-, rfl⟩ | ⟨-, hj⟩
              · obtain rfl := Option.some.inj hk
                exact lt_irrefl _ (hok.buffered _ page hfind).2.1
              · exact hok.free k page hfind j w hj hk }

/-- A fetched page goes from its worker into the buffer. -/
theorem FetchOk.buffer (hok : FetchOk opts h db latest f) (hi : f.workers[i]? = some worker) {index : ℕ}
    {page : FetchedPage} (hindex : index ∈ worker.index) (hrange : f.ranges[index]? = some page.range)
    (hpage : PageOk opts h db page) :
    FetchOk opts h db latest ({ f with results := f.results.set index page }.setWorker i .ready) :=
  have hready := hok.ready hi
  { closed := hok.closed
    consecutive := hok.consecutive
    flushed := hok.flushed
    working := hready.working
    dispatched := hready.dispatched
    apart := hready.apart
    buffered := by
      intro k page' hfind
      change (f.results.set index page).find k = some page' at hfind
      by_cases hk : k = index
      · subst hk
        rw [Dict.find_set_self] at hfind
        obtain rfl := Option.some.inj hfind
        exact ⟨hrange, hok.dispatched i worker hi k hindex, hpage⟩
      · rw [Dict.find_set_of_ne _ _ hk] at hfind
        exact hok.buffered k page' hfind
    free := by
      intro k page' hfind j w hj hk
      change (f.results.set index page).find k = some page' at hfind
      rcases getElem?_set_cases hj with ⟨-, rfl⟩ | ⟨hij, hj⟩
      · cases hk
      · by_cases hkey : k = index
        · subst hkey
          exact hij (hok.apart i j worker w hi hj k hindex hk)
        · rw [Dict.find_set_of_ne _ _ hkey] at hfind
          exact hok.free k page' hfind j w hj hk }

/-- The next page in order goes from the buffer to the worker that drains it. -/
theorem FetchOk.unbuffer (hok : FetchOk opts h db latest f) {page : FetchedPage}
    (hnext : f.results.find f.nextToFlush = some page) :
    FetchOk opts h db latest
      ({ f with results := f.results.delete f.nextToFlush }.setWorker i (.putting f.nextToFlush page)) := by
  obtain ⟨hrange, hlt, hpage⟩ := hok.buffered _ page hnext
  have hold : ∀ {k page'}, (f.results.delete f.nextToFlush).find k = some page' →
      k ≠ f.nextToFlush ∧ f.results.find k = some page' := by
    intro k page' hfind
    have hne : k ≠ f.nextToFlush := by
      rintro rfl
      rw [Dict.find_delete_self] at hfind
      cases hfind
    exact ⟨hne, Dict.find_delete_of_ne f.results hne ▸ hfind⟩
  exact
    { closed := hok.closed
      consecutive := hok.consecutive
      flushed := hok.flushed
      working := by
        intro j w hj
        rcases getElem?_set_cases hj with ⟨-, rfl⟩ | ⟨-, hj⟩
        · exact ⟨hrange, rfl, hpage⟩
        · exact hok.working j w hj
      dispatched := by
        intro j w hj k hk
        rcases getElem?_set_cases hj with ⟨-, rfl⟩ | ⟨-, hj⟩
        · obtain rfl := Option.some.inj hk
          exact hlt
        · exact hok.dispatched j w hj k hk
      apart := by
        apply hok.apart.set
        intro k hk j w _ hj
        obtain rfl := Option.some.inj hk
        exact hok.free _ page hnext j w hj
      buffered := fun k page' hfind => hok.buffered k page' (hold hfind).2
      free := by
        intro k page' hfind j w hj hk
        obtain ⟨hne, hfind⟩ := hold hfind
        rcases getElem?_set_cases hj with ⟨-, rfl⟩ | ⟨-, hj⟩
        · obtain rfl := Option.some.inj hk
          exact hne rfl
        · exact hok.free k page' hfind j w hj hk }

theorem FetchOk.drainReady (hready : FetchOk opts h db latest (f.setWorker i .ready)) :
    FetchOk opts h db latest (f.drainReady i) := by
  unfold Fetch.drainReady
  split
  · next page hnext =>
      have hdrain := hready.unbuffer hnext (i := i)
      unfold Fetch.setWorker at hdrain ⊢
      rwa [List.set_set] at hdrain
  · exact hready

theorem FetchOk.deliver (hok : FetchOk opts h db latest f) (hi : f.workers[i]? = some worker) {index : ℕ}
    {page : FetchedPage} (hindex : index ∈ worker.index) (hrange : f.ranges[index]? = some page.range)
    (hpage : PageOk opts h db page) : FetchOk opts h db latest (f.deliver i index page) := by
  have hbuffer := hok.buffer hi hindex hrange hpage
  unfold Fetch.deliver
  dsimp only
  split_ifs
  · exact hbuffer.drainReady
  · exact hbuffer

/-- When the page in order has been handed over, the next one is in order. -/
theorem FetchOk.advance (hok : FetchOk opts h db latest f) {index : ℕ} {range : PageRange}
    (hi : f.workers[i]? = some (.saving index range)) :
    FetchOk opts h db latest ({ f with nextToFlush := f.nextToFlush + 1 }.setWorker i .ready) := by
  obtain ⟨hrange, rfl, hsaved⟩ := hok.working i _ hi
  have hready := hok.ready hi
  exact
    { closed := hok.closed
      consecutive := hok.consecutive
      flushed := by
        intro next hnext ledger hstart hlt
        have hconsecutive := hok.consecutive _ range next hrange hnext
        by_cases hbefore : ledger < range.fromBlock
        · exact hok.flushed range hrange ledger hstart hbefore
        · exact hsaved ledger ⟨by omega, by omega⟩
      working := by
        intro j w hj
        rcases getElem?_set_cases hj with ⟨-, rfl⟩ | ⟨hij, hj⟩
        · trivial
        · have hold := hok.working j w hj
          -- a worker that hands over as well would be busy with the same page
          have hother : f.nextToFlush ∉ w.index := fun hk =>
            hij (hok.apart i j _ w hi hj f.nextToFlush rfl hk)
          cases w with
          | putting index page => exact absurd (congrArg some hold.2.1) hother
          | saving index range => exact absurd (congrArg some hold.2.1) hother
          | _ => exact hold
      dispatched := hready.dispatched
      apart := hready.apart
      buffered := hok.buffered
      free := hready.free }

end Workers

/-! ## One step -/

section Steps

variable {opts : ScannerOptions} {h : Chronicle}

/-- Where a run has got to, everything before it is accounted for. -/
def PhaseOk (opts : ScannerOptions) (h : Chronicle) (db : OpaqueCache) (latest : ℕ) : Phase → Prop
  | .idle => True
  | .starting fromBlock _ => AccountedBelow opts h db fromBlock
  | .clamping fromBlock toBlock => AccountedBelow opts h db fromBlock ∧ toBlock ≤ latest
  | .fetching f => FetchOk opts h db latest f

structure Inv (opts : ScannerOptions) (h : Chronicle) (w : World) : Prop where
  covered : Covered opts h w.db
  phase : PhaseOk opts h w.db w.latest w.phase

theorem PhaseOk.mono {db : OpaqueCache} {latest latest' : ℕ} {phase : Phase}
    (hok : PhaseOk opts h db latest phase) (hlatest : latest ≤ latest') :
    PhaseOk opts h db latest' phase := by
  cases phase with
  | idle => trivial
  | starting fromBlock backfilling => exact hok
  | clamping fromBlock toBlock => exact ⟨hok.1, hok.2.trans hlatest⟩
  | fetching f => exact FetchOk.mono hok (.refl db) hlatest

/-- Whether the gap detection of an incremental run finds that the cache ends before the cursor. -/
def World.gapDetected (w : World) : Bool :=
  Scanner.gapDetected (getAnnouncementsForCluster w.db) (w.db.syncState.map (·.lastScannedSlot))

/-- The request that worker `i` waits for. -/
def World.request (w : World) (i : ℕ) : Option (ℕ × PageRange) :=
  match w.phase with
  | .fetching f => f.workers[i]?.bind Worker.request
  | _ => none

/-- The worker that is answered, and how many events it gets at most. -/
def Input.served : Input → Option (ℕ × ℕ)
  | .events i (some count) => some (i, count)
  | _ => none

/-- An answer for a page has all the announcements from the ledger that was asked for to the page's end. -/
def AnsweredInFull (h : Chronicle) (w : World) (i : Input) : Prop :=
  ∀ served ∈ i.served, ∀ asked ∈ w.request served.1,
    w.oldest ≤ asked.1 → (h.between asked.1 asked.2.toBlock).length ≤ served.2

/-- No incremental run finds a gap while there are recorded ranges. -/
def ClearsNothing (w : World) (i : Input) : Prop :=
  i = .runScan false → w.phase.isIdle → w.gapDetected → getUnscannedRanges w.db.syncState = []

def Sound (h : Chronicle) (e : Machine.Step World Input Unit) : Prop :=
  AnsweredInFull h e.pre e.input ∧ ClearsNothing e.pre e.input

instance (h : Chronicle) (e : Machine.Step World Input Unit) : Decidable (Sound h e) :=
  inferInstanceAs (Decidable ((∀ served ∈ e.input.served, ∀ asked ∈ e.pre.request served.1,
    e.pre.oldest ≤ asked.1 → (h.between asked.1 asked.2.toBlock).length ≤ served.2) ∧
      (e.input = .runScan false → e.pre.phase.isIdle → e.pre.gapDetected →
        getUnscannedRanges e.pre.db.syncState = [])))

/-- Without recorded ranges, clearing the sync state loses nothing. -/
theorem extends_clearSyncState {db : OpaqueCache} (hnone : getUnscannedRanges db.syncState = []) :
    Extends opts h db (clearSyncState db) := by
  refine ⟨?_, fun _ _ _ hhas => hhas⟩
  intro range hmem
  rw [hnone] at hmem
  cases hmem

/-- What an incremental run goes on from. -/
theorem accountedBelow_scanFrom {db : OpaqueCache} (hcov : Covered opts h db) :
    AccountedBelow opts h db (scanFrom opts false (db.syncState.map (·.lastScannedSlot))) := by
  cases hstate : db.syncState with
  | none => exact accountedBelow_start
  | some sync =>
    intro ledger hstart hlt
    rcases lt_max_iff.mp hlt with hlt | hlt
    · exact hcov sync hstate ledger hstart hlt
    · omega

theorem beginScan_rescan (db : OpaqueCache) :
    beginScan opts true db = (⟨[], none⟩, .starting (getStartBlock opts) false) := rfl

theorem beginScan_spec {w : World} (hcov : Covered opts h w.db)
    (hclears : w.gapDetected → getUnscannedRanges w.db.syncState = []) :
    Covered opts h (beginScan opts false w.db).1 ∧
      PhaseOk opts h (beginScan opts false w.db).1 w.latest (beginScan opts false w.db).2 ∧
      KeepsRanges w.db (beginScan opts false w.db).1 := by
  have hbegin : (beginScan opts false w.db).1 = if w.gapDetected then clearSyncState w.db else w.db := rfl
  have hext : Extends opts h w.db (beginScan opts false w.db).1 := by
    rw [hbegin]
    split_ifs with hgap
    · exact extends_clearSyncState (hclears hgap)
    · exact .refl w.db
  refine ⟨?_, ?_, hext.ranges⟩
  · rw [hbegin]
    split_ifs
    · exact covered_of_none rfl
    · exact hcov
  · apply AccountedBelow.mono hext
    exact accountedBelow_scanFrom hcov

/-- The workers begin with nothing fetched. -/
theorem fetchOk_start {db : OpaqueCache} {latest fromBlock toBlock concurrency : ℕ}
    (hfrom : AccountedBelow opts h db fromBlock) (hto : toBlock ≤ latest) :
    FetchOk opts h db latest (.start (buildPageRanges fromBlock toBlock BATCH_SIZE) concurrency) := by
  apply fetchOk_of_ready
  · intro worker hmem
    exact List.eq_of_mem_replicate hmem
  · intro range hmem
    exact (toBlock_le_of_mem_buildPages hmem).trans hto
  · intro k range next hrange hnext
    exact buildPages_next hrange hnext
  · intro range hrange
    rw [buildPages_head hrange]
    exact hfrom
  · intro k page hfind
    cases hfind

theorem fetchLogsAdaptive_spec {db : OpaqueCache} {latest fromBlock toBlock : ℕ} {health : Option ℕ}
    (hcov : Covered opts h db) (hfrom : AccountedBelow opts h db fromBlock) (hto : toBlock ≤ latest) :
    Covered opts h (fetchLogsAdaptive fromBlock toBlock health db).1 ∧
      PhaseOk opts h (fetchLogsAdaptive fromBlock toBlock health db).1 latest
        (fetchLogsAdaptive fromBlock toBlock health db).2 ∧
      KeepsRanges db (fetchLogsAdaptive fromBlock toBlock health db).1 := by
  unfold fetchLogsAdaptive
  dsimp only
  cases hclamped : health.filter fun oldest => decide (fromBlock < oldest) with
  | none =>
    dsimp only [Option.getD]
    split_ifs
    · exact ⟨hcov, trivial, .refl db⟩
    · exact ⟨hcov, fetchOk_start hfrom hto, .refl db⟩
  | some oldest =>
    have holdest : fromBlock < oldest := by
      simpa using (Option.filter_eq_some_iff.mp hclamped).2
    dsimp only [Option.getD]
    by_cases hbelow : fromBlock ≤ toBlock
    · rw [if_pos hbelow]
      generalize hgone :
        (⟨fromBlock, if oldest - 1 < toBlock then oldest - 1 else toBlock⟩ : UnscannedRange) = gone
      have hext : Extends opts h db (recordUnscannedRange gone db) := extends_recordUnscannedRange gone
      have hrecorded : Covered opts h (recordUnscannedRange gone db) := covered_recordUnscannedRange hcov
      split_ifs with hpages
      · exact ⟨hrecorded, trivial, hext.ranges⟩
      · refine ⟨hrecorded, fetchOk_start ?_ hto, hext.ranges⟩
        intro ledger hstart hlt
        by_cases hbefore : ledger < fromBlock
        · exact (hfrom ledger hstart hbefore).mono hext
        · left
          apply recorded_recordUnscannedRange
          rw [← hgone]
          refine ⟨not_lt.mp hbefore, ?_⟩
          dsimp only
          split_ifs <;> omega
    · rw [if_neg hbelow, if_pos (by omega)]
      exact ⟨hcov, trivial, .refl db⟩

/-- The pages that are got. -/
theorem getEvents_eq_ok {w : World} {startLedger : ℕ} {count : Option ℕ} {events : List AnnouncementEvent}
    (hevents : getEvents h w startLedger count = .ok events) :
    ∃ n, count = some n ∧ w.oldest ≤ startLedger ∧ events = (h.between startLedger w.latest).take n := by
  unfold getEvents at hevents
  split at hevents
  · cases hevents
  · next n =>
      split_ifs at hevents with hold
      exact ⟨n, rfl, not_lt.mp hold, (Except.ok.inj hevents).symm⟩

/-- An answer in full is all of the page that is not recorded. -/
theorem pageOk_of_answer {w : World} {startLedger n : ℕ} {range : PageRange}
    (hclosed : range.toBlock ≤ w.latest) (hcount : (h.between startLedger range.toBlock).length ≤ n)
    (hbefore : ∀ ledger, range.Contains ledger → ledger < startLedger → Recorded w.db ledger) :
    PageOk opts h w.db
      ⟨range, mapAnnouncementEvents opts.cluster ((h.between startLedger w.latest).take n)⟩ where
  genuine _ hr := exists_of_mem_take hr
  whole ledger hl := by
    by_cases hlt : ledger < startLedger
    · exact .inl (hbefore ledger hl hlt)
    · exact .inr fun r hr => mem_take_of_whole hclosed hcount (not_lt.mp hlt) hl.2 hr

theorem answered_spec {w : World} {f : Fetch} (hok : FetchOk opts h w.db w.latest f) {i : ℕ}
    {count : Option ℕ} (hphase : w.phase = .fetching f)
    (hfull : AnsweredInFull h w (.events i count)) :
    FetchOk opts h w.db w.latest (answered opts h w f i count) := by
  have hrequest : ∀ worker, f.workers[i]? = some worker → w.request i = worker.request := by
    intro worker hi
    rw [World.request, hphase]
    dsimp only
    rw [hi, Option.bind_some]
  unfold answered
  split
  · next index range hi =>
      have hrange : f.ranges[index]? = some range := hok.working i _ hi
      split
      · next events hevents =>
          obtain ⟨n, rfl, hold, rfl⟩ := getEvents_eq_ok hevents
          have hcount := hfull (i, n) rfl (range.fromBlock, range) (by rw [hrequest _ hi]; rfl) hold
          refine hok.deliver hi rfl hrange (pageOk_of_answer ?_ hcount ?_)
          · exact hok.closed range (List.mem_of_getElem? hrange)
          · intro ledger hl hlt
            exact absurd hl.1 (by omega)
      · split
        · split_ifs
          · exact hok.setWorker hi (by simp [Worker.index]) hrange
          · exact hok.fail hi
        · exact hok.fail hi
  · next index range oldest hi =>
      obtain ⟨hrange, hrecorded⟩ := hok.working i _ hi
      split
      · next events hevents =>
          obtain ⟨n, rfl, hold, rfl⟩ := getEvents_eq_ok hevents
          have hcount := hfull (i, n) rfl (oldest, range) (by rw [hrequest _ hi]; rfl) hold
          refine hok.deliver hi rfl hrange (pageOk_of_answer ?_ hcount hrecorded)
          exact hok.closed range (List.mem_of_getElem? hrange)
      · exact hok.fail hi
  · exact hok

theorem write_spec {db : OpaqueCache} {latest i : ℕ} {f : Fetch} (hok : FetchOk opts h db latest f)
    (hcov : Covered opts h db) :
    FetchOk opts h (f.write opts.cluster db i).2 latest (f.write opts.cluster db i).1 ∧
      Covered opts h (f.write opts.cluster db i).2 ∧ KeepsRanges db (f.write opts.cluster db i).2 := by
  unfold Fetch.write
  split
  · next index range oldest hi =>
      have hext : Extends opts h db _ :=
        extends_recordUnscannedRange ⟨range.fromBlock, min (oldest - 1) range.toBlock⟩
      refine ⟨?_, covered_recordUnscannedRange hcov, hext.ranges⟩
      refine (hok.mono hext le_rfl).setWorker hi (by simp [Worker.index]) ⟨hok.working i _ hi, ?_⟩
      intro ledger hl hlt
      exact recorded_recordUnscannedRange ⟨hl.1, le_min (by omega) hl.2⟩
  · next index page hi =>
      obtain ⟨hrange, hnext, hpage⟩ := hok.working i _ hi
      have hext : Extends opts h db _ := extends_putAnnouncements hpage.genuine
      refine ⟨?_, fun sync hsync => (hcov sync hsync).mono hext, hext.ranges⟩
      refine (hok.mono hext le_rfl).setWorker hi (by simp [Worker.index]) ⟨hrange, hnext, ?_⟩
      intro ledger hl
      refine (hpage.whole ledger hl).imp (Recorded.mono hext.ranges) fun hall r hr => ?_
      exact has_putAnnouncements_of_genuine hpage.genuine hr (.inr (hall r hr))
  · next index range hi =>
      obtain ⟨hrange, rfl, hsaved⟩ := hok.working i _ hi
      have hext : Extends opts h db _ := extends_setSyncState range.toBlock
      refine ⟨?_, covered_setSyncState ?_, hext.ranges⟩
      · exact ((hok.advance hi).mono hext le_rfl).drainReady
      · intro ledger hstart hlt
        by_cases hbefore : ledger < range.fromBlock
        · exact hok.flushed range hrange ledger hstart hbefore
        · exact hsaved ledger ⟨by omega, by omega⟩
  · exact ⟨hok, hcov, .refl db⟩

theorem inv_fresh (oldest latest : ℕ) : Inv opts h (World.fresh oldest latest) :=
  ⟨covered_of_none rfl, trivial⟩

/-- **One step.** -/
theorem step_spec {w : World} (hinv : Inv opts h w) {i : Input} (hfull : AnsweredInFull h w i)
    (hclears : ClearsNothing w i) :
    Inv opts h (step opts h w i) ∧ (i ≠ .runScan true → KeepsRanges w.db (step opts h w i).db) := by
  obtain ⟨hcov, hphase⟩ := hinv
  have hsame : ∀ phase, PhaseOk opts h w.db w.latest phase →
      Inv opts h { w with phase := phase } ∧
        (i ≠ .runScan true → KeepsRanges w.db { w with phase := phase }.db) :=
    fun phase hok => ⟨⟨hcov, hok⟩, fun _ => .refl w.db⟩
  unfold step
  split
  · exact ⟨⟨hcov, hphase.mono (Nat.le_succ _)⟩, fun _ => .refl w.db⟩
  · exact ⟨⟨hcov, hphase⟩, fun _ => .refl w.db⟩
  · next clearCache hidle =>
      cases clearCache with
      | true =>
        rw [beginScan_rescan]
        exact ⟨⟨covered_of_none rfl, accountedBelow_start⟩, fun hne => absurd rfl hne⟩
      | false =>
        have hgap := hclears rfl (by rw [hidle]; rfl)
        obtain ⟨hcov', hphase', hkeeps⟩ := beginScan_spec hcov hgap
        exact ⟨⟨hcov', hphase'⟩, fun _ => hkeeps⟩
  · next fromBlock backfilling hstarting =>
      rw [hstarting] at hphase
      split_ifs
      · exact hsame _ trivial
      · exact hsame _ ⟨hphase, le_rfl⟩
  · exact hsame _ trivial
  · next lag fromBlock toBlock hclamping =>
      rw [hclamping] at hphase
      obtain ⟨hcov', hphase', hkeeps⟩ := fetchLogsAdaptive_spec hcov hphase.1 hphase.2
      exact ⟨⟨hcov', hphase'⟩, fun _ => hkeeps⟩
  · next i f hfetching =>
      rw [hfetching] at hphase
      split
      · next hi => exact hsame _ (FetchOk.dispatch hphase hi)
      · exact ⟨⟨hcov, hfetching ▸ hphase⟩, fun _ => .refl w.db⟩
  · next i count f hfetching =>
      rw [hfetching] at hphase
      exact hsame _ (answered_spec hphase hfetching hfull)
  · next i f hfetching =>
      rw [hfetching] at hphase
      obtain ⟨hok, hcov', hkeeps⟩ := write_spec hphase hcov (i := i)
      exact ⟨⟨hcov', hok⟩, fun _ => hkeeps⟩
  · next f hfetching =>
      rw [hfetching] at hphase
      split_ifs
      · exact hsame _ trivial
      · split
        · exact hsame _ trivial
        · apply hsame
          apply FetchOk.drainReady
          exact fetchOk_of_ready (fun _ hmem => List.mem_singleton.mp hmem) hphase.closed hphase.consecutive
            hphase.flushed hphase.buffered
      · exact ⟨⟨hcov, hfetching ▸ hphase⟩, fun _ => .refl w.db⟩
  · exact ⟨⟨hcov, hphase⟩, fun _ => .refl w.db⟩

/-- The invariant after every run. -/
theorem run_inv {oldest latest : ℕ} {is : List Input}
    (hsound : ∀ e ∈ (machine opts h).trace (.fresh oldest latest) is, Sound h e) :
    Inv opts h ((machine opts h).final (.fresh oldest latest) is) := by
  refine (machine opts h).invariant_of_steps (P := Sound h) (I := fun _ w => Inv opts h w) (inv_fresh _ _)
    ?_ is hsound
  intro t w i hinv hstep
  exact (step_spec hinv hstep.1 hstep.2).1

end Steps

/-! ## Every run -/

/-- **Coverage.** In a run whose pages are answered in full and whose gap detection finds no recorded
ranges, each ledger up to the saved cursor is recorded or in the cache after every step, and only a full
rescan takes back what is recorded. -/
theorem scanner_coverage (opts : ScannerOptions) (h : Chronicle) (oldest latest : ℕ) (is : List Input)
    (hsound : ∀ e ∈ (machine opts h).trace (.fresh oldest latest) is, Sound h e) :
    ∀ e ∈ (machine opts h).trace (.fresh oldest latest) is,
      Covered opts h (step opts h e.pre e.input).db ∧
        (e.input ≠ .runScan true → KeepsRanges e.pre.db (step opts h e.pre e.input).db) := by
  intro e he
  obtain ⟨before, later, htrace, hpre⟩ := (machine opts h).mem_trace_split he
  have hinv : Inv opts h e.pre := by
    rw [hpre]
    apply run_inv
    intro e' he'
    exact hsound e' (htrace ▸ List.mem_append_left _ he')
  obtain ⟨hfull, hclears⟩ := hsound e he
  have hstep := step_spec hinv hfull hclears
  exact ⟨hstep.1.covered, hstep.2⟩

/-- Announcements in one ledger only, each in a transaction of its own. -/
def Chronicle.single (ledger : ℕ) (txHashes : List Str) : Chronicle where
  events l :=
    if l = ledger then
      txHashes.map fun txHash => ⟨txHash, ledger, List.replicate 32 7, List.replicate 33 2, [1]⟩
    else []
  ledger_eq := by
    intro l ev hev
    split_ifs at hev with hl
    · obtain ⟨txHash, -, rfl⟩ := List.mem_map.mp hev
      exact hl.symm
    · cases hev
  inOneLedger := by
    intro l l' ev hev ev' hev' _
    split_ifs at hev hev' with hl hl'
    · obtain ⟨txHash, -, rfl⟩ := List.mem_map.mp hev
      obtain ⟨txHash', -, rfl⟩ := List.mem_map.mp hev'
      rfl
    · cases hev'
    · cases hev
    · cases hev

namespace Demo

def opts : ScannerOptions := ⟨"testnet".toList, some 1⟩

def busy : Chronicle := .single 1 ["aa".toList, "bb".toList]

/-- A run over one page that is answered with so many events at most. -/
def onePage (count : ℕ) : List Input :=
  [.runScan false, .slot true, .health (some 0), .dispatch 0, .events 0 (some count), .write 0, .write 0,
    .dispatch 0, .join]

def quiet : Chronicle := .single 3 ["cc".toList]

/-- The run that finds the announcement, and one after a ledger without any. -/
def twoRuns : List Input := onePage 1 ++ .close :: onePage 0

end Demo

set_option maxRecDepth 100000 in
theorem scanner_coverage_one_page :
    ((machine Demo.opts Demo.busy).final (.fresh 1 1) (Demo.onePage 2)).db.syncState = some ⟨1, none, none⟩ ∧
      ∀ e ∈ (machine Demo.opts Demo.busy).trace (.fresh 1 1) (Demo.onePage 2),
        Covered Demo.opts Demo.busy (step Demo.opts Demo.busy e.pre e.input).db ∧
          (e.input ≠ .runScan true →
            KeepsRanges e.pre.db (step Demo.opts Demo.busy e.pre e.input).db) :=
  ⟨by decide, scanner_coverage Demo.opts Demo.busy 1 1 (Demo.onePage 2) (by decide)⟩

set_option maxRecDepth 100000 in
/-- A page that is cut off leaves an announcement behind the cursor, and a run after a quiet ledger clears the
range that was recorded. -/
theorem scanner_coverage_fails :
    ¬ Covered Demo.opts Demo.busy
        ((machine Demo.opts Demo.busy).final (.fresh 1 1) (Demo.onePage 1)).db ∧
      ¬ KeepsRanges ((machine Demo.opts Demo.quiet).final (.fresh 3 3) Demo.twoRuns).db
        (step Demo.opts Demo.quiet ((machine Demo.opts Demo.quiet).final (.fresh 3 3) Demo.twoRuns)
          (.runScan false)).db := by
  constructor
  · intro hcov
    have hone := hcov ⟨1, none, none⟩ (by decide) 1 (by decide) (by decide)
    rcases hone with ⟨range, hmem, -⟩ | hcached
    · have hnone : getUnscannedRanges ((machine Demo.opts Demo.busy).final (.fresh 1 1)
        (Demo.onePage 1)).db.syncState = [] := by decide
      rw [hnone] at hmem
      cases hmem
    · have hlost := hcached (cachedAnnouncement Demo.opts.cluster
        ⟨"bb".toList, 1, List.replicate 32 7, List.replicate 33 2, [1]⟩ 0) (by decide)
      revert hlost
      unfold OpaqueCache.Has
      decide
  · intro hkeeps
    obtain ⟨range, hmem, -⟩ := hkeeps ⟨1, 2⟩ (by decide)
    have hnone : getUnscannedRanges (step Demo.opts Demo.quiet
        ((machine Demo.opts Demo.quiet).final (.fresh 3 3) Demo.twoRuns) (.runScan false)).db.syncState =
        [] := by
      decide
    rw [hnone] at hmem
    cases hmem

end OpaqueStellar.Web.Scanner
