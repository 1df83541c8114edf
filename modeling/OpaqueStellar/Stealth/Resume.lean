import Mathlib.Data.List.TakeWhile
import OpaqueStellar.Stealth.Events
import OpaqueStellar.Stealth.Scan

/-! # Scanning on from a cursor

`scanIterator` of `sdk/src/services/payments.ts` saves after every page how far it has read, as a ledger
number, and the next run starts at the ledger after it. A page can end inside a ledger, though, and a
consumer can stop before the next page. -/

namespace OpaqueStellar.Stealth

open OpaqueStellar.Lib OpaqueStellar.Schemas OpaqueStellar.Soroban

/-! ## The iterator -/

/-- An `Announcement` event. -/
abbrev AnnouncementEvent : Type := EventResponse Accepted

abbrev AnnouncementPage : Type := ContractEventPage Accepted

def announcementOf (ev : AnnouncementEvent) : StealthAnnouncement :=
  ev.value.1.announcement

def ANNOUNCEMENT_EVENT_LOOKBACK : ℕ := 16000

structure ScanEventsOptions where
  startLedger : Option ℕ
  maxPages : Option ℕ
  throwOnTruncation : Bool

def ScanEventsOptions.paginate (opts : ScanEventsOptions) : PaginateContractEventsOptions where
  startLedger := opts.startLedger
  lookback := some ANNOUNCEMENT_EVENT_LOOKBACK
  pageSize := none
  maxPages := opts.maxPages
  throwOnTruncation := opts.throwOnTruncation

def scanEvents (invoker : Invoker Accepted) (opts : ScanEventsOptions) :
    List AnnouncementPage × Except EventsError Unit :=
  paginateContractEvents invoker opts.paginate

structure ScanIteratorOptions where
  startLedger : Option ℕ
  skipCursor : Bool
  maxPages : Option ℕ
  allowTruncation : Bool

/-- What is yielded. -/
structure Delivery where
  found : ScanMatch
  ledger : ℕ
  deriving DecidableEq

/-- What the iterator does for a page: it yields the matches, and then saves the cursor. -/
structure Turn where
  page : AnnouncementPage
  yields : List Delivery
  saves : Option ℕ

inductive ScanError where
  | events (err : EventsError)
  | scan (thrown : Thrown)

section ScanIterator

variable (C : Crypto) (viewingKey spendingKey : BytesN 32)

def scanPage (skipCursor : Bool) (page : AnnouncementPage) : Except Thrown Turn := do
  let found ← scanAnnouncements C viewingKey spendingKey (page.events.map announcementOf)
  pure
    { page := page
      yields := found.map fun m => ⟨m, page.ledger⟩
      saves := if skipCursor then none else some (if page.complete then page.endLedger else page.ledger) }

/-- The loop over the pages; `ending` is how they end. -/
def scanPages (skipCursor : Bool) (ending : Except EventsError Unit) :
    List AnnouncementPage → List Turn × Except ScanError Unit
  | [] => ([], ending.mapError .events)
  | page :: pages =>
    match scanPage C viewingKey spendingKey skipCursor page with
    | .error thrown => ([], .error (.scan thrown))
    | .ok turn =>
      let rest := scanPages skipCursor ending pages
      (turn :: rest.1, rest.2)

/-- The ledger that a run starts at, if it is not left to the pages. -/
def resumeLedger (cursor : Option ℕ) (opts : ScanIteratorOptions) : Option ℕ :=
  if opts.startLedger = none ∧ ¬ opts.skipCursor then
    match cursor with
    | some cursor => some (cursor + 1)
    | none => none
  else opts.startLedger

def ScanIteratorOptions.scanEvents (cursor : Option ℕ) (opts : ScanIteratorOptions) : ScanEventsOptions where
  startLedger := resumeLedger cursor opts
  maxPages := opts.maxPages
  throwOnTruncation := !opts.allowTruncation

/-- The turns of the iterator if nobody stops it, and how it ends. -/
def scanIterator (invoker : Invoker Accepted) (cursor : Option ℕ) (opts : ScanIteratorOptions) :
    List Turn × Except ScanError Unit :=
  let pages := scanEvents invoker (opts.scanEvents cursor)
  scanPages C viewingKey spendingKey opts.skipCursor pages.2 pages.1

end ScanIterator

/-! ## Runs -/

/-- A run of the iterator whose consumer stops after some turns and some matches of the next turn. A run
that ends by itself, or by an error, stops at its end. -/
structure Run (history : List AnnouncementEvent) where
  opts : ScanIteratorOptions
  service : Service history
  turns : ℕ
  found : ℕ

/-- What is left of the runs so far. `since` is the first ledger of the range that the cursor ends. -/
structure Session where
  cursor : Option ℕ
  since : ℕ
  delivered : List Delivery

section Runs

variable (C : Crypto) (view spend : SecretKey) {history : List AnnouncementEvent}

/-- The turns of a run that are not stopped. -/
def Run.full (r : Run history) (cursor : Option ℕ) : List Turn :=
  (scanIterator C view.bytes spend.bytes r.service.toInvoker cursor r.opts).1.take r.turns

/-- What the consumer takes of the turn in which it stops. -/
def Run.partly (r : Run history) (cursor : Option ℕ) : List Delivery :=
  match (scanIterator C view.bytes spend.bytes r.service.toInvoker cursor r.opts).1[r.turns]? with
  | some turn => turn.yields.take r.found
  | none => []

def Run.start (r : Run history) (cursor : Option ℕ) : ℕ :=
  match r.service.getLatestLedger with
  | .ok latest => startLedgerOf (r.opts.scanEvents cursor).paginate latest
  | .error _ => 0

/-- Whether a run goes on where the cursor is. -/
def Run.resumes (r : Run history) (cursor : Option ℕ) : Bool :=
  r.opts.startLedger = none ∧ ¬ r.opts.skipCursor ∧ cursor ≠ none

def Session.run (s : Session) (r : Run history) : Session :=
  let full := r.full C view spend s.cursor
  let saved := (full.filterMap Turn.saves).getLast?
  { cursor := saved.or s.cursor
    since := if saved.isSome ∧ ¬ r.resumes s.cursor then r.start s.cursor else s.since
    delivered := s.delivered ++ (full.flatMap Turn.yields ++ r.partly C view spend s.cursor) }

/-- Before the first run. -/
def Session.empty : Session where
  cursor := none
  since := 0
  delivered := []

def Session.runs (s : Session) (rs : List (Run history)) : Session :=
  rs.foldl (fun s r => s.run C view spend r) s

def Session.found (s : Session) : List ScanMatch := s.delivered.map Delivery.found

/-- What an event means to the recipient: what scanning it on its own finds. -/
def matching (ev : AnnouncementEvent) : List ScanMatch :=
  alone (scanAnnouncement C view.bytes spend.bytes) (announcementOf ev)

/-- If the last page that was read in full is not the final one, then each event of its ledger is on a page
that was read in full, or its matches were taken before the consumer stopped. -/
def Run.StopsAfterLedger (r : Run history) (cursor : Option ℕ) : Prop :=
  ∀ turn, (r.full C view spend cursor).getLast? = some turn → turn.page.complete = false →
    ∀ ev ∈ history, ev.ledger = turn.page.ledger →
      (∃ t ∈ r.full C view spend cursor, ev ∈ t.page.events) ∨
        ∀ m ∈ matching C view spend ev, m ∈ (r.partly C view spend cursor).map Delivery.found

/-- The condition along a list of runs. -/
def StopAfterLedgers : Session → List (Run history) → Prop
  | _, [] => True
  | s, r :: rs => r.StopsAfterLedger C view spend s.cursor ∧ StopAfterLedgers (s.run C view spend r) rs

/-- The run goes on from the cursor, and the RPC's last page is read before the consumer stops. -/
def Run.Drains (r : Run history) (cursor : Option ℕ) : Prop :=
  r.opts.startLedger = none ∧ r.opts.skipCursor = false ∧
    (scanEvents r.service.toInvoker (r.opts.scanEvents cursor)).1.length ≤ r.turns ∧
    ∃ page ∈ (scanEvents r.service.toInvoker (r.opts.scanEvents cursor)).1, page.complete = true

/-- Each announcement on the pages that the run reads can be scanned. -/
def Run.ReadsScannable (r : Run history) (cursor : Option ℕ) : Prop :=
  ∀ page ∈ (scanEvents r.service.toInvoker (r.opts.scanEvents cursor)).1, ∀ ev ∈ page.events,
    Scannable C view spend (announcementOf ev)

end Runs

/-! ## What the turns hold -/

section Turns

variable {C : Crypto} {view spend : SecretKey} {skipCursor : Bool} {ending : Except EventsError Unit}

/-- The position that is saved after a page. -/
def Turn.position (turn : Turn) : ℕ :=
  if turn.page.complete then turn.page.endLedger else turn.page.ledger

structure Turn.Ok (C : Crypto) (view spend : SecretKey) (skipCursor : Bool) (turn : Turn) : Prop where
  yields : turn.yields.map Delivery.found = turn.page.events.flatMap (matching C view spend)
  saves : turn.saves = if skipCursor then none else some turn.position

theorem scanPage_ok {page : AnnouncementPage} {turn : Turn}
    (h : scanPage C view.bytes spend.bytes skipCursor page = .ok turn) :
    turn.page = page ∧ turn.Ok C view spend skipCursor := by
  obtain ⟨found, hfound, hturn⟩ := bind_eq_ok.mp h
  obtain rfl := Except.ok.inj hturn
  refine ⟨rfl, ?_, rfl⟩
  have hall : found = (page.events.map announcementOf).flatMap
      (alone (scanAnnouncement C view.bytes spend.bytes)) := collect_eq_of_ok hfound
  rw [List.flatMap_map] at hall
  simp only [List.map_map]
  rw [hall]
  exact List.map_id _

/-- The turns go through the pages in order, up to one that throws. -/
theorem scanPages_turns (C : Crypto) (view spend : SecretKey) (skipCursor : Bool)
    (ending : Except EventsError Unit) (pages : List AnnouncementPage) :
    (∃ others, pages = (scanPages C view.bytes spend.bytes skipCursor ending pages).1.map Turn.page ++ others) ∧
      ∀ turn ∈ (scanPages C view.bytes spend.bytes skipCursor ending pages).1,
        turn.Ok C view spend skipCursor := by
  induction pages with
  | nil => simp [scanPages]
  | cons page pages ih =>
    obtain ⟨⟨others, hothers⟩, hok⟩ := ih
    cases hscan : scanPage C view.bytes spend.bytes skipCursor page with
    | error thrown => simp [scanPages, hscan]
    | ok turn =>
      obtain ⟨rfl, hturn⟩ := scanPage_ok hscan
      simp only [scanPages, hscan, List.map_cons, List.cons_append, List.forall_mem_cons]
      exact ⟨⟨others, by rw [← hothers]⟩, hturn, hok⟩

/-- None throws if each announcement can be scanned. -/
theorem scanPages_eq_of_scannable {pages : List AnnouncementPage}
    (h : ∀ page ∈ pages, ∀ ev ∈ page.events, Scannable C view spend (announcementOf ev)) :
    (scanPages C view.bytes spend.bytes skipCursor ending pages).1.map Turn.page = pages := by
  induction pages with
  | nil => rfl
  | cons page pages ih =>
    rw [List.forall_mem_cons] at h
    obtain ⟨turn, hturn⟩ : ∃ turn, scanPage C view.bytes spend.bytes skipCursor page = .ok turn := by
      have hturns : ∀ a ∈ page.events.map announcementOf,
          ∃ found, scanAnnouncement C view.bytes spend.bytes a = .ok found := by
        rw [List.forall_mem_map]
        exact fun ev hev => scanAnnouncement_isOk.mpr (h.1 ev hev)
      simp only [scanPage, scanAnnouncements, collect_eq_of_isOk hturns, ok_bind]
      exact ⟨_, rfl⟩
    simp only [scanPages, hturn, List.map_cons, (scanPage_ok hturn).1, ih h.2]

end Turns

/-! ## What a run leaves -/

section Runs

variable {C : Crypto} {view spend : SecretKey} {history : List AnnouncementEvent} {s : Session}
  {r : Run history} {ev : AnnouncementEvent}

/-- Nothing between the start of the range and the cursor is missing. -/
def Covers (C : Crypto) (view spend : SecretKey) (s : Session) (ev : AnnouncementEvent) : Prop :=
  ∀ cursor, s.cursor = some cursor → s.since ≤ ev.ledger → ev.ledger ≤ cursor →
    ∀ m ∈ matching C view spend ev, m ∈ s.found

theorem full_ok (C : Crypto) (view spend : SecretKey) (r : Run history) (cursor : Option ℕ) :
    (∃ others, (scanEvents r.service.toInvoker (r.opts.scanEvents cursor)).1 =
        (r.full C view spend cursor).map Turn.page ++ others) ∧
      ∀ turn ∈ r.full C view spend cursor, turn.Ok C view spend r.opts.skipCursor := by
  obtain ⟨⟨others, hpages⟩, hok⟩ := scanPages_turns C view spend r.opts.skipCursor
    (scanEvents r.service.toInvoker (r.opts.scanEvents cursor)).2
    (scanEvents r.service.toInvoker (r.opts.scanEvents cursor)).1
  constructor
  · rw [← List.take_append_drop r.turns ((scanPages _ _ _ _ _ _).1.map Turn.page), ← List.map_take,
      List.append_assoc] at hpages
    exact ⟨_, hpages⟩
  · exact fun turn hturn => hok turn (List.mem_of_mem_take hturn)

/-- What is saved last. -/
theorem saved_eq {skipCursor : Bool} {full : List Turn} (h : ∀ turn ∈ full, turn.Ok C view spend skipCursor) :
    (full.filterMap Turn.saves).getLast? =
      if skipCursor then none else full.getLast?.map Turn.position := by
  cases skipCursor with
  | true =>
    have hnone : full.filterMap Turn.saves = [] := by
      rw [List.filterMap_eq_nil_iff]
      exact fun turn hturn => (h turn hturn).saves
    rw [hnone]
    rfl
  | false =>
    have hsaves : full.filterMap Turn.saves = full.map Turn.position := by
      rw [← List.filterMap_eq_map]
      exact List.filterMap_congr fun turn hturn => (h turn hturn).saves
    rw [hsaves, List.getLast?_map]
    rfl

theorem mem_found_run {m : ScanMatch} : m ∈ (s.run C view spend r).found ↔ m ∈ s.found ∨
    (∃ turn ∈ r.full C view spend s.cursor, m ∈ turn.yields.map Delivery.found) ∨
      m ∈ (r.partly C view spend s.cursor).map Delivery.found := by
  simp only [Session.found, Session.run, List.map_append, List.mem_append, List.map_flatMap,
    List.mem_flatMap]

/-- The matches of an event on a page that is read in full are delivered. -/
theorem mem_found_run_of_mem_page {m : ScanMatch} {turn : Turn}
    (hturn : turn ∈ r.full C view spend s.cursor) (hev : ev ∈ turn.page.events)
    (hm : m ∈ matching C view spend ev) : m ∈ (s.run C view spend r).found := by
  rw [mem_found_run]
  refine .inr (.inl ⟨turn, hturn, ?_⟩)
  rw [((full_ok C view spend r s.cursor).2 turn hturn).yields]
  exact List.mem_flatMap.mpr ⟨ev, hev, hm⟩

theorem startLedgerOf_resume {opts : ScanIteratorOptions} {cursor latest : ℕ}
    (hstart : opts.startLedger = none) (hskip : opts.skipCursor = false) :
    startLedgerOf (opts.scanEvents (some cursor)).paginate latest = cursor + 1 := by
  simp [startLedgerOf, ScanEventsOptions.paginate, ScanIteratorOptions.scanEvents, resumeLedger, hstart,
    hskip]

/-- The events from the start of a run on that are up to what it saves last: each is on a page that is read
in full, or else in the last ledger of a page that is not the final one. -/
theorem mem_page_of_le_position (hsorted : history.Pairwise fun a b => a.ledger ≤ b.ledger)
    (hev : ev ∈ history) (hretains : r.service.Retains ev) {cursor : Option ℕ} {turn : Turn}
    (hlast : (r.full C view spend cursor).getLast? = some turn) (hstart : r.start cursor ≤ ev.ledger)
    (hposition : ev.ledger ≤ turn.position) :
    (∃ t ∈ r.full C view spend cursor, ev ∈ t.page.events) ∨
      turn.page.complete = false ∧ ev.ledger = turn.page.ledger := by
  obtain ⟨⟨others, hpages⟩, -⟩ := full_ok C view spend r cursor
  obtain ⟨init, hfull⟩ := List.getLast?_eq_some_iff.mp hlast
  cases hlatest : r.service.getLatestLedger with
  | error err =>
    -- then there are no pages
    simp [scanEvents, paginateContractEvents, hlatest, hfull] at hpages
  | ok latest =>
    obtain ⟨first, -, hfirst, hreads⟩ :=
      reads_paginateContractEvents r.service (r.opts.scanEvents cursor).paginate hlatest
    rw [Run.start, hlatest] at hstart
    have hsince : first ≤ ev.ledger := hfirst ev hretains hstart
    rw [scanEvents, hfull, List.map_append, List.append_assoc] at hpages
    rw [hpages] at hreads
    obtain ⟨unread, hrest, hledger, hcomplete⟩ := hreads.last
    have hmem : ev ∈ history.dropWhile fun ev => ev.ledger < first := by
      rw [← List.takeWhile_append_dropWhile (p := fun ev => decide (ev.ledger < first)) (l := history)]
        at hev
      rcases List.mem_append.mp hev with htake | hdrop
      · have hbefore := List.mem_takeWhile_imp htake
        simp only [decide_eq_true_eq] at hbefore
        omega
      · exact hdrop
    have hordered := hsorted.sublist (List.dropWhile_sublist fun ev => decide (ev.ledger < first))
    rw [hrest] at hmem hordered
    rcases List.mem_append.mp hmem with hread | hunread
    · left
      obtain ⟨page, hpage, hev⟩ := List.mem_flatMap.mp hread
      have hturn : page ∈ (r.full C view spend cursor).map Turn.page := by
        rw [hfull, List.map_append]
        exact hpage
      obtain ⟨t, ht, rfl⟩ := List.mem_map.mp hturn
      exact ⟨t, ht, hev⟩
    · right
      cases hc : turn.page.complete with
      | true =>
        have hend := (hcomplete hc).2 ev hunread
        rw [Turn.position, if_pos hc] at hposition
        omega
      | false =>
        -- whatever is unread is not before what has been read
        rw [Turn.position, hc] at hposition
        have hle : highest first ((init.map Turn.page ++ [turn.page]).flatMap (·.events)) ≤ ev.ledger :=
          highest_le hsince fun read hread => (List.pairwise_append.mp hordered).2.2 read hread ev hunread
        rw [← hledger] at hle
        exact ⟨rfl, le_antisymm hposition hle⟩

theorem mem_found_run_of_mem {m : ScanMatch} (hm : m ∈ s.found) : m ∈ (s.run C view spend r).found :=
  mem_found_run.mpr (.inl hm)

theorem start_le_of_resumes {cursor : ℕ} (h : r.resumes (some cursor) = true) :
    r.start (some cursor) ≤ cursor + 1 := by
  simp only [Run.resumes, Bool.not_eq_true, ne_eq, reduceCtorEq, not_false_eq_true, and_true,
    decide_eq_true_eq] at h
  unfold Run.start
  split
  · rw [startLedgerOf_resume h.1 h.2]
  · exact Nat.zero_le _

/-- One run. -/
theorem covers_run (hsorted : history.Pairwise fun a b => a.ledger ≤ b.ledger) (hev : ev ∈ history)
    (hretains : r.service.Retains ev) (hstops : r.StopsAfterLedger C view spend s.cursor)
    (h : Covers C view spend s ev) : Covers C view spend (s.run C view spend r) ev := by
  intro position hcursor hsince hle m hm
  have hsaved := saved_eq (full_ok C view spend r s.cursor).2
  cases hs : ((r.full C view spend s.cursor).filterMap Turn.saves).getLast? with
  | none =>
    -- nothing is saved
    simp only [Session.run, hs, Option.none_or, Option.isSome_none, Bool.false_eq_true, false_and,
      if_false] at hcursor hsince
    exact mem_found_run_of_mem (h position hcursor hsince hle m hm)
  | some saved =>
    simp only [Session.run, hs, Option.some_or, Option.some.injEq, Option.isSome_some, true_and]
      at hcursor hsince
    obtain rfl := hcursor
    obtain ⟨turn, hturn, rfl⟩ : ∃ turn, (r.full C view spend s.cursor).getLast? = some turn ∧
        turn.position = saved := by
      rw [hs] at hsaved
      split at hsaved
      · cases hsaved
      · exact Option.map_eq_some_iff.mp hsaved.symm
    by_cases hbefore : r.resumes s.cursor = true ∧ ∃ cursor, s.cursor = some cursor ∧ ev.ledger ≤ cursor
    · -- the runs before have covered it
      obtain ⟨hresumes, cursor, hc, hbefore⟩ := hbefore
      rw [if_neg (not_not.mpr hresumes)] at hsince
      exact mem_found_run_of_mem (h cursor hc hsince hbefore m hm)
    · have hstart : r.start s.cursor ≤ ev.ledger := by
        by_cases hresumes : r.resumes s.cursor = true
        · cases hc : s.cursor with
          | none => simp [Run.resumes, hc] at hresumes
          | some cursor =>
            rw [hc] at hresumes
            have hafter : ¬ ev.ledger ≤ cursor := fun hle =>
              hbefore ⟨by rwa [hc], cursor, hc, hle⟩
            have hresume := start_le_of_resumes hresumes
            omega
        · rwa [if_pos hresumes] at hsince
      rcases mem_page_of_le_position hsorted hev hretains hturn hstart hle with hpage | ⟨hc, hledger⟩
      · obtain ⟨t, ht, hpage⟩ := hpage
        exact mem_found_run_of_mem_page ht hpage hm
      · rcases hstops turn hturn hc ev hev hledger with ⟨t, ht, hpage⟩ | hpartly
        · exact mem_found_run_of_mem_page ht hpage hm
        · exact mem_found_run.mpr (.inr (.inr (hpartly m hm)))

/-- The runs before the last one. -/
theorem covers_runs (hsorted : history.Pairwise fun a b => a.ledger ≤ b.ledger) (hev : ev ∈ history)
    {rs : List (Run history)} (hretains : ∀ r ∈ rs, r.service.Retains ev)
    (hstops : StopAfterLedgers C view spend s rs) (h : Covers C view spend s ev) :
    Covers C view spend (s.runs C view spend rs) ev := by
  induction rs generalizing s with
  | nil => exact h
  | cons r rs ih =>
    rw [List.forall_mem_cons] at hretains
    exact ih hretains.2 hstops.2 (covers_run hsorted hev hretains.1 hstops.1 h)

/-- A run that nobody stops has a turn for each page if what it reads can be scanned. -/
theorem full_of_drains {cursor : Option ℕ} (hdrains : r.Drains cursor)
    (hscannable : r.ReadsScannable C view spend cursor) : (r.full C view spend cursor).map Turn.page =
      (scanEvents r.service.toInvoker (r.opts.scanEvents cursor)).1 := by
  obtain ⟨-, -, hturns, -⟩ := hdrains
  have hall : (scanPages C view.bytes spend.bytes r.opts.skipCursor
      (scanEvents r.service.toInvoker (r.opts.scanEvents cursor)).2 _).1.map Turn.page = _ :=
    scanPages_eq_of_scannable hscannable
  rw [Run.full, scanIterator, List.map_take, hall]
  exact List.take_of_length_le hturns

/-- The last run reads to the end, and saves a position that is not before the latest ledger. -/
theorem run_of_drains (hdrains : r.Drains s.cursor)
    (hscannable : r.ReadsScannable C view spend s.cursor) {latest : ℕ}
    (hlatest : r.service.getLatestLedger = .ok latest) :
    r.StopsAfterLedger C view spend s.cursor ∧
      ∃ position, (s.run C view spend r).cursor = some position ∧ latest ≤ position := by
  have hfull := full_of_drains hdrains hscannable
  obtain ⟨-, hskip, -, page, hpage, hcomplete⟩ := hdrains
  obtain ⟨first, -, -, hreads⟩ :=
    reads_paginateContractEvents r.service (r.opts.scanEvents s.cursor).paginate hlatest
  -- the final page is the last one
  obtain ⟨before, later, hpages⟩ := List.append_of_mem hpage
  have hend : latest ≤ page.endLedger := by
    simp only [scanEvents, paginateContractEvents, hlatest] at hpage
    exact latest_le_endLedger page hpage
  rw [← scanEvents, hpages] at hreads
  obtain ⟨unread, -, -, hlast⟩ := hreads.last
  obtain ⟨rfl, -⟩ := hlast hcomplete
  rw [hpages] at hfull
  obtain ⟨init, turns, hinit, -, hturns⟩ := List.map_eq_append_iff.mp hfull
  obtain ⟨turn, rfl, rfl⟩ := List.map_eq_singleton_iff.mp hturns
  have hturn : (r.full C view spend s.cursor).getLast? = some turn := by
    rw [hinit, List.getLast?_append]
    rfl
  constructor
  · intro last hlast hincomplete
    rw [hturn] at hlast
    obtain rfl := Option.some.inj hlast
    rw [hcomplete] at hincomplete
    cases hincomplete
  · have hsaved := saved_eq (full_ok C view spend r s.cursor).2
    rw [hskip, hturn] at hsaved
    refine ⟨turn.position, ?_, ?_⟩
    · rw [Session.run, hsaved]
      rfl
    · rwa [Turn.position, if_pos hcomplete]

end Runs

/-- For every history and all runs, each stopped anywhere: if each stop leaves nothing of the ledger that it
saves, then nothing up to the cursor is missing, and the next run that reads to the end, past announcements
that can be scanned, delivers every matching announcement up to the latest ledger. -/
theorem resumed_scans_skip_nothing (C : Crypto) (view spend : SecretKey) (history : List AnnouncementEvent)
    (rs : List (Run history)) (hsorted : history.Pairwise fun a b => a.ledger ≤ b.ledger)
    (hstops : StopAfterLedgers C view spend Session.empty rs) :
    (∀ ev ∈ history, (∀ r ∈ rs, r.service.Retains ev) →
      Covers C view spend (Session.empty.runs C view spend rs) ev) ∧
    ∀ last : Run history, last.Drains (Session.empty.runs C view spend rs).cursor →
      last.ReadsScannable C view spend (Session.empty.runs C view spend rs).cursor →
      ∀ latest, last.service.getLatestLedger = .ok latest →
        ∀ ev ∈ history, (∀ r ∈ rs ++ [last], r.service.Retains ev) → ev.ledger ≤ latest →
          (Session.empty.runs C view spend (rs ++ [last])).since ≤ ev.ledger →
          ∀ m ∈ matching C view spend ev, m ∈ (Session.empty.runs C view spend (rs ++ [last])).found := by
  have hcovers : ∀ ev ∈ history, (∀ r ∈ rs, r.service.Retains ev) →
      Covers C view spend (Session.empty.runs C view spend rs) ev := by
    intro ev hev hretains
    apply covers_runs hsorted hev hretains hstops
    simp [Covers, Session.empty]
  refine ⟨hcovers, ?_⟩
  intro last hdrains hscannable latest hlatest ev hev hretains hle hsince m hm
  simp only [List.forall_mem_append, List.forall_mem_singleton] at hretains
  have hruns : Session.empty.runs C view spend (rs ++ [last]) =
      (Session.empty.runs C view spend rs).run C view spend last := by
    simp [Session.runs]
  rw [hruns] at hsince ⊢
  obtain ⟨hstops, position, hposition, hend⟩ := run_of_drains hdrains hscannable hlatest
  exact covers_run hsorted hev hretains.2 hstops (hcovers ev hev hretains.1) position hposition hsince
    (hle.trans hend) m hm

/-! ## A ledger on two pages -/

namespace Toy

/-- A payment like `payment`, with another ephemeral key. -/
def paid (n : ℕ) : Accepted where
  val := ⟨1, (BytesN.ofNat 32 1).1.drop 12, 0x02 :: (BytesN.ofNat 32 n).1, [0]⟩
  property := by
    have haddress : ((BytesN.ofNat 32 1).1.drop 12).length = 20 := by decide
    have hkey : (0x02 :: (BytesN.ofNat 32 n).1).length = 33 := by simp [BytesN.ofNat]
    simp [Announce.validate, SUPPORTED_SCHEMES, haddress, hkey]

def event (n : ℕ) : AnnouncementEvent where
  ledger := 5
  value := paid n

def paidMatch (n : ℕ) : ScanMatch where
  announcement := (paid n).1.announcement
  stealthPrivKey := BytesN.ofNat 32 2
  stealthStellarAddress := []

/-- Three payments in one ledger. -/
def history : List AnnouncementEvent := [event 1, event 2, event 3]

/-- The first page ends after one of them. -/
def answer (request : GetEventsRequest) : Except RpcError (GetEventsResponse Accepted) :=
  match request with
  | .fromLedger startLedger _ =>
      if startLedger ≤ 5 then .ok ⟨[event 1], ['a'], 10⟩
      else if startLedger ≤ 10 then .ok ⟨[], [], 10⟩
      else .error (.range 1 10)
  | .fromCursor cursor _ =>
      if cursor = ['a'] then .ok ⟨[event 2, event 3], ['b'], 10⟩ else .ok ⟨[], cursor, 10⟩

def place (cursor : Str) : ℕ := if cursor = ['a'] then 1 else 3

theorem dropWhile_history {startLedger : ℕ} : (history.dropWhile fun ev => ev.ledger < startLedger) =
    if startLedger ≤ 5 then history else [] := by
  by_cases hstart : startLedger ≤ 5
  · have hfirst : ¬ 5 < startLedger := by omega
    simp [history, event, hstart, hfirst]
  · have hall : 5 < startLedger := by omega
    simp [history, event, hstart, hall]

theorem answers_answer {request : GetEventsRequest} {res : GetEventsResponse Accepted}
    (h : answer request = .ok res) : res.latestLedger = 10 ∧ Answers history place request res := by
  cases request with
  | fromLedger startLedger limit =>
    by_cases hstart : startLedger ≤ 5
    · simp only [answer, hstart, if_true, Except.ok.injEq] at h
      subst h
      refine ⟨rfl, ⟨[event 2, event 3], ?_, ?_, ?_⟩, ?_, ?_⟩
      · rw [GetEventsRequest.rest, dropWhile_history, if_pos hstart]
        rfl
      · exact fun _ => rfl
      · simp
      · simp [event]
      · simp only [GetEventsRequest.fromLedger.injEq]
        omega
    · by_cases hlate : startLedger ≤ 10
      · simp only [answer, hstart, hlate, if_false, if_true, Except.ok.injEq] at h
        subst h
        refine ⟨rfl, ⟨[], ?_, ?_, ?_⟩, ?_, ?_⟩
        · rw [GetEventsRequest.rest, dropWhile_history, if_neg hstart]
          rfl
        · simp
        · simp
        · simp
        · simp only [GetEventsRequest.fromLedger.injEq]
          omega
      · simp [answer, hstart, hlate] at h
  | fromCursor cursor limit =>
    by_cases hcursor : cursor = ['a']
    · simp only [answer, hcursor, if_true, Except.ok.injEq] at h
      subst h
      refine ⟨rfl, ⟨[], ?_, ?_, ?_⟩, ?_, ?_⟩
      · rw [GetEventsRequest.rest, place, if_pos hcursor]
        rfl
      · exact fun _ => rfl
      · simp
      · simp [event]
      · simp
    · simp only [answer, hcursor, if_false, Except.ok.injEq] at h
      subst h
      refine ⟨rfl, ⟨[], ?_, ?_, ?_⟩, ?_, ?_⟩
      · rw [GetEventsRequest.rest, place, if_neg hcursor]
        rfl
      · intro _
        rw [place, if_neg hcursor]
        rfl
      · simp
      · simp
      · simp

def service : Service history where
  getLatestLedger := .ok 10
  getEvents _ request := answer request
  place := place
  closed _ := 10
  closed_mono := monotone_const
  latest_le _ h := (Except.ok.inj h).symm.le
  latestLedger_eq _ _ _ h := (answers_answer h).1
  answers _ _ _ h := (answers_answer h).2

/-- A consumer that stops after the first page and some matches of the second. -/
def stopped (found : ℕ) : Run history where
  opts := ⟨some 1, false, some 5, false⟩
  service := service
  turns := 1
  found := found

/-- One that goes on and does not stop. -/
def resumed : Run history where
  opts := ⟨none, false, some 5, false⟩
  service := service
  turns := 5
  found := 0

theorem ledger_history : ∀ ev ∈ history, ev.ledger = 5 := by simp [history, event]

/-- Only what is not yet there is refused. -/
theorem retains_service {ev : AnnouncementEvent} (hev : ev ∈ history) : service.Retains ev := by
  rintro n (⟨startLedger, limit⟩ | ⟨cursor, limit⟩) oldest newest h
  · rw [ledger_history ev hev]
    simp only [service, answer] at h
    split at h
    · cases h
    · split at h
      · cases h
      · cases h
        decide
  · simp only [service, answer] at h
    split at h
    · cases h
    · cases h

theorem pages_stopped (found : ℕ) :
    (scanEvents (stopped found).service.toInvoker ((stopped found).opts.scanEvents none)).1 =
      [⟨[event 1], 5, 10, false, false, none⟩, ⟨[event 2, event 3], 5, 10, false, false, none⟩,
        ⟨[], 5, 10, true, false, none⟩] := rfl

theorem pages_resumed : (scanEvents resumed.service.toInvoker (resumed.opts.scanEvents (some 5))).1 =
    [⟨[], 6, 10, true, false, none⟩] := rfl

theorem fromHex_number {n : ℕ} (hpos : 0 < n) (hlt : n < order) :
    fromHex (0x02 :: (BytesN.ofNat 32 n).1) = some (n : ZMod order) := by
  have hnat : beNat (BytesN.ofNat 32 n).1 = n := by
    rw [BytesN.ofNat, beNat_beBytes, Nat.mod_eq_of_lt (lt_trans hlt order_lt)]
  have hlength : (BytesN.ofNat 32 n).1.length = 32 := (BytesN.ofNat 32 n).2
  rw [fromHex, if_pos ⟨hlength, by rwa [hnat], by rwa [hnat]⟩, hnat]

theorem fromHex_paid {n : ℕ} (hpos : 0 < n) (hlt : n < order) :
    crypto.curve.fromHex (paid n).1.announcement.ephemeralPubKey = some (n : ZMod order) := by
  have hcurve : ∀ bytes, crypto.curve.fromHex bytes = fromHex bytes := fun _ => rfl
  have hkey : (paid n).1.announcement.ephemeralPubKey = 0x02 :: (BytesN.ofNat 32 n).1 := rfl
  rw [hcurve, hkey]
  exact fromHex_number hpos hlt

theorem announcementOf_event (n : ℕ) : announcementOf (event n) = (paid n).1.announcement := rfl

theorem scanAnnouncement_event {n : ℕ} (hpos : 0 < n) (hle : n ≤ 3) :
    scanAnnouncement crypto one.bytes one.bytes (announcementOf (event n)) = .ok (some (paidMatch n)) := by
  have hlt : n < order := lt_of_le_of_lt hle (by decide)
  rw [announcementOf_event]
  exact scanAnnouncement_eq (fromHex_paid hpos hlt) rfl rfl

theorem matching_event {n : ℕ} (hpos : 0 < n) (hle : n ≤ 3) :
    matching crypto one one (event n) = [paidMatch n] := by
  rw [matching, alone_of_ok (scanAnnouncement_event hpos hle), Option.toList_some]

theorem mem_history {ev : AnnouncementEvent} (hev : ev ∈ history) : ∃ n, 0 < n ∧ n ≤ 3 ∧ ev = event n := by
  simp only [history, List.mem_cons, List.not_mem_nil, or_false] at hev
  rcases hev with rfl | rfl | rfl
  · exact ⟨1, by decide, by decide, rfl⟩
  · exact ⟨2, by decide, by decide, rfl⟩
  · exact ⟨3, by decide, by decide, rfl⟩

theorem scannable_history : ∀ ev ∈ history, Scannable crypto one one (announcementOf ev) := by
  intro ev hev
  obtain ⟨n, hpos, hle, rfl⟩ := mem_history hev
  exact scanAnnouncement_isOk.mp ⟨_, scanAnnouncement_event hpos hle⟩

theorem sorted_history : history.Pairwise fun a b => a.ledger ≤ b.ledger := by
  simp [history, event]

/-- A page of these payments. -/
theorem scanPage_events {page : AnnouncementPage} (ns : List ℕ) (hpage : page.events = ns.map event)
    (hns : ∀ n ∈ ns, 0 < n ∧ n ≤ 3) : scanPage crypto one.bytes one.bytes false page =
      .ok ⟨page, ns.map fun n => ⟨paidMatch n, page.ledger⟩,
        some (if page.complete then page.endLedger else page.ledger)⟩ := by
  have hok : ∀ a ∈ (ns.map event).map announcementOf,
      ∃ found, scanAnnouncement crypto one.bytes one.bytes a = .ok found := by
    simp only [List.map_map, List.forall_mem_map, Function.comp_apply]
    exact fun n hn => ⟨_, scanAnnouncement_event (hns n hn).1 (hns n hn).2⟩
  have hfound : ((ns.map event).map announcementOf).flatMap
      (alone (scanAnnouncement crypto one.bytes one.bytes)) = ns.map paidMatch := by
    rw [List.flatMap_map, List.flatMap_map, List.map_eq_flatMap]
    exact List.flatMap_congr fun n hn => matching_event (hns n hn).1 (hns n hn).2
  rw [scanPage, scanAnnouncements, hpage, collect_eq_of_isOk hok, hfound]
  simp only [ok_bind, List.map_map, Bool.false_eq_true, if_false]
  rfl

/-- The turns of the iterator over pages of these payments. -/
theorem scanPages_cons {ending : Except EventsError Unit} {page : AnnouncementPage}
    {pages : List AnnouncementPage} (ns : List ℕ) (hpage : page.events = ns.map event)
    (hns : ∀ n ∈ ns, 0 < n ∧ n ≤ 3) :
    (scanPages crypto one.bytes one.bytes false ending (page :: pages)).1 =
      ⟨page, ns.map fun n => ⟨paidMatch n, page.ledger⟩,
        some (if page.complete then page.endLedger else page.ledger)⟩ ::
          (scanPages crypto one.bytes one.bytes false ending pages).1 := by
  rw [scanPages, scanPage_events ns hpage hns]

theorem turns_stopped (found : ℕ) : (scanIterator crypto one.bytes one.bytes
    (stopped found).service.toInvoker none (stopped found).opts).1 =
      [⟨⟨[event 1], 5, 10, false, false, none⟩, [⟨paidMatch 1, 5⟩], some 5⟩,
        ⟨⟨[event 2, event 3], 5, 10, false, false, none⟩, [⟨paidMatch 2, 5⟩, ⟨paidMatch 3, 5⟩], some 5⟩,
        ⟨⟨[], 5, 10, true, false, none⟩, [], some 10⟩] := by
  have hskip : (stopped found).opts.skipCursor = false := rfl
  rw [scanIterator, hskip, pages_stopped, scanPages_cons [1] rfl (by decide),
    scanPages_cons [2, 3] rfl (by decide), scanPages_cons [] rfl (by decide)]
  rfl

theorem turns_resumed : (scanIterator crypto one.bytes one.bytes resumed.service.toInvoker (some 5)
    resumed.opts).1 = [⟨⟨[], 6, 10, true, false, none⟩, [], some 10⟩] := by
  have hskip : resumed.opts.skipCursor = false := rfl
  rw [scanIterator, hskip, pages_resumed, scanPages_cons [] rfl (by decide)]
  rfl

/-- What the consumer has when it stops. -/
def taken (found : ℕ) : List Delivery :=
  ⟨paidMatch 1, 5⟩ :: [⟨paidMatch 2, 5⟩, ⟨paidMatch 3, 5⟩].take found

theorem run_stopped (found : ℕ) : Session.empty.run crypto one one (stopped found) = ⟨some 5, 1, taken found⟩ := by
  simp only [Session.run, Run.full, Run.partly, Session.empty, turns_stopped]
  rfl

theorem run_resumed (delivered : List Delivery) :
    (Session.mk (some 5) 1 delivered).run crypto one one resumed = ⟨some 10, 1, delivered⟩ := by
  have hresumes : resumed.resumes (some 5) = true := rfl
  simp only [Session.run, Run.full, Run.partly, turns_resumed, hresumes]
  simp [resumed]

theorem paidMatch_ne {m n : ℕ} (h : (BytesN.ofNat 32 m).1 ≠ (BytesN.ofNat 32 n).1) :
    paidMatch m ≠ paidMatch n := by
  intro heq
  have hkey := congrArg (fun found => found.announcement.ephemeralPubKey) heq
  exact h (List.cons.inj hkey).2

theorem readsScannable_resumed : resumed.ReadsScannable crypto one one (some 5) := by
  simp [Run.ReadsScannable, pages_resumed]

theorem drains_resumed : resumed.Drains (some 5) := by
  refine ⟨rfl, rfl, ?_, ?_⟩
  · rw [pages_resumed]
    decide
  · rw [pages_resumed]
    exact ⟨_, List.mem_singleton_self _, rfl⟩

end Toy

/-- A consumer that stops at the first match of the second page never sees the second match. -/
theorem resumed_scan_skips :
    Toy.history.Pairwise (fun a b => a.ledger ≤ b.ledger) ∧
      Toy.resumed.Drains (Session.empty.runs Toy.crypto Toy.one Toy.one [Toy.stopped 1]).cursor ∧
      (∀ ev ∈ Toy.history, Scannable Toy.crypto Toy.one Toy.one (announcementOf ev)) ∧
      Toy.resumed.service.getLatestLedger = .ok 10 ∧
      (∀ ev ∈ Toy.history, Toy.service.Retains ev ∧ ev.ledger ≤ 10) ∧
      (Session.empty.runs Toy.crypto Toy.one Toy.one [Toy.stopped 1, Toy.resumed]).since = 1 ∧
      ∃ ev ∈ Toy.history, ∃ m ∈ matching Toy.crypto Toy.one Toy.one ev,
        m ∉ (Session.empty.runs Toy.crypto Toy.one Toy.one [Toy.stopped 1, Toy.resumed]).found := by
  have hruns : Session.empty.runs Toy.crypto Toy.one Toy.one [Toy.stopped 1] =
      ⟨some 5, 1, Toy.taken 1⟩ := Toy.run_stopped 1
  have hall : Session.empty.runs Toy.crypto Toy.one Toy.one [Toy.stopped 1, Toy.resumed] =
      ⟨some 10, 1, Toy.taken 1⟩ := by
    rw [Session.runs, List.foldl_cons, Toy.run_stopped, List.foldl_cons, Toy.run_resumed]
    rfl
  rw [hruns, hall]
  refine ⟨Toy.sorted_history, Toy.drains_resumed, Toy.scannable_history, rfl, ?_, rfl, ?_⟩
  · intro ev hev
    exact ⟨Toy.retains_service hev, by rw [Toy.ledger_history ev hev]; decide⟩
  · refine ⟨Toy.event 3, by simp [Toy.history], Toy.paidMatch 3, ?_, ?_⟩
    · rw [Toy.matching_event (by decide) (by decide)]
      exact List.mem_singleton_self _
    · have hfirst : Toy.paidMatch 3 ≠ Toy.paidMatch 1 := Toy.paidMatch_ne (by decide)
      have hsecond : Toy.paidMatch 3 ≠ Toy.paidMatch 2 := Toy.paidMatch_ne (by decide)
      simp [Session.found, Toy.taken, hfirst, hsecond]

/-- One that takes both loses nothing. -/
theorem resumed_scans_skip_nothing_both : Toy.paidMatch 3 ∈
    (Session.empty.runs Toy.crypto Toy.one Toy.one [Toy.stopped 2, Toy.resumed]).found := by
  have hruns : Session.empty.runs Toy.crypto Toy.one Toy.one [Toy.stopped 2] =
      ⟨some 5, 1, Toy.taken 2⟩ := Toy.run_stopped 2
  have hall : Session.empty.runs Toy.crypto Toy.one Toy.one ([Toy.stopped 2] ++ [Toy.resumed]) =
      ⟨some 10, 1, Toy.taken 2⟩ := by
    rw [Session.runs, List.singleton_append, List.foldl_cons, Toy.run_stopped, List.foldl_cons,
      Toy.run_resumed]
    rfl
  have hpartly : ((Toy.stopped 2).partly Toy.crypto Toy.one Toy.one none).map Delivery.found =
      [Toy.paidMatch 2, Toy.paidMatch 3] := by
    simp only [Run.partly, Toy.turns_stopped]
    rfl
  have hstops : StopAfterLedgers Toy.crypto Toy.one Toy.one Session.empty [Toy.stopped 2] := by
    refine ⟨?_, trivial⟩
    intro turn _ _ ev hev _
    simp only [Toy.history, List.mem_cons, List.not_mem_nil, or_false] at hev
    rcases hev with rfl | rfl | rfl
    · left
      simp only [Run.full, Session.empty, Toy.turns_stopped]
      exact ⟨_, List.mem_cons_self, List.mem_singleton_self _⟩
    · right
      rw [Toy.matching_event (by decide) (by decide), Session.empty, hpartly]
      simp
    · right
      rw [Toy.matching_event (by decide) (by decide), Session.empty, hpartly]
      simp
  have hevent : Toy.event 3 ∈ Toy.history := by simp [Toy.history]
  have hretains : ∀ r ∈ [Toy.stopped 2] ++ [Toy.resumed], r.service.Retains (Toy.event 3) := by
    simp only [List.singleton_append, List.forall_mem_cons]
    exact ⟨Toy.retains_service hevent, Toy.retains_service hevent, by simp⟩
  have hmatch : Toy.paidMatch 3 ∈ matching Toy.crypto Toy.one Toy.one (Toy.event 3) := by
    rw [Toy.matching_event (by decide) (by decide)]
    exact List.mem_singleton_self _
  exact (resumed_scans_skip_nothing Toy.crypto Toy.one Toy.one Toy.history [Toy.stopped 2]
    Toy.sorted_history hstops).2 Toy.resumed (by rw [hruns]; exact Toy.drains_resumed)
      (by rw [hruns]; exact Toy.readsScannable_resumed) 10 rfl (Toy.event 3) hevent hretains (by decide) (by rw [hall]; decide)
      (Toy.paidMatch 3) hmatch

end OpaqueStellar.Stealth
