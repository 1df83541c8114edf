import OpaqueStellar.Lib.Codec
import OpaqueStellar.Schemas.Core

/-! # Pages of events

`paginateContractEvents` of `sdk/src/rpc/events.ts`. The RPC answers a request for events from a ledger on,
or from a cursor on, with the next events in order and a cursor for the ones after them. A page tells how
far the scan has read as a ledger number. -/

namespace OpaqueStellar.Stealth

open OpaqueStellar.Lib OpaqueStellar.Schemas

/-- `α` is what the value of an event decodes to. -/
structure EventResponse (α : Type) where
  ledger : ℕ
  value : α
  deriving DecidableEq

structure GetEventsResponse (α : Type) where
  events : List (EventResponse α)
  -- empty if there is none
  cursor : Str
  latestLedger : ℕ

inductive GetEventsRequest where
  | fromLedger (startLedger limit : ℕ)
  | fromCursor (cursor : Str) (limit : ℕ)
  deriving DecidableEq

inductive RpcError where
  -- "startLedger must be within the ledger range: oldest - newest"
  | range (oldest newest : ℕ)
  | other
  deriving DecidableEq

def parseOldestLedgerFromRangeError (err : RpcError) : Option ℕ :=
  match err with
  | .range oldest _ => some oldest
  | .other => none

/-- What the RPC answers in one run; `getEvents` is told how many requests came before. -/
structure Invoker (α : Type) where
  getLatestLedger : Except RpcError ℕ
  getEvents : ℕ → GetEventsRequest → Except RpcError (GetEventsResponse α)

def EVENT_PAGE_LIMIT : ℕ := 200

def EVENT_PAGE_SIZE : ℕ := 100

def EVENT_LOOKBACK_LEDGERS : ℕ := 16000

structure ContractEventPage (α : Type) where
  events : List (EventResponse α)
  ledger : ℕ
  endLedger : ℕ
  complete : Bool
  truncated : Bool
  continuationCursor : Option Str

structure PaginateContractEventsOptions where
  startLedger : Option ℕ
  lookback : Option ℕ
  pageSize : Option ℕ
  maxPages : Option ℕ
  throwOnTruncation : Bool

inductive EventsError where
  | rpc (err : RpcError)
  -- `EventTruncationError`
  | truncation (pagesRead pageCap lastScannedLedger : ℕ) (continuationCursor : Str)
  deriving DecidableEq

section Paginate

variable {α : Type}

/-- `covered` after the events of a page. -/
def highest (covered : ℕ) (events : List (EventResponse α)) : ℕ :=
  events.foldl (fun ledger ev => max ledger ev.ledger) covered

/-- One request, and its retry from the oldest ledger there is. Answers the response, the new `covered`, and
how many requests have been made. -/
def fetchEvents (invoker : Invoker α) (pageSize : ℕ) (requests : ℕ) (cursor : Str)
    (startLedger covered : ℕ) : Except RpcError (GetEventsResponse α × ℕ × ℕ) :=
  if cursor ≠ [] then do
    let res ← invoker.getEvents requests (.fromCursor cursor pageSize)
    pure (res, covered, requests + 1)
  else
    match invoker.getEvents requests (.fromLedger startLedger pageSize) with
    | .ok res => .ok (res, covered, requests + 1)
    | .error err =>
      match parseOldestLedgerFromRangeError err with
      | none => .error err
      | some oldest =>
        if startLedger ≥ oldest then .error err
        else do
          let res ← invoker.getEvents (requests + 1) (.fromLedger oldest pageSize)
          pure (res, max covered oldest, requests + 2)

/-- The loop, with `left` pages to go. `cursor` is also `prevCursor`: the loop sets both to the same. -/
def pagesFrom (invoker : Invoker α) (pageSize maxPages : ℕ) (throwOnTruncation : Bool)
    (startLedger latest : ℕ) :
    (left requests : ℕ) → (cursor : Str) → (covered : ℕ) →
      List (ContractEventPage α) × Except EventsError Unit
  | 0, _, _, _ => ([], .ok ())
  | left + 1, requests, cursor, covered =>
    match fetchEvents invoker pageSize requests cursor startLedger covered with
    | .error err => ([], .error (.rpc err))
    | .ok (res, covered, requests) =>
      let ledger := highest covered res.events
      let endLedger := max (max ledger res.latestLedger) latest
      if res.cursor = [] ∨ res.cursor = cursor then
        ([⟨res.events, ledger, endLedger, true, false, none⟩], .ok ())
      else if left = 0 then
        if throwOnTruncation then ([], .error (.truncation maxPages maxPages ledger res.cursor))
        else ([⟨res.events, ledger, endLedger, false, true, some res.cursor⟩], .ok ())
      else
        let rest := pagesFrom invoker pageSize maxPages throwOnTruncation startLedger latest left requests
          res.cursor ledger
        (⟨res.events, ledger, endLedger, false, false, none⟩ :: rest.1, rest.2)

def startLedgerOf (opts : PaginateContractEventsOptions) (latest : ℕ) : ℕ :=
  match opts.startLedger with
  | some startLedger => if startLedger > 0 then startLedger
      else max 1 (latest - opts.lookback.getD EVENT_LOOKBACK_LEDGERS)
  | none => max 1 (latest - opts.lookback.getD EVENT_LOOKBACK_LEDGERS)

/-- The pages that the generator yields if nobody stops it, and how it ends. -/
def paginateContractEvents (invoker : Invoker α) (opts : PaginateContractEventsOptions) :
    List (ContractEventPage α) × Except EventsError Unit :=
  let maxPages := max 1 (opts.maxPages.getD EVENT_PAGE_LIMIT)
  let pageSize := opts.pageSize.getD EVENT_PAGE_SIZE
  match invoker.getLatestLedger with
  | .error err => ([], .error (.rpc err))
  | .ok latest =>
    let startLedger := startLedgerOf opts latest
    pagesFrom invoker pageSize maxPages opts.throwOnTruncation startLedger latest maxPages 0 [] startLedger

end Paginate

/-! ## The RPC

What is relied on. The history is every event there will ever be, in order; what a request sees of it is
what has happened by then. -/

section Service

variable {α : Type}

/-- Where in the history the answer to a request begins; a cursor is a place in it. -/
def GetEventsRequest.rest (history : List (EventResponse α)) (place : Str → ℕ) :
    GetEventsRequest → List (EventResponse α)
  | .fromLedger startLedger _ => history.dropWhile fun ev => ev.ledger < startLedger
  | .fromCursor cursor _ => history.drop (place cursor)

/-- An answer holds the next events in order, and its cursor is the place after them. -/
structure Answers (history : List (EventResponse α)) (place : Str → ℕ) (request : GetEventsRequest)
    (res : GetEventsResponse α) : Prop where
  next : ∃ later, request.rest history place = res.events ++ later ∧
    (res.cursor ≠ [] → history.drop (place res.cursor) = later) ∧
    -- no cursor, or the one that was sent: nothing more has happened
    ((res.cursor = [] ∨ ∃ limit, request = .fromCursor res.cursor limit) →
      ∀ ev ∈ later, res.latestLedger < ev.ledger)
  seen : ∀ ev ∈ res.events, ev.ledger ≤ res.latestLedger
  -- a start ledger that has not happened yet is refused
  started : ∀ startLedger limit, request = .fromLedger startLedger limit → startLedger ≤ res.latestLedger

/-- The RPC during one run. `closed` is the last ledger, which only moves forward. -/
structure Service (history : List (EventResponse α)) extends Invoker α where
  place : Str → ℕ
  closed : ℕ → ℕ
  closed_mono : Monotone closed
  latest_le : ∀ latest, getLatestLedger = .ok latest → latest ≤ closed 0
  latestLedger_eq : ∀ n request res, getEvents n request = .ok res → res.latestLedger = closed n
  answers : ∀ n request res, getEvents n request = .ok res → Answers history place request res

/-- The event is not older than what the RPC says it still has. -/
def Service.Retains {history : List (EventResponse α)} (service : Service history)
    (ev : EventResponse α) : Prop :=
  ∀ n request oldest newest, service.getEvents n request = .error (.range oldest newest) →
    oldest ≤ ev.ledger

/-! ## What the pages hold -/

/-- The pages read the events in order, from `rest` on, and after the last page nothing is left up to its
`endLedger`. -/
def Reads (covered : ℕ) (rest : List (EventResponse α)) : List (ContractEventPage α) → Prop
  | [] => True
  | page :: pages => page.ledger = highest covered page.events ∧
      ∃ later, rest = page.events ++ later ∧
        (page.complete = true → pages = [] ∧ ∀ ev ∈ later, page.endLedger < ev.ledger) ∧
        Reads page.ledger later pages

theorem highest_le {covered bound : ℕ} {events : List (EventResponse α)} (hcovered : covered ≤ bound)
    (h : ∀ ev ∈ events, ev.ledger ≤ bound) : highest covered events ≤ bound := by
  induction events generalizing covered with
  | nil => exact hcovered
  | cons ev events ih =>
    simp only [List.forall_mem_cons] at h
    exact ih (max_le hcovered h.1) h.2

/-- The last page of a part of the pages. -/
theorem Reads.last {covered : ℕ} {rest : List (EventResponse α)}
    {first later : List (ContractEventPage α)} {page : ContractEventPage α}
    (h : Reads covered rest (first ++ page :: later)) :
    ∃ unread, rest = (first ++ [page]).flatMap (·.events) ++ unread ∧
      page.ledger = highest covered ((first ++ [page]).flatMap (·.events)) ∧
      (page.complete = true → later = [] ∧ ∀ ev ∈ unread, page.endLedger < ev.ledger) := by
  induction first generalizing covered rest with
  | nil =>
    obtain ⟨hledger, unread, hrest, hcomplete, -⟩ := h
    exact ⟨unread, by simpa using hrest, by simpa using hledger, hcomplete⟩
  | cons other first ih =>
    obtain ⟨hledger, rest', hrest, -, hreads⟩ := h
    obtain ⟨unread, hunread, hpage, hcomplete⟩ := ih hreads
    refine ⟨unread, by rw [hrest, hunread]; simp, ?_, hcomplete⟩
    rw [hpage, hledger]
    simp [highest, List.foldl_append]

/-- No page claims to have read less than the latest ledger there was at first. -/
theorem latest_le_endLedger {invoker : Invoker α} {pageSize maxPages startLedger latest left requests : ℕ}
    {throwOnTruncation : Bool} {cursor : Str} {covered : ℕ} :
    ∀ page ∈ (pagesFrom invoker pageSize maxPages throwOnTruncation startLedger latest left requests cursor
      covered).1, latest ≤ page.endLedger := by
  induction left generalizing requests cursor covered with
  | zero => simp [pagesFrom]
  | succ left ih =>
    rw [pagesFrom]
    split
    · simp
    · split
      · simp
      · split
        · split
          · simp
          · simp
        · simp only [List.forall_mem_cons, le_max_iff, le_refl, or_true, true_and]
          exact ih

variable {history : List (EventResponse α)} (service : Service history) {pageSize maxPages : ℕ}
  {throwOnTruncation : Bool} {startLedger latest left requests n : ℕ} {cursor : Str}
  {covered covered' requests' : ℕ} {request : GetEventsRequest} {res : GetEventsResponse α}

include service

/-- One turn of the loop, after the answer `res`. -/
theorem reads_turn (hlatest : latest ≤ service.closed 0)
    (hfetch : fetchEvents service.toInvoker pageSize requests cursor startLedger covered =
      .ok (res, covered', requests'))
    (hres : service.getEvents n request = .ok res) (hn : n ≤ requests')
    (hcovered : covered' ≤ service.closed n)
    (hsent : res.cursor = cursor → res.cursor = [] ∨ ∃ limit, request = .fromCursor res.cursor limit)
    (hlater : res.cursor ≠ [] → ∀ covered ≤ service.closed requests',
      Reads covered (history.drop (service.place res.cursor))
        (pagesFrom service.toInvoker pageSize maxPages throwOnTruncation startLedger latest left requests'
          res.cursor covered).1) :
    Reads covered' (request.rest history service.place)
      (pagesFrom service.toInvoker pageSize maxPages throwOnTruncation startLedger latest (left + 1)
        requests cursor covered).1 := by
  obtain ⟨⟨later, hrest, hplace, hdrained⟩, hseen, -⟩ := service.answers n request res hres
  have hclosed := service.latestLedger_eq n request res hres
  have hledger : highest covered' res.events ≤ service.closed n :=
    highest_le hcovered fun ev hev => hclosed ▸ hseen ev hev
  simp only [pagesFrom, hfetch]
  by_cases hdone : res.cursor = [] ∨ res.cursor = cursor
  · -- the last page
    rw [if_pos hdone]
    refine ⟨rfl, later, hrest, fun _ => ⟨rfl, fun ev hev => ?_⟩, trivial⟩
    have hend : res.latestLedger < ev.ledger := hdrained (hdone.elim .inl hsent) ev hev
    have hzero : service.closed 0 ≤ service.closed n := service.closed_mono (Nat.zero_le n)
    simp only [max_lt_iff]
    omega
  · rw [if_neg hdone]
    have hcursor : res.cursor ≠ [] := fun h => hdone (.inl h)
    by_cases hleft : left = 0
    · -- the page cap
      rw [if_pos hleft]
      cases throwOnTruncation
      · exact ⟨rfl, later, hrest, by simp, trivial⟩
      · exact trivial
    · rw [if_neg hleft]
      refine ⟨rfl, later, hrest, by simp, ?_⟩
      rw [← hplace hcursor]
      exact hlater hcursor _ (hledger.trans (service.closed_mono hn))

/-- The pages after the first. -/
theorem reads_pagesFrom (hlatest : latest ≤ service.closed 0) (hcursor : cursor ≠ [])
    (hcovered : covered ≤ service.closed requests) :
    Reads covered (history.drop (service.place cursor))
      (pagesFrom service.toInvoker pageSize maxPages throwOnTruncation startLedger latest left requests
        cursor covered).1 := by
  induction left generalizing requests cursor covered with
  | zero => exact trivial
  | succ left ih =>
    cases hget : service.getEvents requests (.fromCursor cursor pageSize) with
    | error err =>
      have hfetch : fetchEvents service.toInvoker pageSize requests cursor startLedger covered =
          .error err := by
        rw [fetchEvents, if_pos hcursor, hget]
        rfl
      simp only [pagesFrom, hfetch]
      exact trivial
    | ok res =>
      have hfetch : fetchEvents service.toInvoker pageSize requests cursor startLedger covered =
          .ok (res, covered, requests + 1) := by
        rw [fetchEvents, if_pos hcursor, hget]
        rfl
      exact reads_turn service hlatest hfetch hget (Nat.le_succ _) hcovered
        (fun hsame => .inr ⟨pageSize, by rw [hsame]⟩) fun hnext covered hcovered => ih hnext hcovered

/-- The first answer is about the ledger that was asked for, or about the oldest that there still is. -/
theorem fetch_first (pageSize startLedger : ℕ) : ∃ first, startLedger ≤ first ∧
    (∀ ev, service.Retains ev → startLedger ≤ ev.ledger → first ≤ ev.ledger) ∧
    ((∃ err, fetchEvents service.toInvoker pageSize 0 [] startLedger startLedger = .error err) ∨
      ∃ n requests' res, n ≤ requests' ∧ service.getEvents n (.fromLedger first pageSize) = .ok res ∧
        fetchEvents service.toInvoker pageSize 0 [] startLedger startLedger = .ok (res, first, requests')) := by
  cases hget : service.getEvents 0 (.fromLedger startLedger pageSize) with
  | ok res =>
    refine ⟨startLedger, le_rfl, fun _ _ h => h, .inr ⟨0, 1, res, Nat.zero_le _, hget, ?_⟩⟩
    simp [fetchEvents, hget]
  | error err =>
    cases err with
    | other =>
      refine ⟨startLedger, le_rfl, fun _ _ h => h, .inl ⟨.other, ?_⟩⟩
      simp [fetchEvents, hget, parseOldestLedgerFromRangeError]
    | range oldest newest =>
      by_cases hrange : startLedger ≥ oldest
      · refine ⟨startLedger, le_rfl, fun _ _ h => h, .inl ⟨.range oldest newest, ?_⟩⟩
        simp [fetchEvents, hget, parseOldestLedgerFromRangeError, hrange]
      · -- the retry
        have hoffset : max startLedger oldest = oldest := max_eq_right (by omega)
        refine ⟨oldest, by omega, fun ev hretains _ => hretains 0 _ oldest newest hget, ?_⟩
        cases hagain : service.getEvents 1 (.fromLedger oldest pageSize) with
        | ok res =>
          refine .inr ⟨1, 2, res, by omega, hagain, ?_⟩
          simp [fetchEvents, hget, parseOldestLedgerFromRangeError, hrange, hagain, hoffset, bind, Except.bind,
            pure, Except.pure]
        | error err =>
          refine .inl ⟨err, ?_⟩
          simp [fetchEvents, hget, parseOldestLedgerFromRangeError, hrange, hagain, bind, Except.bind]

/-- The pages that start with such an answer. -/
theorem reads_of_fetch {first requests' : ℕ} (hlatest : latest ≤ service.closed 0) (hn : n ≤ requests')
    (hget : service.getEvents n (.fromLedger first pageSize) = .ok res)
    (hfetch : fetchEvents service.toInvoker pageSize 0 [] startLedger startLedger = .ok (res, first, requests')) :
    Reads first (history.dropWhile fun ev => ev.ledger < first)
      (pagesFrom service.toInvoker pageSize maxPages throwOnTruncation startLedger latest (left + 1) 0 []
        startLedger).1 := by
  have hstarted : first ≤ service.closed n :=
    service.latestLedger_eq n _ res hget ▸ (service.answers n _ res hget).started first pageSize rfl
  exact reads_turn service hlatest hfetch hget hn hstarted .inl
    fun hnext covered hcovered => reads_pagesFrom service hlatest hnext hcovered

/-- The first page starts at the ledger that was asked for, or at the oldest that there still is. -/
theorem reads_paginateContractEvents (opts : PaginateContractEventsOptions)
    (hlatest : service.getLatestLedger = .ok latest) :
    ∃ first, startLedgerOf opts latest ≤ first ∧
      (∀ ev, service.Retains ev → startLedgerOf opts latest ≤ ev.ledger → first ≤ ev.ledger) ∧
      Reads first (history.dropWhile fun ev => ev.ledger < first)
        (paginateContractEvents service.toInvoker opts).1 := by
  obtain ⟨left, hleft⟩ : ∃ left, max 1 (opts.maxPages.getD EVENT_PAGE_LIMIT) = left + 1 :=
    ⟨max 1 (opts.maxPages.getD EVENT_PAGE_LIMIT) - 1, by omega⟩
  obtain ⟨first, hstart, hretained, hfetch⟩ :=
    fetch_first service (opts.pageSize.getD EVENT_PAGE_SIZE) (startLedgerOf opts latest)
  refine ⟨first, hstart, hretained, ?_⟩
  simp only [paginateContractEvents, hlatest, hleft]
  rcases hfetch with ⟨err, hfetch⟩ | ⟨n, requests', res, hn, hget, hfetch⟩
  · simp only [pagesFrom, hfetch]
    exact trivial
  · exact reads_of_fetch service (service.latest_le latest hlatest) hn hget hfetch

end Service

end OpaqueStellar.Stealth
