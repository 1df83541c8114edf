import OpaqueStellar.Stealth.Events

/-! # What a run of pages holds

A run of `paginateContractEvents` starts at the ledger that was asked for, or at the oldest that the RPC still
has, and yields what the RPC pages from there on: a prefix of the history, each event once. It ends with a page
that is complete, with one that is truncated, or with an error. -/

namespace OpaqueStellar.Stealth

section Pages

variable {α : Type} {history : List (EventResponse α)}

/-- How a run ends that still had `left` pages to go, where `rest` was to be read. -/
inductive Stops (history : List (EventResponse α)) (place : Schemas.Str → ℕ) :
    ℕ → List (EventResponse α) → List (ContractEventPage α) → Except EventsError Unit → Prop
  | failed {left rest error} : Stops history place left rest [] (.error error)
  | complete {left rest page later} (hrest : rest = page.events ++ later) (hcomplete : page.complete = true)
      (htruncated : page.truncated = false) : Stops history place (left + 1) rest [page] (.ok ())
  | truncated {rest page later cursor} (hrest : rest = page.events ++ later) (hcomplete : page.complete = false)
      (htruncated : page.truncated = true) (hcursor : page.continuationCursor = some cursor)
      (hplace : history.drop (place cursor) = later) : Stops history place 1 rest [page] (.ok ())
  | next {left rest page later pages ending} (hrest : rest = page.events ++ later)
      (hcomplete : page.complete = false) (htruncated : page.truncated = false)
      (hstops : Stops history place left later pages ending) :
      Stops history place (left + 1) rest (page :: pages) ending

namespace Stops

variable {place : Schemas.Str → ℕ} {left : ℕ} {rest : List (EventResponse α)}
  {pages before after : List (ContractEventPage α)} {page : ContractEventPage α} {ending : Except EventsError Unit}

/-- No page is both. -/
theorem notBoth (h : Stops history place left rest pages ending) :
    ∀ page ∈ pages, ¬ (page.complete = true ∧ page.truncated = true) := by
  induction h with
  | failed => simp
  | complete _ hcomplete htruncated => simp [htruncated]
  | truncated _ hcomplete => simp [hcomplete]
  | next _ hcomplete _ _ ih =>
    rw [List.forall_mem_cons]
    exact ⟨by simp [hcomplete], ih⟩

/-- Such a page is the last. -/
theorem last (h : Stops history place left rest pages ending) (hpages : pages = before ++ page :: after)
    (hpage : page.complete = true ∨ page.truncated = true) : after = [] := by
  induction h generalizing before with
  | failed => simp at hpages
  | complete | truncated =>
    obtain ⟨hbefore, -⟩ | ⟨-, hafter⟩ := List.append_eq_singleton_iff.mp hpages.symm
    · rw [hbefore] at hpages
      exact ((List.cons.inj hpages).2).symm
    · simp at hafter
  | next _ hcomplete htruncated _ ih =>
    cases before with
    | nil =>
      obtain ⟨rfl, -⟩ := List.cons.inj hpages
      simp [hcomplete, htruncated] at hpage
    | cons other before => exact ih (List.cons.inj hpages).2

/-- Without an error there is such a page. -/
theorem ends (h : Stops history place left rest pages ending) (hending : ending = .ok ()) :
    ∃ before page, pages = before ++ [page] ∧ (page.complete = true ∨ page.truncated = true) := by
  induction h with
  | failed => cases hending
  | complete _ hcomplete => exact ⟨[], _, rfl, .inl hcomplete⟩
  | truncated _ _ htruncated => exact ⟨[], _, rfl, .inr htruncated⟩
  | @next _ _ page _ _ _ _ _ _ _ ih =>
    obtain ⟨before, last, rfl, hlast⟩ := ih hending
    exact ⟨page :: before, last, rfl, hlast⟩

/-- A truncated page is the one that the cap allows last, and its cursor is the place after it. -/
theorem unread (h : Stops history place left rest pages ending) :
    ∃ unread, rest = pages.flatMap (·.events) ++ unread ∧ ∀ page ∈ pages, page.truncated = true →
      pages.length = left ∧ ∃ cursor, page.continuationCursor = some cursor ∧
        history.drop (place cursor) = unread := by
  induction h with
  | @failed left rest error => exact ⟨rest, rfl, by simp⟩
  | @complete left rest page later hrest hcomplete htruncated =>
    refine ⟨later, by simpa using hrest, ?_⟩
    simp [htruncated]
  | @truncated rest page later cursor hrest hcomplete htruncated hcursor hplace =>
    refine ⟨later, by simpa using hrest, ?_⟩
    rintro page' hpage' -
    rw [List.mem_singleton.mp hpage']
    exact ⟨rfl, cursor, hcursor, hplace⟩
  | @next left rest page later pages ending hrest hcomplete htruncated hstops ih =>
    obtain ⟨unread, rfl, hlater⟩ := ih
    refine ⟨unread, by simpa using hrest, ?_⟩
    rw [List.forall_mem_cons]
    refine ⟨by simp [htruncated], fun page' hpage' htruncated' => ?_⟩
    obtain ⟨hlength, hcursor⟩ := hlater page' hpage' htruncated'
    exact ⟨congrArg Nat.succ hlength, hcursor⟩

end Stops

/-! ## The loop -/

section Loop

variable (service : Service history) {pageSize maxPages startLedger latest left requests n : ℕ}
  {throwOnTruncation : Bool} {cursor : Schemas.Str} {covered covered' requests' : ℕ} {request : GetEventsRequest}
  {res : GetEventsResponse α}

/-- One turn of the loop, after the answer `res`. -/
theorem stops_turn (hres : service.getEvents n request = .ok res)
    (hfetch : fetchEvents service.toInvoker pageSize requests cursor startLedger covered =
      .ok (res, covered', requests'))
    (hlater : ∀ more, left = more + 1 → res.cursor ≠ [] → ∀ covered,
      Stops history service.place left (history.drop (service.place res.cursor))
        (pagesFrom service.toInvoker pageSize maxPages throwOnTruncation startLedger latest left requests'
          res.cursor covered).1
        (pagesFrom service.toInvoker pageSize maxPages throwOnTruncation startLedger latest left requests'
          res.cursor covered).2) :
    Stops history service.place (left + 1) (request.rest history service.place)
      (pagesFrom service.toInvoker pageSize maxPages throwOnTruncation startLedger latest (left + 1) requests
        cursor covered).1
      (pagesFrom service.toInvoker pageSize maxPages throwOnTruncation startLedger latest (left + 1) requests
        cursor covered).2 := by
  obtain ⟨⟨later, hrest, hplace, -⟩, -, -⟩ := service.answers n request res hres
  simp only [pagesFrom, hfetch]
  by_cases hdone : res.cursor = [] ∨ res.cursor = cursor
  · rw [if_pos hdone]
    exact .complete hrest rfl rfl
  · rw [if_neg hdone]
    have hcursor : res.cursor ≠ [] := fun h => hdone (.inl h)
    cases left with
    | zero =>
      rw [if_pos rfl]
      cases throwOnTruncation
      · exact .truncated hrest rfl rfl rfl (hplace hcursor)
      · exact .failed
    | succ more =>
      rw [if_neg (Nat.succ_ne_zero more)]
      refine .next hrest rfl rfl ?_
      rw [← hplace hcursor]
      exact hlater more rfl hcursor _

/-- The pages after the first. -/
theorem stops_pagesFrom (hcursor : cursor ≠ []) :
    Stops history service.place (left + 1) (history.drop (service.place cursor))
      (pagesFrom service.toInvoker pageSize maxPages throwOnTruncation startLedger latest (left + 1) requests
        cursor covered).1
      (pagesFrom service.toInvoker pageSize maxPages throwOnTruncation startLedger latest (left + 1) requests
        cursor covered).2 := by
  induction left using Nat.strong_induction_on generalizing requests cursor covered with
  | h left ih =>
    cases hget : service.getEvents requests (.fromCursor cursor pageSize) with
    | error err =>
      have hfetch : fetchEvents service.toInvoker pageSize requests cursor startLedger covered = .error err := by
        rw [fetchEvents, if_pos hcursor, hget]
        rfl
      rw [pagesFrom, hfetch]
      exact .failed
    | ok res =>
      have hfetch : fetchEvents service.toInvoker pageSize requests cursor startLedger covered =
          .ok (res, covered, requests + 1) := by
        rw [fetchEvents, if_pos hcursor, hget]
        rfl
      refine stops_turn service hget hfetch ?_
      rintro more rfl hnext covered
      exact ih more (Nat.lt_succ_self more) hnext

end Loop

/-! ## The run -/

/-- What a run that starts at the ledger `first` yields. -/
structure Scanned (service : Service history) (maxPages first : ℕ) (pages : List (ContractEventPage α))
    (ending : Except EventsError Unit) : Prop where
  /-- Events in order, each once. -/
  inOrder : ∃ unread, (history.dropWhile fun ev => ev.ledger < first) = pages.flatMap (·.events) ++ unread ∧
    ∀ page ∈ pages, (page.complete = true → ∀ ev ∈ unread, page.endLedger < ev.ledger) ∧
      (page.truncated = true → pages.length = maxPages ∧ ∃ cursor, page.continuationCursor = some cursor ∧
        history.drop (service.place cursor) = unread)
  /-- Nothing comes after a page that says it is the last. -/
  last : ∀ before page after, pages = before ++ page :: after → page.complete = true ∨ page.truncated = true →
    after = []
  notBoth : ∀ page ∈ pages, ¬ (page.complete = true ∧ page.truncated = true)
  ends : ending = .ok () → ∃ before page, pages = before ++ [page] ∧ (page.complete = true ∨ page.truncated = true)
  /-- At each page, what is older than its ledger has been yielded. -/
  behind : ∀ before page after, pages = before ++ page :: after →
    ∀ ev ∈ history.dropWhile (fun ev => ev.ledger < first), ev.ledger < page.ledger →
      ev ∈ (before ++ [page]).flatMap (·.events)

theorem le_of_mem_dropWhile (hsorted : history.Pairwise fun a b => a.ledger ≤ b.ledger) {first : ℕ}
    {ev : EventResponse α} (hev : ev ∈ history.dropWhile fun ev => ev.ledger < first) : first ≤ ev.ledger := by
  induction history with
  | nil => cases hev
  | cons head rest ih =>
    obtain ⟨hhead, hrest⟩ := List.pairwise_cons.mp hsorted
    by_cases hlt : head.ledger < first
    · rw [List.dropWhile_cons_of_pos (by simpa using hlt)] at hev
      exact ih hrest hev
    · rw [List.dropWhile_cons_of_neg (by simpa using hlt), List.mem_cons] at hev
      rcases hev with rfl | hev
      · omega
      · have := hhead ev hev
        omega

theorem Scanned.of_reads (hsorted : history.Pairwise fun a b => a.ledger ≤ b.ledger) {service : Service history}
    {maxPages first : ℕ} {pages : List (ContractEventPage α)} {ending : Except EventsError Unit}
    (hreads : Reads first (history.dropWhile fun ev => ev.ledger < first) pages)
    (hstops : Stops history service.place maxPages (history.dropWhile fun ev => ev.ledger < first) pages ending) :
    Scanned service maxPages first pages ending where
  inOrder := by
    obtain ⟨unread, hrest, htruncated⟩ := hstops.unread
    refine ⟨unread, hrest, fun page hpage => ⟨fun hcomplete => ?_, htruncated page hpage⟩⟩
    obtain ⟨before, after, rfl⟩ := List.append_of_mem hpage
    obtain ⟨unread', hrest', -, hlast⟩ := hreads.last
    obtain ⟨rfl, hunread⟩ := hlast hcomplete
    rw [hrest', List.append_cancel_left_eq] at hrest
    exact hrest ▸ hunread
  last := fun before page after hpages hpage => hstops.last hpages hpage
  notBoth := hstops.notBoth
  ends := hstops.ends
  behind := by
    rintro before page after rfl ev hev hlt
    obtain ⟨unread, hrest, hledger, -⟩ := hreads.last
    rw [hrest, List.mem_append] at hev
    refine hev.resolve_right fun hunread => ?_
    -- what is still unread is not older than anything that has been read
    have hle : page.ledger ≤ ev.ledger := by
      rw [hledger]
      have hdropped := hsorted.sublist (List.dropWhile_sublist (fun ev => ev.ledger < first))
      have hfirst : first ≤ ev.ledger := le_of_mem_dropWhile hsorted (by rw [hrest]; simp [hunread])
      rw [hrest, List.pairwise_append] at hdropped
      exact highest_le hfirst fun read hread => hdropped.2.2 read hread ev hunread
    omega

/-- **Pages of events.** Either there is no page and an error, or the pages hold, each once and in order, a prefix
of the events from `first` on, where nothing that the RPC still has is left out in front; the run ends with one
page that is complete, and then everything up to its `endLedger` has been read, or truncated by the cap. -/
theorem pagination (hsorted : history.Pairwise fun a b => a.ledger ≤ b.ledger) (service : Service history)
    (opts : PaginateContractEventsOptions) :
    (∃ err, paginateContractEvents service.toInvoker opts = ([], .error (.rpc err))) ∨
      ∃ latest first, service.getLatestLedger = .ok latest ∧ startLedgerOf opts latest ≤ first ∧
        (∀ ev, service.Retains ev → startLedgerOf opts latest ≤ ev.ledger → first ≤ ev.ledger) ∧
        Scanned service (max 1 (opts.maxPages.getD EVENT_PAGE_LIMIT)) first
          (paginateContractEvents service.toInvoker opts).1 (paginateContractEvents service.toInvoker opts).2 := by
  obtain ⟨left, hleft⟩ : ∃ left, max 1 (opts.maxPages.getD EVENT_PAGE_LIMIT) = left + 1 :=
    ⟨max 1 (opts.maxPages.getD EVENT_PAGE_LIMIT) - 1, by omega⟩
  cases hlatest : service.getLatestLedger with
  | error err => exact .inl ⟨err, by rw [paginateContractEvents, hlatest]⟩
  | ok latest =>
    obtain ⟨first, hstart, hretained, hfetch⟩ :=
      fetch_first service (opts.pageSize.getD EVENT_PAGE_SIZE) (startLedgerOf opts latest)
    simp only [paginateContractEvents, hlatest, hleft]
    rcases hfetch with ⟨err, hfetch⟩ | ⟨n, requests', res, hn, hget, hfetch⟩
    · exact .inl ⟨err, by rw [pagesFrom, hfetch]⟩
    · refine .inr ⟨latest, first, rfl, hstart, hretained, Scanned.of_reads hsorted
        (reads_of_fetch service (service.latest_le latest hlatest) hn hget hfetch)
        (stops_turn service hget hfetch ?_)⟩
      rintro more rfl hnext covered
      exact stops_pagesFrom service hnext

end Pages

/-! ## An RPC that has pruned -/

namespace Pruned

/-- Two events, of which the RPC has the second. -/
def history : List (EventResponse Unit) := [⟨3, ()⟩, ⟨5, ()⟩]

def answer (request : GetEventsRequest) : Except RpcError (GetEventsResponse Unit) :=
  match request with
  | .fromLedger startLedger _ =>
    if startLedger < 4 then .error (.range 4 10)
    else if startLedger ≤ 5 then .ok ⟨[⟨5, ()⟩], ['a'], 10⟩
    else if startLedger ≤ 10 then .ok ⟨[], [], 10⟩
    else .error (.range 4 10)
  | .fromCursor cursor _ => .ok ⟨[], cursor, 10⟩

theorem dropWhile_history {startLedger : ℕ} (h : 4 ≤ startLedger) :
    (history.dropWhile fun ev => ev.ledger < startLedger) = if startLedger ≤ 5 then [⟨5, ()⟩] else [] := by
  have hfirst : 3 < startLedger := by omega
  by_cases hstart : startLedger ≤ 5
  · have hsecond : ¬ 5 < startLedger := by omega
    simp [history, hstart, hfirst, hsecond]
  · have hsecond : 5 < startLedger := by omega
    simp [history, hstart, hfirst, hsecond]

theorem answers_answer {request : GetEventsRequest} {res : GetEventsResponse Unit}
    (h : answer request = .ok res) : Answers history (fun _ => 2) request res := by
  cases request with
  | fromLedger startLedger limit =>
    have hrest : GetEventsRequest.rest history (fun _ => 2) (.fromLedger startLedger limit) =
        history.dropWhile fun ev => ev.ledger < startLedger := rfl
    unfold answer at h
    dsimp only at h
    split_ifs at h with hold hsecond hstarted
    · obtain rfl := Except.ok.inj h
      rw [dropWhile_history (by omega), if_pos hsecond] at hrest
      refine ⟨⟨[], hrest, fun _ => rfl, by simp⟩, by simp, ?_⟩
      rintro _ _ ⟨⟩
      show startLedger ≤ 10
      omega
    · obtain rfl := Except.ok.inj h
      rw [dropWhile_history (by omega), if_neg hsecond] at hrest
      refine ⟨⟨[], hrest, fun _ => rfl, by simp⟩, by simp, ?_⟩
      rintro _ _ ⟨⟩
      exact hstarted
  | fromCursor cursor limit =>
    obtain rfl := Except.ok.inj h
    exact ⟨⟨[], rfl, fun _ => rfl, by simp⟩, by simp, by rintro _ _ ⟨⟩⟩

/-- The last closed ledger stays the tenth. -/
theorem monotone_closed : Monotone fun _ : ℕ => 10 := monotone_const

theorem latestLedger_answer {request : GetEventsRequest} {res : GetEventsResponse Unit}
    (h : answer request = .ok res) : res.latestLedger = 10 := by
  unfold answer at h
  split at h
  · split_ifs at h <;> obtain rfl := Except.ok.inj h <;> rfl
  · obtain rfl := Except.ok.inj h
    rfl

def service : Service history where
  getLatestLedger := .ok 10
  getEvents _ request := answer request
  place _ := 2
  closed _ := 10
  closed_mono := monotone_closed
  latest_le := by
    rintro latest ⟨⟩
    exact le_rfl
  latestLedger_eq _ _ _ h := latestLedger_answer h
  answers _ _ _ h := answers_answer h

def opts (startLedger : ℕ) (maxPages : Option ℕ) : PaginateContractEventsOptions where
  startLedger := startLedger
  lookback := none
  pageSize := some 1
  maxPages := maxPages
  throwOnTruncation := false

theorem sorted_history : history.Pairwise fun a b => a.ledger ≤ b.ledger := by simp [history]

end Pruned

/-- The run that starts before what the RPC has ends well without the first event; the one whose cap is reached
by the page that holds everything is truncated. -/
theorem pagination_pruned :
    (paginateContractEvents Pruned.service.toInvoker (Pruned.opts 1 none)).2 = .ok () ∧
      (∀ page ∈ (paginateContractEvents Pruned.service.toInvoker (Pruned.opts 1 none)).1,
        page.truncated = false ∧ ⟨3, ()⟩ ∉ page.events) ∧
      ⟨3, ()⟩ ∈ Pruned.history ∧ startLedgerOf (Pruned.opts 1 none) 10 ≤ 3 ∧
      ∃ page, (paginateContractEvents Pruned.service.toInvoker (Pruned.opts 4 (some 1))).1 = [page] ∧
        page.complete = false ∧ page.truncated = true ∧
        (Pruned.history.dropWhile fun ev => ev.ledger < startLedgerOf (Pruned.opts 4 (some 1)) 10) =
          page.events := by
  have hfirst : paginateContractEvents Pruned.service.toInvoker (Pruned.opts 1 none) =
      ([⟨[⟨5, ()⟩], 5, 10, false, false, none⟩, ⟨[], 5, 10, true, false, none⟩], .ok ()) := rfl
  have hsecond : paginateContractEvents Pruned.service.toInvoker (Pruned.opts 4 (some 1)) =
      ([⟨[⟨5, ()⟩], 5, 10, false, true, some ['a']⟩], .ok ()) := rfl
  rw [hfirst, hsecond]
  exact ⟨rfl, by simp, by simp [Pruned.history], by decide, _, rfl, rfl, rfl, rfl⟩

theorem pagination_demo : (∃ err, paginateContractEvents Pruned.service.toInvoker (Pruned.opts 1 none) =
      ([], .error (.rpc err))) ∨
    ∃ latest first, Pruned.service.getLatestLedger = .ok latest ∧
      startLedgerOf (Pruned.opts 1 none) latest ≤ first ∧
      (∀ ev, Pruned.service.Retains ev → startLedgerOf (Pruned.opts 1 none) latest ≤ ev.ledger →
        first ≤ ev.ledger) ∧
      Scanned Pruned.service 200 first (paginateContractEvents Pruned.service.toInvoker (Pruned.opts 1 none)).1
        (paginateContractEvents Pruned.service.toInvoker (Pruned.opts 1 none)).2 :=
  pagination Pruned.sorted_history Pruned.service (Pruned.opts 1 none)

end OpaqueStellar.Stealth
