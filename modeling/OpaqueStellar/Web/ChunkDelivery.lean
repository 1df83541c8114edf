import OpaqueStellar.Lib.Binary64
import OpaqueStellar.Lib.Json
import OpaqueStellar.Lib.Lists
import OpaqueStellar.Web.Scanner

/-! # The pages are handed over in order

`fetchLogsAdaptive` of `frontend/src/hooks/useScanner.ts` with any `onChunk`. Page requests and calls of
`onChunk` end in any order and may be rejected with any value, a falsy one included.

Whoever completes the page that is next becomes the drainer, and hands over what has become ready meanwhile.
Each worker works on a page of its own, so that nobody else completes that page again: there is one drainer at
most (`Inv`), and each page is handed over once, after the one before it.

Whether something was thrown is read off from what was thrown. A page that failed with a falsy value is
forgotten, and the promise resolves without it; so it does if the concurrency is NaN and there is no worker. -/

namespace OpaqueStellar.Web.ChunkDelivery

open OpaqueStellar.Lib
open OpaqueStellar.Web.Scanner (PageRange FetchedPage buildPages buildPageRanges currentTo le_currentTo currentTo_le
  BATCH_SIZE)

/-! ## The function -/

section Model

variable {E : Type}

inductive Worker (E : Type) where
  -- at the top of its loop
  | ready
  | fetching (index : ℕ)
  -- in `drainReady`, at this call of `onChunk`
  | delivering (call : ℕ)
  -- `drainReady` throws
  | throwing (err : E)
  | stopped

/-- A call of `onChunk`, and how it ended. -/
structure Call (E : Type) where
  range : PageRange
  logs : List CachedAnnouncement
  outcome : Option (Except E Unit)

structure Fetch (E : Type) where
  ranges : List PageRange
  results : Dict ℕ FetchedPage
  nextToFlush : ℕ
  nextToDispatch : ℕ
  firstError : Option E
  workers : List (Worker E)
  calls : List (Call E)

/-- `Array.from({ length })` of `Math.max(1, Math.min(concurrency, ranges.length))`. -/
def workerCount (concurrency : Double) (pages : ℕ) : ℕ :=
  match concurrency with
  | .nan => 0
  | .infinity negative => if negative then 1 else max 1 pages
  | .finite n => ⌊max 1 (min n pages)⌋.toNat

namespace Fetch

def start (ranges : List PageRange) (concurrency : Double) : Fetch E where
  ranges := ranges
  results := []
  nextToFlush := 0
  nextToDispatch := 0
  firstError := none
  workers := List.replicate (workerCount concurrency ranges.length) .ready
  calls := []

def setWorker (f : Fetch E) (i : ℕ) (worker : Worker E) : Fetch E :=
  { f with workers := f.workers.set i worker }

/-- The promise of a call is settled. -/
def settle (f : Fetch E) (call : ℕ) (outcome : Except E Unit) : Fetch E :=
  { f with calls := f.calls.modify call fun c => { c with outcome := some outcome } }

/-- `onChunk` is called. -/
def handOver (f : Fetch E) (page : FetchedPage) : Fetch E :=
  { f with
    results := f.results.delete f.nextToFlush
    calls := f.calls ++ [⟨page.range, page.logs, none⟩] }

/-- `drainReady` up to its next call, if there is one. -/
def drainReady (f : Fetch E) : Option (Fetch E) := (f.results.find f.nextToFlush).map f.handOver

/-- A worker in `drainReady`. -/
def drain (f : Fetch E) (i : ℕ) : Fetch E :=
  match f.drainReady with
  | some f' => f'.setWorker i (.delivering f.calls.length)
  | none => f.setWorker i .ready

def flushed (f : Fetch E) : Fetch E := { f with nextToFlush := f.nextToFlush + 1 }

variable (truthy : E → Bool)

/-- `if (firstError)` -/
def hasError (f : Fetch E) : Bool := f.firstError.any truthy

def caught (f : Fetch E) (i : ℕ) (err : E) : Fetch E :=
  { f with firstError := if f.hasError truthy then f.firstError else some err }.setWorker i .stopped

def dispatch (f : Fetch E) (i : ℕ) : Fetch E :=
  if f.hasError truthy then f.setWorker i .stopped
  else if f.nextToDispatch < f.ranges.length then
    { f with nextToDispatch := f.nextToDispatch + 1 }.setWorker i (.fetching f.nextToDispatch)
  else f.setWorker i .stopped

/-- A page request is answered. -/
def page (f : Fetch E) (i index : ℕ) (range : PageRange) : Except E (List CachedAnnouncement) → Fetch E
  | .ok logs =>
    let f := { f with results := f.results.set index ⟨range, logs⟩ }
    if index = f.nextToFlush then f.drain i else f.setWorker i .ready
  | .error err => f.caught truthy i err

/-- A call of `onChunk` is answered. -/
def chunk (f : Fetch E) (i call : ℕ) (outcome : Except E Unit) : Fetch E :=
  match outcome with
  | .ok _ => (f.settle call outcome).flushed.drain i
  | .error err => (f.settle call outcome).setWorker i (.throwing err)

end Fetch

inductive Phase (E : Type) where
  -- waiting for `getHealth`
  | clamping
  -- waiting for `onUnscanned`
  | reporting
  | fetching
  -- in the last `drainReady`, at this call of `onChunk`
  | draining (call : ℕ)
  | resolved
  | rejected (err : E)

structure State (E : Type) where
  effectiveFrom : ℕ
  phase : Phase E
  fetch : Fetch E

structure Options where
  fromBlock : ℕ
  toBlock : ℕ
  concurrency : Double
  hasOnUnscanned : Bool

inductive Input (E : Type) where
  -- the oldest ledger, unless `getHealth` fails
  | health (oldest : Option ℕ)
  | reported (outcome : Except E Unit)
  | dispatch (i : ℕ)
  | page (i : ℕ) (answer : Except E (List CachedAnnouncement))
  | chunk (i : ℕ) (outcome : Except E Unit)
  -- a worker catches what `drainReady` threw
  | caught (i : ℕ)
  -- all workers have returned
  | join
  | lastChunk (outcome : Except E Unit)

/-- What the promise that ends with an input is rejected with. -/
def Input.thrown : Input E → Option E
  | .reported (.error err) | .page _ (.error err) | .chunk _ (.error err) | .lastChunk (.error err) => some err
  | _ => none

variable (opts : Options) (truthy : E → Bool)

def start : State E := ⟨opts.fromBlock, .clamping, .start [] (.finite 0)⟩

def State.beginPages (s : State E) : State E :=
  if s.effectiveFrom > opts.toBlock then { s with phase := .resolved }
  else
    { s with
      phase := .fetching
      fetch := .start (buildPageRanges s.effectiveFrom opts.toBlock BATCH_SIZE) opts.concurrency }

/-- The last `drainReady`. -/
def State.finish (s : State E) : State E :=
  match s.fetch.drainReady with
  | some f => { s with phase := .draining s.fetch.calls.length, fetch := f }
  | none => { s with phase := .resolved }

def State.join (s : State E) : State E :=
  match s.fetch.firstError with
  | some err => if truthy err then { s with phase := .rejected err } else s.finish
  | none => s.finish

def Worker.isStopped : Worker E → Bool
  | stopped => true
  | _ => false

/-- What does not fit is ignored. -/
def step (s : State E) (i : Input E) : State E :=
  match i, s.phase with
  | .health oldest, .clamping =>
    match oldest.filter fun oldest => s.effectiveFrom < oldest with
    | some oldest =>
      let s := { s with effectiveFrom := oldest }
      if opts.hasOnUnscanned && opts.fromBlock ≤ opts.toBlock then { s with phase := .reporting }
      else s.beginPages opts
    | none => s.beginPages opts
  | .reported outcome, .reporting =>
    match outcome with
    | .ok _ => s.beginPages opts
    | .error err => { s with phase := .rejected err }
  | .dispatch i, .fetching =>
    match s.fetch.workers[i]? with
    | some .ready => { s with fetch := s.fetch.dispatch truthy i }
    | _ => s
  | .page i answer, .fetching =>
    match s.fetch.workers[i]? with
    | some (.fetching index) =>
      match s.fetch.ranges[index]? with
      | some range => { s with fetch := s.fetch.page truthy i index range answer }
      | none => s
    | _ => s
  | .chunk i outcome, .fetching =>
    match s.fetch.workers[i]? with
    | some (.delivering call) => { s with fetch := s.fetch.chunk i call outcome }
    | _ => s
  | .caught i, .fetching =>
    match s.fetch.workers[i]? with
    | some (.throwing err) => { s with fetch := s.fetch.caught truthy i err }
    | _ => s
  | .join, .fetching => if s.fetch.workers.all Worker.isStopped then s.join truthy else s
  | .lastChunk outcome, .draining call =>
    let s := { s with fetch := s.fetch.settle call outcome }
    match outcome with
    | .ok _ => { s with fetch := s.fetch.flushed }.finish
    | .error err => { s with phase := .rejected err }
  | _, _ => s

def machine : Machine (State E) (Input E) Unit where
  step s i := (step opts truthy s i, ())

end Model

/-! ## One drainer -/

section Invariant

variable {E : Type} {truthy : E → Bool} {f g : Fetch E} {i j : ℕ} {old new w : Worker E}

/-- What a worker is doing. -/
def Fetch.At (f : Fetch E) (i : ℕ) (w : Worker E) : Prop := f.workers[i]? = some w

theorem Fetch.At.unique {w' : Worker E} (h : f.At i w) (h' : f.At i w') : w = w' :=
  Option.some.inj (h.symm.trans h')

theorem at_setWorker (hold : f.At i old) :
    (f.setWorker i new).At j w ↔ (i = j ∧ w = new) ∨ (i ≠ j ∧ f.At j w) := by
  have hlt : i < f.workers.length := (List.getElem?_eq_some_iff.mp hold).1
  unfold Fetch.At Fetch.setWorker
  by_cases hij : i = j
  · subst hij
    simp [hlt, eq_comm]
  · simp [hij]

theorem at_setWorker_of_ne (hold : f.At i old) (hw : w ≠ new) :
    (f.setWorker i new).At j w ↔ i ≠ j ∧ f.At j w := by
  rw [at_setWorker hold]
  exact or_iff_right fun hsame => hw hsame.2

/-- What a worker neither was doing nor is doing now is done by the others. -/
theorem at_setWorker_iff (hold : f.At i old) (hw : w ≠ new) (hw' : w ≠ old) :
    (f.setWorker i new).At j w ↔ f.At j w := by
  rw [at_setWorker_of_ne hold hw]
  refine and_iff_right_of_imp fun hj hij => ?_
  subst hij
  exact hw' (hj.unique hold)

/-- The calls of `onChunk`: one after the other, and one drainer at most. -/
structure Delivery (f : Fetch E) : Prop where
  pending : f.calls.length = f.nextToFlush ∨ f.calls.length = f.nextToFlush + 1
  resolved : ∀ k < f.nextToFlush, ∀ c, f.calls[k]? = some c → c.outcome = some (.ok ())
  drainer : ∀ i c, f.At i (.delivering c) → c = f.nextToFlush ∧ f.calls.length = f.nextToFlush + 1
  alone : ∀ i j c d, f.At i (.delivering c) → f.At j (.delivering d) → i = j
  outstanding : f.calls.length = f.nextToFlush + 1 →
    (∃ i, f.At i (.delivering f.nextToFlush)) ∨ (∃ i e, f.At i (.throwing e)) ∨ f.firstError ≠ none

/-- The pages that are not handed over yet: each is fetched by one worker, in the buffer, or lost to an
error. -/
structure Pages (f : Fetch E) : Prop where
  called : f.calls.map (·.range) <+: f.ranges
  handed : f.calls.length ≤ f.nextToDispatch
  dispatched : f.nextToDispatch ≤ f.ranges.length
  fetching : ∀ i k, f.At i (.fetching k) → f.calls.length ≤ k ∧ k < f.nextToDispatch ∧ f.results.find k = none
  apart : ∀ i j k, f.At i (.fetching k) → f.At j (.fetching k) → i = j
  buffered : ∀ k page, f.results.find k = some page →
    f.calls.length ≤ k ∧ k < f.nextToDispatch ∧ f.ranges[k]? = some page.range
  accounted : ∀ k, f.calls.length ≤ k → k < f.nextToDispatch →
    (∃ i, f.At i (.fetching k)) ∨ f.results.find k ≠ none ∨ f.firstError ≠ none
  returned : ∀ i, f.At i .stopped → f.firstError ≠ none ∨ f.nextToDispatch = f.ranges.length

/-- Between the turns of the workers, the page that is next is not ready. -/
structure Inv (f : Fetch E) : Prop where
  delivery : Delivery f
  pages : Pages f
  drained : f.results.find f.nextToFlush = none

theorem inv_start (ranges : List PageRange) (concurrency : Double) :
    Inv (Fetch.start ranges concurrency : Fetch E) := by
  have hready : ∀ {i : ℕ} {w : Worker E}, (Fetch.start ranges concurrency : Fetch E).At i w → w = .ready := by
    intro i w hw
    exact List.eq_of_mem_replicate (List.mem_of_getElem? hw)
  refine ⟨?_, ?_, rfl⟩
  · constructor
    · exact .inl rfl
    · intro k hk
      cases hk
    · intro i c hi
      cases hready hi
    · intro i j c d hi
      cases hready hi
    · intro h
      cases h
  · constructor
    · exact List.nil_prefix
    · exact le_rfl
    · exact Nat.zero_le _
    · intro i k hi
      cases hready hi
    · intro i j k hi
      cases hready hi
    · intro k page hk
      cases hk
    · intro k _ hk
      cases hk
    · intro i hi
      cases hready hi

/-- Steps that have nothing to do with a call. -/
theorem Delivery.congr (h : Delivery f) (hcalls : g.calls = f.calls) (hflush : g.nextToFlush = f.nextToFlush)
    (hdeliver : ∀ j c, g.At j (.delivering c) ↔ f.At j (.delivering c))
    (hthrow : ∀ j e, f.At j (.throwing e) → g.At j (.throwing e) ∨ g.firstError ≠ none)
    (herror : f.firstError ≠ none → g.firstError ≠ none) : Delivery g := by
  constructor
  · rw [hcalls, hflush]
    exact h.pending
  · rw [hcalls, hflush]
    exact h.resolved
  · intro j c hj
    rw [hcalls, hflush]
    exact h.drainer j c ((hdeliver j c).mp hj)
  · intro j j' c d hj hj'
    exact h.alone j j' c d ((hdeliver j c).mp hj) ((hdeliver j' d).mp hj')
  · rw [hcalls, hflush]
    intro hcall
    rcases h.outstanding hcall with ⟨j, hj⟩ | ⟨j, e, hj⟩ | hold
    · exact .inl ⟨j, (hdeliver j _).mpr hj⟩
    · rcases hthrow j e hj with hj | hnew
      · exact .inr (.inl ⟨j, e, hj⟩)
      · exact .inr (.inr hnew)
    · exact .inr (.inr (herror hold))

/-- Steps that have nothing to do with a page. -/
theorem Pages.congr (h : Pages f) (hranges : g.ranges = f.ranges)
    (hcalls : g.calls.map (·.range) = f.calls.map (·.range)) (hdispatch : g.nextToDispatch = f.nextToDispatch)
    (hresults : g.results = f.results) (hfetch : ∀ j k, g.At j (.fetching k) → f.At j (.fetching k))
    (hfetch' : ∀ j k, f.At j (.fetching k) → g.At j (.fetching k) ∨ g.firstError ≠ none)
    (hstop : ∀ j, g.At j .stopped → f.At j .stopped ∨ g.firstError ≠ none ∨ f.nextToDispatch = f.ranges.length)
    (herror : f.firstError ≠ none → g.firstError ≠ none) : Pages g := by
  have hlength : g.calls.length = f.calls.length := by
    have hmap := congrArg List.length hcalls
    rwa [List.length_map, List.length_map] at hmap
  constructor
  · rw [hcalls, hranges]
    exact h.called
  · rw [hlength, hdispatch]
    exact h.handed
  · rw [hdispatch, hranges]
    exact h.dispatched
  · intro j k hj
    rw [hlength, hdispatch, hresults]
    exact h.fetching j k (hfetch j k hj)
  · intro j j' k hj hj'
    exact h.apart j j' k (hfetch j k hj) (hfetch j' k hj')
  · rw [hlength, hdispatch, hresults, hranges]
    exact h.buffered
  · rw [hlength, hdispatch, hresults]
    intro k hle hlt
    rcases h.accounted k hle hlt with ⟨j, hj⟩ | hfind | hold
    · rcases hfetch' j k hj with hj | hnew
      · exact .inl ⟨j, hj⟩
      · exact .inr (.inr hnew)
    · exact .inr (.inl hfind)
    · exact .inr (.inr (herror hold))
  · rw [hdispatch, hranges]
    intro j hj
    rcases hstop j hj with hj | hnew | hall
    · exact (h.returned j hj).imp_left herror
    · exact .inl hnew
    · exact .inr hall

/-! ### Each turn of a worker -/

/-- A worker at the top of its loop returns. -/
theorem Inv.stop (h : Inv f) (hready : f.At i .ready)
    (hdone : f.firstError ≠ none ∨ f.nextToDispatch = f.ranges.length) : Inv (f.setWorker i .stopped) := by
  refine ⟨h.delivery.congr rfl rfl ?_ ?_ id, h.pages.congr rfl rfl rfl rfl ?_ ?_ ?_ id, h.drained⟩
  · intro j c
    exact at_setWorker_iff hready (by simp) (by simp)
  · intro j e hj
    exact .inl ((at_setWorker_iff hready (by simp) (by simp)).mpr hj)
  · intro j k
    exact (at_setWorker_iff hready (by simp) (by simp)).mp
  · intro j k hj
    exact .inl ((at_setWorker_iff hready (by simp) (by simp)).mpr hj)
  · intro j hj
    rcases (at_setWorker hready).mp hj with ⟨-, -⟩ | ⟨-, hj⟩
    · exact .inr hdone
    · exact .inl hj

/-- It takes the next page. -/
theorem Inv.take (h : Inv f) (hready : f.At i .ready) (hnext : f.nextToDispatch < f.ranges.length) :
    Inv ({ f with nextToDispatch := f.nextToDispatch + 1 }.setWorker i (.fetching f.nextToDispatch)) := by
  refine ⟨h.delivery.congr rfl rfl ?_ ?_ id, ?_, h.drained⟩
  · intro j c
    exact at_setWorker_iff hready (by simp) (by simp)
  · intro j e hj
    exact .inl ((at_setWorker_iff hready (by simp) (by simp)).mpr hj)
  have hat : ∀ {j k}, ({ f with nextToDispatch := f.nextToDispatch + 1 }.setWorker i
      (.fetching f.nextToDispatch)).At j (.fetching k) →
      (i = j ∧ k = f.nextToDispatch) ∨ (i ≠ j ∧ f.At j (.fetching k)) := by
    intro j k hj
    refine ((at_setWorker hready).mp hj).imp_left fun hsame => ⟨hsame.1, ?_⟩
    cases hsame.2
    rfl
  constructor
  case called => exact h.pages.called
  case handed => exact Nat.le_succ_of_le h.pages.handed
  case dispatched => exact hnext
  case buffered =>
    intro k page hk
    obtain ⟨hle, hlt, hrange⟩ := h.pages.buffered k page hk
    exact ⟨hle, Nat.lt_succ_of_lt hlt, hrange⟩
  case fetching =>
    intro j k hj
    rcases hat hj with ⟨-, rfl⟩ | ⟨-, hj⟩
    · refine ⟨h.pages.handed, Nat.lt_succ_self _, ?_⟩
      by_contra hfind
      obtain ⟨page, hpage⟩ := Option.ne_none_iff_exists'.mp hfind
      exact lt_irrefl _ (h.pages.buffered _ page hpage).2.1
    · obtain ⟨hle, hlt, hfind⟩ := h.pages.fetching j k hj
      exact ⟨hle, Nat.lt_succ_of_lt hlt, hfind⟩
  case apart =>
    intro j j' k hj hj'
    rcases hat hj with ⟨rfl, hk⟩ | ⟨-, hj⟩
    · rcases hat hj' with ⟨rfl, -⟩ | ⟨-, hj'⟩
      · rfl
      · have := (h.pages.fetching j' k hj').2.1
        omega
    · rcases hat hj' with ⟨rfl, hk⟩ | ⟨-, hj'⟩
      · have := (h.pages.fetching j k hj).2.1
        omega
      · exact h.pages.apart j j' k hj hj'
  case accounted =>
    intro k hle hlt
    rcases Nat.lt_succ_iff_lt_or_eq.mp hlt with hlt | rfl
    · rcases h.pages.accounted k hle hlt with ⟨j, hj⟩ | hdone
      · have hother : i ≠ j := by
          rintro rfl
          cases hready.unique hj
        exact .inl ⟨j, (at_setWorker hready).mpr (.inr ⟨hother, hj⟩)⟩
      · exact .inr hdone
    · exact .inl ⟨i, (at_setWorker hready).mpr (.inl ⟨rfl, rfl⟩)⟩
  case returned =>
    intro j hj
    have hold := ((at_setWorker_iff hready (by simp) (by simp)).mp hj : f.At j .stopped)
    refine (h.pages.returned j hold).imp_right fun hall => ?_
    omega

/-- The page that is next is handed over, by a worker, when no call is outstanding. -/
theorem inv_handOver {page : FetchedPage} (hdelivery : Delivery f) (hpages : Pages f) (hready : f.At i .ready)
    (hnext : f.calls.length = f.nextToFlush) (hfind : f.results.find f.nextToFlush = some page) :
    Inv ((f.handOver page).setWorker i (.delivering f.calls.length)) := by
  obtain ⟨-, hlt, hrange⟩ := hpages.buffered _ page hfind
  have hother : ∀ {k}, f.results.find k = none → k ≠ f.nextToFlush := by
    rintro k hk rfl
    rw [hk] at hfind
    cases hfind
  have hready' : (f.handOver page).At i .ready := hready
  have hdeliver : ∀ {j c}, ((f.handOver page).setWorker i (.delivering f.calls.length)).At j (.delivering c) →
      i = j ∧ c = f.calls.length := by
    intro j c hj
    rcases (at_setWorker hready').mp hj with ⟨hij, hw⟩ | ⟨-, hj⟩
    · cases hw
      exact ⟨hij, rfl⟩
    · have := (hdelivery.drainer j c hj).2
      omega
  have hfetch : ∀ {j k}, ((f.handOver page).setWorker i (.delivering f.calls.length)).At j (.fetching k) ↔
      f.At j (.fetching k) := at_setWorker_iff hready' (by simp) (by simp)
  have hlength : ((f.handOver page).setWorker i (.delivering f.calls.length)).calls.length =
      f.calls.length + 1 := List.length_append
  refine ⟨?_, ?_, Dict.find_delete_self _ _⟩
  · constructor
    case pending => exact .inr (hlength.trans (congrArg (· + 1) hnext))
    case resolved =>
      intro k hk c hc
      have hold : (f.calls ++ [(⟨page.range, page.logs, none⟩ : Call E)])[k]? = f.calls[k]? :=
        List.getElem?_append_left (hnext ▸ hk)
      exact hdelivery.resolved k hk c (hold.symm.trans hc)
    case drainer =>
      intro j c hj
      exact ⟨(hdeliver hj).2.trans hnext, hlength.trans (congrArg (· + 1) hnext)⟩
    case alone =>
      intro j j' c d hj hj'
      exact (hdeliver hj).1.symm.trans (hdeliver hj').1
    case outstanding =>
      intro _
      exact .inl ⟨i, (at_setWorker hready').mpr (.inl ⟨rfl, congrArg Worker.delivering hnext.symm⟩)⟩
  · constructor
    case called =>
      show (f.calls ++ [(⟨page.range, page.logs, none⟩ : Call E)]).map (·.range) <+: f.ranges
      rw [List.map_append]
      apply append_isPrefix hpages.called
      rw [List.length_map, hnext]
      exact hrange
    case handed => exact hlength.trans_le (hnext ▸ hlt)
    case dispatched => exact hpages.dispatched
    case fetching =>
      intro j k hj
      obtain ⟨hle, hlt, hnone⟩ := hpages.fetching j k (hfetch.mp hj)
      have hne := hother hnone
      exact ⟨hlength.trans_le (by omega), hlt, (Dict.find_delete_of_ne _ hne).trans hnone⟩
    case apart => exact fun j j' k hj hj' => hpages.apart j j' k (hfetch.mp hj) (hfetch.mp hj')
    case buffered =>
      intro k page' hk
      change (f.results.delete f.nextToFlush).find k = some page' at hk
      have hne : k ≠ f.nextToFlush := by
        rintro rfl
        rw [Dict.find_delete_self] at hk
        cases hk
      rw [Dict.find_delete_of_ne _ hne] at hk
      obtain ⟨hle, hrest⟩ := hpages.buffered k page' hk
      exact ⟨hlength.trans_le (by omega), hrest⟩
    case accounted =>
      intro k hle hlt
      have hbeyond : f.calls.length + 1 ≤ k := hlength.symm.trans_le hle
      rcases hpages.accounted k (Nat.le_of_succ_le hbeyond) hlt with ⟨j, hj⟩ | hfind | herror
      · exact .inl ⟨j, hfetch.mpr hj⟩
      · refine .inr (.inl fun hnone => hfind ?_)
        have hne : k ≠ f.nextToFlush := by omega
        exact (Dict.find_delete_of_ne f.results hne).symm.trans hnone
      · exact .inr (.inr herror)
    case returned =>
      intro j hj
      exact hpages.returned j ((at_setWorker_iff hready' (by simp) (by simp)).mp hj)

theorem setWorker_self (h : f.At i w) : f.setWorker i w = f := by
  obtain ⟨hlt, hget⟩ := List.getElem?_eq_some_iff.mp h
  unfold Fetch.setWorker
  rw [← hget, List.set_getElem_self]

theorem inv_drain (hdelivery : Delivery f) (hpages : Pages f) (hready : f.At i .ready)
    (hnext : f.calls.length = f.nextToFlush) : Inv (f.drain i) := by
  unfold Fetch.drain Fetch.drainReady
  rcases hfind : f.results.find f.nextToFlush with - | page
  · rw [Option.map_none]
    dsimp only
    rw [setWorker_self hready]
    exact ⟨hdelivery, hpages, hfind⟩
  · exact inv_handOver hdelivery hpages hready hnext hfind

theorem drain_setWorker : (f.setWorker i w).drain i = f.drain i := by
  unfold Fetch.drain Fetch.drainReady
  change (match (f.results.find f.nextToFlush).map (f.setWorker i w).handOver with | some f' => _ | none => _) = _
  cases f.results.find f.nextToFlush with
  | none => simp [Fetch.setWorker]
  | some page => simp [Fetch.setWorker, Fetch.handOver]

/-- A page is fetched. -/
theorem Inv.store {k : ℕ} {range : PageRange} {logs : List CachedAnnouncement} (h : Inv f)
    (hfetching : f.At i (.fetching k)) (hrange : f.ranges[k]? = some range) :
    Inv (f.page truthy i k range (.ok logs)) := by
  obtain ⟨hle, hlt, hnone⟩ := h.pages.fetching i k hfetching
  set stored : Fetch E := { f with results := f.results.set k ⟨range, logs⟩ } with hstored
  have hfetching' : stored.At i (.fetching k) := hfetching
  have hready : (stored.setWorker i .ready).At i .ready := (at_setWorker hfetching').mpr (.inl ⟨rfl, rfl⟩)
  have hdelivery : Delivery (stored.setWorker i .ready) := by
    refine h.delivery.congr rfl rfl ?_ ?_ id
    · intro j c
      exact at_setWorker_iff hfetching' (by simp) (by simp)
    · intro j e hj
      exact .inl ((at_setWorker_iff hfetching' (by simp) (by simp)).mpr hj)
  have hother : ∀ {j k'}, (stored.setWorker i .ready).At j (.fetching k') ↔ i ≠ j ∧ f.At j (.fetching k') :=
    at_setWorker_of_ne hfetching' (by simp)
  have hpages : Pages (stored.setWorker i .ready) := by
    constructor
    case called => exact h.pages.called
    case handed => exact h.pages.handed
    case dispatched => exact h.pages.dispatched
    case fetching =>
      intro j k' hj
      obtain ⟨hij, hold⟩ := hother.mp hj
      obtain ⟨hle', hlt', hnone'⟩ := h.pages.fetching j k' hold
      have hne : k' ≠ k := by
        rintro rfl
        exact hij (h.pages.apart i j k' hfetching hold)
      exact ⟨hle', hlt', (Dict.find_set_of_ne _ _ hne).trans hnone'⟩
    case apart => exact fun j j' k' hj hj' => h.pages.apart j j' k' (hother.mp hj).2 (hother.mp hj').2
    case buffered =>
      intro k' page hk'
      change (f.results.set k ⟨range, logs⟩).find k' = some page at hk'
      by_cases heq : k' = k
      · subst heq
        rw [Dict.find_set_self] at hk'
        cases hk'
        exact ⟨hle, hlt, hrange⟩
      · rw [Dict.find_set_of_ne _ _ heq] at hk'
        exact h.pages.buffered k' page hk'
    case accounted =>
      intro k' hle' hlt'
      show _ ∨ (f.results.set k ⟨range, logs⟩).find k' ≠ none ∨ _
      by_cases heq : k' = k
      · subst heq
        rw [Dict.find_set_self]
        exact .inr (.inl (Option.some_ne_none _))
      · rw [Dict.find_set_of_ne _ _ heq]
        refine (h.pages.accounted k' hle' hlt').imp_left ?_
        rintro ⟨j, hj⟩
        refine ⟨j, hother.mpr ⟨?_, hj⟩⟩
        rintro rfl
        exact heq (Worker.fetching.inj (hj.unique hfetching))
    case returned =>
      intro j hj
      exact h.pages.returned j ((at_setWorker_iff hfetching' (by simp) (by simp)).mp hj)
  show Inv (if k = f.nextToFlush then stored.drain i else stored.setWorker i .ready)
  split_ifs with hnext
  · have hpending := h.delivery.pending
    rw [← drain_setWorker (w := .ready)]
    exact inv_drain hdelivery hpages hready (show f.calls.length = f.nextToFlush by omega)
  · exact ⟨hdelivery, hpages, (Dict.find_set_of_ne _ _ (Ne.symm hnext)).trans h.drained⟩

theorem caught_firstError {err : E} : (f.caught truthy i err).firstError ≠ none := by
  show (if f.hasError truthy then f.firstError else some err) ≠ none
  unfold Fetch.hasError
  split_ifs with herror
  · rintro hnone
    simp [hnone] at herror
  · exact Option.some_ne_none err

/-- A worker returns because of an error. -/
theorem Inv.caught {err : E} (h : Inv f) (hold : f.At i old)
    (hkind : (∃ k, old = .fetching k) ∨ ∃ e, old = .throwing e) : Inv (f.caught truthy i err) := by
  have hne : old ≠ .stopped ∧ ∀ c, .delivering c ≠ old := by
    rcases hkind with ⟨k, rfl⟩ | ⟨e, rfl⟩ <;> simp
  unfold Fetch.caught
  refine ⟨h.delivery.congr rfl rfl ?_ ?_ ?_, h.pages.congr rfl rfl rfl rfl ?_ ?_ ?_ ?_, h.drained⟩
  · intro j c
    exact at_setWorker_iff hold (by simp) (hne.2 c)
  · intro _ _ _
    exact .inr caught_firstError
  · intro _
    exact caught_firstError
  · intro j k hj
    exact ((at_setWorker_of_ne hold (by simp)).mp hj).2
  · intro _ _ _
    exact .inr caught_firstError
  · intro _ _
    exact .inr (.inl caught_firstError)
  · intro _
    exact caught_firstError

/-! ### The answers of `onChunk` -/

section Answers

variable {c : ℕ} {outcome : Except E Unit}

theorem settle_ranges : (f.settle c outcome).calls.map (·.range) = f.calls.map (·.range) := by
  apply List.ext_getElem?
  intro k
  simp only [Fetch.settle, List.getElem?_map, List.getElem?_modify]
  cases f.calls[k]? with
  | none => rfl
  | some call => by_cases hk : c = k <;> simp [hk]

theorem settle_length : (f.settle c outcome).calls.length = f.calls.length := List.length_modify ..

theorem settle_of_ne {k : ℕ} (hk : k ≠ c) : (f.settle c outcome).calls[k]? = f.calls[k]? := by
  simp [Fetch.settle, Ne.symm hk]

theorem settle_self {call : Call E} (hcall : (f.settle c outcome).calls[c]? = some call) :
    call.outcome = some outcome := by
  simp only [Fetch.settle, List.getElem?_modify, if_true] at hcall
  obtain ⟨old, -, rfl⟩ := Option.map_eq_some_iff.mp hcall
  rfl

/-- A call is answered, and its drainer goes on. -/
theorem Inv.delivered (h : Inv f) (hdelivering : f.At i (.delivering c)) :
    Inv ((f.settle c (.ok ())).flushed.drain i) := by
  obtain ⟨rfl, hlength⟩ := h.delivery.drainer i c hdelivering
  set g : Fetch E := (f.settle f.nextToFlush (.ok ())).flushed with hg
  have hold : g.At i (.delivering f.nextToFlush) := hdelivering
  have hready : (g.setWorker i .ready).At i .ready := (at_setWorker hold).mpr (.inl ⟨rfl, rfl⟩)
  have hnext : g.calls.length = g.nextToFlush := settle_length.trans hlength
  have hnobody : ∀ j d, ¬ (g.setWorker i .ready).At j (.delivering d) := by
    intro j d hj
    obtain ⟨hij, hj⟩ := (at_setWorker_of_ne hold (by simp)).mp hj
    exact hij (h.delivery.alone i j _ d hdelivering hj)
  have hdelivery : Delivery (g.setWorker i .ready) := by
    constructor
    case pending => exact .inl hnext
    case resolved =>
      intro k hk call hcall
      change k < f.nextToFlush + 1 at hk
      change (f.settle f.nextToFlush (.ok ())).calls[k]? = some call at hcall
      rcases Nat.lt_succ_iff_lt_or_eq.mp hk with hk | rfl
      · rw [settle_of_ne hk.ne] at hcall
        exact h.delivery.resolved k hk call hcall
      · exact settle_self hcall
    case drainer => exact fun j d hj => absurd hj (hnobody j d)
    case alone => exact fun j j' d d' hj => absurd hj (hnobody j d)
    case outstanding =>
      intro hcall
      have : g.calls.length = g.nextToFlush + 1 := hcall
      omega
  have hpages : Pages (g.setWorker i .ready) := by
    refine h.pages.congr rfl settle_ranges rfl rfl ?_ ?_ ?_ id
    · intro j k
      exact (at_setWorker_iff hold (by simp) (by simp)).mp
    · intro j k hj
      exact .inl ((at_setWorker_iff hold (by simp) (by simp)).mpr hj)
    · intro j hj
      exact .inl ((at_setWorker_iff hold (by simp) (by simp)).mp hj)
  rw [← drain_setWorker (w := .ready)]
  exact inv_drain hdelivery hpages hready hnext

/-- A call is rejected. -/
theorem Inv.refused {err : E} (h : Inv f) (hdelivering : f.At i (.delivering c)) :
    Inv ((f.settle c (.error err)).setWorker i (.throwing err)) := by
  obtain ⟨rfl, hlength⟩ := h.delivery.drainer i c hdelivering
  have hold : (f.settle f.nextToFlush (.error err)).At i (.delivering f.nextToFlush) := hdelivering
  refine ⟨?_, h.pages.congr rfl settle_ranges rfl rfl ?_ ?_ ?_ id, h.drained⟩
  · have hnobody : ∀ j d, ¬ ((f.settle f.nextToFlush (.error err)).setWorker i (.throwing err)).At j
        (.delivering d) := by
      intro j d hj
      obtain ⟨hij, hj⟩ := (at_setWorker_of_ne hold (by simp)).mp hj
      exact hij (h.delivery.alone i j _ d hdelivering hj)
    constructor
    case pending => exact .inr (settle_length.trans hlength)
    case resolved =>
      intro k hk call hcall
      change k < f.nextToFlush at hk
      change (f.settle f.nextToFlush (.error err)).calls[k]? = some call at hcall
      rw [settle_of_ne hk.ne] at hcall
      exact h.delivery.resolved k hk call hcall
    case drainer => exact fun j d hj => absurd hj (hnobody j d)
    case alone => exact fun j j' d d' hj => absurd hj (hnobody j d)
    case outstanding =>
      intro _
      exact .inr (.inl ⟨i, err, (at_setWorker hold).mpr (.inl ⟨rfl, rfl⟩)⟩)
  · intro j k
    exact (at_setWorker_iff hold (by simp) (by simp)).mp
  · intro j k hj
    exact .inl ((at_setWorker_iff hold (by simp) (by simp)).mpr hj)
  · intro j hj
    exact .inl ((at_setWorker_iff hold (by simp) (by simp)).mp hj)

theorem Inv.chunk (h : Inv f) (hdelivering : f.At i (.delivering c)) : Inv (f.chunk i c outcome) := by
  unfold Fetch.chunk
  cases outcome with
  | ok => exact h.delivered hdelivering
  | error err => exact h.refused hdelivering

end Answers

theorem Inv.page {k : ℕ} {range : PageRange} {answer : Except E (List CachedAnnouncement)} (h : Inv f)
    (hfetching : f.At i (.fetching k)) (hrange : f.ranges[k]? = some range) :
    Inv (f.page truthy i k range answer) := by
  cases answer with
  | ok logs => exact h.store hfetching hrange
  | error err => exact h.caught hfetching (.inl ⟨k, rfl⟩)

theorem Inv.dispatch (h : Inv f) (hready : f.At i .ready) : Inv (f.dispatch truthy i) := by
  unfold Fetch.dispatch
  split_ifs with herror hnext
  · refine h.stop hready (.inl ?_)
    rintro hnone
    simp [Fetch.hasError, hnone] at herror
  · exact h.take hready hnext
  · exact h.stop hready (.inr (le_antisymm h.pages.dispatched (not_lt.mp hnext)))

end Invariant

/-! ## Errors that can be seen -/

section Errors

variable {E : Type} {truthy : E → Bool} {f : Fetch E} {i j : ℕ} {old new : Worker E}

/-- Everything that was thrown is truthy. -/
structure Seen (truthy : E → Bool) (f : Fetch E) : Prop where
  error : ∀ err, f.firstError = some err → truthy err
  throwing : ∀ i err, f.At i (.throwing err) → truthy err

theorem Seen.hasError (h : Seen truthy f) (hsome : f.firstError ≠ none) : f.hasError truthy := by
  obtain ⟨err, herr⟩ := Option.ne_none_iff_exists'.mp hsome
  simp [Fetch.hasError, herr, h.error err herr]

theorem Seen.setWorker (h : Seen truthy f) (hold : f.At i old) (hnew : ∀ err, new = .throwing err → truthy err) :
    Seen truthy (f.setWorker i new) := by
  refine ⟨h.error, fun j err hj => ?_⟩
  rcases (at_setWorker hold).mp hj with ⟨-, hw⟩ | ⟨-, hj⟩
  · exact hnew err hw.symm
  · exact h.throwing j err hj

theorem Seen.drain (h : Seen truthy f) (hold : f.At i old) : Seen truthy (f.drain i) := by
  unfold Fetch.drain Fetch.drainReady
  cases f.results.find f.nextToFlush with
  | none => exact h.setWorker hold (by simp)
  | some page =>
    have hhanded : Seen truthy (f.handOver page) := ⟨h.error, h.throwing⟩
    exact hhanded.setWorker hold (by simp)

theorem Seen.caught {err : E} (h : Seen truthy f) (hold : f.At i old) (herr : truthy err) :
    Seen truthy (f.caught truthy i err) := by
  unfold Fetch.caught
  have hfirst : Seen truthy { f with firstError := if f.hasError truthy then f.firstError else some err } := by
    refine ⟨fun err' herr' => ?_, h.throwing⟩
    change (if f.hasError truthy then f.firstError else some err) = some err' at herr'
    split_ifs at herr'
    · exact h.error err' herr'
    · cases herr'
      exact herr
  exact hfirst.setWorker hold (by simp)

theorem Seen.dispatch (h : Seen truthy f) (hold : f.At i old) : Seen truthy (f.dispatch truthy i) := by
  unfold Fetch.dispatch
  split_ifs
  · exact h.setWorker hold (by simp)
  · have hnext : Seen truthy { f with nextToDispatch := f.nextToDispatch + 1 } := ⟨h.error, h.throwing⟩
    exact hnext.setWorker hold (by simp)
  · exact h.setWorker hold (by simp)

theorem Seen.page {k : ℕ} {range : PageRange} {answer : Except E (List CachedAnnouncement)} (h : Seen truthy f)
    (hold : f.At i old) (hanswer : ∀ err, answer = .error err → truthy err) :
    Seen truthy (f.page truthy i k range answer) := by
  unfold Fetch.page
  cases answer with
  | ok logs =>
    have hstored : Seen truthy { f with results := f.results.set k ⟨range, logs⟩ } := ⟨h.error, h.throwing⟩
    dsimp only
    split_ifs
    · exact hstored.drain hold
    · exact hstored.setWorker hold (by simp)
  | error err => exact h.caught hold (hanswer err rfl)

theorem Seen.chunk {c : ℕ} {outcome : Except E Unit} (h : Seen truthy f) (hold : f.At i old)
    (houtcome : ∀ err, outcome = .error err → truthy err) : Seen truthy (f.chunk i c outcome) := by
  have hsettled : Seen truthy (f.settle c outcome) := ⟨h.error, h.throwing⟩
  unfold Fetch.chunk
  cases outcome with
  | ok =>
    have hflushed : Seen truthy (f.settle c (.ok ())).flushed := ⟨h.error, h.throwing⟩
    exact hflushed.drain hold
  | error err =>
    refine hsettled.setWorker hold fun err' herr' => ?_
    cases herr'
    exact houtcome err rfl

end Errors

/-! ## Runs -/

section Runs

variable {E : Type} {opts : Options} {truthy : E → Bool} {f g : Fetch E} {s : State E} {input : Input E}

/-- A turn of a worker. -/
inductive Turn (truthy : E → Bool) (f : Fetch E) : Input E → Fetch E → Prop where
  | dispatch {i : ℕ} (h : f.At i .ready) : Turn truthy f (.dispatch i) (f.dispatch truthy i)
  | page {i k : ℕ} {range : PageRange} (answer : Except E (List CachedAnnouncement)) (h : f.At i (.fetching k))
      (hrange : f.ranges[k]? = some range) : Turn truthy f (.page i answer) (f.page truthy i k range answer)
  | chunk {i c : ℕ} (outcome : Except E Unit) (h : f.At i (.delivering c)) :
      Turn truthy f (.chunk i outcome) (f.chunk i c outcome)
  | caught {i : ℕ} {err : E} (h : f.At i (.throwing err)) : Turn truthy f (.caught i) (f.caught truthy i err)

/-- The ledger to start from. -/
def clamp (fromBlock : ℕ) (oldest : Option ℕ) : ℕ := oldest.elim fromBlock (max fromBlock)

/-- What a step can do. -/
theorem step_cases (opts : Options) (truthy : E → Bool) (s : State E) (input : Input E) :
    step opts truthy s input = s ∨
    (s.phase = .fetching ∧ ∃ g, Turn truthy s.fetch input g ∧ step opts truthy s input = { s with fetch := g }) ∨
    (s.phase = .fetching ∧ s.fetch.workers.all Worker.isStopped ∧
      step opts truthy s input = s.join truthy) ∨
    (s.phase = .clamping ∧ ∃ oldest, input = .health oldest ∧
      (step opts truthy s input =
        { s with effectiveFrom := clamp s.effectiveFrom oldest, phase := .reporting } ∨
      step opts truthy s input = { s with effectiveFrom := clamp s.effectiveFrom oldest }.beginPages opts)) ∨
    (s.phase = .reporting ∧ (step opts truthy s input = s.beginPages opts ∨
      ∃ err, step opts truthy s input = { s with phase := .rejected err })) ∨
    ∃ c, s.phase = .draining c := by
  obtain ⟨effectiveFrom, phase, f⟩ := s
  cases phase with
  | clamping =>
    cases input with
    | health oldest =>
      refine .inr (.inr (.inr (.inl ⟨rfl, oldest, rfl, ?_⟩)))
      simp only [step]
      split
      next later hlater =>
        obtain ⟨rfl, hlt⟩ := Option.filter_eq_some_iff.mp hlater
        have hclamp : clamp effectiveFrom (some later) = later := max_eq_right_of_lt (of_decide_eq_true hlt)
        rw [hclamp]
        split_ifs
        · exact .inl rfl
        · exact .inr rfl
      next hnone =>
        have hclamp : clamp effectiveFrom oldest = effectiveFrom := by
          cases oldest with
          | none => rfl
          | some oldest =>
            have hle := Option.filter_eq_none_iff.mp hnone oldest rfl
            exact max_eq_left (by simpa using hle)
        rw [hclamp]
        exact .inr rfl
    | _ => exact .inl rfl
  | reporting =>
    cases input with
    | reported outcome =>
      refine .inr (.inr (.inr (.inr (.inl ⟨rfl, ?_⟩))))
      cases outcome with
      | ok => exact .inl rfl
      | error err => exact .inr ⟨err, rfl⟩
    | _ => exact .inl rfl
  | fetching =>
    cases input with
    | dispatch i =>
      simp only [step]
      split
      next h => exact .inr (.inl ⟨trivial, _, .dispatch h, rfl⟩)
      next => exact .inl rfl
    | page i answer =>
      simp only [step]
      split
      next h =>
        split
        next hrange => exact .inr (.inl ⟨trivial, _, .page answer h hrange, rfl⟩)
        next => exact .inl rfl
      next => exact .inl rfl
    | chunk i outcome =>
      simp only [step]
      split
      next h => exact .inr (.inl ⟨trivial, _, .chunk outcome h, rfl⟩)
      next => exact .inl rfl
    | caught i =>
      simp only [step]
      split
      next h => exact .inr (.inl ⟨trivial, _, .caught h, rfl⟩)
      next => exact .inl rfl
    | join =>
      simp only [step]
      split_ifs with hall
      · exact .inr (.inr (.inl ⟨trivial, hall, rfl⟩))
      · exact .inl rfl
    | _ => exact .inl rfl
  | draining c => exact .inr (.inr (.inr (.inr (.inr ⟨c, rfl⟩))))
  | resolved => cases input <;> exact .inl rfl
  | rejected err => cases input <;> exact .inl rfl

theorem Turn.inv (hturn : Turn truthy f input g) (h : Inv f) : Inv g := by
  cases hturn with
  | dispatch hready => exact h.dispatch hready
  | page answer hfetching hrange => exact h.page hfetching hrange
  | chunk outcome hdelivering => exact h.chunk hdelivering
  | caught hthrowing => exact h.caught hthrowing (.inr ⟨_, rfl⟩)

theorem Turn.seen (hturn : Turn truthy f input g) (h : Seen truthy f)
    (hthrown : ∀ err, input.thrown = some err → truthy err) : Seen truthy g := by
  cases hturn with
  | dispatch hready => exact h.dispatch hready
  | page answer hfetching =>
    refine h.page hfetching fun err herr => hthrown err ?_
    rw [herr]
    rfl
  | chunk outcome hdelivering =>
    refine h.chunk hdelivering fun err herr => hthrown err ?_
    rw [herr]
    rfl
  | caught hthrowing => exact h.caught hthrowing (h.throwing _ _ hthrowing)

/-- Pages and workers stay the same ones. -/
def Same (f g : Fetch E) : Prop := g.ranges = f.ranges ∧ g.workers.length = f.workers.length

theorem same_setWorker (i : ℕ) (w : Worker E) : Same f (f.setWorker i w) := ⟨rfl, List.length_set⟩

theorem same_drain (i : ℕ) : Same f (f.drain i) := by
  unfold Fetch.drain Fetch.drainReady
  cases f.results.find f.nextToFlush with
  | none => exact same_setWorker i _
  | some page => exact same_setWorker (f := f.handOver page) i _

theorem Turn.same (hturn : Turn truthy f input g) : Same f g := by
  cases hturn with
  | dispatch =>
    unfold Fetch.dispatch
    split_ifs <;> exact ⟨rfl, List.length_set⟩
  | @page _ k range answer =>
    unfold Fetch.page
    cases answer with
    | ok logs =>
      dsimp only
      split_ifs
      · exact same_drain (f := { f with results := f.results.set k ⟨range, logs⟩ }) _
      · exact ⟨rfl, List.length_set⟩
    | error => exact ⟨rfl, List.length_set⟩
  | @chunk _ c outcome =>
    unfold Fetch.chunk
    cases outcome with
    | ok => exact same_drain (f := (f.settle c (.ok ())).flushed) _
    | error => exact ⟨rfl, List.length_set⟩
  | caught => exact ⟨rfl, List.length_set⟩

/-- The last `drainReady` finds nothing. -/
theorem join_eq (truthy : E → Bool) (h : Inv s.fetch) : (∃ err, s.join truthy = { s with phase := .rejected err }) ∨
    s.fetch.hasError truthy = false ∧ s.join truthy = { s with phase := .resolved } := by
  have hfinish : s.finish = { s with phase := .resolved } := by
    unfold State.finish Fetch.drainReady
    rw [h.drained]
    rfl
  unfold State.join Fetch.hasError
  cases s.fetch.firstError with
  | none => exact .inr ⟨rfl, hfinish⟩
  | some err =>
    dsimp only
    split_ifs with herr
    · exact .inl ⟨err, rfl⟩
    · exact .inr ⟨by simpa using herr, hfinish⟩

structure Sound (opts : Options) (s : State E) : Prop where
  inv : Inv s.fetch
  waiting : s.phase = .clamping ∨ s.phase = .reporting → s.fetch.ranges = []
  ranges : s.fetch.ranges = buildPageRanges s.effectiveFrom opts.toBlock BATCH_SIZE ∨
    s.fetch.ranges = [] ∧ s.phase ≠ .fetching ∧ s.phase ≠ .resolved
  notDraining : ∀ c, s.phase ≠ .draining c

theorem sound_start : Sound opts (start opts : State E) := by
  refine ⟨inv_start _ _, fun _ => rfl, .inr ⟨rfl, ?_, ?_⟩, ?_⟩ <;> simp [start]

theorem buildPageRanges_of_lt {fromBlock toBlock batchSize : ℕ} (h : toBlock < fromBlock) :
    buildPageRanges fromBlock toBlock batchSize = [] := by
  unfold buildPageRanges
  rw [Nat.sub_eq_zero_of_le h]
  rfl

theorem sound_beginPages (h : Inv s.fetch) (hranges : s.fetch.ranges = []) : Sound opts (s.beginPages opts) := by
  unfold State.beginPages
  split_ifs with hbeyond
  · exact ⟨h, by simp, .inl (hranges.trans (buildPageRanges_of_lt hbeyond).symm), by simp⟩
  · exact ⟨inv_start _ _, by simp, .inl rfl, by simp⟩

/-- The end of the fetching. -/
theorem Sound.ended (h : Sound opts s) {phase : Phase E} (hphase : s.phase = .fetching)
    (hend : phase = .resolved ∨ ∃ err, phase = .rejected err) : Sound opts { s with phase := phase } := by
  have hranges := h.ranges.resolve_right fun hearly => hearly.2.1 hphase
  rcases hend with rfl | ⟨err, rfl⟩ <;> exact ⟨h.inv, by simp, .inl hranges, by simp⟩

theorem sound_step (h : Sound opts s) (input : Input E) : Sound opts (step opts truthy s input) := by
  rcases step_cases opts truthy s input with hsame | ⟨hphase, g, hturn, hstep⟩ | ⟨hphase, -, hstep⟩ |
    ⟨hphase, oldest, -, hstep | hstep⟩ | ⟨hphase, hstep | ⟨err, hstep⟩⟩ | ⟨c, hphase⟩
  · rwa [hsame]
  · rw [hstep]
    have hranges := h.ranges.resolve_right fun hearly => hearly.2.1 hphase
    exact ⟨hturn.inv h.inv, by simp [hphase], .inl (hturn.same.1.trans hranges), h.notDraining⟩
  · rw [hstep]
    rcases join_eq truthy h.inv with ⟨err, hjoin⟩ | ⟨-, hjoin⟩ <;> rw [hjoin]
    · exact h.ended hphase (.inr ⟨err, rfl⟩)
    · exact h.ended hphase (.inl rfl)
  · rw [hstep]
    have hranges := h.waiting (.inl hphase)
    exact ⟨h.inv, fun _ => hranges, .inr ⟨hranges, by simp⟩, by simp⟩
  · rw [hstep]
    exact sound_beginPages h.inv (h.waiting (.inl hphase))
  · rw [hstep]
    exact sound_beginPages h.inv (h.waiting (.inr hphase))
  · rw [hstep]
    have hranges := h.waiting (.inr hphase)
    exact ⟨h.inv, fun _ => hranges, .inr ⟨hranges, by simp⟩, by simp⟩
  · exact absurd hphase (h.notDraining c)

theorem sound_run (opts : Options) (truthy : E → Bool) (inputs : List (Input E)) :
    Sound opts ((machine opts truthy).final (start opts) inputs) :=
  (machine opts truthy).stable (J := Sound opts) (fun _ input h => sound_step h input) sound_start inputs

/-- Everything that is ready is handed over, and nobody is left. -/
theorem all_called (h : Inv f) (hstopped : ∀ i w, f.At i w → w = .stopped) (hworkers : f.workers ≠ [])
    (herror : f.firstError = none) :
    f.calls.map (·.range) = f.ranges ∧ ∀ call ∈ f.calls, call.outcome = some (.ok ()) := by
  obtain ⟨w, hw⟩ := List.exists_mem_of_ne_nil _ hworkers
  obtain ⟨i, hi⟩ := List.mem_iff_getElem?.mp hw
  have hat : f.At i .stopped := hstopped i w hi ▸ hi
  have hall : f.nextToDispatch = f.ranges.length := (h.pages.returned i hat).resolve_left (not_not.mpr herror)
  have hflushed : f.calls.length = f.nextToFlush := by
    refine h.delivery.pending.resolve_right fun hcall => ?_
    rcases h.delivery.outstanding hcall with ⟨j, hj⟩ | ⟨j, e, hj⟩ | hsome
    · cases hstopped j _ hj
    · cases hstopped j _ hj
    · exact hsome herror
  have hcalled : f.calls.length = f.ranges.length := by
    refine le_antisymm (hall ▸ h.pages.handed) (not_lt.mp fun hlt => ?_)
    rcases h.pages.accounted f.calls.length le_rfl (hall ▸ hlt) with ⟨j, hj⟩ | hfind | hsome
    · cases hstopped j _ hj
    · exact hfind (hflushed ▸ h.drained)
    · exact hsome herror
  refine ⟨h.pages.called.eq_of_length (by rwa [List.length_map]), fun call hcall => ?_⟩
  obtain ⟨k, hk⟩ := List.mem_iff_getElem?.mp hcall
  have hlt : k < f.calls.length := (List.getElem?_eq_some_iff.mp hk).1
  exact h.delivery.resolved k (hflushed ▸ hlt) call hk

/-- No error gets lost, and there are workers. -/
structure Complete (truthy : E → Bool) (s : State E) : Prop where
  seen : Seen truthy s.fetch
  workers : s.phase = .fetching → s.fetch.workers ≠ []
  resolved : s.phase = .resolved →
    s.fetch.calls.map (·.range) = s.fetch.ranges ∧ ∀ call ∈ s.fetch.calls, call.outcome = some (.ok ())

theorem workerCount_pos {concurrency : Double} (h : concurrency ≠ .nan) (pages : ℕ) :
    0 < workerCount concurrency pages := by
  cases concurrency with
  | nan => contradiction
  | infinity negative => cases negative <;> simp [workerCount]
  | finite n =>
    have hone : (1 : ℤ) ≤ ⌊max 1 (min n (pages : ℚ))⌋ := Int.le_floor.mpr (by simp)
    simp only [workerCount]
    omega

theorem seen_start (ranges : List PageRange) (concurrency : Double) :
    Seen truthy (Fetch.start ranges concurrency : Fetch E) := by
  refine ⟨fun err herr => ?_, fun i err hi => ?_⟩
  · cases herr
  · cases List.eq_of_mem_replicate (List.mem_of_getElem? hi)

theorem complete_start : Complete truthy (start opts : State E) := by
  refine ⟨seen_start _ _, ?_, ?_⟩ <;> simp [start]

theorem complete_beginPages (hconcurrency : opts.concurrency ≠ .nan) (h : Seen truthy s.fetch)
    (hinv : Inv s.fetch) (hranges : s.fetch.ranges = []) : Complete truthy (s.beginPages opts) := by
  unfold State.beginPages
  split_ifs with hbeyond
  · refine ⟨h, by simp, fun _ => ?_⟩
    have hcalled := hinv.pages.called
    rw [hranges] at hcalled
    have hnil : s.fetch.calls = [] := List.map_eq_nil_iff.mp (List.prefix_nil.mp hcalled)
    simp [hnil, hranges]
  · refine ⟨seen_start _ _, fun _ => ?_, by simp⟩
    have hpos := workerCount_pos hconcurrency (buildPageRanges s.effectiveFrom opts.toBlock BATCH_SIZE).length
    simp [Fetch.start, hpos.ne']

theorem complete_step (hconcurrency : opts.concurrency ≠ .nan) (h : Complete truthy s) (hsound : Sound opts s)
    {input : Input E} (hthrown : ∀ err, input.thrown = some err → truthy err) :
    Complete truthy (step opts truthy s input) := by
  rcases step_cases opts truthy s input with hsame | ⟨hphase, g, hturn, hstep⟩ | ⟨hphase, hstopped, hstep⟩ |
    ⟨hphase, oldest, -, hstep | hstep⟩ | ⟨hphase, hstep | ⟨err, hstep⟩⟩ | ⟨c, hphase⟩
  · rwa [hsame]
  · rw [hstep]
    refine ⟨hturn.seen h.seen hthrown, fun _ => ?_, by simp [hphase]⟩
    have hlength := hturn.same.2
    have hsome := List.length_pos_iff.mpr (h.workers hphase)
    exact List.length_pos_iff.mp (hlength ▸ hsome)
  · rw [hstep]
    rcases join_eq truthy hsound.inv with ⟨err, hjoin⟩ | ⟨hunseen, hjoin⟩ <;> rw [hjoin]
    · exact ⟨h.seen, by simp, by simp⟩
    · refine ⟨h.seen, by simp, fun _ => ?_⟩
      have hnone : s.fetch.firstError = none := by
        by_contra hsome
        simp [h.seen.hasError hsome] at hunseen
      refine all_called hsound.inv (fun i w hi => ?_) (h.workers hphase) hnone
      have hw := List.all_eq_true.mp hstopped w (List.mem_of_getElem? hi)
      cases w with
      | stopped => rfl
      | _ => cases hw
  · rw [hstep]
    exact ⟨h.seen, by simp, by simp⟩
  · rw [hstep]
    exact complete_beginPages hconcurrency h.seen hsound.inv (hsound.waiting (.inl hphase))
  · rw [hstep]
    exact complete_beginPages hconcurrency h.seen hsound.inv (hsound.waiting (.inr hphase))
  · rw [hstep]
    exact ⟨h.seen, by simp, by simp⟩
  · exact absurd hphase (hsound.notDraining c)

theorem complete_run (hconcurrency : opts.concurrency ≠ .nan) {inputs : List (Input E)}
    (hthrown : ∀ input ∈ inputs, ∀ err, input.thrown = some err → truthy err) :
    Complete truthy ((machine opts truthy).final (start opts) inputs) := by
  induction inputs using List.reverseRecOn with
  | nil => exact complete_start
  | append_singleton inputs input ih =>
    rw [Machine.final_snoc]
    refine complete_step hconcurrency (ih ?_) (sound_run opts truthy inputs) ?_
    · intro earlier hearlier
      exact hthrown earlier (List.mem_append_left _ hearlier)
    · exact hthrown input (List.mem_append_right _ (List.mem_singleton.mpr rfl))

end Runs

/-! ## The pages -/

section Pages

variable {fromBlock toBlock batchSize fuel : ℕ}

def ledgers (range : PageRange) : List ℕ := List.range' range.fromBlock (range.toBlock + 1 - range.fromBlock)

theorem flatMap_buildPages (hfuel : toBlock + 1 ≤ fromBlock + fuel) :
    (buildPages batchSize toBlock fuel fromBlock).flatMap ledgers =
      List.range' fromBlock (toBlock + 1 - fromBlock) := by
  induction fuel generalizing fromBlock with
  | zero =>
    have hnone : toBlock + 1 - fromBlock = 0 := Nat.sub_eq_zero_of_le hfuel
    rw [buildPages, hnone]
    rfl
  | succ fuel ih =>
    rw [buildPages]
    split_ifs with hle
    · have hfirst : fromBlock ≤ currentTo batchSize toBlock fromBlock := le_currentTo hle
      have hlast : currentTo batchSize toBlock fromBlock ≤ toBlock := currentTo_le
      obtain ⟨n, hn⟩ := Nat.exists_eq_add_of_le hfirst
      have hcount : toBlock + 1 - fromBlock = (n + 1) + (toBlock + 1 - (fromBlock + (n + 1))) := by omega
      have hpage : fromBlock + n + 1 - fromBlock = n + 1 := by omega
      rw [List.flatMap_cons, ih (by omega), ledgers, hn]
      dsimp only
      rw [hpage, hcount, add_assoc, List.range'_append_1]
    · have hnone : toBlock + 1 - fromBlock = 0 := by omega
      rw [hnone]
      rfl

/-- The pages are consecutive, apart, and cover the interval. -/
theorem flatMap_buildPageRanges (fromBlock toBlock batchSize : ℕ) :
    (buildPageRanges fromBlock toBlock batchSize).flatMap ledgers =
      List.range' fromBlock (toBlock + 1 - fromBlock) :=
  flatMap_buildPages (by omega)

theorem le_of_mem_buildPages {range : PageRange} (h : range ∈ buildPages batchSize toBlock fuel fromBlock) :
    range.fromBlock ≤ range.toBlock := by
  induction fuel generalizing fromBlock with
  | zero => cases h
  | succ fuel ih =>
    rw [buildPages] at h
    split_ifs at h with hle
    · rcases List.mem_cons.mp h with rfl | h
      · exact le_currentTo hle
      · exact ih h
    · cases h

end Pages

/-! ## What the caller sees -/

section Delivered

variable {E : Type} {opts : Options} {truthy : E → Bool} {s : State E} {inputs : List (Input E)}

/-- The start is the clamped one, as soon as `getHealth` was answered. -/
def Clamped (opts : Options) (inputs : List (Input E)) (s : State E) : Prop :=
  (s.phase = .clamping ∧ s.effectiveFrom = opts.fromBlock) ∨
    (s.phase ≠ .clamping ∧ ∃ oldest, .health oldest ∈ inputs ∧ s.effectiveFrom = clamp opts.fromBlock oldest)

theorem beginPages_effectiveFrom : (s.beginPages opts).effectiveFrom = s.effectiveFrom := by
  unfold State.beginPages
  split_ifs <;> rfl

theorem beginPages_phase : (s.beginPages opts).phase ≠ .clamping := by
  unfold State.beginPages
  split_ifs <;> simp

/-- The start is not changed any more. -/
theorem step_effectiveFrom (truthy : E → Bool) (h : Sound opts s) (hphase : s.phase ≠ .clamping) (input : Input E) :
    (step opts truthy s input).phase ≠ .clamping ∧
      (step opts truthy s input).effectiveFrom = s.effectiveFrom := by
  rcases step_cases opts truthy s input with hsame | ⟨-, g, -, hstep⟩ | ⟨-, -, hstep⟩ |
    ⟨hclamping, -⟩ | ⟨-, hstep | ⟨err, hstep⟩⟩ | ⟨c, hdraining⟩
  · rw [hsame]
    exact ⟨hphase, rfl⟩
  · rw [hstep]
    exact ⟨hphase, rfl⟩
  · rw [hstep]
    rcases join_eq truthy h.inv with ⟨err, hjoin⟩ | ⟨-, hjoin⟩ <;> rw [hjoin] <;> simp
  · exact absurd hclamping hphase
  · rw [hstep]
    exact ⟨beginPages_phase, beginPages_effectiveFrom⟩
  · rw [hstep]
    simp
  · exact absurd hdraining (h.notDraining c)

theorem clamped_step (h : Sound opts s) (hclamped : Clamped opts inputs s) (input : Input E) :
    Clamped opts (inputs ++ [input]) (step opts truthy s input) := by
  rcases hclamped with ⟨hphase, hfrom⟩ | ⟨hphase, oldest, hmem, hfrom⟩
  · rcases step_cases opts truthy s input with hsame | ⟨hfetching, -⟩ | ⟨hfetching, -⟩ |
      ⟨-, oldest, rfl, hstep⟩ | ⟨hreporting, -⟩ | ⟨c, hdraining⟩
    · rw [hsame]
      exact .inl ⟨hphase, hfrom⟩
    · simp [hphase] at hfetching
    · simp [hphase] at hfetching
    · have hmem : Input.health oldest ∈ inputs ++ [.health oldest] := by simp
      refine .inr ⟨?_, oldest, hmem, ?_⟩
      · rcases hstep with hstep | hstep <;> rw [hstep]
        · simp
        · exact beginPages_phase
      · rcases hstep with hstep | hstep <;> rw [hstep, ← hfrom]
        exact beginPages_effectiveFrom
    · simp [hphase] at hreporting
    · simp [hphase] at hdraining
  · obtain ⟨hphase', hfrom'⟩ := step_effectiveFrom truthy h hphase input
    exact .inr ⟨hphase', oldest, List.mem_append_left _ hmem, hfrom'.trans hfrom⟩

theorem clamped_run (opts : Options) (truthy : E → Bool) (inputs : List (Input E)) :
    Clamped opts inputs ((machine opts truthy).final (start opts) inputs) := by
  induction inputs using List.reverseRecOn with
  | nil => exact .inl ⟨rfl, rfl⟩
  | append_singleton inputs input ih =>
    rw [Machine.final_snoc]
    exact clamped_step (sound_run opts truthy inputs) ih input

/-- The pages of a state. -/
def State.pages (opts : Options) (s : State E) : List PageRange :=
  buildPageRanges s.effectiveFrom opts.toBlock BATCH_SIZE

/-- What the caller of `fetchLogsAdaptive` relies on. -/
structure InOrder (opts : Options) (inputs : List (Input E)) (s : State E) : Prop where
  clamped : Clamped opts inputs s
  split : (s.pages opts).flatMap ledgers = List.range' s.effectiveFrom (opts.toBlock + 1 - s.effectiveFrom)
  nonempty : ∀ range ∈ s.pages opts, range.fromBlock ≤ range.toBlock
  called : s.fetch.calls.map (·.range) <+: s.pages opts
  oneByOne : ∀ k call, k + 1 < s.fetch.calls.length → s.fetch.calls[k]? = some call →
    call.outcome = some (.ok ())
  whole : s.phase = .resolved → s.fetch.calls.map (·.range) = s.pages opts ∧
    ∀ call ∈ s.fetch.calls, call.outcome = some (.ok ())

/-- **Each page is handed over once, in order.** Every page that is handed over comes right after the one
before it, which `onChunk` has taken; and the promise resolves only if `onChunk` has taken all of them,
provided that there are workers and that nothing falsy is thrown. -/
theorem chunks_in_order (opts : Options) (truthy : E → Bool) (inputs : List (Input E))
    (hconcurrency : opts.concurrency ≠ .nan)
    (hthrown : ∀ input ∈ inputs, ∀ err, input.thrown = some err → truthy err) :
    InOrder opts inputs ((machine opts truthy).final (start opts) inputs) := by
  have hsound := sound_run opts truthy inputs
  have hcomplete := complete_run hconcurrency hthrown
  set s := (machine opts truthy).final (start opts) inputs with hs
  constructor
  case clamped => exact clamped_run opts truthy inputs
  case split => exact flatMap_buildPageRanges _ _ _
  case nonempty =>
    intro range hrange
    exact le_of_mem_buildPages hrange
  case called =>
    have hcalled := hsound.inv.pages.called
    rcases hsound.ranges with hranges | ⟨hranges, -⟩
    · rwa [hranges] at hcalled
    · rw [hranges] at hcalled
      rw [List.prefix_nil.mp hcalled]
      exact List.nil_prefix
  case oneByOne =>
    intro k call hk hcall
    have hpending := hsound.inv.delivery.pending
    exact hsound.inv.delivery.resolved k (by omega) call hcall
  case whole =>
    intro hphase
    obtain ⟨hall, hok⟩ := hcomplete.resolved hphase
    have hranges := hsound.ranges.resolve_right fun hearly => hearly.2.2 hphase
    exact ⟨hall.trans hranges, hok⟩

/-- The second page comes first. -/
def twoPages : List (Input (Option JsonValue)) :=
  [.health none, .dispatch 0, .dispatch 1, .page 1 (.ok []), .page 0 (.ok []), .chunk 0 (.ok ()),
    .chunk 0 (.ok ()), .dispatch 0, .dispatch 1, .join]

set_option maxRecDepth 100000 in
theorem chunks_in_order_two :
    let opts : Options := ⟨0, 20000, .finite 4, false⟩
    let s := (machine opts JsonValue.truthy).final (start opts) twoPages
    InOrder opts twoPages s ∧ s.phase = .resolved ∧
      s.fetch.calls.map (·.range) = [⟨0, 10000⟩, ⟨10001, 20000⟩] := by
  refine ⟨chunks_in_order _ _ _ (by simp) ?_, rfl, rfl⟩
  simp [twoPages, Input.thrown]

/-- The page request is rejected with `undefined`. -/
def rejectedWithUndefined : List (Input (Option JsonValue)) :=
  [.health none, .dispatch 0, .page 0 (.error none), .join]

/-- What is thrown is not seen if it is falsy, and there is no worker if the concurrency is NaN. -/
theorem chunks_in_order_fails :
    let opts : Options := ⟨0, 0, .finite 4, false⟩
    let noWorkers : Options := ⟨0, 0, .nan, false⟩
    ¬ InOrder opts rejectedWithUndefined
      ((machine opts JsonValue.truthy).final (start opts) rejectedWithUndefined) ∧
    ¬ InOrder noWorkers [.health none, .join]
      ((machine noWorkers JsonValue.truthy).final (start noWorkers) [.health none, .join]) := by
  constructor
  · intro h
    have hwhole := (h.whole rfl).1
    cases hwhole
  · intro h
    have hwhole := (h.whole rfl).1
    cases hwhole

end Delivered

end OpaqueStellar.Web.ChunkDelivery
