import Mathlib.Data.List.TakeWhile
import OpaqueStellar.Lib.Lists
import OpaqueStellar.Lib.Machine
import OpaqueStellar.Web.ChainSync

/-! # The stealth scanner

`StealthScanner` of `frontend/src/lib/stealthLifecycle.ts`. `updateVault` and `pollOnce` ask for the latest
ledger, fetch the announcer's events up to it and record it as processed. Any number of them may be under way
at once; the machine's inputs are the calls and the RPC's answers, in any order.

A fetch ends at a page that is short, that has no cursor or that is the twentieth, and its ledger is recorded
all the same. Where such a page leaves nothing unread, what is recorded has been seen (`processed_seen`). -/

namespace OpaqueStellar.Web.StealthScanner

open OpaqueStellar.Lib
open OpaqueStellar.Schemas (Str)
open OpaqueStellar.Web.ChainSync (RpcEvent Page)

/-! ## The machine -/

inductive ScanStatus where
  | idle
  | syncing
  | watching
  | error
  deriving DecidableEq

structure ScanningProgress where
  status : ScanStatus := .idle
  lastProcessedLedger : Option ℕ := none
  error : Option Str := none
  deriving DecidableEq

inductive Call where
  | updateVault
  | pollOnce
  deriving DecidableEq

/-- What a call is waiting for. -/
inductive Task where
  -- `getLatestLedger()`
  | asking (call : Call)
  -- `getEvents`, with the cursor of the last page (empty at first) and the pages before
  | fetching (call : Call) (startLedger endLedger : ℕ) (cursor : Str) (pages : ℕ)
  | done
  deriving DecidableEq

structure Scanner (V : Type) where
  lastLedger : ℕ := 0
  progress : ScanningProgress := {}
  -- the events handed to `tryParseEvent`
  seen : List (RpcEvent V) := []
  tasks : List Task := []
  deriving DecidableEq

inductive Input (V : Type) where
  | call (call : Call)
  | latestLedger (task : ℕ) (answer : Except Str ℕ)
  | events (task : ℕ) (answer : Except Str (Page V))

inductive Request where
  | getLatestLedger
  | fromLedger (startLedger endLedger limit : ℕ)
  | fromCursor (cursor : Str) (limit : ℕ)
  deriving DecidableEq

def LOOKBACK : ℕ := 17280

def EVENT_PAGE : ℕ := 200

def PAGE_CAP : ℕ := 20

section Step

variable {V : Type}

def Scanner.setTask (s : Scanner V) (i : ℕ) (task : Task) : Scanner V := { s with tasks := s.tasks.set i task }

/-- A call throws; a poll records the error only. -/
def Scanner.fail (s : Scanner V) (i : ℕ) (err : Str) : Scanner V :=
  { s.setTask i .done with progress := { s.progress with status := .error, error := some err } }

/-- The fetch is over. -/
def Scanner.finish (s : Scanner V) (i : ℕ) (call : Call) (endLedger : ℕ) : Scanner V :=
  { s.setTask i .done with
    lastLedger := endLedger
    progress := match call with
      | .updateVault => { status := .watching, lastProcessedLedger := some endLedger, error := none }
      | .pollOnce => { s.progress with lastProcessedLedger := some endLedger } }

def start (s : Scanner V) : Call → Scanner V
  | .updateVault =>
    { s with
      progress := { s.progress with status := .syncing, error := none }
      tasks := s.tasks ++ [.asking .updateVault] }
  | .pollOnce => { s with tasks := s.tasks ++ [.asking .pollOnce] }

/-- The first ledger of a fetch up to `latest`. -/
def startLedgerOf (s : Scanner V) (latest : ℕ) : Call → ℕ
  | .updateVault => max 1 (latest - LOOKBACK)
  | .pollOnce => s.lastLedger + 1

/-- A poll that finds no new ledger is over. -/
def Fetches (s : Scanner V) (latest : ℕ) : Call → Prop
  | .updateVault => True
  | .pollOnce => latest > s.lastLedger

instance (s : Scanner V) (latest : ℕ) : (call : Call) → Decidable (Fetches s latest call)
  | .updateVault => isTrue trivial
  | .pollOnce => inferInstanceAs (Decidable (latest > s.lastLedger))

/-- The page after which the loop ends. -/
def Ends (pages : ℕ) (page : Page V) : Prop :=
  page.cursor = [] ∨ page.events.length < EVENT_PAGE ∨ PAGE_CAP ≤ pages + 1

instance (pages : ℕ) (page : Page V) : Decidable (Ends pages page) := inferInstanceAs (Decidable (_ ∨ _))

def requestFor (startLedger endLedger : ℕ) (cursor : Str) : Request :=
  if cursor ≠ [] then .fromCursor cursor EVENT_PAGE else .fromLedger startLedger endLedger EVENT_PAGE

def onLatestLedger (s : Scanner V) (i : ℕ) (answer : Except Str ℕ) : Scanner V × Option Request :=
  match s.tasks[i]? with
  | some (.asking call) =>
    match answer with
    | .error err => (s.fail i err, none)
    | .ok latest =>
      if Fetches s latest call then
        (s.setTask i (.fetching call (startLedgerOf s latest call) latest [] 0),
          some (requestFor (startLedgerOf s latest call) latest []))
      else (s.setTask i .done, none)
  | _ => (s, none)

/-- `tryParseEvent` for the events of the page. -/
def Scanner.parse (s : Scanner V) (page : Page V) : Scanner V := { s with seen := s.seen ++ page.events }

def onEvents (s : Scanner V) (i : ℕ) (answer : Except Str (Page V)) : Scanner V × Option Request :=
  match s.tasks[i]? with
  | some (.fetching call startLedger endLedger _ pages) =>
    match answer with
    | .error err => (s.fail i err, none)
    | .ok page =>
      if Ends pages page then ((s.parse page).finish i call endLedger, none)
      else ((s.parse page).setTask i (.fetching call startLedger endLedger page.cursor (pages + 1)),
        some (requestFor startLedger endLedger page.cursor))
  | _ => (s, none)

def step (s : Scanner V) : Input V → Scanner V × Option Request
  | .call call => (start s call, some .getLatestLedger)
  | .latestLedger i answer => onLatestLedger s i answer
  | .events i answer => onEvents s i answer

def machine : Machine (Scanner V) (Input V) (Option Request) where
  step := step

end Step

/-! ## The RPC

The history is every event of the announcer there will ever be, in order; a cursor is a place in it. -/

section Coverage

variable {V : Type} (history : List (RpcEvent V)) (place : Str → ℕ)

/-- How many events come before the answer to a request. -/
def before (startLedger : ℕ) (cursor : Str) : ℕ :=
  if cursor ≠ [] then place cursor else (history.takeWhile fun ev => ev.ledger < startLedger).length

/-- A page holds the next events, as many as it likes, and its cursor is the place after them. -/
structure Serves (startLedger : ℕ) (cursor : Str) (page : Page V) : Prop where
  next : page.events <+: history.drop (before history place startLedger cursor)
  cursor : page.cursor ≠ [] →
    place page.cursor = before history place startLedger cursor + page.events.length

/-- Nothing up to `endLedger` is left after a page. -/
def Drained (startLedger endLedger : ℕ) (cursor : Str) (page : Page V) : Prop :=
  ∀ ev ∈ history.drop (before history place startLedger cursor + page.events.length), endLedger < ev.ledger

/-- Each answer is the RPC's. -/
def Served (e : Machine.Step (Scanner V) (Input V) (Option Request)) : Prop :=
  ∀ (i : ℕ) (call : Call) (startLedger endLedger : ℕ) (cursor : Str) (pages : ℕ) (page : Page V),
    e.input = .events i (.ok page) → e.pre.tasks[i]? = some (.fetching call startLedger endLedger cursor pages) →
    Serves history place startLedger cursor page

/-- No step leaves something out: a fetch starts behind what was recorded as processed, or with no event
between, and the page that ends it leaves nothing up to the ledger that will be recorded. -/
structure Whole (e : Machine.Step (Scanner V) (Input V) (Option Request)) : Prop where
  started : ∀ (i : ℕ) (call : Call) (latest : ℕ),
    e.input = .latestLedger i (.ok latest) → e.pre.tasks[i]? = some (.asking call) →
    Fetches e.pre latest call →
    ∀ ev ∈ history, ev.ledger < startLedgerOf e.pre latest call → ev.ledger ≤ e.pre.lastLedger
  drained : ∀ (i : ℕ) (call : Call) (startLedger endLedger : ℕ) (cursor : Str) (pages : ℕ) (page : Page V),
    e.input = .events i (.ok page) → e.pre.tasks[i]? = some (.fetching call startLedger endLedger cursor pages) →
    Ends pages page → Drained history place startLedger endLedger cursor page

/-- **The invariant.** What is recorded has been seen, and so has everything before a fetch's next page. -/
structure Seen (s : Scanner V) : Prop where
  recorded : ∀ ev ∈ history, ev.ledger ≤ s.lastLedger → ev ∈ s.seen
  processed : ∀ ledger, s.progress.lastProcessedLedger = some ledger →
    ∀ ev ∈ history, ev.ledger ≤ ledger → ev ∈ s.seen
  fetched : ∀ (i : ℕ) (call : Call) (startLedger endLedger : ℕ) (cursor : Str) (pages : ℕ),
    s.tasks[i]? = some (.fetching call startLedger endLedger cursor pages) →
    ∀ ev ∈ history.take (before history place startLedger cursor), ev ∈ s.seen

variable {history place}

/-- Tasks that fetch nothing need nothing. -/
theorem Seen.setTask {s : Scanner V} (h : Seen history place s) (i : ℕ) {task : Task}
    (htask : ∀ call startLedger endLedger cursor pages,
      task = .fetching call startLedger endLedger cursor pages →
      ∀ ev ∈ history.take (before history place startLedger cursor), ev ∈ s.seen) :
    Seen history place (s.setTask i task) := by
  refine ⟨h.recorded, h.processed, ?_⟩
  intro j call startLedger endLedger cursor pages hj
  rcases getElem?_set_cases hj with ⟨-, heq⟩ | ⟨-, hold⟩
  · exact htask call startLedger endLedger cursor pages heq.symm
  · exact h.fetched j call startLedger endLedger cursor pages hold

theorem Seen.done {s : Scanner V} (h : Seen history place s) (i : ℕ) : Seen history place (s.setTask i .done) :=
  h.setTask i fun call startLedger endLedger cursor pages heq => by cases heq

theorem Seen.fail {s : Scanner V} (h : Seen history place s) (i : ℕ) (err : Str) :
    Seen history place (s.fail i err) :=
  ⟨(h.done i).recorded, (h.done i).processed, (h.done i).fetched⟩

theorem Seen.start {s : Scanner V} (h : Seen history place s) (call : Call) :
    Seen history place (start s call) := by
  have hkept : ∀ (i : ℕ) (call' : Call) (startLedger endLedger : ℕ) (cursor : Str) (pages : ℕ),
      (s.tasks ++ [Task.asking call])[i]? = some (.fetching call' startLedger endLedger cursor pages) →
      ∀ ev ∈ history.take (before history place startLedger cursor), ev ∈ s.seen := by
    intro i call' startLedger endLedger cursor pages hi
    rw [List.getElem?_append] at hi
    split at hi
    · exact h.fetched i call' startLedger endLedger cursor pages hi
    · rw [List.getElem?_singleton] at hi
      split at hi <;> cases hi
  cases call with
  | updateVault => exact ⟨h.recorded, h.processed, hkept⟩
  | pollOnce => exact ⟨h.recorded, h.processed, hkept⟩

theorem Seen.parse {s : Scanner V} (h : Seen history place s) (page : Page V) :
    Seen history place (s.parse page) :=
  ⟨fun ev hev hle => List.mem_append_left _ (h.recorded ev hev hle),
    fun ledger hledger ev hev hle => List.mem_append_left _ (h.processed ledger hledger ev hev hle),
    fun i call startLedger endLedger cursor pages hi ev hev =>
      List.mem_append_left _ (h.fetched i call startLedger endLedger cursor pages hi ev hev)⟩

theorem Seen.finish {s : Scanner V} (h : Seen history place s) (i : ℕ) (call : Call) {endLedger : ℕ}
    (hseen : ∀ ev ∈ history, ev.ledger ≤ endLedger → ev ∈ s.seen) :
    Seen history place (s.finish i call endLedger) := by
  refine ⟨hseen, ?_, (h.done i).fetched⟩
  intro ledger hledger
  cases call <;> (obtain rfl := Option.some.inj hledger; exact hseen)

/-- A page makes the events before the next one seen. -/
theorem Seen.page {s : Scanner V} (h : Seen history place s) {i : ℕ} {call : Call}
    {startLedger endLedger : ℕ} {cursor : Str} {pages : ℕ} {page : Page V}
    (htask : s.tasks[i]? = some (.fetching call startLedger endLedger cursor pages))
    (hserves : Serves history place startLedger cursor page) :
    ∀ ev ∈ history.take (before history place startLedger cursor + page.events.length),
      ev ∈ s.seen ++ page.events := by
  intro ev hev
  have hpage : (history.drop (before history place startLedger cursor)).take page.events.length = page.events :=
    (List.prefix_iff_eq_take.mp hserves.next).symm
  rw [List.take_add, hpage, List.mem_append] at hev
  rcases hev with hev | hev
  · exact List.mem_append_left _ (h.fetched i call startLedger endLedger cursor pages htask ev hev)
  · exact List.mem_append_right _ hev

theorem seen_onLatestLedger {s : Scanner V} (h : Seen history place s) (i : ℕ) (answer : Except Str ℕ)
    (hstarted : ∀ call latest, answer = .ok latest → s.tasks[i]? = some (.asking call) →
      Fetches s latest call →
      ∀ ev ∈ history, ev.ledger < startLedgerOf s latest call → ev.ledger ≤ s.lastLedger) :
    Seen history place (onLatestLedger s i answer).1 := by
  unfold onLatestLedger
  split
  · next call htask =>
      split
      · next err => exact h.fail i err
      · next latest =>
          split
          · next hfetches =>
              apply h.setTask i
              intro call' startLedger endLedger cursor pages heq ev hev
              cases heq
              -- everything before the first ledger of the fetch had been recorded
              have hwhile : history.take (before history place (startLedgerOf s latest call) []) =
                  history.takeWhile fun ev => ev.ledger < startLedgerOf s latest call := by
                rw [before, if_neg (not_not.mpr rfl)]
                exact (List.prefix_iff_eq_take.mp (List.takeWhile_prefix _)).symm
              rw [hwhile] at hev
              have hmem := (List.takeWhile_prefix _).subset hev
              have hlt := List.mem_takeWhile_imp hev
              exact h.recorded ev hmem (hstarted call latest rfl htask hfetches ev hmem (by simpa using hlt))
          · exact h.done i
  · exact h

theorem seen_onEvents {s : Scanner V} (h : Seen history place s) (i : ℕ) (answer : Except Str (Page V))
    (hserved : ∀ call startLedger endLedger cursor pages page, answer = .ok page →
      s.tasks[i]? = some (.fetching call startLedger endLedger cursor pages) →
      Serves history place startLedger cursor page)
    (hdrained : ∀ call startLedger endLedger cursor pages page, answer = .ok page →
      s.tasks[i]? = some (.fetching call startLedger endLedger cursor pages) → Ends pages page →
      Drained history place startLedger endLedger cursor page) :
    Seen history place (onEvents s i answer).1 := by
  unfold onEvents
  split
  · next call startLedger endLedger cursor pages htask =>
      split
      · next err => exact h.fail i err
      · next page =>
          have hserves := hserved call startLedger endLedger cursor pages page rfl htask
          have hpage := h.page htask hserves
          split
          · next hends =>
              have hleft := hdrained call startLedger endLedger cursor pages page rfl htask hends
              apply (h.parse page).finish i call
              intro ev hev hle
              rw [← List.take_append_drop (before history place startLedger cursor + page.events.length) history,
                List.mem_append] at hev
              rcases hev with hev | hev
              · exact hpage ev hev
              · exact absurd hle (Nat.not_le_of_lt (hleft ev hev))
          · next hends =>
              apply (h.parse page).setTask i
              intro call' startLedger' endLedger' cursor' pages' heq
              cases heq
              have hcursor : page.cursor ≠ [] := fun hempty => hends (.inl hempty)
              rw [before, if_pos hcursor, hserves.cursor hcursor]
              exact hpage
  · exact h

/-- The step lemma. -/
theorem seen_step {s : Scanner V} (input : Input V) (h : Seen history place s)
    (hserved : Served history place (machine.stepAt s input))
    (hwhole : Whole history place (machine.stepAt s input)) : Seen history place (step s input).1 := by
  cases input with
  | call call => exact h.start call
  | latestLedger i answer =>
      apply seen_onLatestLedger h
      rintro call latest rfl htask
      exact hwhole.started i call latest rfl htask
  | events i answer =>
      apply seen_onEvents h
      · rintro call startLedger endLedger cursor pages page rfl htask
        exact hserved i call startLedger endLedger cursor pages page rfl htask
      · rintro call startLedger endLedger cursor pages page rfl htask
        exact hwhole.drained i call startLedger endLedger cursor pages page rfl htask

/-- **What the scanner records as processed, it has seen.** -/
theorem processed_seen (hpositive : ∀ ev ∈ history, 0 < ev.ledger) (inputs : List (Input V))
    (hserved : ∀ e ∈ machine.trace {} inputs, Served history place e)
    (hwhole : ∀ e ∈ machine.trace {} inputs, Whole history place e) :
    Seen history place (machine.final {} inputs) := by
  have hinitial : Seen history place ({} : Scanner V) := by
    refine ⟨?_, ?_, ?_⟩
    · intro ev hev hle
      exact absurd (hpositive ev hev) (Nat.not_lt_of_le hle)
    · intro ledger hledger
      cases hledger
    · intro i call startLedger endLedger cursor pages hi
      cases hi
  apply machine.invariant_of_steps (P := fun e => Served history place e ∧ Whole history place e)
    (I := fun _ s => Seen history place s) hinitial
  · intro t s input h hstep
    exact seen_step input h hstep.1 hstep.2
  · intro e he
    exact ⟨hserved e he, hwhole e he⟩

end Coverage

end OpaqueStellar.Web.StealthScanner
