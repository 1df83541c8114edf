import Mathlib.Data.List.Sort
import OpaqueStellar.Asp.Chain
import OpaqueStellar.Asp.Merkle
import OpaqueStellar.Lib.Session
import OpaqueStellar.Pool.Coverage
import OpaqueStellar.Pool.Notes

/-! # The Stellar adapter of the association-set provider

`asp/src/chains/stellar.ts`. Every call of the RPC node is a moment at which some more ledgers may
have closed, and may fail; what the node does at each call is an `Answer`, and a `Network` has one
for each call of a tick.

Events come in pages. The code follows the cursor of a page until it is missing or repeats, for at
most `MAX_PAGES` pages; where in the log a page ends is up to the node. `readStream` also returns the
part of the log that its pages covered, which the code does not see, and `covers_readStream` says
that it returns exactly the events of its topic there. -/

namespace OpaqueStellar.Asp

open OpaqueStellar.Lib OpaqueStellar.Soroban OpaqueStellar.Pool

/-! ## Data -/

structure Deposit where
  index : ℕ
  commitment : BytesN 32
  value : I128
  scope : UInt64
  ledger : ℕ
  deriving DecidableEq

/-- The two streams of events that are read. -/
inductive Topic where
  | Deposit
  | Withdraw
  deriving DecidableEq

def Emitted.topic (e : Emitted) : Option Topic :=
  match e.event with
  | .Deposit .. => some .Deposit
  | .Withdraw .. => some .Withdraw
  | _ => none

def Emitted.deposit (e : Emitted) : Option Deposit :=
  match e.event with
  | .Deposit commitment index value scope => some ⟨index, commitment, value, scope, e.ledger⟩
  | _ => none

/-- `StateTreeSnapshot`; the incremental events are missing for an adapter that supplies none. -/
structure StateTreeSnapshot where
  leaves : List (BytesN 32)
  eventCount : ℕ
  maxIndex : ℤ
  events : Option (List (ℕ × BytesN 32))
  cursor : Option ℕ
  deriving DecidableEq

/-- What a tick throws. -/
inductive Thrown where
  -- a call of the RPC node failed, or what it simulated did
  | rpc
  -- `startLedger must be within the ledger range: <oldest> - <latest>`
  | range (oldest latest : ℕ)
  -- `state event retention gap: … is older than RPC oldest ledger …`
  | retentionGap (required oldest : ℕ)
  -- `update_… FAILED`
  | postFailed
  -- `update_… not confirmed`
  | notConfirmed
  -- the screening policy threw
  | policy
  -- `tree full`
  | treeFull
  -- `BigInt` of a missing array element
  | hole
  deriving DecidableEq

abbrev Rpc (α : Type) := Session Chain Thrown α

/-! ## The node -/

/-- How one call of the node goes. -/
structure Answer where
  -- the ledgers that closed since the call before
  closes : List Ledger := []
  fails : Bool := false
  -- the oldest ledger the node still has
  oldestLedger : ℕ := 0
  -- how far into the log the node gets with one page
  upto : ℕ := 0
  -- the cursor of the page
  cursor : Option ℕ := none

/-- How the submission of a transaction goes. -/
structure Posting where
  closes : List Ledger := []
  -- `getAccount`, `prepareTransaction` or `sendTransaction` fails
  fails : Bool := false
  -- the ledger that includes the transaction, with what comes before it there
  included : Option Ledger := some {}
  -- what comes after it in that ledger, and the ledgers that close before the adapter looks
  rest : List Invocation := []
  later : List Ledger := []
  -- `getTransaction` reports the outcome before the adapter gives up
  confirmed : Bool := true

structure Network where
  -- `resolveEventStartLedger` of `readDeposits`
  startLatest : Answer := {}
  startHealth : Answer := {}
  -- the pages of `readDeposits`: the first, again from the oldest ledger, the ones after it
  firstDeposits : Answer := {}
  retryDeposits : Answer := {}
  nextDeposits : ℕ → Answer := fun _ => {}
  -- `latestLedger` of `confirmedDeposits`
  finality : Answer := {}
  aspRoot : Answer := {}
  aspPost : Posting := {}
  -- `readStateLeaves`: its start, its two streams by page, its cursor
  stateHealth : Answer := {}
  stateLatest : Answer := {}
  stateDeposits : ℕ → Answer := fun _ => {}
  stateWithdraws : ℕ → Answer := fun _ => {}
  stateCursor : Answer := {}
  stateRoot : Answer := {}
  statePost : Posting := {}

/-- What stays the same during a run: the pool's host, the text of a failed simulation, the hash
functions, the hexadecimal form of a field element, the pool's scope, and the adapter's configuration
(`deploymentLedger` is zero where it is not configured). -/
structure Setting (F : Type) where
  host : Host
  describe : Failure PoolError → Schemas.Str
  hash2 : F → F → F
  toHex32 : F → BytesN 32
  sha256 : List UInt8 → BytesN 32
  scope : ℕ
  authority : Address
  deploymentLedger : ℕ := 0
  lookback : ℕ := 16000

structure Page where
  events : List Emitted
  cursor : Option ℕ
  -- the position in the log that the cursor stands for
  stop : ℕ

/-- The part of the log that a stream covered: from a ledger on, up to a position. -/
structure Window where
  startLedger : ℕ
  stop : ℕ
  deriving DecidableEq

def MAX_PAGES : ℕ := 400

/-- The events of a topic between two positions of the log. -/
def eventsIn (log : List Emitted) (topic : Topic) (start stop : ℕ) : List Emitted :=
  ((log.take stop).drop start).filter fun e => e.topic = some topic

/-- The number of events in ledgers before this one. -/
def Chain.before (c : Chain) (ledger : ℕ) : ℕ := (c.log.takeWhile fun e => e.ledger < ledger).length

section Adapter

variable {F : Type} (S : Setting F)

/-- A call of the node that reads. -/
def call {α : Type} (a : Answer) (read : Chain → Except Thrown α) : Rpc α := fun c =>
  let c := c.closeAll S.host a.closes
  (if a.fails then .error .rpc else read c, c)

def latestLedger (a : Answer) : Rpc ℕ := call S a fun c => .ok c.ledger

/-- `getHealth`, of which the oldest ledger is read. -/
def getHealth (a : Answer) : Rpc ℕ := call S a fun _ => .ok a.oldestLedger

/-- One page, from a position in the log on. -/
def pageAt (topic : Topic) (a : Answer) (c : Chain) (start : ℕ) : Page :=
  let stop := max start (min a.upto c.log.length)
  ⟨eventsIn c.log topic start stop, a.cursor, stop⟩

/-- `getEvents({ cursor, … })`. -/
def getEventsAfter (topic : Topic) (a : Answer) (position : ℕ) : Rpc Page :=
  call S a fun c => .ok (pageAt topic a c position)

/-- `getEvents({ startLedger, … })`. -/
def getEvents (topic : Topic) (a : Answer) (startLedger : ℕ) : Rpc (ℕ × Page) :=
  call S a fun c =>
    if startLedger < a.oldestLedger ∨ c.ledger < startLedger then
      .error (.range a.oldestLedger c.ledger)
    else .ok (startLedger, pageAt topic a c (c.before startLedger))

/-- The pages after `page`, which was number `n`; `remaining` more may be read. -/
def follow (topic : Topic) (answers : ℕ → Answer) :
    ℕ → ℕ → Page → Option ℕ → Rpc (List Emitted × ℕ)
  | 0, _, page, _ => pure (page.events, page.stop)
  | remaining + 1, n, page, prevCursor =>
      if page.cursor = none ∨ page.cursor = prevCursor then pure (page.events, page.stop)
      else do
        let next ← getEventsAfter S topic (answers (n + 1)) page.stop
        let (events, stop) ← follow topic answers remaining (n + 1) next page.cursor
        pure (page.events ++ events, stop)

/-- All pages of a stream, the first of which starts at a ledger, and the part of the log they
covered. -/
def readStream (topic : Topic) (first : Rpc (ℕ × Page)) (answers : ℕ → Answer) :
    Rpc (List Emitted × Window) := do
  let (startLedger, page) ← first
  let (events, stop) ← follow S topic answers (MAX_PAGES - 1) 0 page none
  pure (events, ⟨startLedger, stop⟩)

/-! ## Deposits -/

/-- Where a cold start begins. -/
def coldStart (latest : ℕ) : ℕ :=
  if 0 < S.deploymentLedger then S.deploymentLedger else max 1 (latest - S.lookback)

def resolveEventStartLedger (net : Network) (fromLedger : ℕ) : Rpc ℕ :=
  if 0 < fromLedger then pure fromLedger
  else do
    let latest ← latestLedger S net.startLatest
    let start := coldStart S latest
    Session.tryCatch
      (do
        let oldest ← getHealth S net.startHealth
        pure (if start < oldest then oldest else start))
      fun _ => pure start

/-- The first page; where the node no longer has the start ledger, from its oldest one. -/
def getEventsFrom (net : Network) (startLedger : ℕ) : Rpc (ℕ × Page) :=
  Session.tryCatch (getEvents S .Deposit net.firstDeposits startLedger) fun
    | .range oldest latest =>
        if startLedger < oldest then getEvents S .Deposit net.retryDeposits oldest
        else Session.throw (.range oldest latest)
    | e => Session.throw e

def readDepositEvents (net : Network) (fromLedger : ℕ) : Rpc (List Emitted × Window) := do
  let startLedger ← resolveEventStartLedger S net fromLedger
  readStream S .Deposit (getEventsFrom S net startLedger) net.nextDeposits

def selectDeposits (afterIndex : ℤ) (events : List Emitted) : List Deposit :=
  ((events.filterMap Emitted.deposit).filter fun d => afterIndex < d.index).insertionSort
    fun a b => a.index ≤ b.index

def readDeposits (net : Network) (afterIndex : ℤ) (fromLedger : ℕ) : Rpc (List Deposit) := do
  let (events, _) ← readDepositEvents S net fromLedger
  pure (selectDeposits afterIndex events)

/-! ## Roots -/

/-- The latest root; null where the text of the failed simulation names the missing root. -/
def currentRoot (a : Answer) (kind : RootKind) : Rpc (Option (BytesN 32)) :=
  call S a fun c =>
    match getLatestRoot c.world.pool kind with
    | .ok root => .ok (some root)
    | .error failure =>
        if Coverage.unpublished kind <:+: S.describe failure then .ok none else .error .rpc

/-- The invocation that publishes a root. -/
def postCall (kind : RootKind) (root datasetHash : BytesN 32) : Invocation where
  env := ⟨0, 0, [S.authority], fun _ _ _ => false⟩
  call := publishCall kind S.authority root datasetHash

def postRoot (p : Posting) (kind : RootKind) (root datasetHash : BytesN 32) : Rpc Unit := fun c =>
  let c := c.closeAll S.host p.closes
  if p.fails then (.error .rpc, c)
  else
    match p.included with
    | none => (.error .notConfirmed, c.closeAll S.host p.later)
    | some l =>
        let c := c.close S.host l
        let inv := postCall S kind root datasetHash
        let outcome := (Pool.step S.host c.world (stamp c.ledger inv)).2
        let c := ((c.invoke S.host inv).invokeAll S.host p.rest).closeAll S.host p.later
        match outcome with
        | .error _ => (.error .postFailed, c)
        | .ok _ => (if p.confirmed then .ok () else .error .notConfirmed, c)

/-! ## State leaves -/

/-- The windows that the two streams of `readStateLeaves` covered, and its cursor. -/
structure StateRead where
  deposits : List Emitted × Window
  withdraws : List Emitted × Window
  cursor : ℕ

/-- The ledger from which the state leaves are read. -/
def stateStart (net : Network) (fromLedger : ℕ) : Rpc ℕ := do
  let oldest ← getHealth S net.stateHealth
  if 0 < fromLedger ∧ fromLedger < oldest then Session.throw (.retentionGap fromLedger oldest)
  else if fromLedger = 0 then do
    let latest ← latestLedger S net.stateLatest
    let start := coldStart S latest
    if start < oldest then Session.throw (.retentionGap start oldest) else pure start
  else pure fromLedger

def readStateEvents (net : Network) (fromLedger : ℕ) : Rpc StateRead := do
  let start ← stateStart S net fromLedger
  let deposits ← readStream S .Deposit (getEvents S .Deposit (net.stateDeposits 0) start)
    net.stateDeposits
  let withdraws ← readStream S .Withdraw (getEvents S .Withdraw (net.stateWithdraws 0) start)
    net.stateWithdraws
  let cursor ← latestLedger S net.stateCursor
  pure ⟨deposits, withdraws, cursor⟩

/-- The leaves of the events that were read, with their indices, in reading order. -/
def leafUpdates (events : List Emitted) : List (ℕ × BytesN 32) :=
  events.filterMap fun e => e.leaf.map fun x => (x.2, x.1)

/-- The last leaf with an index (`byIndex`). -/
def byIndex (updates : List (ℕ × BytesN 32)) (i : ℕ) : Option (BytesN 32) :=
  (updates.reverse.find? fun u => u.1 = i).map (·.2)

def snapshotOf (r : StateRead) : StateTreeSnapshot :=
  let updates := leafUpdates (r.deposits.1 ++ r.withdraws.1)
  let size := updates.foldl (fun m u => max m (u.1 + 1)) 0
  { leaves := (List.range size).map fun i => (byIndex updates i).getD (BytesN.ofNat 32 0)
    eventCount := updates.length
    maxIndex := (size : ℤ) - 1
    events := some updates
    cursor := some r.cursor }

def readStateLeaves (net : Network) (fromLedger : ℕ) : Rpc StateTreeSnapshot := do
  let r ← readStateEvents S net fromLedger
  pure (snapshotOf r)

end Adapter

/-! ## What the reads return -/

instance : Std.Refl Chain.Extends := ⟨Chain.Extends.refl⟩

instance : IsTrans Chain Chain.Extends := ⟨fun _ _ _ => Chain.Extends.trans⟩

section Spec

variable {F : Type} {S : Setting F} {c c' : Chain} {net : Network} {topic : Topic}

theorem call_eq_ok {α : Type} {a : Answer} {read : Chain → Except Thrown α} {x : α} :
    call S a read c = (.ok x, c') ↔
      a.fails = false ∧ c' = c.closeAll S.host a.closes ∧ read c' = .ok x := by
  unfold call
  cases hfails : a.fails with
  | true => simp
  | false =>
      simp only [Bool.false_eq_true, if_false, Prod.mk.injEq, true_and]
      constructor
      · rintro ⟨hread, rfl⟩
        exact ⟨rfl, hread⟩
      · rintro ⟨rfl, hread⟩
        exact ⟨hread, rfl⟩

/-- The ledgers that close before a call lead from every chain to a related one. -/
def Answer.Keeps (host : Host) (R : Chain → Chain → Prop) (a : Answer) : Prop :=
  ∀ c, R c (c.closeAll host a.closes)

theorem Answer.keeps_extends (host : Host) (a : Answer) : a.Keeps host Chain.Extends :=
  fun c => Chain.Extends.closeAll host c a.closes

theorem Answer.Keeps.call {R : Chain → Chain → Prop} {α : Type} {a : Answer}
    (h : a.Keeps S.host R) (read : Chain → Except Thrown α) : Session.Keeps R (call S a read) := h

theorem keeps_call {α : Type} (a : Answer) (read : Chain → Except Thrown α) :
    Session.Keeps Chain.Extends (call S a read) := (a.keeps_extends S.host).call read

/-- In an ordered log, what comes before a position is what lies before a ledger. -/
theorem Chain.before_le_iff (c : Chain) {ledger p : ℕ} {e : Emitted} (h : c.log[p]? = some e) :
    c.before ledger ≤ p ↔ ledger ≤ e.ledger := by
  unfold Chain.before
  have hordered := c.ordered
  revert h hordered
  generalize c.log = log
  intro h hordered
  induction log generalizing p with
  | nil => cases h
  | cons a log ih =>
      rw [List.takeWhile_cons]
      obtain ⟨hfirst, hrest⟩ := List.pairwise_cons.mp hordered
      cases p with
      | zero =>
          obtain rfl : a = e := by simpa using h
          by_cases ha : a.ledger < ledger <;> simp [ha]
          omega
      | succ p =>
          rw [List.getElem?_cons_succ] at h
          have hle : a.ledger ≤ e.ledger := hfirst e (List.mem_of_getElem? h)
          have hlater := ih h hrest
          by_cases ha : a.ledger < ledger
          · simp only [ha, decide_true, if_true, List.length_cons]
            omega
          · simp only [ha, decide_false, Bool.false_eq_true, if_false, List.length_nil]
            omega

theorem Chain.before_le_length (c : Chain) (ledger : ℕ) : c.before ledger ≤ c.log.length :=
  (List.takeWhile_sublist _).length_le

theorem mem_eventsIn {log : List Emitted} {start stop : ℕ} {e : Emitted} :
    e ∈ eventsIn log topic start stop ↔
      ∃ p, log[p]? = some e ∧ start ≤ p ∧ p < stop ∧ e.topic = some topic := by
  rw [eventsIn, List.mem_filter, List.mem_iff_getElem?, decide_eq_true_eq]
  simp only [List.getElem?_drop, List.getElem?_take]
  constructor
  · rintro ⟨⟨p, hp⟩, htopic⟩
    split_ifs at hp with hlt
    exact ⟨start + p, hp, Nat.le_add_right _ _, hlt, htopic⟩
  · rintro ⟨p, hp, hstart, hstop, htopic⟩
    refine ⟨⟨p - start, ?_⟩, htopic⟩
    rw [Nat.add_sub_cancel' hstart, if_pos hstop, hp]

theorem eventsIn_append (log : List Emitted) {a b d : ℕ} (hab : a ≤ b) (hbd : b ≤ d) :
    eventsIn log topic a b ++ eventsIn log topic b d = eventsIn log topic a d := by
  rw [eventsIn, eventsIn, eventsIn, ← List.filter_append]
  congr 1
  have hcut : (log.take d).take b = log.take b := by rw [List.take_take, Nat.min_eq_left hbd]
  calc (log.take b).drop a ++ (log.take d).drop b
      = ((log.take d).take b).drop a ++ ((log.take d).drop a).drop (b - a) := by
        rw [hcut, List.drop_drop, Nat.add_sub_cancel' hab]
    _ = (log.take d).drop a := by
        rw [List.drop_take, List.take_append_drop]

/-- These are the events of a topic between two positions of the log. -/
structure Between (c : Chain) (topic : Topic) (start stop : ℕ) (events : List Emitted) : Prop where
  le : start ≤ stop
  stop_le : stop ≤ c.log.length
  eq : events = eventsIn c.log topic start stop

theorem between_pageAt {a : Answer} {start : ℕ} (h : start ≤ c.log.length) :
    Between c topic start (pageAt topic a c start).stop (pageAt topic a c start).events :=
  ⟨le_max_left _ _, max_le h (min_le_right _ _), rfl⟩

namespace Between

variable {start stop stop' : ℕ} {events events' : List Emitted}

/-- The part of the log stays what it is. -/
theorem later (h : Between c topic start stop events) (hext : c.Extends c') :
    Between c' topic start stop events := by
  obtain ⟨new, hlog, -⟩ := hext.log
  refine ⟨h.le, le_trans h.stop_le hext.length, ?_⟩
  rw [h.eq, eventsIn, eventsIn, hlog, List.take_append_of_le_length h.stop_le]

theorem append (h : Between c topic start stop events) (h' : Between c topic stop stop' events') :
    Between c topic start stop' (events ++ events') := by
  refine ⟨le_trans h.le h'.le, h'.stop_le, ?_⟩
  rw [h.eq, h'.eq, eventsIn_append _ h.le h'.le]

end Between

section Keeps

variable {R : Chain → Chain → Prop} [Std.Refl R] [IsTrans Chain R]

theorem keeps_follow {answers : ℕ → Answer} (h : ∀ n, (answers n).Keeps S.host R)
    (remaining n : ℕ) (page : Page) (prevCursor : Option ℕ) :
    Session.Keeps R (follow S topic answers remaining n page prevCursor) := by
  induction remaining generalizing n page prevCursor with
  | zero => exact Session.keeps_pure _
  | succ remaining ih =>
      unfold follow
      split
      · exact Session.keeps_pure _
      · exact ((h _).call _).bind fun next => (ih _ next _).bind fun _ => Session.keeps_pure _

theorem keeps_readStream {first : Rpc (ℕ × Page)} {answers : ℕ → Answer}
    (hfirst : Session.Keeps R first) (h : ∀ n, (answers n).Keeps S.host R) :
    Session.Keeps R (readStream S topic first answers) :=
  hfirst.bind fun _ => (keeps_follow h _ _ _ _).bind fun _ => Session.keeps_pure _

/-- Every call of `readStateLeaves` keeps `R`. -/
structure Network.KeepsReading (host : Host) (R : Chain → Chain → Prop) (net : Network) : Prop where
  health : net.stateHealth.Keeps host R
  latest : net.stateLatest.Keeps host R
  deposits : ∀ n, (net.stateDeposits n).Keeps host R
  withdraws : ∀ n, (net.stateWithdraws n).Keeps host R
  cursor : net.stateCursor.Keeps host R

theorem Network.keepsReading_extends (host : Host) (net : Network) :
    net.KeepsReading host Chain.Extends :=
  ⟨Answer.keeps_extends host _, Answer.keeps_extends host _, fun _ => Answer.keeps_extends host _,
    fun _ => Answer.keeps_extends host _, Answer.keeps_extends host _⟩

theorem keeps_stateStart (h : net.KeepsReading S.host R) (fromLedger : ℕ) :
    Session.Keeps R (stateStart S net fromLedger) := by
  refine (h.health.call _).bind fun oldest => ?_
  split
  · exact Session.keeps_throw _
  · split
    · refine (h.latest.call _).bind fun latest => ?_
      dsimp only
      split
      · exact Session.keeps_throw _
      · exact Session.keeps_pure _
    · exact Session.keeps_pure _

theorem keeps_readStateEvents (h : net.KeepsReading S.host R) (fromLedger : ℕ) :
    Session.Keeps R (readStateEvents S net fromLedger) :=
  (keeps_stateStart h fromLedger).bind fun _ =>
    (keeps_readStream ((h.deposits 0).call _) h.deposits).bind fun _ =>
      (keeps_readStream ((h.withdraws 0).call _) h.withdraws).bind fun _ =>
        (h.cursor.call _).bind fun _ => Session.keeps_pure _

theorem keeps_readStateLeaves (h : net.KeepsReading S.host R) (fromLedger : ℕ) :
    Session.Keeps R (readStateLeaves S net fromLedger) :=
  (keeps_readStateEvents h fromLedger).bind fun _ => Session.keeps_pure _

end Keeps

/-- Each page starts where the one before it ended. -/
theorem between_follow {answers : ℕ → Answer} {remaining n start : ℕ} {page : Page}
    {prevCursor : Option ℕ} {r : List Emitted × ℕ}
    (hpage : Between c topic start page.stop page.events)
    (h : follow S topic answers remaining n page prevCursor c = (.ok r, c')) :
    Between c' topic start r.2 r.1 := by
  induction remaining generalizing n page prevCursor c r start with
  | zero =>
      obtain ⟨rfl, rfl⟩ := Session.pure_eq_ok.mp h
      exact hpage
  | succ remaining ih =>
      unfold follow at h
      split at h
      · obtain ⟨rfl, rfl⟩ := Session.pure_eq_ok.mp h
        exact hpage
      · obtain ⟨next, c₁, hnext, h⟩ := Session.bind_eq_ok.mp h
        obtain ⟨⟨events, stop⟩, c₂, hrest, h⟩ := Session.bind_eq_ok.mp h
        obtain ⟨rfl, rfl⟩ := Session.pure_eq_ok.mp h
        have hext : c.Extends c₁ := (keeps_call _ _).of_eq hnext
        have hext' : c₁.Extends c₂ :=
          (keeps_follow (fun _ => Answer.keeps_extends _ _) _ _ _ _).of_eq hrest
        obtain ⟨-, -, hread⟩ := call_eq_ok.mp hnext
        obtain rfl := Except.ok.inj hread
        have hlater := ih (between_pageAt (le_trans hpage.stop_le hext.length)) hrest
        exact ((hpage.later hext).later hext').append hlater

/-- Some events of the log are those of a topic in a part of it. -/
structure Covers (c : Chain) (topic : Topic) (r : List Emitted × Window) : Prop where
  stop_le : r.2.stop ≤ c.log.length
  sublist : r.1.Sublist c.log
  mem_iff : ∀ e, e ∈ r.1 ↔ ∃ p, c.log[p]? = some e ∧ r.2.startLedger ≤ e.ledger ∧
    p < r.2.stop ∧ e.topic = some topic

theorem Covers.later {r : List Emitted × Window} (h : Covers c topic r)
    (hext : c.Extends c') : Covers c' topic r := by
  obtain ⟨new, hlog, -⟩ := hext.log
  refine ⟨le_trans h.stop_le hext.length, ?_, ?_⟩
  · rw [hlog]
    exact h.sublist.trans (List.sublist_append_left _ _)
  intro e
  rw [h.mem_iff e]
  constructor
  · rintro ⟨p, hp, hrest⟩
    exact ⟨p, hext.getElem? hp, hrest⟩
  · rintro ⟨p, hp, hledger, hstop, htopic⟩
    rw [hext.getElem?_eq (lt_of_lt_of_le hstop h.stop_le)] at hp
    exact ⟨p, hp, hledger, hstop, htopic⟩

/-- The events from the first one of a ledger on, when some more ledgers have closed. -/
theorem covers_of_between {c₁ c₂ : Chain} {ledger stop : ℕ} {events : List Emitted}
    (hledger : ledger ≤ c₁.ledger) (hext : c₁.Extends c₂)
    (hall : Between c₂ topic (c₁.before ledger) stop events) :
    Covers c₂ topic (events, ⟨ledger, stop⟩) := by
  refine ⟨hall.stop_le, ?_, ?_⟩
  · rw [hall.eq]
    exact (List.filter_sublist).trans ((List.drop_sublist _ _).trans (List.take_sublist _ _))
  intro e
  rw [hall.eq, mem_eventsIn]
  refine exists_congr fun p => and_congr_right fun hp => ?_
  have hiff : c₁.before ledger ≤ p ↔ ledger ≤ e.ledger := by
    rcases lt_or_ge p c₁.log.length with hlt | hge
    · rw [hext.getElem?_eq hlt] at hp
      exact c₁.before_le_iff hp
    · -- the event was emitted after the first page was read
      have hnew : c₁.ledger < e.ledger := by
        by_contra hle
        have := hext.getElem?_of_le hp (not_lt.mp hle)
        rw [List.getElem?_eq_none hge] at this
        cases this
      have := c₁.before_le_length ledger
      omega
  rw [hiff]

/-- A stream whose first page starts at a ledger returns the events of its topic from there on. -/
theorem covers_readStream {first : Rpc (ℕ × Page)} {answers : ℕ → Answer}
    {r : List Emitted × Window}
    (hfirst : ∀ c₁ ledger page, first c = (.ok (ledger, page), c₁) → ledger ≤ c₁.ledger ∧
      Between c₁ topic (c₁.before ledger) page.stop page.events)
    (h : readStream S topic first answers c = (.ok r, c')) : Covers c' topic r := by
  obtain ⟨⟨ledger, page⟩, c₁, hpage, h⟩ := Session.bind_eq_ok.mp h
  obtain ⟨⟨events, stop⟩, c₂, hrest, h⟩ := Session.bind_eq_ok.mp h
  obtain ⟨rfl, rfl⟩ := Session.pure_eq_ok.mp h
  obtain ⟨hledger, hstart⟩ := hfirst c₁ ledger page hpage
  have hext : c₁.Extends c₂ := (keeps_follow (fun _ => Answer.keeps_extends _ _) _ _ _ _).of_eq hrest
  exact covers_of_between hledger hext (between_follow hstart hrest)

theorem getEvents_spec {a : Answer} {startLedger ledger : ℕ} {page : Page}
    (h : getEvents S topic a startLedger c = (.ok (ledger, page), c')) :
    ledger = startLedger ∧ ledger ≤ c'.ledger ∧
      Between c' topic (c'.before ledger) page.stop page.events := by
  obtain ⟨-, -, hread⟩ := call_eq_ok.mp h
  split at hread
  · cases hread
  · next hrange =>
      cases hread
      exact ⟨rfl, not_lt.mp fun hlt => hrange (.inr hlt), between_pageAt (c'.before_le_length _)⟩

theorem keeps_getEventsFrom (net : Network) (startLedger : ℕ) :
    Session.Keeps Chain.Extends (getEventsFrom S net startLedger) := by
  refine (keeps_call _ _).tryCatch ?_
  intro e
  split
  · split
    · exact keeps_call _ _
    · exact Session.keeps_throw _
  · exact Session.keeps_throw _

theorem keeps_resolveEventStartLedger (net : Network) (fromLedger : ℕ) :
    Session.Keeps Chain.Extends (resolveEventStartLedger S net fromLedger) := by
  unfold resolveEventStartLedger
  split
  · exact Session.keeps_pure _
  · refine (keeps_call _ _).bind fun latest => Session.Keeps.tryCatch ?_ fun _ => Session.keeps_pure _
    exact (keeps_call _ _).bind fun _ => Session.keeps_pure _

theorem keeps_readDepositEvents (net : Network) (fromLedger : ℕ) :
    Session.Keeps Chain.Extends (readDepositEvents S net fromLedger) :=
  (keeps_resolveEventStartLedger net fromLedger).bind fun start =>
    keeps_readStream (keeps_getEventsFrom net start) fun _ => Answer.keeps_extends _ _

theorem keeps_readDeposits (net : Network) (afterIndex : ℤ) (fromLedger : ℕ) :
    Session.Keeps Chain.Extends (readDeposits S net afterIndex fromLedger) :=
  (keeps_readDepositEvents net fromLedger).bind fun _ => Session.keeps_pure _

theorem getEventsFrom_spec {startLedger ledger : ℕ} {page : Page}
    (h : getEventsFrom S net startLedger c = (.ok (ledger, page), c')) :
    startLedger ≤ ledger ∧ ledger ≤ c'.ledger ∧
      Between c' .Deposit (c'.before ledger) page.stop page.events := by
  unfold getEventsFrom Session.tryCatch at h
  split at h
  · next hfirst =>
      cases h
      obtain ⟨hstart, hrest⟩ := getEvents_spec hfirst
      exact ⟨le_of_eq hstart.symm, hrest⟩
  · next e c₁ hfirst =>
      dsimp only at h
      split at h
      · split at h
        · next hold =>
            obtain ⟨hstart, hrest⟩ := getEvents_spec h
            exact ⟨le_trans (le_of_lt hold) (le_of_eq hstart.symm), hrest⟩
        · cases h
      · cases h

/-- A start ledger that is not zero is taken as it is. -/
theorem resolveEventStartLedger_spec {fromLedger start : ℕ}
    (h : resolveEventStartLedger S net fromLedger c = (.ok start, c')) : fromLedger ≤ start := by
  unfold resolveEventStartLedger at h
  split at h
  · obtain ⟨rfl, -⟩ := Session.pure_eq_ok.mp h
    exact le_refl _
  · next hzero =>
      rw [Nat.eq_zero_of_not_pos hzero]
      exact Nat.zero_le _

/-- **Reading deposits** returns the deposits in a part of the log that does not start before the
ledger it was asked for. -/
theorem readDepositEvents_spec {fromLedger : ℕ} {r : List Emitted × Window}
    (h : readDepositEvents S net fromLedger c = (.ok r, c')) :
    Covers c' .Deposit r ∧ fromLedger ≤ r.2.startLedger := by
  obtain ⟨start, c₁, hstart, h⟩ := Session.bind_eq_ok.mp h
  refine ⟨covers_readStream ?_ h, ?_⟩
  · intro c₂ ledger page hpage
    exact (getEventsFrom_spec hpage).2
  · obtain ⟨⟨ledger, page⟩, c₂, hpage, h⟩ := Session.bind_eq_ok.mp h
    obtain ⟨⟨events, stop⟩, c₃, -, h⟩ := Session.bind_eq_ok.mp h
    obtain ⟨rfl, -⟩ := Session.pure_eq_ok.mp h
    exact le_trans (resolveEventStartLedger_spec hstart) (getEventsFrom_spec hpage).1

/-- **Reading state leaves** returns the events of each topic in a part of the log of its own, and
the last ledger that closed when both had been read. -/
theorem readStateEvents_spec {fromLedger : ℕ} {r : StateRead}
    (h : readStateEvents S net fromLedger c = (.ok r, c')) :
    Covers c' .Deposit r.deposits ∧ Covers c' .Withdraw r.withdraws ∧ r.cursor = c'.ledger := by
  obtain ⟨start, c₁, hstart, h⟩ := Session.bind_eq_ok.mp h
  obtain ⟨deposits, c₂, hdeposits, h⟩ := Session.bind_eq_ok.mp h
  obtain ⟨withdraws, c₃, hwithdraws, h⟩ := Session.bind_eq_ok.mp h
  obtain ⟨cursor, c₄, hcursor, h⟩ := Session.bind_eq_ok.mp h
  obtain ⟨rfl, rfl⟩ := Session.pure_eq_ok.mp h
  have hext₃ : c₂.Extends c₃ :=
    (keeps_readStream (keeps_call _ _) fun _ => Answer.keeps_extends _ _).of_eq hwithdraws
  have hext₄ : c₃.Extends c₄ := (keeps_call _ _).of_eq hcursor
  refine ⟨?_, ?_, ?_⟩
  · exact (covers_readStream (fun _ _ _ hpage => (getEvents_spec hpage).2) hdeposits).later
      (hext₃.trans hext₄)
  · exact (covers_readStream (fun _ _ _ hpage => (getEvents_spec hpage).2) hwithdraws).later hext₄
  · obtain ⟨-, -, hread⟩ := call_eq_ok.mp hcursor
    exact (Except.ok.inj hread).symm

theorem keeps_postRoot (p : Posting) (kind : RootKind) (root datasetHash : BytesN 32) :
    Session.Keeps Chain.Extends (postRoot S p kind root datasetHash) := by
  intro c
  have hfirst := Chain.Extends.closeAll S.host c p.closes
  unfold postRoot
  dsimp only
  split
  · exact hfirst
  · split
    · exact hfirst.trans (Chain.Extends.closeAll S.host _ _)
    · next l _ =>
        have hclose := Chain.Extends.close S.host (c.closeAll S.host p.closes) l
        have hlt := Chain.ledger_lt_close S.host (c.closeAll S.host p.closes) l
        have hall := (((hclose.invoke S.host hlt (postCall S kind root datasetHash)).invokeAll S.host
          hlt p.rest).trans (Chain.Extends.closeAll S.host _ p.later))
        split
        · exact hfirst.trans hall
        · exact hfirst.trans hall

end Spec

end OpaqueStellar.Asp
