import OpaqueStellar.Lib.Dict
import OpaqueStellar.Lib.Machine
import OpaqueStellar.Schemas.Core

/-! # The transaction history of the web client

What a user sees of a transaction is a row in the history (`frontend/src/store/txHistoryStore.ts`), which is
kept up to date from three sides: `frontend/src/lib/txTracking.ts` mirrors what becomes of the transactions in
`frontend/src/store/pendingTxStore.ts`, `frontend/src/lib/pending-tx-poller.ts` asks Horizon about those that
are pending, and `frontend/src/lib/history-reconciliation.ts` merges what Horizon lists for the account.

The answers come in any order, and the page may be reloaded at any time, with a history that is older than the
pending transactions. Still no list has two rows for one transaction, no row says anything about a transaction
that was not reported, and no row is pending whose transaction is known to be settled. -/

namespace OpaqueStellar.Web.TxHistory

open OpaqueStellar.Lib
open OpaqueStellar.Schemas (Str)

/-! ## The history -/

inductive TxHistoryKind where
  | sent
  | received
  | ghost
  | trait
  deriving DecidableEq

/-- `unknown` is what is shown when polling gave up. -/
inductive TxHistoryChainStatus where
  | confirmed
  | failed
  | pending
  | unknown
  deriving DecidableEq

structure TxHistoryPushInput where
  cluster : Str
  kind : TxHistoryKind
  counterparty : Str
  amountStroops : Str
  tokenSymbol : Str
  tokenAddress : Option Str := none
  amount : Str
  txHash : Option Str := none
  stealthAddress : Option Str := none
  chainStatus : Option TxHistoryChainStatus := none

structure TxHistoryEntry extends TxHistoryPushInput where
  timestamp : ℕ

/-- `if (entry.txHash)` -/
def TxHistoryPushInput.hash (entry : TxHistoryPushInput) : Option Str := entry.txHash.filter (· ≠ [])

theorem hash_eq_some {entry : TxHistoryPushInput} {hash : Str} :
    entry.hash = some hash ↔ entry.txHash = some hash ∧ hash ≠ [] := by
  simp [TxHistoryPushInput.hash, Option.filter_eq_some_iff]

/-- A row that says nothing is of a transaction that was confirmed. -/
def TxHistoryEntry.status (row : TxHistoryEntry) : TxHistoryChainStatus := row.chainStatus.getD .confirmed

structure TxHistoryState where
  byChain : Dict Str (List TxHistoryEntry) := []
  activeAccount : Option Str := none

def MAX_ITEMS_PER_CLUSTER : ℕ := 50

def scopeKey (account : Option Str) (cluster : Str) : Str :=
  match account.filter (· ≠ []) with
  | some account => account ++ ':' :: cluster
  | none => cluster

namespace TxHistoryState

variable (st : TxHistoryState)

def push (entry : TxHistoryPushInput) (now : ℕ) : TxHistoryState :=
  let key := scopeKey st.activeAccount entry.cluster
  let list := (st.byChain.find key).getD []
  if entry.hash.isSome && list.any fun e => e.hash = entry.hash then st
  else
    let next := { entry with timestamp := now } :: list
    { st with byChain := st.byChain.set key (next.take MAX_ITEMS_PER_CLUSTER) }

/-- Lists that were written before there were accounts are shown where an account has none. -/
def getForCluster (cluster : Str) : List TxHistoryEntry :=
  ((st.byChain.find (scopeKey st.activeAccount cluster)).or (st.byChain.find cluster)).getD []

def replaceForCluster (cluster : Str) (entries : List TxHistoryEntry) : TxHistoryState :=
  { st with
    byChain := st.byChain.set (scopeKey st.activeAccount cluster) (entries.take MAX_ITEMS_PER_CLUSTER) }

def setChainStatus (txHash : Str) (status : TxHistoryChainStatus) : TxHistoryState :=
  { st with
    byChain := st.byChain.map fun e => (e.1, e.2.map fun row =>
      if row.txHash = some txHash then { row with chainStatus := some status } else row) }

def clearForCluster (cluster : Str) : TxHistoryState :=
  { st with byChain := st.byChain.set (scopeKey st.activeAccount cluster) [] }

def clear (allAccounts : Bool) : TxHistoryState :=
  match st.activeAccount.filter (· ≠ []) with
  | some account =>
    if allAccounts then { st with byChain := [] }
    else { st with byChain := st.byChain.filter fun e => !(account ++ [':']).isPrefixOf e.1 }
  | none => { st with byChain := [] }

end TxHistoryState

/-! ## Pending transactions -/

inductive TxOutcome where
  | confirmed
  | failed
  | timedOut
  deriving DecidableEq

inductive PendingTxStatus where
  | pending
  | terminal (outcome : TxOutcome)
  deriving DecidableEq

structure PendingTxEntry where
  txHash : Str
  cluster : Str
  kind : Str
  submittedAt : ℕ
  status : PendingTxStatus := .pending
  message : Option Str := none
  resolvedAt : Option ℕ := none
  history : Option TxHistoryPushInput := none

def TERMINAL_CLEANUP_MS : ℕ := 60000

abbrev PendingTxs := Dict Str PendingTxEntry

def PendingTxs.setStatus (byHash : PendingTxs) (txHash : Str) (status : PendingTxStatus)
    (message : Option Str) (now : ℕ) : PendingTxs :=
  match byHash.find txHash with
  | none => byHash
  | some prev =>
    let resolvedAt := match status with
      | .pending => none
      | .terminal _ => prev.resolvedAt.or (some now)
    byHash.set txHash { prev with status := status, message := message, resolvedAt := resolvedAt }

def PendingTxs.prune (byHash : PendingTxs) (now : ℕ) : PendingTxs :=
  byHash.filter fun e =>
    e.2.status = .pending || now ≤ e.2.resolvedAt.getD e.2.submittedAt + TERMINAL_CLEANUP_MS

/-! ## Reconciliation -/

inductive ChainHistoryStatus where
  | confirmed
  | failed
  | pending
  deriving DecidableEq

def ChainHistoryStatus.shown : ChainHistoryStatus → TxHistoryChainStatus
  | .confirmed => .confirmed
  | .failed => .failed
  | .pending => .pending

structure ChainHistoryItem where
  txHash : Str
  cluster : Str
  kind : TxHistoryKind
  counterparty : Str
  amountStroops : Str
  amount : Str
  tokenSymbol : Str
  tokenAddress : Option Str := none
  stealthAddress : Option Str := none
  timestamp : ℕ
  status : ChainHistoryStatus

def ChainHistoryItem.row (item : ChainHistoryItem) : TxHistoryEntry where
  cluster := item.cluster
  kind := item.kind
  counterparty := item.counterparty
  amountStroops := item.amountStroops
  amount := item.amount
  tokenSymbol := item.tokenSymbol
  tokenAddress := item.tokenAddress
  stealthAddress := item.stealthAddress
  txHash := some item.txHash
  timestamp := item.timestamp
  chainStatus := some item.status.shown

def seedRow (byHash : Dict Str TxHistoryEntry) (entry : TxHistoryEntry) : Dict Str TxHistoryEntry :=
  match entry.hash with
  | none => byHash
  | some hash => byHash.set hash { entry with chainStatus := some entry.status }

structure Merge where
  byHash : Dict Str TxHistoryEntry
  addedCount : ℕ := 0
  dedupedCount : ℕ := 0

/-- What the user called a transaction stays; its status is the chain's. -/
def mergeItem (m : Merge) (item : ChainHistoryItem) : Merge :=
  match m.byHash.find item.txHash with
  | some existing =>
    let merged := { existing with
      chainStatus := some item.status.shown
      stealthAddress := existing.stealthAddress.or item.stealthAddress }
    { m with byHash := m.byHash.set item.txHash merged, dedupedCount := m.dedupedCount + 1 }
  | none =>
    { m with byHash := m.byHash.set item.txHash item.row, addedCount := m.addedCount + 1 }

def newestFirst (rows : List TxHistoryEntry) : List TxHistoryEntry :=
  rows.mergeSort fun a b => b.timestamp ≤ a.timestamp

structure ReconciledHistory where
  entries : List TxHistoryEntry
  addedCount : ℕ
  dedupedCount : ℕ

def reconcileHistory (rows : List TxHistoryEntry) (chain : List ChainHistoryItem) : ReconciledHistory :=
  let m := chain.foldl mergeItem { byHash := rows.foldl seedRow [] }
  ⟨newestFirst (m.byHash.map (·.2)), m.addedCount, m.dedupedCount⟩

/-- `reconcile` of `useHistoryReconciliation.ts`, once the answer is there. -/
def TxHistoryState.reconcile (st : TxHistoryState) (cluster : Str) (chain : List ChainHistoryItem) :
    TxHistoryState :=
  let rows := st.getForCluster cluster
  let hashless := rows.filter fun e => e.hash.isNone
  st.replaceForCluster cluster (newestFirst ((reconcileHistory rows chain).entries ++ hashless))

/-! ## Tracking -/

def TxOutcome.shown : TxOutcome → TxHistoryChainStatus
  | .confirmed => .confirmed
  | .failed => .failed
  | .timedOut => .unknown

def syncEntryToHistory (entry : PendingTxEntry) (now : ℕ) (st : TxHistoryState) : TxHistoryState :=
  match entry.status with
  | .pending => st
  | .terminal outcome =>
    let st := match entry.history with
      | some row =>
        st.push { row with txHash := some entry.txHash, chainStatus := some outcome.shown } now
      | none => st
    st.setChainStatus entry.txHash outcome.shown

/-- The page, and what is kept on the device. -/
structure Tracker where
  history : TxHistoryState := {}
  -- histories that were written: the storage may have any of them after a reload
  written : List TxHistoryState := []
  -- written at once
  byHash : PendingTxs := []
  tracking : Bool := false
  -- polls without an answer, with the entries as they were then
  polls : List PendingTxEntry := []
  -- what was said of transactions so far; the code does not keep it
  reported : List (Str × TxHistoryChainStatus) := []

namespace Tracker

variable (t : Tracker)

/-- Setting the pending transactions tells the subscriber. -/
def setByHash (byHash : PendingTxs) (now : ℕ) : Tracker :=
  let changed := byHash.filter fun e => (t.byHash.find e.2.txHash).map (·.status) ≠ some e.2.status
  { t with
    byHash := byHash
    history := if t.tracking then changed.foldl (fun st e => syncEntryToHistory e.2 now st) t.history
      else t.history }

def report (txHash : Str) (status : TxHistoryChainStatus) : Tracker :=
  { t with reported := t.reported ++ [(txHash, status)] }

def markPendingTx (entry : PendingTxEntry) (now : ℕ) : Tracker :=
  let t := t.report entry.txHash .pending
  let entry := { entry with status := .pending, submittedAt := now }
  let t := if (t.byHash.find entry.txHash).isSome then t
    else t.setByHash (Dict.set t.byHash entry.txHash entry) now
  match entry.history with
  | some row =>
    { t with
      history := t.history.push { row with txHash := some entry.txHash, chainStatus := some .pending } now }
  | none => t

def resolvePendingTx (txHash : Str) (outcome : TxOutcome) (message : Option Str) (now : ℕ) : Tracker :=
  let t := t.report txHash outcome.shown
  t.setByHash (t.byHash.setStatus txHash (.terminal outcome) message now) now

/-- A page records what it saw land, without telling what became of it. -/
def pushLanded (entry : TxHistoryPushInput) (txHash : Str) (now : ℕ) : Tracker :=
  let row := { entry with txHash := some txHash, chainStatus := none }
  { t.report txHash .confirmed with history := t.history.push row now }

def startTracking (now : ℕ) : Tracker :=
  { t with tracking := true, history := t.byHash.foldl (fun st e => syncEntryToHistory e.2 now st) t.history }

/-- A round of the poller: the questions that it sends. -/
def tick (now : ℕ) : Tracker :=
  let pending := (t.byHash.map (·.2)).filter fun e => e.status = .pending
  let t := t.setByHash (t.byHash.prune now) now
  { t with polls := t.polls ++ pending }

end Tracker

/-- What Horizon answers; `blip` is no answer. -/
inductive ChainStatusResult where
  | confirmed (message : Option Str)
  | failed (message : Option Str)
  | notFound
  | blip

def POLL_TIMEOUT_MS : ℕ := 5 * 60 * 1000

/-- `pollOne`, once the answer is there. -/
def Tracker.pollOne (t : Tracker) (entry : PendingTxEntry) (result : ChainStatusResult) (now : ℕ) : Tracker :=
  match result with
  | .confirmed message => t.resolvePendingTx entry.txHash .confirmed message now
  | .failed message => t.resolvePendingTx entry.txHash .failed message now
  | .notFound =>
    if entry.submittedAt + POLL_TIMEOUT_MS < now then
      t.resolvePendingTx entry.txHash .timedOut
        (some "Polling timed out before chain confirmation".toList) now
    else t
  | .blip => t

/-- `paymentToHistoryItem` makes items of payments that succeeded or failed. -/
structure HorizonItem extends ChainHistoryItem where
  landed : status ≠ .pending

inductive TrackEvent where
  | setActiveAccount (account : Option Str)
  -- `markPendingTx`, and the `add` of a payment page, which has no row
  | mark (entry : PendingTxEntry) (now : ℕ)
  | push (entry : TxHistoryPushInput) (txHash : Str) (now : ℕ)
  -- a submission that ended
  | resolve (txHash : Str) (outcome : TxOutcome) (message : Option Str) (now : ℕ)
  | start (now : ℕ)
  | stop
  | tick (now : ℕ)
  | reply (poll : ℕ) (result : ChainStatusResult) (now : ℕ)
  | reconcile (cluster : Str) (items : List HorizonItem)
  | clearForCluster (cluster : Str)
  | clear (allAccounts : Bool)
  | save
  | reload (version : ℕ)

/-- The transaction that is submitted. -/
def TrackEvent.submits : TrackEvent → Option Str
  | .mark entry _ => some entry.txHash
  | _ => none

def Tracker.step (t : Tracker) : TrackEvent → Tracker
  | .setActiveAccount account => { t with history := { t.history with activeAccount := account } }
  | .mark entry now => t.markPendingTx entry now
  | .push entry txHash now => t.pushLanded entry txHash now
  | .resolve txHash outcome message now => t.resolvePendingTx txHash outcome message now
  | .start now => t.startTracking now
  | .stop => { t with tracking := false }
  | .tick now => t.tick now
  | .reply poll result now =>
    match t.polls[poll]? with
    | some entry => { t with polls := t.polls.eraseIdx poll }.pollOne entry result now
    | none => t
  | .reconcile cluster items =>
    { t with
      history := t.history.reconcile cluster (items.map (·.toChainHistoryItem))
      reported := t.reported ++ items.map fun item => (item.txHash, item.status.shown) }
  | .clearForCluster cluster => { t with history := t.history.clearForCluster cluster }
  | .clear allAccounts =>
    { t with
      history := t.history.clear allAccounts
      -- only a wipe clears all accounts, and with them what is pending
      byHash := if allAccounts then [] else t.byHash }
  | .save => { t with written := t.history :: t.written }
  | .reload version =>
    { t with history := (t.written[version]?).getD {}, tracking := false, polls := [] }

def trackMachine : Machine Tracker TrackEvent Unit := ⟨fun t event => (t.step event, ())⟩

abbrev TrackStep := Machine.Step Tracker TrackEvent Unit

/-- The transaction is not submitted if it is known to be settled. -/
def TrackStep.Fresh (e : TrackStep) : Prop :=
  ∀ txHash ∈ e.input.submits, ∀ known ∈ e.pre.byHash.find txHash, known.status = .pending

/-! ## Rows -/

/-- No transaction has two rows in a list, no list is too long, and every row is as `P` says. -/
structure Rows (P : TxHistoryEntry → Prop) (rows : List TxHistoryEntry) : Prop where
  oneRow : (rows.filterMap fun e => e.hash).Nodup
  bounded : rows.length ≤ MAX_ITEMS_PER_CLUSTER
  each : ∀ row ∈ rows, P row

def AllRows (P : TxHistoryEntry → Prop) (st : TxHistoryState) : Prop := ∀ e ∈ st.byChain, Rows P e.2

section Rows

variable {P P' : TxHistoryEntry → Prop} {rows : List TxHistoryEntry} {st : TxHistoryState} {hash : Str}
  {status : TxHistoryChainStatus} {now : ℕ}

theorem rows_nil : Rows P [] := ⟨List.nodup_nil, Nat.zero_le _, List.forall_mem_nil _⟩

/-- Only the newest rows are kept. -/
theorem rows_take (honeRow : (rows.filterMap fun e => e.hash).Nodup) (heach : ∀ row ∈ rows, P row) :
    Rows P (rows.take MAX_ITEMS_PER_CLUSTER) where
  oneRow := honeRow.sublist ((List.take_sublist _ _).filterMap _)
  bounded := List.length_take_le _ _
  each row hrow := heach row (List.mem_of_mem_take hrow)

theorem AllRows.find (h : AllRows P st) (key : Str) : Rows P ((st.byChain.find key).getD []) := by
  rcases hfind : st.byChain.find key with - | rows
  · exact rows_nil
  · exact h _ (Dict.mem_of_find hfind)

theorem AllRows.set (h : AllRows P st) (key : Str) (hrows : Rows P rows) :
    AllRows P { st with byChain := st.byChain.set key rows } := by
  intro e he
  rcases Dict.mem_set he with rfl | ⟨he, -⟩
  · exact hrows
  · exact h e he

theorem AllRows.mono (h : AllRows P st) (hP : ∀ row, P row → P' row) : AllRows P' st :=
  fun e he => ⟨(h e he).oneRow, (h e he).bounded, fun row hrow => hP row ((h e he).each row hrow)⟩

theorem AllRows.push (h : AllRows P st) {entry : TxHistoryPushInput}
    (hentry : P { entry with timestamp := now }) : AllRows P (st.push entry now) := by
  have hlist := h.find (scopeKey st.activeAccount entry.cluster)
  unfold TxHistoryState.push
  dsimp only
  split
  · exact h
  next hnew =>
    refine h.set _ (rows_take ?_ (List.forall_mem_cons.mpr ⟨hentry, hlist.each⟩))
    rw [List.filterMap_cons]
    rcases hhash : entry.hash with - | hash
    · exact hlist.oneRow
    · refine List.nodup_cons.mpr ⟨?_, hlist.oneRow⟩
      intro hmem
      obtain ⟨row, hrow, heq⟩ := List.mem_filterMap.mp hmem
      apply hnew
      rw [hhash]
      exact List.any_eq_true.mpr ⟨row, hrow, by simpa using heq⟩

theorem AllRows.setChainStatus (h : AllRows P st)
    (hother : ∀ row, P row → row.txHash ≠ some hash → P' row)
    (hrow : ∀ row, P row → row.txHash = some hash → P' { row with chainStatus := some status }) :
    AllRows P' (st.setChainStatus hash status) := by
  intro e he
  obtain ⟨e, hmem, rfl⟩ := List.mem_map.mp he
  have hsame : ∀ row : TxHistoryEntry,
      (if row.txHash = some hash then { row with chainStatus := some status } else row).hash = row.hash := by
    intro row
    split <;> rfl
  refine ⟨?_, ?_, ?_⟩
  · show (List.filterMap _ (List.map _ e.2)).Nodup
    rw [List.filterMap_map]
    simpa only [Function.comp_def, hsame] using (h e hmem).oneRow
  · simpa using (h e hmem).bounded
  · intro _ hmapped
    obtain ⟨row, hmemRow, rfl⟩ := List.mem_map.mp hmapped
    have hProw := (h e hmem).each row hmemRow
    split
    next hsame => exact hrow row hProw hsame
    next hne => exact hother row hProw hne

theorem AllRows.getForCluster (h : AllRows P st) (cluster : Str) : Rows P (st.getForCluster cluster) := by
  unfold TxHistoryState.getForCluster
  rcases hfind : st.byChain.find (scopeKey st.activeAccount cluster) with - | rows
  · exact h.find cluster
  · exact h _ (Dict.mem_of_find hfind)

theorem AllRows.clear (h : AllRows P st) (allAccounts : Bool) : AllRows P (st.clear allAccounts) := by
  unfold TxHistoryState.clear
  split
  · split
    · exact List.forall_mem_nil _
    · exact fun e he => h e (List.mem_of_mem_filter he)
  · exact List.forall_mem_nil _

/-! ### Merging -/

/-- Rows by their transaction. -/
structure ByHash (P : TxHistoryEntry → Prop) (byHash : Dict Str TxHistoryEntry) : Prop where
  distinct : byHash.Distinct
  own : ∀ e ∈ byHash, e.2.txHash = some e.1
  each : ∀ e ∈ byHash, P e.2

variable {byHash : Dict Str TxHistoryEntry} {row : TxHistoryEntry}

theorem ByHash.set (h : ByHash P byHash) (hown : row.txHash = some hash) (hrow : P row) :
    ByHash P (byHash.set hash row) := by
  refine ⟨Dict.distinct_set h.distinct _ _, ?_, ?_⟩
  · intro e he
    rcases Dict.mem_set he with rfl | ⟨he, -⟩
    · exact hown
    · exact h.own e he
  · intro e he
    rcases Dict.mem_set he with rfl | ⟨he, -⟩
    · exact hrow
    · exact h.each e he

/-- What merging may do to a row. -/
structure Merges (P : TxHistoryEntry → Prop) (chain : List ChainHistoryItem) : Prop where
  seed : ∀ row, P row → P { row with chainStatus := some row.status }
  known : ∀ item ∈ chain, ∀ row, P row → row.txHash = some item.txHash → ∀ stealthAddress,
    P { row with chainStatus := some item.status.shown, stealthAddress := stealthAddress }
  added : ∀ item ∈ chain, P item.row

variable {chain : List ChainHistoryItem}

theorem ByHash.seeds (h : ByHash P byHash) (hmerges : Merges P chain) (hrows : ∀ row ∈ rows, P row) :
    ByHash P (rows.foldl seedRow byHash) := by
  induction rows generalizing byHash with
  | nil => exact h
  | cons row rows ih =>
      rw [List.forall_mem_cons] at hrows
      refine ih ?_ hrows.2
      unfold seedRow
      rcases hhash : row.hash with - | hash
      · exact h
      · exact h.set (hash_eq_some.mp hhash).1 (hmerges.seed row hrows.1)

theorem byHash_mergeItem {m : Merge} {item : ChainHistoryItem} (h : ByHash P m.byHash)
    (hmerges : Merges P chain) (hitem : item ∈ chain) : ByHash P (mergeItem m item).byHash := by
  unfold mergeItem
  rcases hfind : m.byHash.find item.txHash with - | existing
  · exact h.set rfl (hmerges.added item hitem)
  · have hmem := Dict.mem_of_find hfind
    exact h.set (h.own _ hmem) (hmerges.known item hitem existing (h.each _ hmem) (h.own _ hmem) _)

theorem byHash_foldl_mergeItem {m : Merge} (h : ByHash P m.byHash) {items : List ChainHistoryItem}
    (hmerges : Merges P chain) (hitems : ∀ item ∈ items, item ∈ chain) :
    ByHash P (items.foldl mergeItem m).byHash := by
  induction items generalizing m with
  | nil => exact h
  | cons item items ih =>
      rw [List.forall_mem_cons] at hitems
      exact ih (byHash_mergeItem h hmerges hitems.1) hitems.2

theorem ByHash.oneRow (h : ByHash P byHash) : ((byHash.map (·.2)).filterMap fun e => e.hash).Nodup := by
  have hkeys : (byHash.map (·.2)).filterMap (fun e => e.hash) = (byHash.map (·.1)).filter (· ≠ []) := by
    have hown := h.own
    clear h
    induction byHash with
    | nil => rfl
    | cons e byHash ih =>
        rw [List.forall_mem_cons] at hown
        rw [List.map_cons, List.map_cons, List.filterMap_cons, List.filter_cons, ih hown.2]
        by_cases hempty : e.1 = [] <;> simp [TxHistoryPushInput.hash, hown.1, hempty, Option.filter_some]
  rw [hkeys]
  exact h.distinct.filter _

theorem newestFirst_perm (rows : List TxHistoryEntry) : (newestFirst rows).Perm rows :=
  List.mergeSort_perm _ _

/-- The rows that a transaction has, and those that none has. -/
theorem rows_merged (h : ByHash P byHash) (hrows : Rows P rows) :
    Rows P ((newestFirst (newestFirst (byHash.map (·.2)) ++ rows.filter fun e => e.hash.isNone)).take
      MAX_ITEMS_PER_CLUSTER) := by
  have hperm : (newestFirst (newestFirst (byHash.map (·.2)) ++ rows.filter fun e => e.hash.isNone)).Perm
      (byHash.map (·.2) ++ rows.filter fun e => e.hash.isNone) :=
    (newestFirst_perm _).trans ((newestFirst_perm _).append_right _)
  apply rows_take
  · rw [(hperm.filterMap _).nodup_iff, List.filterMap_append]
    have hnone : (rows.filter fun e => e.hash.isNone).filterMap (fun e => e.hash) = [] := by
      simp [List.filterMap_eq_nil_iff]
    rw [hnone, List.append_nil]
    exact h.oneRow
  · intro row hrow
    rcases List.mem_append.mp (hperm.mem_iff.mp hrow) with hrow | hrow
    · obtain ⟨e, he, rfl⟩ := List.mem_map.mp hrow
      exact h.each e he
    · exact hrows.each row (List.mem_of_mem_filter hrow)

/-- **Merging keeps one row for each transaction.** -/
theorem AllRows.reconcile (h : AllRows P st) (hmerges : Merges P chain) (cluster : Str) :
    AllRows P (st.reconcile cluster chain) := by
  have hrows := h.getForCluster cluster
  have hseeds : ByHash P ((st.getForCluster cluster).foldl seedRow []) :=
    ByHash.seeds ⟨List.nodup_nil, List.forall_mem_nil _, List.forall_mem_nil _⟩ hmerges hrows.each
  have hmerged := byHash_foldl_mergeItem (m := { byHash := _ }) hseeds hmerges fun item hitem => hitem
  exact h.set _ (rows_merged hmerged hrows)

/-! ### Mirroring -/

variable {entry : PendingTxEntry} {outcome : TxOutcome}

/-- Rows may say what became of the transaction. -/
def Tells (P : TxHistoryEntry → Prop) (entry : PendingTxEntry) : Prop :=
  ∀ outcome, entry.status = .terminal outcome → ∀ row : TxHistoryEntry,
    row.txHash = some entry.txHash → row.chainStatus = some outcome.shown → P row

theorem AllRows.sync (h : AllRows P st) (htells : Tells P entry) (now : ℕ) :
    AllRows P (syncEntryToHistory entry now st) := by
  unfold syncEntryToHistory
  rcases hstatus : entry.status with - | outcome
  · exact h
  · have htold := htells outcome hstatus
    refine AllRows.setChainStatus (P := P) ?_ (fun row hrow _ => hrow) fun row _ hhash => htold _ hhash rfl
    split
    next row hrow => exact h.push (htold _ rfl rfl)
    next hnone => exact h

/-- The row of a transaction that is settled is not pending. -/
def Settled (hash : Str) (row : TxHistoryEntry) : Prop :=
  row.txHash = some hash → row.chainStatus ≠ some .pending

theorem shown_ne_pending (outcome : TxOutcome) : outcome.shown ≠ .pending := by cases outcome <;> decide

theorem tells_settled (entry : PendingTxEntry) (hash : Str) : Tells (Settled hash) entry := by
  intro outcome _ row _ hshown _ hpending
  rw [hshown] at hpending
  exact shown_ne_pending outcome (Option.some.inj hpending)

theorem settled_sync (h : AllRows P st) (htells : Tells P entry) (hstatus : entry.status ≠ .pending)
    (now : ℕ) : AllRows (Settled entry.txHash) (syncEntryToHistory entry now st) := by
  unfold syncEntryToHistory
  rcases hterminal : entry.status with - | outcome
  · exact absurd hterminal hstatus
  · have hpushed : AllRows P (match entry.history with
        | some row => st.push { row with txHash := some entry.txHash, chainStatus := some outcome.shown } now
        | none => st) := by
      split
      next row hrow => exact h.push (htells outcome hterminal _ rfl rfl)
      next hnone => exact h
    apply AllRows.setChainStatus hpushed
    · intro row _ hne hhash
      exact absurd hhash hne
    · intro row _ hhash
      exact tells_settled entry entry.txHash outcome hterminal _ hhash rfl

variable {entries : List (Str × PendingTxEntry)}

theorem AllRows.syncs (h : AllRows P st) (htells : ∀ e ∈ entries, Tells P e.2) (now : ℕ) :
    AllRows P (entries.foldl (fun st e => syncEntryToHistory e.2 now st) st) := by
  induction entries generalizing st with
  | nil => exact h
  | cons e entries ih =>
      rw [List.forall_mem_cons] at htells
      exact ih (h.sync htells.1 now) htells.2

theorem settled_syncs (h : AllRows P st) (htells : ∀ e ∈ entries, Tells P e.2) (now : ℕ)
    {e : Str × PendingTxEntry} (he : e ∈ entries) (hstatus : e.2.status ≠ .pending) :
    AllRows (Settled e.2.txHash) (entries.foldl (fun st e => syncEntryToHistory e.2 now st) st) := by
  induction entries generalizing st with
  | nil => cases he
  | cons e' entries ih =>
      rw [List.forall_mem_cons] at htells
      rcases List.mem_cons.mp he with rfl | he
      · refine (settled_sync h htells.1 hstatus now).syncs (fun e' _ => tells_settled e'.2 _) now
      · exact ih (h.sync htells.1 now) htells.2 he

end Rows

/-! ## What holds of the page -/

/-- A row says what was said of its transaction. -/
def Honest (reported : List (Str × TxHistoryChainStatus)) (row : TxHistoryEntry) : Prop :=
  ∀ hash, row.hash = some hash → (hash, row.status) ∈ reported

/-- What is known of the pending transactions was said. -/
structure Known (reported : List (Str × TxHistoryChainStatus)) (byHash : PendingTxs) : Prop where
  distinct : Dict.Distinct byHash
  keys : ∀ e ∈ byHash, e.2.txHash = e.1
  told : ∀ e ∈ byHash, ∀ outcome, e.2.status = .terminal outcome → (e.1, outcome.shown) ∈ reported

/-- The last part needs that nothing settled was submitted. -/
structure Tracker.Inv (fresh : Prop) (t : Tracker) : Prop where
  rows : AllRows (Honest t.reported) t.history
  written : ∀ st ∈ t.written, AllRows (Honest t.reported) st
  known : Known t.reported t.byHash
  settled : fresh → t.tracking → ∀ e ∈ t.byHash, e.2.status ≠ .pending → AllRows (Settled e.1) t.history

section Inv

variable {t : Tracker} {fresh fresh' : Prop} {reported reported' : List (Str × TxHistoryChainStatus)}
  {byHash : PendingTxs} {txHash : Str} {status : TxHistoryChainStatus} {row : TxHistoryEntry}

theorem Honest.mono (h : reported ⊆ reported') (hrow : Honest reported row) : Honest reported' row :=
  fun hash hhash => h (hrow hash hhash)

/-- A row about a transaction of which its status was said. -/
theorem honest_of_mem (hhash : row.txHash = some txHash) (hmem : (txHash, row.status) ∈ reported) :
    Honest reported row := by
  intro hash h
  rw [hash_eq_some, hhash] at h
  rwa [← Option.some.inj h.1]

theorem Known.mono (h : Known reported byHash) (hreported : reported ⊆ reported') :
    Known reported' byHash :=
  ⟨h.distinct, h.keys, fun e he outcome hstatus => hreported (h.told e he outcome hstatus)⟩

theorem Tracker.Inv.mono (h : t.Inv fresh) (hfresh : fresh' → fresh) : t.Inv fresh' :=
  ⟨h.rows, h.written, h.known, fun hf => h.settled (hfresh hf)⟩

/-- Saying something changes no row. -/
theorem Tracker.Inv.more (h : t.Inv fresh) (hreported : t.reported ⊆ reported) :
    ({ t with reported := reported } : Tracker).Inv fresh where
  rows := h.rows.mono fun _ => .mono hreported
  written st hst := (h.written st hst).mono fun _ => .mono hreported
  known := h.known.mono hreported
  settled := h.settled

theorem Known.tells (h : Known reported byHash) : ∀ e ∈ byHash, Tells (Honest reported) e.2 := by
  intro e he outcome hstatus row hhash hshown
  apply honest_of_mem hhash
  rw [h.keys e he]
  have htold := h.told e he outcome hstatus
  rwa [TxHistoryEntry.status, hshown]

theorem Known.filter (h : Known reported byHash) (p : Str × PendingTxEntry → Bool) :
    Known reported (byHash.filter p) where
  distinct := h.distinct.sublist (List.filter_sublist.map _)
  keys e he := h.keys e (List.mem_of_mem_filter he)
  told e he := h.told e (List.mem_of_mem_filter he)

/-- **The subscriber keeps the history in step.** -/
theorem Tracker.Inv.setByHash (h : t.Inv fresh) (hknown : Known t.reported byHash) (now : ℕ) :
    (t.setByHash byHash now).Inv fresh := by
  rcases htracking : t.tracking with - | -
  · have hset : t.setByHash byHash now = { t with byHash := byHash } := by simp [Tracker.setByHash, htracking]
    rw [hset]
    exact ⟨h.rows, h.written, hknown, fun _ hon => absurd (htracking.symm.trans hon) (by decide)⟩
  · unfold Tracker.setByHash
    rw [htracking]
    dsimp only
    have htells := (hknown.filter fun e => (t.byHash.find e.2.txHash).map (·.status) ≠ some e.2.status).tells
    refine ⟨h.rows.syncs htells now, h.written, hknown, ?_⟩
    intro hfresh _ e he hstatus
    by_cases hchanged : (t.byHash.find e.2.txHash).map (·.status) ≠ some e.2.status
    · rw [← hknown.keys e he]
      exact settled_syncs h.rows htells now (List.mem_filter.mpr ⟨he, by simpa using hchanged⟩) hstatus
    · -- it was settled before
      obtain ⟨prev, hprev, hsame⟩ := Option.map_eq_some_iff.mp (not_not.mp hchanged)
      rw [hknown.keys e he] at hprev
      refine (h.settled hfresh htracking _ (Dict.mem_of_find hprev) ?_).syncs (fun e' _ => tells_settled e'.2 _) now
      rwa [hsame]

theorem Tracker.Inv.startTracking (h : t.Inv fresh) (now : ℕ) : (t.startTracking now).Inv fresh where
  rows := h.rows.syncs h.known.tells now
  written := h.written
  known := h.known
  settled := by
    intro _ _ e he hstatus
    rw [← h.known.keys e he]
    exact settled_syncs h.rows h.known.tells now he hstatus

theorem Known.setStatus (h : Known reported byHash) {outcome : TxOutcome}
    (htold : (txHash, outcome.shown) ∈ reported) (message : Option Str) (now : ℕ) :
    Known reported (byHash.setStatus txHash (.terminal outcome) message now) := by
  unfold PendingTxs.setStatus
  split
  · exact h
  next prev hprev =>
    have hmem := Dict.mem_of_find hprev
    refine ⟨Dict.distinct_set h.distinct _ _, ?_, ?_⟩
    · intro e he
      rcases Dict.mem_set he with rfl | ⟨he, -⟩
      · exact h.keys (txHash, prev) hmem
      · exact h.keys e he
    · intro e he outcome' hstatus
      rcases Dict.mem_set he with rfl | ⟨he, -⟩
      · cases hstatus
        exact htold
      · exact h.told e he outcome' hstatus

theorem Tracker.Inv.resolvePendingTx (h : t.Inv fresh) (outcome : TxOutcome) (message : Option Str)
    (now : ℕ) : (t.resolvePendingTx txHash outcome message now).Inv fresh := by
  have hmore : (t.report txHash outcome.shown).Inv fresh := h.more (List.subset_append_left _ _)
  exact hmore.setByHash (hmore.known.setStatus (by simp [Tracker.report]) message now) now

theorem Tracker.Inv.tick (h : t.Inv fresh) (now : ℕ) : (t.tick now).Inv fresh := by
  have hpruned : (t.setByHash (t.byHash.prune now) now).Inv fresh := h.setByHash (h.known.filter _) now
  exact ⟨hpruned.rows, hpruned.written, hpruned.known, hpruned.settled⟩

/-- A row that a page pushes, of a transaction none of the settled ones is. -/
theorem Tracker.Inv.push (h : t.Inv fresh) {entry : TxHistoryPushInput} {now : ℕ}
    (hhonest : Honest t.reported { entry with timestamp := now })
    (hsettled : fresh → ∀ e ∈ t.byHash, e.2.status ≠ .pending →
      Settled e.1 { entry with timestamp := now }) :
    ({ t with history := t.history.push entry now } : Tracker).Inv fresh where
  rows := h.rows.push hhonest
  written := h.written
  known := h.known
  settled hfresh hon e he hstatus := (h.settled hfresh hon e he hstatus).push (hsettled hfresh e he hstatus)

theorem Tracker.Inv.pushLanded (h : t.Inv fresh) (entry : TxHistoryPushInput) (txHash : Str) (now : ℕ) :
    (t.pushLanded entry txHash now).Inv fresh := by
  have hmore : (t.report txHash .confirmed).Inv fresh := h.more (List.subset_append_left _ _)
  apply hmore.push
  · exact honest_of_mem rfl (by simp [Tracker.report, TxHistoryEntry.status])
  · intro _ e _ _ _ hpending
    cases hpending

/-- What is submitted is added as pending, unless it is there. -/
theorem Known.add (h : Known reported byHash) {entry : PendingTxEntry} (hstatus : entry.status = .pending) :
    Known reported (Dict.set byHash entry.txHash entry) := by
  refine ⟨Dict.distinct_set h.distinct _ _, ?_, ?_⟩
  · intro e he
    rcases Dict.mem_set he with rfl | ⟨hold, -⟩
    · rfl
    · exact h.keys e hold
  · intro e he outcome houtcome
    rcases Dict.mem_set he with rfl | ⟨hold, -⟩
    · cases hstatus.symm.trans houtcome
    · exact h.told e hold outcome houtcome

/-- **A submission** of what is not settled shows a row that may be pending. -/
theorem Tracker.Inv.markPendingTx (h : t.Inv fresh) (entry : PendingTxEntry) (now : ℕ) :
    (t.markPendingTx entry now).Inv
      (fresh ∧ ∀ known ∈ t.byHash.find entry.txHash, known.status = .pending) := by
  have hmore : (t.report entry.txHash .pending).Inv fresh := h.more (List.subset_append_left _ _)
  -- after the submission, the transaction is pending
  have hadded : ∃ t' : Tracker, t'.Inv fresh ∧ t'.reported = (t.report entry.txHash .pending).reported ∧
      (if ((t.report entry.txHash .pending).byHash.find entry.txHash).isSome
        then t.report entry.txHash .pending
        else (t.report entry.txHash .pending).setByHash (Dict.set (t.report entry.txHash .pending).byHash
          entry.txHash { entry with status := .pending, submittedAt := now }) now) = t' ∧
      ((∀ known ∈ t.byHash.find entry.txHash, known.status = .pending) →
        ∀ e ∈ t'.byHash, e.1 = entry.txHash → e.2.status = .pending) := by
    split
    next hthere =>
      refine ⟨_, hmore, rfl, rfl, ?_⟩
      intro hpending e he hkey
      apply hpending
      rw [← hkey]
      exact Dict.find_of_mem h.known.distinct he
    next hgone =>
      have hpending :
          ({ entry with status := .pending, submittedAt := now } : PendingTxEntry).status = .pending := rfl
      have hpendingEntry := hmore.known.add hpending
      refine ⟨_, hmore.setByHash hpendingEntry now, rfl, rfl, ?_⟩
      intro _ e he hkey
      rcases Dict.mem_set he with rfl | ⟨-, hne⟩
      · rfl
      · exact absurd hkey hne
  obtain ⟨t', hinv, hreported, heq, hpending⟩ := hadded
  unfold Tracker.markPendingTx
  dsimp only
  rw [heq]
  split
  next row hrow =>
    apply (hinv.mono And.left).push
    · rw [hreported]
      exact honest_of_mem rfl (by simp [Tracker.report, TxHistoryEntry.status])
    · intro hfresh e he hstatus hhash
      exact absurd (hpending hfresh.2 e he (Option.some.inj hhash).symm) hstatus
  next hnone => exact hinv.mono And.left

theorem Tracker.Inv.pollOne (h : t.Inv fresh) (entry : PendingTxEntry) (result : ChainStatusResult)
    (now : ℕ) : (t.pollOne entry result now).Inv fresh := by
  unfold Tracker.pollOne
  split
  · exact h.resolvePendingTx _ _ now
  · exact h.resolvePendingTx _ _ now
  · split
    · exact h.resolvePendingTx _ _ now
    · exact h
  · exact h

theorem landed_ne_pending {status : ChainHistoryStatus} (h : status ≠ .pending) :
    status.shown ≠ .pending := by
  cases status with
  | confirmed => decide
  | failed => decide
  | pending => exact absurd rfl h

theorem merges_honest {items : List HorizonItem}
    (hitems : ∀ item ∈ items, (item.txHash, item.status.shown) ∈ reported) :
    Merges (Honest reported) (items.map (·.toChainHistoryItem)) where
  seed row hrow := hrow
  known chainItem hmem row _ hhash stealthAddress := by
    obtain ⟨item, hitem, rfl⟩ := List.mem_map.mp hmem
    exact honest_of_mem hhash (hitems item hitem)
  added chainItem hmem := by
    obtain ⟨item, hitem, rfl⟩ := List.mem_map.mp hmem
    exact honest_of_mem rfl (hitems item hitem)

theorem merges_settled (items : List HorizonItem) (hash : Str) :
    Merges (Settled hash) (items.map (·.toChainHistoryItem)) where
  seed row hrow hhash hpending := by
    rcases hstatus : row.chainStatus with - | status
    · simp [TxHistoryEntry.status, hstatus] at hpending
    · rw [TxHistoryEntry.status, hstatus] at hpending
      exact hrow hhash (hstatus.trans hpending)
  known chainItem hmem row _ _ stealthAddress _ hpending := by
    obtain ⟨item, -, rfl⟩ := List.mem_map.mp hmem
    exact landed_ne_pending item.landed (Option.some.inj hpending)
  added chainItem hmem _ hpending := by
    obtain ⟨item, -, rfl⟩ := List.mem_map.mp hmem
    exact landed_ne_pending item.landed (Option.some.inj hpending)

theorem Tracker.Inv.reconcile (h : t.Inv fresh) (cluster : Str) (items : List HorizonItem) :
    (t.step (.reconcile cluster items)).Inv fresh := by
  have hmore := h.more (List.subset_append_left t.reported
    (items.map fun item => (item.txHash, item.status.shown)))
  have hitems : ∀ item ∈ items, (item.txHash, item.status.shown) ∈
      t.reported ++ items.map fun item => (item.txHash, item.status.shown) := by
    intro item hitem
    exact List.mem_append_right _ (List.mem_map_of_mem hitem)
  refine ⟨hmore.rows.reconcile (merges_honest hitems) cluster, hmore.written, hmore.known, ?_⟩
  intro hfresh hon e he hstatus
  exact (h.settled hfresh hon e he hstatus).reconcile (merges_settled items e.1) cluster

/-- **One event.** -/
theorem Tracker.Inv.step (h : t.Inv fresh) (event : TrackEvent) :
    (t.step event).Inv (fresh ∧ TrackStep.Fresh ⟨t, event, ()⟩) := by
  suffices hother : event.submits = none → (t.step event).Inv fresh by
    cases event with
    | mark entry now =>
        refine (h.markPendingTx entry now).mono ?_
        rintro ⟨hfresh, hstep⟩
        exact ⟨hfresh, hstep entry.txHash rfl⟩
    | _ => exact (hother rfl).mono And.left
  intro hnone
  cases event with
  | mark entry now => cases hnone
  | setActiveAccount account => exact ⟨h.rows, h.written, h.known, h.settled⟩
  | push entry txHash now => exact h.pushLanded entry txHash now
  | resolve txHash outcome message now => exact h.resolvePendingTx outcome message now
  | start now => exact h.startTracking now
  | stop => exact ⟨h.rows, h.written, h.known, fun _ hon => absurd hon Bool.false_ne_true⟩
  | tick now => exact h.tick now
  | reply poll result now =>
      unfold Tracker.step
      dsimp only
      split
      next entry hentry =>
        have hrest : ({ t with polls := t.polls.eraseIdx poll } : Tracker).Inv fresh :=
          ⟨h.rows, h.written, h.known, h.settled⟩
        exact hrest.pollOne entry result now
      next hgone => exact h
  | reconcile cluster items => exact h.reconcile cluster items
  | clearForCluster cluster =>
      exact ⟨h.rows.set _ rows_nil, h.written, h.known,
        fun hfresh hon e he hstatus => (h.settled hfresh hon e he hstatus).set _ rows_nil⟩
  | clear allAccounts =>
      have hkept : ∀ e ∈ (if allAccounts then [] else t.byHash), e ∈ t.byHash := by
        cases allAccounts <;> simp
      refine ⟨h.rows.clear allAccounts, h.written, ?_,
        fun hfresh hon e he hstatus => (h.settled hfresh hon e (hkept e he) hstatus).clear allAccounts⟩
      exact ⟨(by cases allAccounts; exacts [h.known.distinct, List.nodup_nil]),
        fun e he => h.known.keys e (hkept e he), fun e he => h.known.told e (hkept e he)⟩
  | save => exact ⟨h.rows, List.forall_mem_cons.mpr ⟨h.rows, h.written⟩, h.known, h.settled⟩
  | reload version =>
      refine ⟨?_, h.written, h.known, fun _ hon => absurd hon Bool.false_ne_true⟩
      show AllRows _ ((t.written[version]?).getD {})
      rcases hversion : t.written[version]? with - | st
      · exact List.forall_mem_nil _
      · exact h.written st (List.mem_of_getElem? hversion)

end Inv

theorem inv_run (events : List TrackEvent) : (trackMachine.final {} events).Inv
    (∀ e ∈ trackMachine.trace {} events, TrackStep.Fresh e) := by
  refine trackMachine.invariant (I := fun trace t => t.Inv (∀ e ∈ trace, TrackStep.Fresh e)) ?_ ?_ events
  · exact ⟨List.forall_mem_nil _, List.forall_mem_nil _,
      ⟨List.nodup_nil, List.forall_mem_nil _, List.forall_mem_nil _⟩, fun _ _ => List.forall_mem_nil _⟩
  · intro trace t event h
    refine (h.step event).mono fun hfresh => ⟨?_, ?_⟩
    · exact fun e he => hfresh e (List.mem_append_left _ he)
    · exact hfresh _ (List.mem_append_right _ (List.mem_singleton.mpr rfl))

/-- What the user may rely on. -/
structure Tracker.Consistent (fresh : Prop) (t : Tracker) : Prop where
  -- no list has two rows for one transaction
  oneRow : ∀ e ∈ t.history.byChain, (e.2.filterMap fun row => row.hash).Nodup
  bounded : ∀ e ∈ t.history.byChain, e.2.length ≤ MAX_ITEMS_PER_CLUSTER
  -- a row shows only what was said of its transaction
  honest : ∀ e ∈ t.history.byChain, ∀ row ∈ e.2, ∀ hash,
    row.hash = some hash → (hash, row.status) ∈ t.reported
  -- while the page follows its transactions, none that is settled shows as pending
  settled : fresh → t.tracking → ∀ tx ∈ t.byHash, tx.2.status ≠ .pending →
    ∀ e ∈ t.history.byChain, ∀ row ∈ e.2, row.txHash = some tx.1 → row.status ≠ .pending

/-- **The history through reloads, late answers and merges.** In every run; but for the last part, no
transaction may be submitted while it is known to be settled. -/
theorem history_sound (events : List TrackEvent) : (trackMachine.final {} events).Consistent
    (∀ e ∈ trackMachine.trace {} events, TrackStep.Fresh e) := by
  have hinv := inv_run events
  refine ⟨fun e he => (hinv.rows e he).oneRow, fun e he => (hinv.rows e he).bounded,
    fun e he => (hinv.rows e he).each, ?_⟩
  intro hfresh hon tx htx hstatus e he row hrow hhash hpending
  have hsettled := (hinv.settled hfresh hon tx htx hstatus e he).each row hrow hhash
  rcases hchain : row.chainStatus with - | status
  · simp [TxHistoryEntry.status, hchain] at hpending
  · rw [TxHistoryEntry.status, hchain] at hpending
    exact hsettled (hchain.trans (congrArg some hpending))

instance (e : TrackStep) : Decidable e.Fresh :=
  inferInstanceAs (Decidable (∀ txHash ∈ e.input.submits, ∀ known ∈ e.pre.byHash.find txHash, _))

/-- A payment that lands, and a page that comes back with the history from before it did. -/
def lostUpdate : List TrackEvent :=
  let row : TxHistoryPushInput :=
    { cluster := "testnet".toList, kind := .sent, counterparty := "GA".toList, amountStroops := "5".toList,
      tokenSymbol := "XLM".toList, amount := "0.0000005".toList }
  let entry : PendingTxEntry :=
    { txHash := "aa".toList, cluster := row.cluster, kind := "send".toList, submittedAt := 0,
      history := some row }
  [.setActiveAccount (some "GB".toList), .start 0, .mark entry 1, .save,
    .resolve entry.txHash .confirmed none 2, .reload 0, .start 3]

theorem history_sound_lostUpdate :
    (trackMachine.final {} lostUpdate).Consistent True ∧
    (trackMachine.final {} lostUpdate).history.byChain.map (fun e => e.2.map (·.status)) = [[.confirmed]] := by
  have hfresh : ∀ e ∈ trackMachine.trace {} lostUpdate, TrackStep.Fresh e := by decide
  obtain ⟨honeRow, hbounded, hhonest, hsettled⟩ := history_sound lostUpdate
  exact ⟨⟨honeRow, hbounded, hhonest, fun _ => hsettled hfresh⟩, by decide⟩

end OpaqueStellar.Web.TxHistory
