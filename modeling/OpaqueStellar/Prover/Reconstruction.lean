import OpaqueStellar.Asp.StateTree
import OpaqueStellar.Prover.Pool

/-! # What a reconstruction leaves out

`reconstructState` reports `complete` unless a stream stopped at its cap of pages. There are three other ways to
miss an event: a read without a start ledger begins 16,000 ledgers back, one that begins before the oldest ledger of
the node is moved there, and an event can be emitted after the pages of its topic were read. `readPool` is
`reconstructState` with the part of the log that each stream covered; the leaves are right exactly when the two
parts hold every event up to the last one that was read. -/

namespace OpaqueStellar.Prover

open OpaqueStellar.Lib OpaqueStellar.Soroban OpaqueStellar.Asp

/-! ## The parts of the log that the streams cover -/

section Windows

variable {F : Type} (S : Setting F)

/-- `drain`, with the position that the last page got to. -/
def drainTo (topic : Topic) (answers : ℕ → Answer) :
    ℕ → ℕ → Page → Option ℕ → Rpc ((List Emitted × Bool) × ℕ)
  | remaining, n, page, prevCursor =>
      if page.cursor = none ∨ page.cursor = prevCursor then pure ((page.events, true), page.stop)
      else
        match remaining with
        | 0 => pure ((page.events, false), page.stop)
        | remaining + 1 => do
            let next ← getEventsAfter S topic (answers (n + 1)) page.stop
            let ((events, complete), stop) ← drainTo topic answers remaining (n + 1) next page.cursor
            pure ((page.events ++ events, complete), stop)

/-- `paginateContractEvents`, with the part of the log that its pages cover. -/
def paginateTo (topic : Topic) (scan : Scan) (startLedger maxPages : ℕ) :
    Rpc ((List Emitted × Bool) × Window) := do
  let latest ← latestLedger S scan.latest
  let start := if 0 < startLedger then startLedger else max 1 (latest - EVENT_LOOKBACK_LEDGERS)
  let (ledger, page) ← firstPage S topic scan start
  let (r, stop) ← drainTo S topic scan.next (max 1 maxPages - 1) 0 page none
  pure (r, ⟨ledger, stop⟩)

/-- `readTopic`, likewise. -/
def readTopicTo (topic : Topic) (scan : Scan) (opts : ReconstructStateOptions) :
    Session Chain ReadError ((List Emitted × Bool) × Window) := fun c =>
  match paginateTo S topic scan opts.startLedger opts.maxPages c with
  | (.error e, c) => (.error (.rpc e), c)
  | (.ok ((events, complete), window), c) =>
      if opts.throwOnTruncation = true ∧ complete = false then
        (.error (.truncated topic (max 1 opts.maxPages)), c)
      else (.ok ((events, complete), window), c)

/-- What the two streams returned and covered. -/
structure PoolRead where
  deposits : List Emitted × Window
  withdraws : List Emitted × Window
  complete : Bool

def readPool (deposits withdraws : Scan) (opts : ReconstructStateOptions) : Session Chain ReadError PoolRead := do
  let ((depositEvents, complete), depositWindow) ← readTopicTo S .Deposit deposits opts
  let ((withdrawEvents, complete'), withdrawWindow) ← readTopicTo S .Withdraw withdraws opts
  pure ⟨(depositEvents, depositWindow), (withdrawEvents, withdrawWindow), complete && complete'⟩

variable {S} {topic : Topic} {c c' : Chain}

theorem drain_eq_ok {answers : ℕ → Answer} {remaining n : ℕ} {page : Page} {prevCursor : Option ℕ}
    {r : List Emitted × Bool} : drain S topic answers remaining n page prevCursor c = (.ok r, c') ↔
      ∃ stop, drainTo S topic answers remaining n page prevCursor c = (.ok (r, stop), c') := by
  induction remaining generalizing n page prevCursor c r with
  | zero =>
    unfold drain drainTo
    split <;> simp [Session.pure_eq_ok]
  | succ remaining ih =>
    unfold drain drainTo
    split
    · simp [Session.pure_eq_ok]
    · simp [Session.bind_eq_ok, Session.pure_eq_ok, ih]
      grind

theorem paginateContractEvents_eq_ok {scan : Scan} {startLedger maxPages : ℕ} {r : List Emitted × Bool} :
    paginateContractEvents S topic scan startLedger maxPages c = (.ok r, c') ↔
      ∃ window, paginateTo S topic scan startLedger maxPages c = (.ok (r, window), c') := by
  simp only [paginateContractEvents, paginateTo, Session.bind_eq_ok, Session.pure_eq_ok, drain_eq_ok]
  constructor
  · rintro ⟨latest, c₁, hlatest, ⟨ledger, page⟩, c₂, hpage, stop, hdrain⟩
    exact ⟨_, latest, c₁, hlatest, (ledger, page), c₂, hpage, (r, stop), c', hdrain, rfl, rfl⟩
  · rintro ⟨window, latest, c₁, hlatest, ⟨ledger, page⟩, c₂, hpage, ⟨r', stop⟩, c₃, hdrain, heq, rfl⟩
    obtain ⟨rfl, -⟩ := Prod.mk.inj heq
    exact ⟨latest, c₁, hlatest, (ledger, page), c₂, hpage, stop, hdrain⟩

theorem readTopic_eq_ok {scan : Scan} {opts : ReconstructStateOptions} {r : List Emitted × Bool} :
    readTopic S topic scan opts c = (.ok r, c') ↔
      ∃ window, readTopicTo S topic scan opts c = (.ok (r, window), c') := by
  unfold readTopic readTopicTo
  cases hread : paginateTo S topic scan opts.startLedger opts.maxPages c with
  | mk result c₁ =>
    cases result with
    | ok read =>
      obtain ⟨⟨events, complete⟩, window⟩ := read
      rw [paginateContractEvents_eq_ok.mpr ⟨window, hread⟩]
      dsimp only
      split <;> simp
    | error e =>
      have hnone : ∀ r' c₂, paginateContractEvents S topic scan opts.startLedger opts.maxPages c ≠ (.ok r', c₂) := by
        intro r' c₂ hok
        obtain ⟨window, hto⟩ := paginateContractEvents_eq_ok.mp hok
        rw [hread] at hto
        cases hto
      cases hpages : paginateContractEvents S topic scan opts.startLedger opts.maxPages c with
      | mk result' c₂ =>
        cases result' with
        | ok r' => exact absurd hpages (hnone r' c₂)
        | error e' => simp

/-- **A reconstruction that returns**: the two streams were read, one after the other. -/
theorem reconstructState_eq_ok {deposits withdraws : Scan} {opts : ReconstructStateOptions}
    {r : PoolStateReconstruction} : reconstructState S deposits withdraws opts c = (.ok r, c') ↔
      ∃ read, readPool S deposits withdraws opts c = (.ok read, c') ∧
        r = { reconstruct read.deposits.1 read.withdraws.1 with complete := read.complete } := by
  simp only [reconstructState, readPool, Session.bind_eq_ok, Session.pure_eq_ok, readTopic_eq_ok]
  constructor
  · rintro ⟨⟨depositEvents, complete⟩, c₁, ⟨depositWindow, hdeposits⟩, ⟨withdrawEvents, complete'⟩, c₂,
      ⟨withdrawWindow, hwithdraws⟩, rfl, rfl⟩
    exact ⟨_, ⟨_, c₁, hdeposits, _, c₂, hwithdraws, rfl, rfl⟩, rfl⟩
  · rintro ⟨read, ⟨⟨⟨depositEvents, complete⟩, depositWindow⟩, c₁, hdeposits,
      ⟨⟨withdrawEvents, complete'⟩, withdrawWindow⟩, c₂, hwithdraws, rfl, rfl⟩, rfl⟩
    exact ⟨_, c₁, ⟨depositWindow, hdeposits⟩, _, c₂, ⟨withdrawWindow, hwithdraws⟩, rfl, rfl⟩

/-! ## What they return -/

theorem keeps_drainTo {answers : ℕ → Answer} (remaining n : ℕ) (page : Page) (prevCursor : Option ℕ) :
    Session.Keeps Chain.Extends (drainTo S topic answers remaining n page prevCursor) := by
  induction remaining generalizing n page prevCursor with
  | zero =>
    unfold drainTo
    split <;> exact Session.keeps_pure _
  | succ remaining ih =>
    unfold drainTo
    split
    · exact Session.keeps_pure _
    · exact (keeps_call _ _).bind fun next => (ih _ next _).bind fun _ => Session.keeps_pure _

/-- Each page starts where the one before it ended. -/
theorem between_drainTo {answers : ℕ → Answer} {remaining n start stop : ℕ} {page : Page} {prevCursor : Option ℕ}
    {r : List Emitted × Bool} (hpage : Between c topic start page.stop page.events)
    (h : drainTo S topic answers remaining n page prevCursor c = (.ok (r, stop), c')) :
    Between c' topic start stop r.1 := by
  induction remaining generalizing n page prevCursor c r start stop with
  | zero =>
    unfold drainTo at h
    split at h <;>
    · obtain ⟨heq, rfl⟩ := Session.pure_eq_ok.mp h
      cases heq
      exact hpage
  | succ remaining ih =>
    unfold drainTo at h
    split at h
    · obtain ⟨heq, rfl⟩ := Session.pure_eq_ok.mp h
      cases heq
      exact hpage
    · obtain ⟨next, c₁, hnext, h⟩ := Session.bind_eq_ok.mp h
      obtain ⟨⟨⟨events, complete⟩, stop'⟩, c₂, hrest, h⟩ := Session.bind_eq_ok.mp h
      obtain ⟨heq, rfl⟩ := Session.pure_eq_ok.mp h
      cases heq
      have hext : c.Extends c₁ := (keeps_call _ _).of_eq hnext
      have hext' : c₁.Extends c₂ := (keeps_drainTo _ _ _ _).of_eq hrest
      obtain ⟨-, -, hread⟩ := call_eq_ok.mp hnext
      obtain rfl := Except.ok.inj hread
      have hlater := ih (between_pageAt (le_trans hpage.stop_le hext.length)) hrest
      exact ((hpage.later hext).later hext').append hlater

theorem firstPage_spec {scan : Scan} {startLedger ledger : ℕ} {page : Page}
    (h : firstPage S topic scan startLedger c = (.ok (ledger, page), c')) :
    ledger ≤ c'.ledger ∧ Between c' topic (c'.before ledger) page.stop page.events := by
  unfold firstPage Session.tryCatch at h
  split at h
  · next hfirst =>
    cases h
    exact (getEvents_spec hfirst).2
  · next e c₁ hfirst =>
    dsimp only at h
    split at h
    · split at h
      · exact (getEvents_spec h).2
      · cases h
    · cases h

theorem keeps_firstPage (scan : Scan) (startLedger : ℕ) :
    Session.Keeps Chain.Extends (firstPage S topic scan startLedger) := by
  refine (keeps_call _ _).tryCatch ?_
  intro e
  split
  · split
    · exact keeps_call _ _
    · exact Session.keeps_throw _
  · exact Session.keeps_throw _

/-- **One topic**: the events that are returned are those in the part of the log. -/
theorem covers_readTopicTo {scan : Scan} {opts : ReconstructStateOptions} {events : List Emitted} {complete : Bool}
    {window : Window} (h : readTopicTo S topic scan opts c = (.ok ((events, complete), window), c')) :
    c.Extends c' ∧ Covers c' topic (events, window) := by
  have hpages : paginateTo S topic scan opts.startLedger opts.maxPages c = (.ok ((events, complete), window), c') := by
    unfold readTopicTo at h
    split at h
    · cases h
    · next hpages =>
      split at h
      · cases h
      · cases h
        exact hpages
  obtain ⟨latest, c₁, hlatest, hpages⟩ := Session.bind_eq_ok.mp hpages
  obtain ⟨⟨ledger, page⟩, c₂, hfirst, hpages⟩ := Session.bind_eq_ok.mp hpages
  obtain ⟨⟨r, stop⟩, c₃, hdrain, hpages⟩ := Session.bind_eq_ok.mp hpages
  obtain ⟨heq, rfl⟩ := Session.pure_eq_ok.mp hpages
  cases heq
  have hext₁ : c.Extends c₁ := (keeps_call _ _).of_eq hlatest
  have hext₂ : c₁.Extends c₂ := (keeps_firstPage _ _).of_eq hfirst
  have hext₃ : c₂.Extends c₃ := (keeps_drainTo _ _ _ _).of_eq hdrain
  obtain ⟨hledger, hstart⟩ := firstPage_spec hfirst
  exact ⟨hext₁.trans (hext₂.trans hext₃), covers_of_between hledger hext₃ (between_drainTo hstart hdrain)⟩

theorem readPool_spec {deposits withdraws : Scan} {opts : ReconstructStateOptions} {read : PoolRead}
    (h : readPool S deposits withdraws opts c = (.ok read, c')) :
    c.Extends c' ∧ Covers c' .Deposit read.deposits ∧ Covers c' .Withdraw read.withdraws := by
  obtain ⟨⟨⟨depositEvents, complete⟩, depositWindow⟩, c₁, hdeposits, h⟩ := Session.bind_eq_ok.mp h
  obtain ⟨⟨⟨withdrawEvents, complete'⟩, withdrawWindow⟩, c₂, hwithdraws, h⟩ := Session.bind_eq_ok.mp h
  obtain ⟨rfl, rfl⟩ := Session.pure_eq_ok.mp h
  obtain ⟨hext, hcovers⟩ := covers_readTopicTo hdeposits
  obtain ⟨hext', hcovers'⟩ := covers_readTopicTo hwithdraws
  exact ⟨hext.trans hext', hcovers.later hext', hcovers'⟩

end Windows

/-! ## When a reconstruction is right -/

theorem lt_foldl_max {updates : List (ℕ × BytesN 32)} {m i : ℕ} :
    i < updates.foldl (fun m u => max m (u.1 + 1)) m ↔ i < m ∨ ∃ u ∈ updates, i ≤ u.1 := by
  induction updates generalizing m with
  | nil => simp
  | cons u updates ih =>
    rw [List.foldl_cons, ih]
    simp only [List.mem_cons, exists_eq_or_imp, lt_max_iff, Nat.lt_succ_iff, or_assoc]

theorem isSome_byIndex {updates : List (ℕ × BytesN 32)} {i : ℕ} :
    (byIndex updates i).isSome ↔ ∃ u ∈ updates, u.1 = i := by
  simp [byIndex]

theorem mem_of_byIndex {updates : List (ℕ × BytesN 32)} {i : ℕ} {x : BytesN 32} (h : byIndex updates i = some x) :
    (i, x) ∈ updates := by
  obtain ⟨u, hu, rfl⟩ := Option.map_eq_some_iff.mp h
  have hindex : u.1 = i := by simpa using List.find?_some hu
  have hmem : u ∈ updates := List.mem_reverse.mp (List.mem_of_find?_eq_some hu)
  rwa [← hindex]

/-- There is a deposit at this position of the log. -/
def isDepositAt (c : Chain) (i : ℕ) : Bool := c.log[i]?.any fun e => e.topic = some .Deposit

/-- The leaves of the events that were read. -/
def PoolRead.updates (read : PoolRead) : List (ℕ × BytesN 32) := leafUpdates (read.deposits.1 ++ read.withdraws.1)

/-- As the provider's reads of both streams; a reconstruction has no cursor to go on from. -/
def PoolRead.covered (read : PoolRead) : StateRead := ⟨read.deposits, read.withdraws, 0⟩

/-- What a read that started at `c` owes its caller: each leaf that the pool had is where it belongs, no index was
given the padding value, and the indices of the deposits are in order. -/
structure StateReconstructed (c c' : Chain) (read : PoolRead) (r : PoolStateReconstruction) : Prop where
  leaves : ∀ p < c.log.length, r.stateLeaves[p]? = c.leaves[p]?
  unpadded : ∀ i < r.stateLeaves.length, (byIndex read.updates i).isSome
  deposits : r.depositIndices = (List.range r.stateLeaves.length).filter (isDepositAt c')

/-- An event that the log had before, or that comes before one that was read, is in the part of the log that its
topic's pages cover. -/
def ReadsUpTo (c c' : Chain) (read : PoolRead) : Prop :=
  ∀ p e, c'.log[p]? = some e →
    (p < c.log.length ∨ ∃ q f, p ≤ q ∧ c'.log[q]? = some f ∧ read.covered.Reads q f) → read.covered.Reads p e

section Right

variable {F : Type} {S : Setting F} {deposits withdraws : Scan} {opts : ReconstructStateOptions} {c c' : Chain}
  {read : PoolRead}

theorem mem_updates (hread : readPool S deposits withdraws opts c = (.ok read, c')) {u : ℕ × BytesN 32} :
    u ∈ read.updates ↔ ∃ e, c'.log[u.1]? = some e ∧ e.leaf = some (u.2, u.1) ∧ read.covered.Reads u.1 e := by
  obtain ⟨-, hdeposits, hwithdraws⟩ := readPool_spec hread
  exact @mem_leafUpdates c' read.covered hdeposits hwithdraws u

/-- An index has a leaf exactly when the event there was read. -/
theorem isSome_byIndex_updates (hread : readPool S deposits withdraws opts c = (.ok read, c')) {i : ℕ} :
    (byIndex read.updates i).isSome ↔ ∃ e, c'.log[i]? = some e ∧ read.covered.Reads i e := by
  rw [isSome_byIndex]
  constructor
  · rintro ⟨u, hu, rfl⟩
    obtain ⟨e, he, -, hreads⟩ := (mem_updates hread).mp hu
    exact ⟨e, he, hreads⟩
  · rintro ⟨e, he, hreads⟩
    obtain ⟨x, hleaf⟩ := c'.leaf_of_getElem? he
    exact ⟨(i, x), (mem_updates hread).mpr ⟨e, he, hleaf, hreads⟩, rfl⟩

/-- There are leaves up to the last event that was read. -/
theorem lt_length_stateLeaves (hread : readPool S deposits withdraws opts c = (.ok read, c')) {i : ℕ} :
    i < (reconstruct read.deposits.1 read.withdraws.1).stateLeaves.length ↔
      ∃ q f, i ≤ q ∧ c'.log[q]? = some f ∧ read.covered.Reads q f := by
  have hlength : (reconstruct read.deposits.1 read.withdraws.1).stateLeaves.length =
      read.updates.foldl (fun m u => max m (u.1 + 1)) 0 := by
    simp [reconstruct, PoolRead.updates]
  rw [hlength, lt_foldl_max]
  constructor
  · rintro (hzero | ⟨u, hu, hle⟩)
    · omega
    · obtain ⟨f, hf, -, hreads⟩ := (mem_updates hread).mp hu
      exact ⟨u.1, f, hle, hf, hreads⟩
  · rintro ⟨q, f, hle, hf, hreads⟩
    obtain ⟨x, hleaf⟩ := c'.leaf_of_getElem? hf
    exact .inr ⟨(q, x), (mem_updates hread).mpr ⟨f, hf, hleaf, hreads⟩, hle⟩

theorem getElem?_stateLeaves (hread : readPool S deposits withdraws opts c = (.ok read, c')) {p : ℕ} {e : Emitted}
    (he : c'.log[p]? = some e) (hreads : read.covered.Reads p e) :
    (reconstruct read.deposits.1 read.withdraws.1).stateLeaves[p]? = c'.leaves[p]? := by
  have hlt := (lt_length_stateLeaves hread).mpr ⟨p, e, le_rfl, he, hreads⟩
  obtain ⟨x, hx⟩ := Option.isSome_iff_exists.mp ((isSome_byIndex_updates hread).mpr ⟨e, he, hreads⟩)
  obtain ⟨e', he', hleaf, -⟩ := (mem_updates hread).mp (mem_of_byIndex hx)
  rw [(c'.getElem?_leaves he' hleaf).2, List.getElem?_eq_getElem hlt]
  simp only [reconstruct, List.getElem_map, List.getElem_range]
  show some ((byIndex read.updates p).getD _) = _
  rw [hx]
  rfl

theorem mem_depositIndices (hread : readPool S deposits withdraws opts c = (.ok read, c')) {i : ℕ} :
    i ∈ (reconstruct read.deposits.1 read.withdraws.1).depositIndices ↔
      ∃ e, c'.log[i]? = some e ∧ e.topic = some .Deposit ∧ read.covered.Reads i e := by
  obtain ⟨-, hdeposits, -⟩ := readPool_spec hread
  simp only [reconstruct, sortIndices, List.mem_insertionSort, List.mem_map, List.mem_filterMap]
  constructor
  · rintro ⟨d, ⟨e, he, hd⟩, rfl⟩
    obtain ⟨p, hp, hstart, hstop, htopic⟩ := (hdeposits.mem_iff e).mp he
    obtain ⟨hleaf, -, -⟩ := leaf_of_deposit hd
    obtain ⟨rfl, -⟩ := c'.getElem?_leaves hp hleaf
    exact ⟨e, hp, htopic, .inl ⟨htopic, hstart, hstop⟩⟩
  · rintro ⟨e, he, htopic, ⟨-, hstart, hstop⟩ | ⟨hwithdraw, -⟩⟩
    · obtain ⟨d, hd⟩ : ∃ d, e.deposit = some d := by
        unfold Emitted.topic at htopic
        unfold Emitted.deposit
        cases hevent : e.event <;> simp_all
      obtain ⟨hleaf, -, -⟩ := leaf_of_deposit hd
      obtain ⟨hindex, -⟩ := c'.getElem?_leaves he hleaf
      exact ⟨d, ⟨e, (hdeposits.mem_iff e).mpr ⟨i, he, hstart, hstop, htopic⟩, hd⟩, hindex⟩
    · rw [htopic] at hwithdraw
      cases hwithdraw

theorem pairwise_depositIndices (hread : readPool S deposits withdraws opts c = (.ok read, c')) :
    (reconstruct read.deposits.1 read.withdraws.1).depositIndices.Pairwise (· < ·) := by
  obtain ⟨-, hdeposits, -⟩ := readPool_spec hread
  have hnodup : (reconstruct read.deposits.1 read.withdraws.1).depositIndices.Nodup :=
    (List.perm_insertionSort _ _).nodup_iff.mpr (nodup_deposit_index hdeposits.sublist)
  have hsorted : (reconstruct read.deposits.1 read.withdraws.1).depositIndices.Pairwise (· ≤ ·) :=
    List.pairwise_insertionSort _ _
  exact (hsorted.and hnodup).imp fun h => lt_of_le_of_ne h.1 h.2

/-- **When the leaves are right**: the streams cover every event up to the last one that was read. -/
theorem stateReconstructed_iff (hread : readPool S deposits withdraws opts c = (.ok read, c')) (complete : Bool) :
    StateReconstructed c c' read { reconstruct read.deposits.1 read.withdraws.1 with complete := complete } ↔
      ReadsUpTo c c' read := by
  obtain ⟨hext, -, -⟩ := readPool_spec hread
  constructor
  · rintro ⟨hleaves, hunpadded, -⟩ p e he hbefore
    have hlt : p < (reconstruct read.deposits.1 read.withdraws.1).stateLeaves.length := by
      rcases hbefore with hp | hlater
      · have hsome := hleaves p hp
        have hleaf : p < c.leaves.length := by rwa [c.length_leaves]
        rw [List.getElem?_eq_getElem hleaf] at hsome
        exact (List.getElem?_eq_some_iff.mp hsome).1
      · exact (lt_length_stateLeaves hread).mpr hlater
    obtain ⟨e', he', hreads⟩ := (isSome_byIndex_updates hread).mp (hunpadded p hlt)
    rw [he, Option.some.injEq] at he'
    rwa [he']
  · intro hreads
    have hbelow : ∀ i < (reconstruct read.deposits.1 read.withdraws.1).stateLeaves.length,
        ∃ e, c'.log[i]? = some e ∧ read.covered.Reads i e := by
      intro i hi
      obtain ⟨q, f, hle, hf, hq⟩ := (lt_length_stateLeaves hread).mp hi
      have he := List.getElem?_eq_getElem (lt_of_le_of_lt hle (List.getElem?_eq_some_iff.mp hf).1)
      exact ⟨_, he, hreads i _ he (.inr ⟨q, f, hle, hf, hq⟩)⟩
    refine ⟨?_, ?_, ?_⟩
    · intro p hp
      have he := (hext.getElem?_eq hp).trans (List.getElem?_eq_getElem hp)
      refine (getElem?_stateLeaves hread he (hreads p _ he (.inl hp))).trans ?_
      have htake := congrArg (·[p]?) (hext.take_leaves (le_refl c.log.length))
      simpa [List.getElem?_take, hp] using htake
    · exact fun i hi => (isSome_byIndex_updates hread).mpr (hbelow i hi)
    · refine (pairwise_depositIndices hread).eq_of_mem_iff (List.pairwise_lt_range.filter _) fun i => ?_
      rw [List.mem_filter, List.mem_range, mem_depositIndices hread, isDepositAt]
      constructor
      · rintro ⟨e, he, htopic, hi⟩
        exact ⟨(lt_length_stateLeaves hread).mpr ⟨i, e, le_rfl, he, hi⟩, by simp [he, htopic]⟩
      · rintro ⟨hlt, htopic⟩
        obtain ⟨e, he, hi⟩ := hbelow i hlt
        exact ⟨e, he, by simpa [he] using htopic, hi⟩

end Right

/-- **Complete, or not**: when a reconstruction says that it is complete, its leaves are right exactly under the
condition that the streams cover every event up to the last one that was read. -/
theorem state_reconstruction {F : Type} (S : Setting F) (deposits withdraws : Scan) (opts : ReconstructStateOptions)
    (c : Chain) :
    (∀ r c', reconstructState S deposits withdraws opts c = (.ok r, c') → r.complete = true →
      ∃ read, readPool S deposits withdraws opts c = (.ok read, c') ∧ StateReconstructed c c' read r) ↔
    ∀ read c', readPool S deposits withdraws opts c = (.ok read, c') → read.complete = true →
      ReadsUpTo c c' read := by
  constructor
  · intro h read c' hread hcomplete
    obtain ⟨read', hread', hright⟩ := h _ c' (reconstructState_eq_ok.mpr ⟨read, hread, rfl⟩) hcomplete
    rw [hread] at hread'
    cases hread'
    exact (stateReconstructed_iff hread _).mp hright
  · intro h r c' hreconstruct hcomplete
    obtain ⟨read, hread, rfl⟩ := reconstructState_eq_ok.mp hreconstruct
    exact ⟨read, hread, (stateReconstructed_iff hread _).mpr (h read c' hread hcomplete)⟩

/-- Two deposits, the second 20,001 ledgers after the first. -/
def Demo.farApart : Chain :=
  (Chain.deployed Pool.Demo.tokens 9).closeAll Asp.Demo.setting.host
    [Asp.Demo.deploy, Asp.Demo.deposits 0, { Asp.Demo.deposits 1 with idle := 20000 }]

/-- A node that has every ledger, and returns all in one page. -/
def Demo.wholeLog : Scan where
  first := Asp.Demo.page

/-- Without a start ledger the first leaf is out of sight: its place gets the padding value, and the read counts as
complete. -/
theorem state_reconstruction_lookback :
    (reconstructState Asp.Demo.setting Demo.wholeLog Demo.wholeLog {} Demo.farApart).1 =
        .ok { stateLeaves := [BytesN.ofNat 32 0, BytesN.ofNat 32 101], depositIndices := [1], complete := true } ∧
      Demo.farApart.leaves = [BytesN.ofNat 32 100, BytesN.ofNat 32 101] ∧
      ¬ ∀ r c', reconstructState Asp.Demo.setting Demo.wholeLog Demo.wholeLog {} Demo.farApart = (.ok r, c') →
        r.complete = true → ∃ read, readPool Asp.Demo.setting Demo.wholeLog Demo.wholeLog {} Demo.farApart =
          (.ok read, c') ∧ StateReconstructed Demo.farApart c' read r := by
  have hreturns : (reconstructState Asp.Demo.setting Demo.wholeLog Demo.wholeLog {} Demo.farApart).1 =
      .ok { stateLeaves := [BytesN.ofNat 32 0, BytesN.ofNat 32 101], depositIndices := [1], complete := true } := by
    decide
  have hleaves : Demo.farApart.leaves = [BytesN.ofNat 32 100, BytesN.ofNat 32 101] := by decide
  refine ⟨hreturns, hleaves, fun hright => ?_⟩
  obtain ⟨read, -, hstate⟩ := hright _ _ (Prod.ext hreturns rfl) rfl
  have hfirst := hstate.leaves 0 (by decide)
  rw [hleaves] at hfirst
  revert hfirst
  decide

end OpaqueStellar.Prover
