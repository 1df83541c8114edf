import OpaqueStellar.Relayer.Messages
import OpaqueStellar.Wallet.Store

/-! # Deposits and their secrets

`PoolService.depositWithSigner` of `sdk/src/services/pool.ts` and `sweepStealthIntoPool` of
`frontend/src/lib/poolSweep.ts`. A deposit draws two secrets, sends their commitment to the pool and
polls for a minute; its transaction may land for three. The note, which alone can spend the deposit, is
stored once the confirmation has come. Until then the secrets are local variables of the call.

So there is never a note without a deposit. There can be a deposit without a note: when the process dies
on the way, when the confirmation is lost or late, or when the note is not written. A write is always one
of all notes, and nothing puts writes in order: one that lands late takes away what it does not have. -/

namespace OpaqueStellar.Wallet

open OpaqueStellar.Lib OpaqueStellar.Schemas OpaqueStellar.Relayer

/-! ## Deposits -/

structure Secrets where
  nullifier : Str
  secret : Str
  deriving DecidableEq

structure Deposit where
  value : ℤ
  leafIndex : ℕ
  secrets : Secrets
  commitment : ℕ
  deriving DecidableEq

inductive Fate where
  -- it may be included in a ledger
  | pending
  | landed
  -- expired, dropped or failed
  | dead
  deriving DecidableEq

/-- A transaction that was handed to an RPC node. Its hash is its place among them. -/
structure Tx where
  deposit : Deposit
  fate : Fate
  deriving DecidableEq

def toHex32 (commitment : ℕ) : Str := bytesToHex (beBytes 32 commitment)

/-- A note in a store, with the account that the web client scopes it by. -/
structure StoredNote where
  note : PoolNote
  account : Option Str
  deriving DecidableEq

/-- The note can spend the deposit. -/
def StoredNote.Of (n : StoredNote) (d : Deposit) : Prop :=
  n.note.nullifier = d.secrets.nullifier ∧ n.note.secret = d.secrets.secret ∧
    n.note.leafIndex = d.leafIndex ∧ n.note.commitment = toHex32 d.commitment

instance (n : StoredNote) (d : Deposit) : Decidable (n.Of d) :=
  inferInstanceAs (Decidable (_ ∧ _ ∧ _ ∧ _))

inductive App where
  | sdk
  | web

/-- The web client keeps one note for each leaf. -/
def StoredNote.sameSlot (n m : StoredNote) : Bool :=
  n.note.cluster = m.note.cluster && n.note.poolId.getD [] = m.note.poolId.getD [] &&
    n.note.leafIndex = m.note.leafIndex && n.account.getD [] = m.account.getD []

/-- `NoteStore.add` of the SDK, and `addNote` of the web client. -/
def App.put : App → StoredNote → List StoredNote → List StoredNote
  | .sdk, entry, notes => notes ++ [entry]
  | .web, entry, notes => (notes.filter fun n => !n.sameSlot entry) ++ [entry]

/-! ## Calls -/

def MIN_DEPOSIT_STROOPS : ℤ := 1000000

structure PoolConfig where
  network : Str
  poolId : Str
  scope : ℕ

structure DepositOptions where
  value : ℤ
  secrets : Option Secrets := none
  createdAt : Option ℤ := none
  skipValidation : Bool := false

structure SweepOptions where
  cluster : Str
  chunkStroops : ℤ
  chunkCount : ℕ

inductive Request where
  -- `depositWithSigner`
  | deposit (opts : DepositOptions)
  -- `sweepStealthIntoPool`
  | sweep (opts : SweepOptions)

/-- What a call awaits. -/
inductive Stage where
  -- `signer.publicKey()`
  | opening
  -- `getNativeAssetDecimals`, for `validateDepositAmount`
  | validating
  -- `getDepositCount` or `fetchNextLeafIndex`
  | counting
  -- `deriveDeposit`
  | deriving (leafIndex : ℕ) (secrets : Secrets)
  -- the account, the simulation and the signature
  | preparing (deposit : Deposit)
  -- `sendTransaction`
  | sending (deposit : Deposit) (hash : ℕ)
  -- `poll` or `pollTransactionStatus`
  | polling (deposit : Deposit) (hash : ℕ)
  -- `notes.add`
  | storing (entry : StoredNote)
  | ended (result : Except Str Unit)

/-- The transaction that a call waits for; its secrets are in the call's variables. -/
def Stage.tx : Stage → Option (Deposit × ℕ)
  | .sending deposit hash => some (deposit, hash)
  | .polling deposit hash => some (deposit, hash)
  | _ => none

structure Run where
  request : Request
  -- chunks that are deposited
  chunk : ℕ := 0
  attempt : ℕ := 0
  stage : Stage

inductive Answer where
  | ok
  -- the next leaf, and the secrets that `newNoteSecrets` draws then
  | count (leafIndex : ℕ) (drawn : Secrets)
  -- `SUCCESS`, and `Date.now()`
  | confirmed (now : ℤ)
  -- an RPC error, a rejection or a time out, with its message
  | failed (message : Str)

inductive Effect where
  | none
  | send (deposit : Deposit)
  | save (entry : StoredNote)

def Request.start : Request → Run
  | .deposit opts => { request := .deposit opts, stage := .opening }
  | .sweep opts =>
      { request := .sweep opts
        stage := if opts.chunkCount < 1 ∨ opts.chunkStroops < MIN_DEPOSIT_STROOPS
          then .ended (.error "Balance is too small to deposit into the pool.".toList) else .counting }

/-- `/IndexMismatch|ContractError/i.test(message)` -/
def isIndexRace (message : Str) : Bool :=
  decide ("indexmismatch".toList <:+: toLowerCase message) ||
    decide ("contracterror".toList <:+: toLowerCase message)

namespace Run

variable (deriveDeposit : ℤ → ℕ → ℕ → Secrets → Except Str ℕ) (cfg : PoolConfig)

def value (run : Run) : ℤ :=
  match run.request with
  | .deposit opts => opts.value
  | .sweep opts => opts.chunkStroops

/-- Given or fresh secrets. -/
def secrets (run : Run) (drawn : Secrets) : Secrets :=
  match run.request with
  | .deposit opts => opts.secrets.getD drawn
  | .sweep _ => drawn

def note (run : Run) (d : Deposit) (now : ℤ) : PoolNote :=
  { cluster := match run.request with
      | .deposit _ => cfg.network
      | .sweep opts => opts.cluster
    poolId := some cfg.poolId
    value := bigIntToString d.value
    scope := cfg.scope
    leafIndex := d.leafIndex
    nullifier := d.secrets.nullifier
    secret := d.secrets.secret
    commitment := toHex32 d.commitment
    spent := false
    createdAt := match run.request with
      | .deposit opts => opts.createdAt.getD 0
      | .sweep _ => now }

/-- A failure inside the `try` of `depositChunk`, which tries again after an index race. -/
def retry (run : Run) (message : Str) : Run :=
  match run.request with
  | .deposit _ => { run with stage := .ended (.error message) }
  | .sweep _ =>
      if !isIndexRace message || run.attempt = 2 then { run with stage := .ended (.error message) }
      else { run with attempt := run.attempt + 1, stage := .counting }

/-- After the confirmation: the SDK awaits its store, and the web client goes on to the next chunk. -/
def confirm (account : Option Str) (run : Run) (d : Deposit) (now : ℤ) : Run × Effect :=
  match run.request with
  | .deposit _ =>
      let entry : StoredNote := ⟨run.note cfg d now, none⟩
      ({ run with stage := .storing entry }, .save entry)
  | .sweep opts =>
      ({ run with
          chunk := run.chunk + 1
          attempt := 0
          stage := if run.chunk + 1 < opts.chunkCount then .counting else .ended (.ok ()) },
        .save ⟨run.note cfg d now, account⟩)

/-- What a call does with an answer; `hash` is the one that a transaction would have. -/
def answer (account : Option Str) (hash : ℕ) (run : Run) (a : Answer) : Run × Effect :=
  match run.stage, a with
  | .opening, .ok =>
      ({ run with
          stage := match run.request with
            | .deposit opts => if opts.skipValidation then .counting else .validating
            | .sweep _ => .counting }, .none)
  | .validating, .ok => ({ run with stage := .counting }, .none)
  | .counting, .count leafIndex drawn =>
      ({ run with stage := .deriving leafIndex (run.secrets drawn) }, .none)
  | .deriving leafIndex secrets, .ok =>
      match deriveDeposit run.value cfg.scope leafIndex secrets with
      | .ok commitment => ({ run with stage := .preparing ⟨run.value, leafIndex, secrets, commitment⟩ }, .none)
      | .error message => ({ run with stage := .ended (.error message) }, .none)
  | .preparing d, .ok => ({ run with stage := .sending d hash }, .send d)
  | .preparing _, .failed message => (run.retry message, .none)
  | .sending d h, .ok => ({ run with stage := .polling d h }, .none)
  | .sending _ _, .failed message => (run.retry message, .none)
  | .polling d _, .confirmed now => run.confirm cfg account d now
  | .polling _ _, .failed message => (run.retry message, .none)
  | .storing _, .ok => ({ run with stage := .ended (.ok ()) }, .none)
  | .ended _, _ => (run, .none)
  | _, .failed message => ({ run with stage := .ended (.error message) }, .none)
  | _, _ => (run, .none)

variable {deriveDeposit cfg} {account : Option Str} {hash : ℕ}

theorem retry_tx (run : Run) (message : Str) : (run.retry message).stage.tx = none := by
  unfold retry
  split
  · rfl
  · split_ifs <;> rfl

theorem confirm_spec (cfg : PoolConfig) (account : Option Str) (run : Run) (d : Deposit) (now : ℤ) :
    (run.confirm cfg account d now).1.stage.tx = none ∧
      ∃ entry, (run.confirm cfg account d now).2 = .save entry ∧ entry.Of d := by
  unfold confirm
  split
  · exact ⟨rfl, _, rfl, rfl, rfl, rfl, rfl⟩
  · refine ⟨?_, _, rfl, rfl, rfl, rfl, rfl⟩
    dsimp only
    split_ifs <;> rfl

/-- A call goes on with its transaction, gives it up after a failure, sends one or saves its note. -/
theorem answer_cases (run : Run) (a : Answer) :
    ((run.answer deriveDeposit cfg account hash a).2 = .none ∧
      ((run.answer deriveDeposit cfg account hash a).1.stage.tx = run.stage.tx ∨
        (run.answer deriveDeposit cfg account hash a).1.stage.tx = none ∧
          (run.stage.tx = none ∨ ∃ message, a = .failed message))) ∨
      (∃ d, run.stage.tx = none ∧ (run.answer deriveDeposit cfg account hash a).2 = .send d ∧
        (run.answer deriveDeposit cfg account hash a).1.stage = .sending d hash) ∨
      ∃ d h now entry, run.stage = .polling d h ∧ a = .confirmed now ∧ entry.Of d ∧
        (run.answer deriveDeposit cfg account hash a).2 = .save entry ∧
          (run.answer deriveDeposit cfg account hash a).1.stage.tx = none := by
  unfold answer
  split
  case h_1 hstage =>
    left
    refine ⟨rfl, .inr ⟨?_, .inl (by rw [hstage]; rfl)⟩⟩
    dsimp only
    split
    · split_ifs <;> rfl
    · rfl
  case h_4 hstage =>
    left
    split
    · exact ⟨rfl, .inr ⟨rfl, .inl (by rw [hstage]; rfl)⟩⟩
    · exact ⟨rfl, .inr ⟨rfl, .inl (by rw [hstage]; rfl)⟩⟩
  case h_5 d hstage =>
    right; left
    exact ⟨d, by rw [hstage]; rfl, rfl, rfl⟩
  case h_6 => exact .inl ⟨rfl, .inr ⟨retry_tx run _, .inr ⟨_, rfl⟩⟩⟩
  case h_7 hstage => exact .inl ⟨rfl, .inl (by rw [hstage]; rfl)⟩
  case h_8 => exact .inl ⟨rfl, .inr ⟨retry_tx run _, .inr ⟨_, rfl⟩⟩⟩
  case h_9 d h now hstage =>
    right; right
    obtain ⟨htx, entry, hentry, hof⟩ := run.confirm_spec cfg account d now
    exact ⟨d, h, now, entry, hstage, rfl, hof, hentry, htx⟩
  case h_10 => exact .inl ⟨rfl, .inr ⟨retry_tx run _, .inr ⟨_, rfl⟩⟩⟩
  case h_12 => exact .inl ⟨rfl, .inl rfl⟩
  case h_13 => exact .inl ⟨rfl, .inr ⟨rfl, .inr ⟨_, rfl⟩⟩⟩
  case h_14 => exact .inl ⟨rfl, .inl rfl⟩
  all_goals
    next hstage => exact .inl ⟨rfl, .inr ⟨rfl, .inl (by rw [hstage]; rfl)⟩⟩

end Run

/-! ## The wallet and the pool -/

/-- A write under way. -/
structure Write where
  -- the note that it is for; a change of account is written too
  entry : Option StoredNote
  -- all that will be stored
  content : List StoredNote

structure World where
  txs : List Tx := []
  -- the leaves of the pool
  leaves : List (List UInt8) := []
  -- what is stored, and what is about to be
  notes : List StoredNote := []
  queue : List Write := []
  -- the notes whose writes have landed
  written : List StoredNote := []
  -- what the page of the web client holds
  memory : List StoredNote := []
  runs : List Run := []
  activeAccount : Option Str := none

inductive WalletInput where
  | start (request : Request)
  | answer (i : ℕ) (a : Answer)
  | land (hash : ℕ)
  | drop (hash : ℕ)
  -- somebody else's deposit
  | foreign (commitment : List UInt8)
  -- the SDK's store reads what it will add a note to
  | load (k : ℕ)
  -- a write lands, or fails to
  | persist (k : ℕ)
  | lose (k : ℕ)
  | switchAccount (account : Option Str)
  | crash
  -- the page, when it starts, reads what is stored; it gets nothing as long as that is locked
  | hydrate

namespace World

/-- A confirmation is true, and `notes.add` resolves when its write has landed. -/
def ready (w : World) (stage : Stage) (a : Answer) : Bool :=
  match stage, a with
  | .polling _ h, .confirmed _ => w.txs[h]?.map (·.fate) = some .landed
  | .storing entry, .ok => entry ∈ w.written
  | _, _ => true

/-- What a note is added to: what is stored, or what the page holds. -/
def base (w : World) : App → List StoredNote
  | .sdk => w.notes
  | .web => w.memory

/-- `add` and `addNote`. The page has the note at once. -/
def save (w : World) (app : App) (entry : StoredNote) : World :=
  let content := app.put entry (w.base app)
  match app with
  | .sdk => { w with queue := w.queue ++ [⟨some entry, content⟩] }
  | .web => { w with queue := w.queue ++ [⟨some entry, content⟩], memory := content }

def perform (w : World) (app : App) : Effect → World
  | .none => w
  | .send d => { w with txs := w.txs ++ [⟨d, .pending⟩] }
  | .save entry => w.save app entry

variable (app : App) (deriveDeposit : ℤ → ℕ → ℕ → Secrets → Except Str ℕ) (cfg : PoolConfig)

def step (w : World) : WalletInput → World
  | .start request => { w with runs := w.runs ++ [request.start] }
  | .answer i a =>
      match w.runs[i]? with
      | none => w
      | some run =>
          if w.ready run.stage a then
            let (next, effect) := run.answer deriveDeposit cfg w.activeAccount w.txs.length a
            { w.perform app effect with runs := w.runs.set i next }
          else w
  | .land h =>
      match w.txs[h]? with
      | some ⟨d, .pending⟩ =>
          -- the contract takes the deposit at the leaf that it names
          if d.leafIndex = w.leaves.length then
            { w with txs := w.txs.set h ⟨d, .landed⟩, leaves := w.leaves ++ [beBytes 32 d.commitment] }
          else w
      | _ => w
  | .drop h =>
      match w.txs[h]? with
      | some ⟨d, .pending⟩ => { w with txs := w.txs.set h ⟨d, .dead⟩ }
      | _ => w
  | .foreign commitment => { w with leaves := w.leaves ++ [commitment] }
  | .load k =>
      match app, w.queue[k]? with
      | .sdk, some ⟨some entry, _⟩ =>
          { w with queue := w.queue.set k ⟨some entry, app.put entry w.notes⟩ }
      | _, _ => w
  | .persist k =>
      match w.queue[k]? with
      | some x =>
          { w with
            notes := x.content, queue := w.queue.eraseIdx k, written := w.written ++ x.entry.toList }
      | none => w
  | .lose k => { w with queue := w.queue.eraseIdx k }
  | .switchAccount account =>
      match app with
      | .sdk => { w with activeAccount := account }
      | .web => { w with activeAccount := account, queue := w.queue ++ [⟨none, w.memory⟩] }
  | .crash => { w with runs := [], queue := [], memory := [] }
  | .hydrate => { w with memory := w.notes }

def machine : Machine World WalletInput Unit := ⟨fun w input => (w.step app deriveDeposit cfg input, ())⟩

/-! ## What survives -/

/-- The deposit has landed, or it can still land. -/
def Alive (w : World) (tx : Tx) : Prop :=
  tx.fate = .landed ∨ tx.fate = .pending ∧ w.leaves.length ≤ tx.deposit.leafIndex

instance (w : World) (tx : Tx) : Decidable (w.Alive tx) := inferInstanceAs (Decidable (_ ∨ _ ∧ _))

def Noted (w : World) (d : Deposit) : Prop := ∃ n ∈ w.notes, n.Of d

instance (w : World) (d : Deposit) : Decidable (w.Noted d) :=
  inferInstanceAs (Decidable (∃ n ∈ w.notes, n.Of d))

/-- A call still waits for the transaction, or its note is being written. -/
def AtWork (w : World) (hash : ℕ) (d : Deposit) : Prop :=
  (∃ run ∈ w.runs, run.stage.tx = some (d, hash)) ∨ ∃ x ∈ w.queue, ∃ n ∈ x.entry, n.Of d

/-- The deposit that a note is for has landed. -/
def Backed (w : World) (n : StoredNote) : Prop := ∃ tx ∈ w.txs, tx.fate = .landed ∧ n.Of tx.deposit

/-- A call gives up on a transaction only when it can no longer land; the process dies only when all
deposits that have landed or can land have their notes; notes are written; and a write that lands has all
notes that are stored then, except one for the leaf of its own. -/
def faithful (w : World) : WalletInput → Bool
  | .answer i (.failed _) =>
      match w.runs[i]?.bind fun run => run.stage.tx with
      | some (_, hash) =>
          match w.txs[hash]? with
          | some tx => !decide (w.Alive tx)
          | none => true
      | none => true
  | .persist k =>
      match w.queue[k]? with
      | some x => w.notes.all fun n => n ∈ x.content || x.entry.any n.sameSlot
      | none => true
  | .lose k =>
      match w.queue[k]?.bind (·.entry) with
      | some entry => entry ∈ w.notes
      | none => true
  | .crash => w.txs.all fun tx => !decide (w.Alive tx) || decide (w.Noted tx.deposit)
  | _ => true

/-- A note that was there from the start, or is for a deposit that has landed. -/
def Known (initial : List StoredNote) (w : World) (n : StoredNote) : Prop := n ∈ initial ∨ w.Backed n

/-- All notes that are stored, held or about to be stored are known, and a write is for a note it has. -/
structure NotesOk (initial : List StoredNote) (w : World) : Prop where
  noted : ∀ n ∈ w.notes, w.Known initial n
  held : ∀ n ∈ w.memory, w.Known initial n
  content : ∀ x ∈ w.queue, ∀ n ∈ x.content, w.Known initial n
  entry : ∀ x ∈ w.queue, ∀ n ∈ x.entry, w.Backed n ∧ n ∈ x.content

/-- The invariant. Its strict part holds as long as steps are faithful. -/
structure Ok (strict : Prop) (initial : List StoredNote) (w : World) : Prop where
  sent : ∀ run ∈ w.runs, ∀ d hash, run.stage.tx = some (d, hash) →
    ∃ tx, w.txs[hash]? = some tx ∧ tx.deposit = d
  kept : strict → ∀ hash tx, w.txs[hash]? = some tx → w.Alive tx →
    w.Noted tx.deposit ∨ w.AtWork hash tx.deposit
  notesOk : w.NotesOk initial
  indexed : ∀ tx ∈ w.txs, tx.fate = .landed → tx.deposit.leafIndex < w.leaves.length
  unique : ∀ tx ∈ w.txs, ∀ tx' ∈ w.txs, tx.fate = .landed → tx'.fate = .landed →
    tx.deposit.leafIndex = tx'.deposit.leafIndex → tx.deposit = tx'.deposit

/-! ### Calls -/

variable {app deriveDeposit cfg}

variable {strict : Prop} {initial : List StoredNote} {w : World} {i k hash : ℕ} {run next : Run}

/-- Deposits that have landed stay so, and the notes are left alone. -/
theorem NotesOk.mono {w' : World} (h : w.NotesOk initial) (hbacked : ∀ n, w.Backed n → w'.Backed n)
    (hnotes : w'.notes = w.notes) (hmemory : w'.memory = w.memory) (hqueue : w'.queue = w.queue) :
    w'.NotesOk initial := by
  refine ⟨?_, ?_, ?_, ?_⟩
  · intro n hn
    exact (h.noted n (hnotes ▸ hn)).imp_right (hbacked n)
  · intro n hn
    exact (h.held n (hmemory ▸ hn)).imp_right (hbacked n)
  · intro x hx n hn
    exact (h.content x (hqueue ▸ hx) n hn).imp_right (hbacked n)
  · intro x hx n hn
    exact (h.entry x (hqueue ▸ hx) n hn).imp_left (hbacked n)

theorem Ok.start (h : w.Ok strict initial) (request : Request) :
    Ok strict initial { w with runs := w.runs ++ [request.start] } := by
  have hnew : request.start.stage.tx = none := by
    cases request with
    | deposit opts => rfl
    | sweep opts =>
      show Stage.tx (if _ then _ else _) = none
      split_ifs <;> rfl
  refine ⟨?_, ?_, h.notesOk.mono (fun _ hn => hn) rfl rfl rfl, h.indexed, h.unique⟩
  · intro run hrun d hash htx
    rcases List.mem_append.mp hrun with hrun | hrun
    · exact h.sent run hrun d hash htx
    · rw [List.mem_singleton.mp hrun, hnew] at htx
      cases htx
  · intro hstrict hash tx htx halive
    rcases h.kept hstrict hash tx htx halive with hnoted | ⟨run, hrun, hwaits⟩ | hqueued
    · exact .inl hnoted
    · exact .inr (.inl ⟨run, List.mem_append_left _ hrun, hwaits⟩)
    · exact .inr (.inr hqueued)

/-- A call moves on. If it lets go of its transaction, then that is settled. -/
theorem Ok.move (h : w.Ok strict initial) (hi : w.runs[i]? = some run)
    (hnext : next.stage.tx = run.stage.tx ∨ next.stage.tx = none ∧
      (strict → ∀ d hash, run.stage.tx = some (d, hash) → ∀ tx, w.txs[hash]? = some tx → w.Alive tx →
        ∃ x ∈ w.queue, ∃ n ∈ x.entry, n.Of tx.deposit)) :
    Ok strict initial { w with runs := w.runs.set i next } := by
  refine ⟨?_, ?_, h.notesOk.mono (fun _ hn => hn) rfl rfl rfl, h.indexed, h.unique⟩
  · intro run' hrun' d hash htx
    rcases List.mem_or_eq_of_mem_set hrun' with hrun' | rfl
    · exact h.sent run' hrun' d hash htx
    · rcases hnext with hsame | ⟨hnone, -⟩
      · exact h.sent run (List.mem_of_getElem? hi) d hash (hsame ▸ htx)
      · rw [hnone] at htx
        cases htx
  · intro hstrict hash tx htx halive
    rcases h.kept hstrict hash tx htx halive with hnoted | ⟨run', hrun', hwaits⟩ | hqueued
    · exact .inl hnoted
    · rcases mem_of_set (b := next) hi hrun' with rfl | hrun'
      · rcases hnext with hsame | ⟨-, hsettled⟩
        · refine .inr (.inl ⟨next, ?_, hsame ▸ hwaits⟩)
          exact List.mem_set (List.getElem?_eq_some_iff.mp hi).1 next
        · exact .inr (.inr (hsettled hstrict _ _ hwaits tx htx halive))
      · exact .inr (.inl ⟨run', hrun', hwaits⟩)
    · exact .inr (.inr hqueued)

theorem Ok.send (h : w.Ok strict initial) {d : Deposit} (hi : w.runs[i]? = some run)
    (hnone : run.stage.tx = none) (hnext : next.stage = .sending d w.txs.length) :
    Ok strict initial { w with txs := w.txs ++ [⟨d, .pending⟩], runs := w.runs.set i next } := by
  have hold : ∀ (hash : ℕ) tx, w.txs[hash]? = some tx → (w.txs ++ [⟨d, .pending⟩])[hash]? = some tx := by
    intro hash tx htx
    rw [List.getElem?_append_left (List.getElem?_eq_some_iff.mp htx).1]
    exact htx
  have hlanded : ∀ tx ∈ w.txs ++ [⟨d, .pending⟩], tx.fate = .landed → tx ∈ w.txs := by
    intro tx htx hfate
    rcases List.mem_append.mp htx with htx | htx
    · exact htx
    · rw [List.mem_singleton.mp htx] at hfate
      cases hfate
  have hbacked : ∀ n, w.Backed n →
      Backed { w with txs := w.txs ++ [⟨d, .pending⟩], runs := w.runs.set i next } n := by
    rintro n ⟨tx, htx, hfate, hof⟩
    exact ⟨tx, List.mem_append_left _ htx, hfate, hof⟩
  refine ⟨?_, ?_, h.notesOk.mono hbacked rfl rfl rfl,
    fun tx htx hfate => h.indexed tx (hlanded tx htx hfate) hfate, ?_⟩
  · intro run' hrun' d' hash htx
    rcases List.mem_or_eq_of_mem_set hrun' with hrun' | rfl
    · obtain ⟨tx, hget, hdeposit⟩ := h.sent run' hrun' d' hash htx
      exact ⟨tx, hold hash tx hget, hdeposit⟩
    · rw [hnext] at htx
      obtain ⟨rfl, rfl⟩ := Prod.mk.inj (Option.some.inj htx)
      exact ⟨_, List.getElem?_concat_length, rfl⟩
  · intro hstrict hash tx htx halive
    by_cases hnew : hash = w.txs.length
    · -- the call itself waits for it
      subst hnew
      rw [show (w.txs ++ [⟨d, .pending⟩])[w.txs.length]? = _ from List.getElem?_concat_length] at htx
      obtain rfl := Option.some.inj htx
      refine .inr (.inl ⟨next, List.mem_set (List.getElem?_eq_some_iff.mp hi).1 next, ?_⟩)
      rw [hnext]
      rfl
    · have hlt : hash < w.txs.length := by
        have hlength := (List.getElem?_eq_some_iff.mp htx).1
        rw [List.length_append, List.length_singleton] at hlength
        omega
      rw [show (w.txs ++ [⟨d, .pending⟩])[hash]? = _ from List.getElem?_append_left hlt] at htx
      rcases h.kept hstrict hash tx htx halive with hnoted | ⟨run', hrun', hwaits⟩ | hqueued
      · exact .inl hnoted
      · rcases mem_of_set (b := next) hi hrun' with rfl | hrun'
        · rw [hnone] at hwaits
          cases hwaits
        · exact .inr (.inl ⟨run', hrun', hwaits⟩)
      · exact .inr (.inr hqueued)
  · intro tx htx tx' htx' hfate hfate' hindex
    exact h.unique tx (hlanded tx htx hfate) tx' (hlanded tx' htx' hfate') hfate hfate' hindex

theorem mem_put {app : App} {entry n : StoredNote} {notes : List StoredNote}
    (h : n ∈ app.put entry notes) : n = entry ∨ n ∈ notes := by
  cases app with
  | sdk =>
    rcases List.mem_append.mp h with h | h
    · exact .inr h
    · exact .inl (List.mem_singleton.mp h)
  | web =>
    rcases List.mem_append.mp h with h | h
    · exact .inr (List.mem_filter.mp h).1
    · exact .inl (List.mem_singleton.mp h)

theorem mem_put_self (app : App) (entry : StoredNote) (notes : List StoredNote) :
    entry ∈ app.put entry notes := by
  cases app with
  | sdk => exact List.mem_append_right _ (List.mem_singleton.mpr rfl)
  | web => exact List.mem_append_right _ (List.mem_singleton.mpr rfl)

/-- What a note for a landed deposit is added to is known, and so is the result. -/
theorem NotesOk.put (h : w.NotesOk initial) (app : App) {entry : StoredNote} (hentry : w.Backed entry) :
    ∀ n ∈ app.put entry (w.base app), w.Known initial n := by
  intro n hn
  rcases mem_put hn with rfl | hn
  · exact .inr hentry
  · cases app with
    | sdk => exact h.noted n hn
    | web => exact h.held n hn

/-- A write is made, of known notes. -/
theorem Ok.enqueue (h : w.Ok strict initial) {x : Write} (hcontent : ∀ n ∈ x.content, w.Known initial n)
    (hentry : ∀ n ∈ x.entry, w.Backed n ∧ n ∈ x.content) :
    Ok strict initial { w with queue := w.queue ++ [x] } := by
  refine ⟨h.sent, ?_, ⟨h.notesOk.noted, h.notesOk.held, ?_, ?_⟩, h.indexed, h.unique⟩
  · intro hstrict hash tx htx halive
    rcases h.kept hstrict hash tx htx halive with hnoted | hwaits | ⟨y, hy, hof⟩
    · exact .inl hnoted
    · exact .inr (.inl hwaits)
    · exact .inr (.inr ⟨y, List.mem_append_left _ hy, hof⟩)
  · intro y hy
    rcases List.mem_append.mp hy with hy | hy
    · exact h.notesOk.content y hy
    · rw [List.mem_singleton.mp hy]
      exact hcontent
  · intro y hy
    rcases List.mem_append.mp hy with hy | hy
    · exact h.notesOk.entry y hy
    · rw [List.mem_singleton.mp hy]
      exact hentry

/-- The page may hold whatever is known. -/
theorem Ok.hold (h : w.Ok strict initial) {memory : List StoredNote}
    (hmemory : ∀ n ∈ memory, w.Known initial n) : Ok strict initial { w with memory := memory } :=
  ⟨h.sent, h.kept, ⟨h.notesOk.noted, hmemory, h.notesOk.content, h.notesOk.entry⟩, h.indexed, h.unique⟩

theorem Ok.save (h : w.Ok strict initial) (app : App) {entry : StoredNote} (hentry : w.Backed entry) :
    Ok strict initial (w.save app entry) := by
  have hcontent := h.notesOk.put app hentry
  have hown : ∀ n ∈ some entry, w.Backed n ∧ n ∈ app.put entry (w.base app) := by
    rintro n hn
    obtain rfl := Option.some.inj hn
    exact ⟨hentry, mem_put_self app entry _⟩
  cases app with
  | sdk => exact h.enqueue hcontent hown
  | web => exact (h.enqueue hcontent hown).hold hcontent

/-- Saving a note makes a write for it, and does nothing to calls and transactions. -/
theorem save_spec (w : World) (app : App) (entry : StoredNote) :
    (∃ x ∈ (w.save app entry).queue, x.entry = some entry) ∧ (w.save app entry).runs = w.runs ∧
      (w.save app entry).txs = w.txs := by
  cases app with
  | sdk => exact ⟨⟨_, List.mem_append_right _ (List.mem_singleton.mpr rfl), rfl⟩, rfl, rfl⟩
  | web => exact ⟨⟨_, List.mem_append_right _ (List.mem_singleton.mpr rfl), rfl⟩, rfl, rfl⟩

/-- **Calls keep the invariant.** -/
theorem Ok.answer (h : w.Ok strict initial) {a : Answer} (hi : w.runs[i]? = some run)
    (hready : w.ready run.stage a = true) (hfaithful : strict → w.faithful (.answer i a) = true) :
    Ok strict initial
      { w.perform app (run.answer deriveDeposit cfg w.activeAccount w.txs.length a).2 with
        runs := w.runs.set i (run.answer deriveDeposit cfg w.activeAccount w.txs.length a).1 } := by
  rcases run.answer_cases a with ⟨heffect, hnext⟩ | ⟨d, hnone, heffect, hnext⟩ |
    ⟨d, hash, now, entry, hstage, rfl, hof, heffect, hnext⟩
  · rw [heffect]
    refine h.move hi (hnext.imp_right fun hgone => ⟨hgone.1, ?_⟩)
    intro hstrict d hash htx tx hget halive
    rcases hgone.2 with hnone | ⟨message, rfl⟩
    · rw [hnone] at htx
      cases htx
    · -- it gives up on a transaction that can no longer land
      have hdead := hfaithful hstrict
      simp only [faithful, hi, Option.bind_some, htx, hget] at hdead
      simp [halive] at hdead
  · rw [heffect]
    exact h.send hi hnone hnext
  · have htx : run.stage.tx = some (d, hash) := by
      rw [hstage]
      rfl
    obtain ⟨tx, hget, rfl⟩ := h.sent run (List.mem_of_getElem? hi) d hash htx
    have hlanded : tx.fate = .landed := by
      simpa [ready, hstage, hget] using hready
    rw [heffect]
    have hsaved := h.save app ⟨tx, List.mem_of_getElem? hget, hlanded, hof⟩
    obtain ⟨⟨x, hx, hentry⟩, hruns, htxs⟩ := save_spec w app entry
    show Ok strict initial { w.save app entry with runs := w.runs.set i _ }
    rw [← hruns] at hi ⊢
    refine hsaved.move hi (.inr ⟨hnext, ?_⟩)
    intro hstrict d' hash' htx' tx' hget' halive
    rw [htx] at htx'
    obtain ⟨rfl, rfl⟩ := Prod.mk.inj (Option.some.inj htx')
    rw [htxs, hget] at hget'
    obtain rfl := Option.some.inj hget'
    exact ⟨x, hx, entry, hentry, hof⟩

/-! ### The pool -/

/-- A pending transaction gets another fate. -/
theorem getElem?_set_fate {d : Deposit} {fate : Fate} {tx : Tx} {hash' : ℕ}
    (h : w.txs[hash]? = some ⟨d, .pending⟩) (h' : w.txs[hash']? = some tx) :
    ∃ tx', (w.txs.set hash ⟨d, fate⟩)[hash']? = some tx' ∧ tx'.deposit = tx.deposit := by
  by_cases hne : hash = hash'
  · subst hne
    rw [h] at h'
    obtain rfl := Option.some.inj h'
    exact ⟨_, List.getElem?_set_self (List.getElem?_eq_some_iff.mp h).1, rfl⟩
  · refine ⟨tx, ?_, rfl⟩
    rw [List.getElem?_set_ne hne]
    exact h'

theorem Backed.set {d : Deposit} {n : StoredNote} (h : w.txs[hash]? = some ⟨d, .pending⟩)
    (hn : w.Backed n) (fate : Fate) (leaves : List (List UInt8)) :
    Backed { w with txs := w.txs.set hash ⟨d, fate⟩, leaves := leaves } n := by
  obtain ⟨tx, htx, hfate, hof⟩ := hn
  rcases mem_of_set (b := (⟨d, fate⟩ : Tx)) h htx with rfl | htx
  · cases hfate
  · exact ⟨tx, htx, hfate, hof⟩

theorem Ok.land (h : w.Ok strict initial) {d : Deposit} {leaf : List UInt8}
    (hget : w.txs[hash]? = some ⟨d, .pending⟩) (hindex : d.leafIndex = w.leaves.length) :
    Ok strict initial
      { w with txs := w.txs.set hash ⟨d, .landed⟩, leaves := w.leaves ++ [leaf] } := by
  have hlength : (w.leaves ++ [leaf]).length = w.leaves.length + 1 := by simp
  have hcases : ∀ tx ∈ w.txs.set hash ⟨d, .landed⟩, tx = ⟨d, .landed⟩ ∨ tx ∈ w.txs := by
    intro tx htx
    exact (List.mem_or_eq_of_mem_set htx).symm
  have hbacked : ∀ n, w.Backed n → Backed { w with
      txs := w.txs.set hash ⟨d, .landed⟩, leaves := w.leaves ++ [leaf] } n :=
    fun n hn => hn.set hget .landed (w.leaves ++ [leaf])
  refine ⟨?_, ?_, h.notesOk.mono hbacked rfl rfl rfl, ?_, ?_⟩
  · intro run hrun d' hash' htx
    obtain ⟨tx, hsent, rfl⟩ := h.sent run hrun d' hash' htx
    exact getElem?_set_fate hget hsent
  · intro hstrict hash' tx htx halive
    rcases getElem?_set_cases htx with ⟨rfl, rfl⟩ | ⟨-, htx⟩
    · exact h.kept hstrict hash ⟨d, .pending⟩ hget (.inr ⟨rfl, hindex.ge⟩)
    · refine h.kept hstrict hash' tx htx (halive.imp_right fun hpending => ⟨hpending.1, ?_⟩)
      have hle : (w.leaves ++ [leaf]).length ≤ tx.deposit.leafIndex := hpending.2
      omega
  · intro tx htx hfate
    show tx.deposit.leafIndex < (w.leaves ++ [leaf]).length
    rcases hcases tx htx with rfl | htx
    · show d.leafIndex < _
      omega
    · have hlt := h.indexed tx htx hfate
      omega
  · intro tx htx tx' htx' hfate hfate' hsame
    rcases hcases tx htx with rfl | htx
    · rcases hcases tx' htx' with rfl | htx'
      · rfl
      · have hlt := h.indexed tx' htx' hfate'
        have hsame' : d.leafIndex = tx'.deposit.leafIndex := hsame
        omega
    · rcases hcases tx' htx' with rfl | htx'
      · have hlt := h.indexed tx htx hfate
        have hsame' : tx.deposit.leafIndex = d.leafIndex := hsame
        omega
      · exact h.unique tx htx tx' htx' hfate hfate' hsame

theorem Ok.drop (h : w.Ok strict initial) {d : Deposit} (hget : w.txs[hash]? = some ⟨d, .pending⟩) :
    Ok strict initial { w with txs := w.txs.set hash ⟨d, .dead⟩ } := by
  have hlanded : ∀ tx ∈ w.txs.set hash ⟨d, .dead⟩, tx.fate = .landed → tx ∈ w.txs := by
    intro tx htx hfate
    rcases List.mem_or_eq_of_mem_set htx with htx | rfl
    · exact htx
    · cases hfate
  have hbacked : ∀ n, w.Backed n → Backed { w with txs := w.txs.set hash ⟨d, .dead⟩ } n :=
    fun n hn => hn.set hget .dead w.leaves
  refine ⟨?_, ?_, h.notesOk.mono hbacked rfl rfl rfl,
    fun tx htx hfate => h.indexed tx (hlanded tx htx hfate) hfate, ?_⟩
  · intro run hrun d' hash' htx
    obtain ⟨tx, hsent, rfl⟩ := h.sent run hrun d' hash' htx
    exact getElem?_set_fate hget hsent
  · intro hstrict hash' tx htx halive
    rcases getElem?_set_cases htx with ⟨-, rfl⟩ | ⟨-, htx⟩
    · rcases halive with hfate | ⟨hfate, -⟩
      · cases hfate
      · cases hfate
    · exact h.kept hstrict hash' tx htx halive
  · intro tx htx tx' htx' hfate hfate' hsame
    exact h.unique tx (hlanded tx htx hfate) tx' (hlanded tx' htx' hfate') hfate hfate' hsame

theorem Ok.foreign (h : w.Ok strict initial) (leaf : List UInt8) :
    Ok strict initial { w with leaves := w.leaves ++ [leaf] } := by
  have hlength : (w.leaves ++ [leaf]).length = w.leaves.length + 1 := by simp
  refine ⟨h.sent, ?_, h.notesOk.mono (fun _ hn => hn) rfl rfl rfl, ?_, h.unique⟩
  · intro hstrict hash tx htx halive
    refine h.kept hstrict hash tx htx (halive.imp_right fun hpending => ⟨hpending.1, ?_⟩)
    have hle : (w.leaves ++ [leaf]).length ≤ tx.deposit.leafIndex := hpending.2
    omega
  · intro tx htx hfate
    have hlt := h.indexed tx htx hfate
    show tx.deposit.leafIndex < (w.leaves ++ [leaf]).length
    omega

/-! ### The store -/

theorem Ok.load (h : w.Ok strict initial) {entry : StoredNote} {content : List StoredNote}
    (hk : w.queue[k]? = some ⟨some entry, content⟩) :
    Ok strict initial { w with queue := w.queue.set k ⟨some entry, App.sdk.put entry w.notes⟩ } := by
  have hbacked := (h.notesOk.entry _ (List.mem_of_getElem? hk) entry rfl).1
  refine ⟨h.sent, ?_, ⟨h.notesOk.noted, h.notesOk.held, ?_, ?_⟩, h.indexed, h.unique⟩
  · intro hstrict hash tx htx halive
    rcases h.kept hstrict hash tx htx halive with hnoted | hwaits | ⟨x, hx, n, hn, hof⟩
    · exact .inl hnoted
    · exact .inr (.inl hwaits)
    · rcases mem_of_set (b := (⟨some entry, App.sdk.put entry w.notes⟩ : Write)) hk hx with rfl | hx
      · exact .inr (.inr ⟨_, List.mem_set (List.getElem?_eq_some_iff.mp hk).1 _, n, hn, hof⟩)
      · exact .inr (.inr ⟨x, hx, n, hn, hof⟩)
  · intro x hx
    rcases List.mem_or_eq_of_mem_set hx with hx | rfl
    · exact h.notesOk.content x hx
    · exact h.notesOk.put .sdk hbacked
  · intro x hx n hn
    rcases List.mem_or_eq_of_mem_set hx with hx | rfl
    · exact h.notesOk.entry x hx n hn
    · obtain rfl := Option.some.inj hn
      exact ⟨hbacked, mem_put_self .sdk entry _⟩

/-- A write that lands has all notes that are stored, except one for the leaf of its own. -/
theorem Ok.persist (h : w.Ok strict initial) {x : Write} (hk : w.queue[k]? = some x)
    (hfaithful : strict → w.faithful (.persist k) = true) :
    Ok strict initial { w with
      notes := x.content, queue := w.queue.eraseIdx k, written := w.written ++ x.entry.toList } := by
  have hx : x ∈ w.queue := List.mem_of_getElem? hk
  have hrest : ∀ y ∈ w.queue.eraseIdx k, y ∈ w.queue := fun y hy => List.mem_of_mem_eraseIdx hy
  refine ⟨h.sent, ?_, ⟨h.notesOk.content x hx, h.notesOk.held, fun y hy => h.notesOk.content y (hrest y hy),
    fun y hy => h.notesOk.entry y (hrest y hy)⟩, h.indexed, h.unique⟩
  intro hstrict hash tx htx halive
  rcases h.kept hstrict hash tx htx halive with ⟨n, hn, hof⟩ | hwaits | ⟨y, hy, n, hn, hof⟩
  · have hkeeps := hfaithful hstrict
    simp only [faithful, hk] at hkeeps
    rcases Bool.or_eq_true_iff.mp (List.all_eq_true.mp hkeeps n hn) with hthere | hreplaced
    · exact .inl ⟨n, of_decide_eq_true hthere, hof⟩
    · -- the leaf is taken, so that only one deposit can be there
      obtain ⟨entry, hentry, hslot⟩ := (Option.any_eq_true _ _).mp hreplaced
      simp only [StoredNote.sameSlot, Bool.and_eq_true, decide_eq_true_eq] at hslot
      obtain ⟨⟨tx', htx', hlanded', hof'⟩, hcontent⟩ := h.notesOk.entry x hx entry hentry
      have hindex : tx.deposit.leafIndex = tx'.deposit.leafIndex := by
        rw [← hof.2.2.1, ← hof'.2.2.1]
        exact hslot.1.2
      have hlt := h.indexed tx' htx' hlanded'
      have hlanded : tx.fate = .landed := by
        refine halive.resolve_right fun hpending => ?_
        have hle : w.leaves.length ≤ tx.deposit.leafIndex := hpending.2
        omega
      have hsame := h.unique tx (List.mem_of_getElem? htx) tx' htx' hlanded hlanded' hindex
      exact .inl ⟨entry, hcontent, hsame ▸ hof'⟩
  · exact .inr (.inl hwaits)
  · rcases mem_of_eraseIdx hk hy with rfl | hy
    · exact .inl ⟨n, (h.notesOk.entry y hx n hn).2, hof⟩
    · exact .inr (.inr ⟨y, hy, n, hn, hof⟩)

theorem Ok.lose (h : w.Ok strict initial) (hfaithful : strict → w.faithful (.lose k) = true) :
    Ok strict initial { w with queue := w.queue.eraseIdx k } := by
  have hrest : ∀ y ∈ w.queue.eraseIdx k, y ∈ w.queue := fun y hy => List.mem_of_mem_eraseIdx hy
  refine ⟨h.sent, ?_, ⟨h.notesOk.noted, h.notesOk.held, fun y hy => h.notesOk.content y (hrest y hy),
    fun y hy => h.notesOk.entry y (hrest y hy)⟩, h.indexed, h.unique⟩
  intro hstrict hash tx htx halive
  rcases h.kept hstrict hash tx htx halive with hnoted | hwaits | ⟨x, hx, n, hn, hof⟩
  · exact .inl hnoted
  · exact .inr (.inl hwaits)
  · rcases hk : w.queue[k]? with - | y
    · refine .inr (.inr ⟨x, ?_, n, hn, hof⟩)
      show x ∈ w.queue.eraseIdx k
      rw [List.eraseIdx_of_length_le (List.getElem?_eq_none_iff.mp hk)]
      exact hx
    · rcases mem_of_eraseIdx hk hx with rfl | hx
      · have hthere := hfaithful hstrict
        simp only [faithful, hk, Option.bind_some, show x.entry = some n from hn,
          decide_eq_true_eq] at hthere
        exact .inl ⟨n, hthere, hof⟩
      · exact .inr (.inr ⟨x, hx, n, hn, hof⟩)

theorem Ok.crash (h : w.Ok strict initial) (hfaithful : strict → w.faithful .crash = true) :
    Ok strict initial { w with runs := [], queue := [], memory := [] } := by
  refine ⟨fun _ hrun => (List.not_mem_nil hrun).elim, ?_, ⟨h.notesOk.noted, nofun, nofun, nofun⟩, h.indexed,
    h.unique⟩
  intro hstrict hash tx htx halive
  have hthere := List.all_eq_true.mp (hfaithful hstrict) tx (List.mem_of_getElem? htx)
  have hdead : decide (w.Alive tx) = true := decide_eq_true halive
  rw [hdead, Bool.not_true, Bool.false_or] at hthere
  exact .inl (of_decide_eq_true hthere)

/-! ## Whole runs -/

theorem Ok.step (h : w.Ok strict initial) (input : WalletInput)
    (hfaithful : strict → w.faithful input = true) :
    Ok strict initial (w.step app deriveDeposit cfg input) := by
  cases input with
  | start request => exact h.start request
  | answer i a =>
    simp only [World.step]
    split
    · exact h
    next run hi =>
      split_ifs with hready
      · exact h.answer hi hready hfaithful
      · exact h
  | land hash =>
    simp only [World.step]
    split
    next d hget =>
      split_ifs with hindex
      · exact h.land hget hindex
      · exact h
    · exact h
  | drop hash =>
    simp only [World.step]
    split
    next d hget => exact h.drop hget
    · exact h
  | foreign commitment => exact h.foreign commitment
  | load k =>
    simp only [World.step]
    split
    next entry content hk => exact h.load hk
    · exact h
  | persist k =>
    simp only [World.step]
    split
    next x hk => exact h.persist hk hfaithful
    · exact h
  | lose k => exact h.lose hfaithful
  | switchAccount account =>
    have hsame : Ok strict initial { w with activeAccount := account } :=
      ⟨h.sent, h.kept, h.notesOk.mono (fun _ hn => hn) rfl rfl rfl, h.indexed, h.unique⟩
    cases app with
    | sdk => exact hsame
    | web => exact hsame.enqueue (x := ⟨none, w.memory⟩) hsame.notesOk.held nofun
  | crash => exact h.crash hfaithful
  | hydrate => exact h.hold h.notesOk.noted

theorem ok_start (strict : Prop) (leaves : List (List UInt8)) (notes : List StoredNote) :
    Ok strict notes { leaves := leaves, notes := notes } := by
  refine ⟨fun _ hrun => (List.not_mem_nil hrun).elim, ?_, ⟨fun _ hn => .inl hn, nofun, nofun, nofun⟩, nofun,
    nofun⟩
  intro _ hash tx htx
  cases htx

variable (app deriveDeposit cfg)

theorem ok_run (strict : Prop) (leaves : List (List UInt8)) (notes : List StoredNote)
    (inputs : List WalletInput)
    (hfaithful : strict → ∀ e ∈ (machine app deriveDeposit cfg).trace { leaves := leaves, notes := notes } inputs,
      e.pre.faithful e.input = true) :
    Ok strict notes ((machine app deriveDeposit cfg).final { leaves := leaves, notes := notes } inputs) :=
  (machine app deriveDeposit cfg).invariant_of_steps
    (P := fun e => strict → e.pre.faithful e.input = true) (I := fun _ w => Ok strict notes w)
    (ok_start strict leaves notes) (fun _ _ input h hstep => h.step input hstep) inputs
    (fun e he hstrict => hfaithful hstrict e he)

/-- Every deposit that has landed has its note in the store, unless a call still waits for it or its note
is being written. -/
def Survives (w : World) : Prop :=
  ∀ hash tx, w.txs[hash]? = some tx → tx.fate = .landed → w.Noted tx.deposit ∨ w.AtWork hash tx.deposit

/-- Every note that was not there from the start is for a deposit that has landed. -/
def Sound (notes : List StoredNote) (w : World) : Prop := ∀ n ∈ w.notes, n ∈ notes ∨ w.Backed n

end World

/-- **When secrets survive.** No run stores a note for a deposit that has not landed. And in a run whose
steps are all faithful, every deposit that lands has its note. -/
theorem deposit_secrets_survive (app : App) (deriveDeposit : ℤ → ℕ → ℕ → Secrets → Except Str ℕ)
    (cfg : PoolConfig) (leaves : List (List UInt8)) (notes : List StoredNote)
    (inputs : List WalletInput) :
    let w := (World.machine app deriveDeposit cfg).final { leaves := leaves, notes := notes } inputs
    w.Sound notes ∧
      ((∀ e ∈ (World.machine app deriveDeposit cfg).trace { leaves := leaves, notes := notes } inputs,
        e.pre.faithful e.input = true) → w.Survives) := by
  intro w
  constructor
  · exact (World.ok_run app deriveDeposit cfg False leaves notes inputs False.elim).notesOk.noted
  · intro hfaithful hash tx htx hlanded
    have hok := World.ok_run app deriveDeposit cfg True leaves notes inputs fun _ => hfaithful
    exact hok.kept trivial hash tx htx (.inl hlanded)

/-! ## Three deposits -/

/-- Commitments that are told apart by their leaves. -/
def demoDerive (_ : ℤ) (_ leafIndex : ℕ) (_ : Secrets) : Except Str ℕ := .ok leafIndex

def demoConfig : PoolConfig := ⟨['t'], ['p'], 1⟩

/-- From the count of the leaves to the poll. -/
def upToPoll : List WalletInput :=
  [.answer 0 (.count 0 ⟨['1'], ['2']⟩), .answer 0 .ok, .answer 0 .ok, .answer 0 .ok]

/-- A sweep of one chunk that is confirmed; then the page is closed. -/
def confirmedSweep : List WalletInput :=
  .start (.sweep ⟨['t'], 1000000, 1⟩) :: upToPoll ++
    [.land 0, .answer 0 (.confirmed 5), .persist 0, .crash]

theorem deposit_secrets_survive_confirmed :
    (∀ e ∈ (World.machine .web demoDerive demoConfig).trace { leaves := [], notes := [] } confirmedSweep,
      e.pre.faithful e.input = true) ∧
    ((World.machine .web demoDerive demoConfig).final { leaves := [], notes := [] } confirmedSweep).txs.map
      (·.fate) = [.landed] ∧
    ((World.machine .web demoDerive demoConfig).final
      { leaves := [], notes := [] } confirmedSweep).Survives := by
  have hfaithful : ∀ e ∈ (World.machine .web demoDerive demoConfig).trace
      { leaves := [], notes := [] } confirmedSweep, e.pre.faithful e.input = true := by decide
  exact ⟨hfaithful, by decide,
    (deposit_secrets_survive .web demoDerive demoConfig [] [] confirmedSweep).2 hfaithful⟩

/-- The poll gives up after a minute, and the transaction lands in the next. -/
def lateDeposit (request : Request) : List WalletInput :=
  .start request :: .answer 0 .ok :: upToPoll ++
    [.answer 0 (.failed "Transaction polling timed out".toList), .land 0]

/-- A sweep of two chunks, whose notes are written in the other order. -/
def reversedWrites : List WalletInput :=
  .start (.sweep ⟨['t'], 1000000, 2⟩) :: upToPoll ++ [.land 0, .answer 0 (.confirmed 5),
    .answer 0 (.count 1 ⟨['3'], ['4']⟩), .answer 0 .ok, .answer 0 .ok, .answer 0 .ok, .land 1,
    .answer 0 (.confirmed 6), .persist 1, .persist 0]

/-- A landed deposit that nobody works on and that has no note. -/
theorem World.not_survives {w : World} (hash : ℕ) (hlanded : w.txs[hash]?.map (·.fate) = some .landed)
    (hnotes : ∀ tx ∈ w.txs[hash]?, ¬ w.Noted tx.deposit) (hqueue : w.queue = [])
    (hruns : w.runs.map (·.stage.tx) = [none]) : ¬ w.Survives := by
  intro h
  obtain ⟨tx, htx, hfate⟩ := Option.map_eq_some_iff.mp hlanded
  rcases h hash tx htx hfate with hnoted | ⟨run, hrun, hwaits⟩ | ⟨x, hx, -⟩
  · exact hnotes tx htx hnoted
  · have hmem : run.stage.tx ∈ w.runs.map (·.stage.tx) := List.mem_map.mpr ⟨run, hrun, rfl⟩
    rw [hruns, hwaits] at hmem
    cases List.mem_singleton.mp hmem
  · rw [hqueue] at hx
    cases hx

/-- In either client a confirmation that comes too late leaves a deposit that nobody can spend. And in
the web client an older write that lands last takes a note away. -/
theorem deposit_secrets_not_always_survive :
    (¬ ∀ inputs : List WalletInput, ((World.machine .sdk demoDerive demoConfig).final
      { leaves := [], notes := [] } inputs).Survives) ∧
    (¬ ∀ inputs : List WalletInput, ((World.machine .web demoDerive demoConfig).final
      { leaves := [], notes := [] } inputs).Survives) ∧
    ¬ ((World.machine .web demoDerive demoConfig).final
      { leaves := [], notes := [] } reversedWrites).Survives := by
  refine ⟨?_, ?_, ?_⟩
  · intro h
    exact World.not_survives 0 (by decide) (by decide) rfl rfl
      (h (lateDeposit (.deposit { value := 5, skipValidation := true })))
  · intro h
    exact World.not_survives 0 (by decide) (by decide) rfl rfl
      (h (lateDeposit (.sweep ⟨['t'], 1000000, 1⟩)))
  · exact World.not_survives 1 (by decide) (by decide) rfl rfl

end OpaqueStellar.Wallet
