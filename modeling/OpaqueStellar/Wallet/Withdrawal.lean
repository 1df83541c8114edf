import OpaqueStellar.Pool.Nullifier
import OpaqueStellar.Wallet.Store

/-! # Withdrawals that go wrong half way

`withdraw`, `isNullifierSpent` and `reconcileWithdrawal` of `sdk/src/services/pool.ts`, with `invoke`, `poll` and
`simulateRead` of `sdk/src/rpc/client.ts`. Calls run side by side. Each step is one promise that settles, or the node
or the store doing what it was asked for, so that an effect can take place and its answer be lost.

Nodes report transactions as they are, and a signer signs what it is given. Notes are marked here and never added. -/

namespace OpaqueStellar.Wallet.Withdrawal

open OpaqueStellar.Lib OpaqueStellar.Soroban
open OpaqueStellar.Schemas (Str)
open OpaqueStellar.Pool (WithdrawArgs Invocation Host isSpent)

/-! ## Calls -/

structure WithdrawProofBundle where
  proofA : BytesN 64
  proofB : BytesN 128
  proofC : BytesN 64
  withdrawnValue : I128
  stateRoot : BytesN 32
  aspRoot : BytesN 32
  nullifierHash : BytesN 32
  newCommitment : BytesN 32
  deriving DecidableEq

structure WithdrawOptions where
  proof : WithdrawProofBundle
  recipient : Address
  fee : Option I128 := none
  relayer : Option Address := none
  noteCommitment : Option Str := none
  deriving DecidableEq

/-- `withdrawArgs`, with the defaults of `withdraw`. -/
def WithdrawOptions.args (opts : WithdrawOptions) : WithdrawArgs where
  proofA := opts.proof.proofA
  proofB := opts.proof.proofB
  proofC := opts.proof.proofC
  withdrawnValue := opts.proof.withdrawnValue
  stateRoot := opts.proof.stateRoot
  aspRoot := opts.proof.aspRoot
  nullifierHash := opts.proof.nullifierHash
  newCommitment := opts.proof.newCommitment
  recipient := opts.recipient
  fee := opts.fee.getD (I128.ofNat 0 (by decide))
  relayer := opts.relayer.getD opts.recipient

inductive Request where
  | withdraw (opts : WithdrawOptions)
  | reconcileWithdrawal (proof : WithdrawProofBundle) (noteCommitment : Str)
  deriving DecidableEq

namespace Request

def nullifierHash : Request → BytesN 32
  | .withdraw opts => opts.proof.nullifierHash
  | .reconcileWithdrawal proof _ => proof.nullifierHash

def args : Request → Option WithdrawArgs
  | .withdraw opts => some opts.args
  | .reconcileWithdrawal _ _ => none

/-- The note to mark; `withdraw` takes an empty commitment for none. -/
def noteCommitment : Request → Option Str
  | .withdraw opts => opts.noteCommitment.filter (· ≠ [])
  | .reconcileWithdrawal _ noteCommitment => some noteCommitment

theorem nullifierHash_args {request : Request} {args : WithdrawArgs} (h : request.args = some args) :
    args.nullifierHash = request.nullifierHash := by
  cases request with
  | withdraw opts =>
    cases h
    rfl
  | reconcileWithdrawal proof noteCommitment => cases h

end Request

/-- What a call returns. -/
inductive Value where
  | txHash (hash : ℕ)
  | reconciled (spent : Bool)
  deriving DecidableEq

/-- What a call awaits. -/
inductive Stage where
  -- `signer.publicKey()`
  | opening
  -- `getAccount`, `simulateTransaction` and `signTransaction` of `invoke`
  | loading
  | simulating
  | signing
  -- `sendTransaction`, before and after the node has got it
  | sending (args : WithdrawArgs)
  | sent (hash : ℕ)
  -- `poll`
  | polling (hash : ℕ)
  -- `resolveReadSource`, then `getAccount` of `simulateRead`
  | resolving
  | loadingSource
  -- `simulateTransaction` of `is_spent`, before and after the node has run it
  | reading
  | fetched (spent : Bool)
  -- `notes.markSpent`, before and after the store has written
  | marking (commitment : Str) (value : Value)
  | written (commitment : Str) (value : Value)
  | returned (value : Value)
  | rejected
  deriving DecidableEq

def Request.start : Request → Stage
  | .withdraw _ => .opening
  | .reconcileWithdrawal _ _ => .resolving

structure Call where
  request : Request
  stage : Stage
  deriving DecidableEq

inductive Event where
  -- the node or the store does what it was asked for
  | performs
  | resolves
  -- also a time out, a transaction that failed, and telemetry that throws
  | rejects
  deriving DecidableEq

/-! ## The wallet and the pool -/

inductive Fate where
  | pending
  | succeeded
  -- refused by the pool, or expired
  | failed
  deriving DecidableEq

/-- A transaction that a node has got. Its hash is its place among them. -/
structure Tx where
  args : WithdrawArgs
  fate : Fate

structure World where
  pool : Pool.World
  notes : List PoolNote
  txs : List Tx := []
  calls : List Call := []

inductive Input where
  | call (request : Request)
  | event (i : ℕ) (event : Event)
  -- a ledger includes a transaction
  | land (hash : ℕ) (env : Env)
  | expire (hash : ℕ)
  -- what else happens to the pool
  | invoke (inv : Invocation)

namespace World

variable (host : Host) (w : World)

/-- `getTransaction` answers `SUCCESS`. -/
def succeeded (hash : ℕ) : Bool := w.txs[hash]?.any fun tx => tx.fate = .succeeded

/-- `if (noteCommitment) await this.ctx.notes.markSpent(noteCommitment)` -/
def mark (request : Request) (value : Value) : Stage :=
  match request.noteCommitment with
  | some commitment => .marking commitment value
  | none => .returned value

/-- Where a call is after an event; what cannot happen where it is leaves it there. -/
def next (request : Request) : Stage → Event → Stage
  | .opening, .resolves => .loading
  | .loading, .resolves => .simulating
  | .simulating, .resolves => .signing
  | .signing, .resolves =>
      match request.args with
      | some args => .sending args
      | none => .signing
  | .sending _, .performs => .sent w.txs.length
  | .sent hash, .resolves => .polling hash
  | .polling hash, .resolves => if w.succeeded hash then mark request (.txHash hash) else .polling hash
  | .resolving, .resolves => .loadingSource
  | .loadingSource, .resolves => .reading
  | .reading, .performs => .fetched (isSpent w.pool.pool request.nullifierHash)
  | .fetched spent, .resolves => if spent then mark request (.reconciled true) else .returned (.reconciled false)
  | .marking commitment value, .performs => .written commitment value
  | .written _ value, .resolves => .returned value
  | .returned value, _ => .returned value
  | _, .rejects => .rejected
  | stage, _ => stage

def perform : Stage → Event → World
  | .sending args, .performs => { w with txs := w.txs ++ [⟨args, .pending⟩] }
  | .marking commitment _, .performs => { w with notes := markNotesSpent commitment w.notes }
  | _, _ => w

/-- A pending transaction is run. -/
def land (hash : ℕ) (env : Env) : World :=
  match w.txs[hash]? with
  | some ⟨args, .pending⟩ =>
      let (pool, outcome) := Pool.step host w.pool ⟨env, .withdraw args⟩
      { w with
        pool := pool
        txs := w.txs.set hash ⟨args, match outcome with
          | .ok _ => .succeeded
          | .error _ => .failed⟩ }
  | _ => w

def expire (hash : ℕ) : World :=
  match w.txs[hash]? with
  | some ⟨args, .pending⟩ => { w with txs := w.txs.set hash ⟨args, .failed⟩ }
  | _ => w

def step : Input → World
  | .call request => { w with calls := w.calls ++ [⟨request, request.start⟩] }
  | .event i event =>
      match w.calls[i]? with
      | some call =>
          { w.perform call.stage event with
            calls := w.calls.set i { call with stage := w.next call.request call.stage event } }
      | none => w
  | .land hash env => w.land host hash env
  | .expire hash => w.expire hash
  | .invoke inv => { w with pool := (Pool.step host w.pool inv).1 }

end World

def machine (host : Host) : Machine World Input Unit := ⟨fun w input => (w.step host input, ())⟩

abbrev Trace := List (Machine.Step World Input Unit)

/-! ## What happens to the notes -/

/-- A note is as it was, or it was marked and its nullifier is spent. -/
def Flagged (hashNullifier : Str → BytesN 32) (s : Pool.PoolState) (n n' : PoolNote) : Prop :=
  n' = n ∨ n' = { n with spent := true } ∧ isSpent s (hashNullifier n.nullifier) = true

/-- All notes with this commitment are marked. -/
def Marked (commitment : Str) (notes : List PoolNote) : Prop :=
  ∀ n ∈ notes, n.commitment = commitment → n.spent = true

/-- A call is made for the note that its proof spends. -/
def Request.Owns (hashNullifier : Str → BytesN 32) (notes : List PoolNote) (request : Request) : Prop :=
  ∀ n ∈ notes, request.noteCommitment = some n.commitment → hashNullifier n.nullifier = request.nullifierHash

/-- No step of a call changed the notes. -/
def LeavesNotes (host : Host) (i : ℕ) (t : Trace) : Prop :=
  ∀ e ∈ t, ∀ event, e.input = .event i event → (e.pre.step host e.input).notes = e.pre.notes

/-- The store failed a call after it had written. -/
def StoreFailed (i : ℕ) (t : Trace) : Prop :=
  ∃ e ∈ t, e.input = .event i .rejects ∧
    ∃ request commitment value, e.pre.calls[i]? = some ⟨request, .written commitment value⟩

/-- A call read whether the nullifier was spent, and that was the case or not. -/
def HasRead (i : ℕ) (t : Trace) (nullifierHash : BytesN 32) (spent : Bool) : Prop :=
  ∃ e ∈ t, e.input = .event i .performs ∧ (∃ request, e.pre.calls[i]? = some ⟨request, .reading⟩) ∧
    isSpent e.pre.pool.pool nullifierHash = spent

theorem marked_markNotesSpent (commitment : Str) (notes : List PoolNote) :
    Marked commitment (markNotesSpent commitment notes) := by
  intro n hn hcommitment
  obtain ⟨m, -, rfl⟩ := List.mem_map.mp hn
  split at hcommitment
  · rw [if_pos ‹_›]
  · contradiction

theorem Marked.markNotesSpent {commitment : Str} {notes : List PoolNote} (h : Marked commitment notes)
    (commitment' : Str) : Marked commitment (markNotesSpent commitment' notes) := by
  intro n hn hcommitment
  obtain ⟨m, hm, rfl⟩ := List.mem_map.mp hn
  split at hcommitment
  · rw [if_pos ‹_›]
  · rw [if_neg ‹_›]
    exact h m hm hcommitment

/-- Marking again changes nothing. -/
theorem Marked.eq {commitment : Str} {notes : List PoolNote} (h : Marked commitment notes) :
    Wallet.markNotesSpent commitment notes = notes := by
  unfold Wallet.markNotesSpent
  refine (List.map_congr_left fun n hn => ?_).trans (List.map_id _)
  split
  · next hcommitment =>
    have hspent := h n hn hcommitment
    cases n
    cases hspent
    rfl
  · rfl

section Steps

variable {host : Host} {hashNullifier : Str → BytesN 32} {notes : List PoolNote} {w w' : World} {t : Trace} {i : ℕ}
  {request : Request}

/-- Only the write of the store changes the notes. -/
theorem notes_perform (w : World) (stage : Stage) (event : Event) :
    (w.perform stage event).notes = w.notes ∨
      ∃ commitment value, stage = .marking commitment value ∧ event = .performs ∧
        (w.perform stage event).notes = markNotesSpent commitment w.notes := by
  unfold World.perform
  split
  · exact .inl rfl
  · exact .inr ⟨_, _, rfl, rfl, rfl⟩
  · exact .inl rfl

@[simp] theorem pool_perform (w : World) (stage : Stage) (event : Event) : (w.perform stage event).pool = w.pool := by
  unfold World.perform
  split <;> rfl

theorem step_of_some {call : Call} {event : Event} (h : w.calls[i]? = some call) :
    w.step host (.event i event) = { w.perform call.stage event with
      calls := w.calls.set i { call with stage := w.next call.request call.stage event } } := by
  simp [World.step, h]

theorem step_of_none {event : Event} (h : w.calls[i]? = none) : w.step host (.event i event) = w := by
  simp [World.step, h]

/-- What a step may do to the notes. -/
theorem notes_step (host : Host) (w : World) (input : Input) :
    (w.step host input).notes = w.notes ∨
      ∃ i request commitment value, input = .event i .performs ∧
        w.calls[i]? = some ⟨request, .marking commitment value⟩ ∧
        (w.step host input).notes = markNotesSpent commitment w.notes := by
  cases input with
  | event i event =>
    cases hcall : w.calls[i]? with
    | none => exact .inl (congrArg World.notes (step_of_none hcall))
    | some call =>
      rw [step_of_some hcall]
      rcases notes_perform w call.stage event with hsame | ⟨commitment, value, hstage, rfl, hmarked⟩
      · exact .inl hsame
      · refine .inr ⟨i, call.request, commitment, value, rfl, ?_, hmarked⟩
        rw [hcall, ← hstage]
  | land hash env =>
    left
    show (w.land host hash env).notes = _
    unfold World.land
    split <;> rfl
  | expire hash =>
    left
    show (w.expire hash).notes = _
    unfold World.expire
    split <;> rfl
  | call request => exact .inl rfl
  | invoke inv => exact .inl rfl

/-- One moment and a later one. -/
structure Later (w w' : World) : Prop where
  spent : ∀ nullifierHash, isSpent w.pool.pool nullifierHash = true → isSpent w'.pool.pool nullifierHash = true
  marked : ∀ commitment, Marked commitment w.notes → Marked commitment w'.notes
  txs : ∀ (hash : ℕ) (args : WithdrawArgs) (fate : Fate), w.txs[hash]? = some ⟨args, fate⟩ →
    ∃ fate', w'.txs[hash]? = some ⟨args, fate'⟩

theorem getElem?_set_tx {txs : List Tx} {hash hash' : ℕ} {args args' : WithdrawArgs} {fate fate' fate'' : Fate}
    (h : txs[hash]? = some ⟨args, fate⟩) (h' : txs[hash']? = some ⟨args', fate'⟩) :
    ∃ fate, (txs.set hash ⟨args, fate''⟩)[hash']? = some ⟨args', fate⟩ := by
  by_cases heq : hash = hash'
  · subst heq
    cases h.symm.trans h'
    exact ⟨fate'', by rw [List.getElem?_set_self (List.getElem?_eq_some_iff.mp h).1]⟩
  · exact ⟨fate', by rwa [List.getElem?_set_ne heq]⟩

theorem later_step (host : Host) (w : World) (input : Input) : Later w (w.step host input) := by
  refine ⟨fun nullifierHash h => ?_, fun commitment h => ?_, fun hash' args' fate' h => ?_⟩
  · cases input with
    | event i event =>
      cases hcall : w.calls[i]? with
      | none => rwa [step_of_none hcall]
      | some call =>
        rw [step_of_some hcall]
        simpa using h
    | land hash env =>
      show isSpent (w.land host hash env).pool.pool nullifierHash = true
      unfold World.land
      split
      · exact Pool.isSpent_step w.pool _ h
      · exact h
    | expire hash =>
      show isSpent (w.expire hash).pool.pool nullifierHash = true
      unfold World.expire
      split <;> exact h
    | call request => exact h
    | invoke inv => exact Pool.isSpent_step w.pool inv h
  · rcases notes_step host w input with hsame | ⟨i, request, commitment', value, -, -, hmarked⟩
    · rwa [hsame]
    · rw [hmarked]
      exact h.markNotesSpent commitment'
  · cases input with
    | event i event =>
      cases hcall : w.calls[i]? with
      | none => exact ⟨fate', by rwa [step_of_none hcall]⟩
      | some call =>
        rw [step_of_some hcall]
        show ∃ fate, (w.perform call.stage event).txs[hash']? = _
        unfold World.perform
        split
        · exact ⟨fate', (List.getElem?_append_left (List.getElem?_eq_some_iff.mp h).1).trans h⟩
        · exact ⟨fate', h⟩
        · exact ⟨fate', h⟩
    | land hash env =>
      show ∃ fate, (w.land host hash env).txs[hash']? = _
      unfold World.land
      split
      · next htx => exact getElem?_set_tx htx h
      · exact ⟨fate', h⟩
    | expire hash =>
      show ∃ fate, (w.expire hash).txs[hash']? = _
      unfold World.expire
      split
      · next htx => exact getElem?_set_tx htx h
      · exact ⟨fate', h⟩
    | call request => exact ⟨fate', h⟩
    | invoke inv => exact ⟨fate', h⟩

end Steps

/-! ## What a call knows -/

section Stages

variable (host : Host) (i : ℕ) (t : Trace) (w : World) (request : Request)

/-- A call that is about to mark a note, or that has: the nullifier is spent, and a reconciliation has read that. -/
structure Confirms (commitment : Str) (value : Value) : Prop where
  note : request.noteCommitment = some commitment
  spent : isSpent w.pool.pool request.nullifierHash = true
  read : ∀ spent, value = .reconciled spent → spent = true ∧ HasRead i t request.nullifierHash true

/-- The invariant of one call. Until it marks, it has left the notes alone. -/
def StageOk : Stage → Prop
  | .sending args => LeavesNotes host i t ∧ request.args = some args
  | .sent hash | .polling hash => LeavesNotes host i t ∧
      ∃ args fate, request.args = some args ∧ w.txs[hash]? = some ⟨args, fate⟩
  | .fetched spent => LeavesNotes host i t ∧ HasRead i t request.nullifierHash spent ∧
      (spent = true → isSpent w.pool.pool request.nullifierHash = true)
  | .marking commitment value => LeavesNotes host i t ∧ Confirms i t w request commitment value
  | .written commitment value => Marked commitment w.notes ∧ Confirms i t w request commitment value
  | .returned (.txHash _) => True
  | .returned (.reconciled true) => HasRead i t request.nullifierHash true ∧
      ∀ commitment, request.noteCommitment = some commitment → Marked commitment w.notes
  | .returned (.reconciled false) => LeavesNotes host i t ∧ HasRead i t request.nullifierHash false
  | .rejected => LeavesNotes host i t ∨ StoreFailed i t
  | _ => LeavesNotes host i t

variable {host i t w request} {w' : World} {e : Machine.Step World Input Unit} {stage : Stage} {event : Event}

theorem LeavesNotes.snoc (h : LeavesNotes host i t)
    (he : ∀ event, e.input = .event i event → (e.pre.step host e.input).notes = e.pre.notes) :
    LeavesNotes host i (t ++ [e]) := by
  intro e' he'
  rcases List.mem_append.mp he' with hold | hnew
  · exact h e' hold
  · obtain rfl := List.mem_singleton.mp hnew
    exact he

theorem StoreFailed.snoc (h : StoreFailed i t) : StoreFailed i (t ++ [e]) := by
  obtain ⟨e', he', hrest⟩ := h
  exact ⟨e', List.mem_append_left _ he', hrest⟩

theorem HasRead.snoc {nullifierHash : BytesN 32} {spent : Bool} (h : HasRead i t nullifierHash spent) :
    HasRead i (t ++ [e]) nullifierHash spent := by
  obtain ⟨e', he', hrest⟩ := h
  exact ⟨e', List.mem_append_left _ he', hrest⟩

theorem Confirms.later {commitment : Str} {value : Value} (h : Confirms i t w request commitment value)
    (hlater : Later w w') : Confirms i (t ++ [e]) w' request commitment value := by
  refine ⟨h.note, hlater.spent _ h.spent, fun spent hvalue => ?_⟩
  obtain ⟨hspent, hread⟩ := h.read spent hvalue
  exact ⟨hspent, hread.snoc⟩

/-- What a call knows stays true. -/
theorem StageOk.later (h : StageOk host i t w request stage) (hlater : Later w w')
    (he : ∀ event, e.input = .event i event → (e.pre.step host e.input).notes = e.pre.notes) :
    StageOk host i (t ++ [e]) w' request stage := by
  cases stage with
  | sending args => exact ⟨h.1.snoc he, h.2⟩
  | sent hash | polling hash =>
    obtain ⟨hleaves, args, fate, hargs, htx⟩ := h
    obtain ⟨fate', htx'⟩ := hlater.txs hash args fate htx
    exact ⟨hleaves.snoc he, args, fate', hargs, htx'⟩
  | fetched spent => exact ⟨h.1.snoc he, h.2.1.snoc, fun hspent => hlater.spent _ (h.2.2 hspent)⟩
  | marking commitment value => exact ⟨h.1.snoc he, h.2.later hlater⟩
  | written commitment value => exact ⟨hlater.marked _ h.1, h.2.later hlater⟩
  | returned value =>
    cases value with
    | txHash hash => trivial
    | reconciled spent =>
      cases spent with
      | true => exact ⟨h.1.snoc, fun commitment hnote => hlater.marked _ (h.2 commitment hnote)⟩
      | false => exact ⟨h.1.snoc he, h.2.snoc⟩
  | rejected => exact h.imp (fun hleaves => hleaves.snoc he) StoreFailed.snoc
  | _ => exact LeavesNotes.snoc h he

/-- A call that has not begun to mark has left the notes alone. -/
theorem StageOk.leaves (h : StageOk host i t w request stage)
    (hwritten : ∀ commitment value, stage ≠ .written commitment value)
    (hreturned : ∀ value, stage ≠ .returned value) (hrejected : stage ≠ .rejected) : LeavesNotes host i t := by
  cases stage with
  | sending args | sent hash | polling hash | fetched spent | marking commitment value => exact h.1
  | written commitment value => exact absurd rfl (hwritten commitment value)
  | returned value => exact absurd rfl (hreturned value)
  | rejected => exact absurd rfl hrejected
  | _ => exact h

/-- Before a call marks its note, if it has one. -/
theorem stageOk_mark {value : Value} (hleaves : LeavesNotes host i t)
    (hspent : isSpent w.pool.pool request.nullifierHash = true)
    (hread : ∀ spent, value = .reconciled spent → spent = true ∧ HasRead i t request.nullifierHash true) :
    StageOk host i t w request (World.mark request value) := by
  unfold World.mark
  cases hnote : request.noteCommitment with
  | some commitment => exact ⟨hleaves, hnote, hspent, hread⟩
  | none =>
    cases value with
    | txHash hash => trivial
    | reconciled spent =>
      obtain ⟨rfl, htrue⟩ := hread spent rfl
      refine ⟨htrue, fun commitment hsome => ?_⟩
      rw [hnote] at hsome
      cases hsome

/-- **One step of a call**: what it knows afterwards. -/
theorem stageOk_next (htxs : ∀ tx ∈ w.txs, tx.fate = .succeeded → isSpent w.pool.pool tx.args.nullifierHash = true)
    (hcall : w.calls[i]? = some ⟨request, stage⟩) (h : StageOk host i t w request stage) (event : Event) :
    StageOk host i (t ++ [(machine host).stepAt w (.event i event)]) (w.step host (.event i event)) request
      (w.next request stage event) := by
  have hlater := later_step host w (.event i event)
  have hstep : w.step host (.event i event) = _ := step_of_some hcall
  have hlast : (machine host).stepAt w (.event i event) ∈ t ++ [(machine host).stepAt w (.event i event)] :=
    List.mem_append_right _ List.mem_cons_self
  by_cases hwrite : ∃ commitment value, stage = .marking commitment value ∧ event = .performs
  · obtain ⟨commitment, value, rfl, rfl⟩ := hwrite
    refine ⟨?_, h.2.later hlater⟩
    rw [hstep]
    exact marked_markNotesSpent commitment w.notes
  · have hsame : (w.step host (.event i event)).notes = w.notes := by
      rw [hstep]
      rcases notes_perform w stage event with hsame | ⟨commitment, value, hstage, hevent, -⟩
      · exact hsame
      · exact absurd ⟨commitment, value, hstage, hevent⟩ hwrite
    have hcarry : StageOk host i (t ++ [(machine host).stepAt w (.event i event)]) (w.step host (.event i event))
        request stage := h.later hlater fun _ _ => hsame
    cases event with
    | rejects =>
      cases stage with
      | written commitment value => exact .inr ⟨_, hlast, rfl, request, commitment, value, hcall⟩
      | returned value => exact hcarry
      | rejected => exact hcarry
      | _ => exact .inl (hcarry.leaves (by simp) (by simp) (by simp))
    | performs =>
      cases stage with
      | sending args =>
        refine ⟨hcarry.1, args, .pending, hcarry.2, ?_⟩
        rw [hstep]
        exact List.getElem?_concat_length
      | reading =>
        refine ⟨hcarry, ⟨_, hlast, rfl, ⟨request, hcall⟩, rfl⟩, fun hspent => hlater.spent _ hspent⟩
      | marking commitment value => exact absurd ⟨commitment, value, rfl, rfl⟩ hwrite
      | _ => exact hcarry
    | resolves =>
      cases stage with
      | signing =>
        cases hargs : request.args with
        | some args =>
          simp only [World.next, hargs]
          exact ⟨hcarry, hargs⟩
        | none =>
          simp only [World.next, hargs]
          exact hcarry
      | polling hash =>
        simp only [World.next]
        split
        · next hsucceeded =>
          obtain ⟨-, args, fate, hargs, htx⟩ := h
          have hfate : fate = .succeeded := by simpa [World.succeeded, htx] using hsucceeded
          have hspent := htxs _ (List.mem_of_getElem? htx) hfate
          rw [Request.nullifierHash_args hargs] at hspent
          refine stageOk_mark hcarry.1 (hlater.spent _ hspent) fun spent hvalue => ?_
          cases hvalue
        · exact hcarry
      | fetched spent =>
        obtain ⟨hleaves, hread, hspent⟩ := hcarry
        cases spent with
        | true =>
          refine stageOk_mark hleaves (hspent rfl) fun spent hvalue => ?_
          cases hvalue
          exact ⟨rfl, hread⟩
        | false => exact ⟨hleaves, hread⟩
      | written commitment value =>
        obtain ⟨hmarked, hconfirms⟩ := hcarry
        cases value with
        | txHash hash => trivial
        | reconciled spent =>
          obtain ⟨rfl, hread⟩ := hconfirms.read spent rfl
          refine ⟨hread, fun commitment' hnote => ?_⟩
          rw [hconfirms.note] at hnote
          cases hnote
          exact hmarked
      | _ => exact hcarry

end Stages

/-! ## Runs -/

/-- The invariant of the wallet, for the notes it started with. -/
structure Inv (host : Host) (hashNullifier : Str → BytesN 32) (initial : List PoolNote) (t : Trace) (w : World) :
    Prop where
  notes : List.Forall₂ (Flagged hashNullifier w.pool.pool) initial w.notes
  txs : ∀ tx ∈ w.txs, tx.fate = .succeeded → isSpent w.pool.pool tx.args.nullifierHash = true
  calls : ∀ i call, w.calls[i]? = some call →
    call.request.Owns hashNullifier initial ∧ StageOk host i t w call.request call.stage
  -- there is no event of a call before the call
  fresh : ∀ i, w.calls.length ≤ i → LeavesNotes host i t

section Runs

variable {host : Host} {hashNullifier : Str → BytesN 32} {notes notes' : List PoolNote} {t : Trace} {w : World}

theorem Flagged.later {s s' : Pool.PoolState} {n n' : PoolNote} (h : Flagged hashNullifier s n n')
    (hspent : ∀ nullifierHash, isSpent s nullifierHash = true → isSpent s' nullifierHash = true) :
    Flagged hashNullifier s' n n' :=
  h.imp_right fun hmarked => ⟨hmarked.1, hspent _ hmarked.2⟩

/-- Marking a commitment whose notes are spent. -/
theorem flagged_markNotesSpent {s : Pool.PoolState} {commitment : Str}
    (h : List.Forall₂ (Flagged hashNullifier s) notes notes')
    (hspent : ∀ n ∈ notes, n.commitment = commitment → isSpent s (hashNullifier n.nullifier) = true) :
    List.Forall₂ (Flagged hashNullifier s) notes (markNotesSpent commitment notes') := by
  induction h with
  | nil => exact List.Forall₂.nil
  | @cons n n' notes notes' hflagged hrest ih =>
    refine List.Forall₂.cons ?_ (ih fun m hm => hspent m (List.mem_cons_of_mem _ hm))
    have hcommitment : n'.commitment = n.commitment := by
      rcases hflagged with rfl | ⟨rfl, -⟩ <;> rfl
    dsimp only
    split
    · next heq =>
      have hn := hspent n List.mem_cons_self (hcommitment.symm.trans heq)
      rcases hflagged with rfl | ⟨rfl, -⟩ <;> exact .inr ⟨rfl, hn⟩
    · exact hflagged

/-- A transaction that succeeded has spent its nullifier. -/
theorem txs_step (h : ∀ tx ∈ w.txs, tx.fate = .succeeded → isSpent w.pool.pool tx.args.nullifierHash = true)
    (input : Input) : ∀ tx ∈ (w.step host input).txs, tx.fate = .succeeded →
      isSpent (w.step host input).pool.pool tx.args.nullifierHash = true := by
  intro tx htx hfate
  have hlater := later_step host w input
  have hold : tx ∈ w.txs → isSpent (w.step host input).pool.pool tx.args.nullifierHash = true :=
    fun hmem => hlater.spent _ (h tx hmem hfate)
  cases input with
  | event i event =>
    cases hcall : w.calls[i]? with
    | none => exact hold (by rwa [step_of_none hcall] at htx)
    | some call =>
      rw [step_of_some hcall] at htx
      have hperform : tx ∈ (w.perform call.stage event).txs := htx
      unfold World.perform at hperform
      split at hperform
      · rcases List.mem_append.mp hperform with hmem | hnew
        · exact hold hmem
        · obtain rfl := List.mem_singleton.mp hnew
          cases hfate
      · exact hold hperform
      · exact hold hperform
  | land hash env =>
    have hland : tx ∈ (w.land host hash env).txs := htx
    show isSpent (w.land host hash env).pool.pool tx.args.nullifierHash = true
    unfold World.land at hland ⊢
    split at hland
    · next args hpending =>
      rcases List.mem_or_eq_of_mem_set hland with hmem | rfl
      · exact Pool.isSpent_step w.pool _ (h tx hmem hfate)
      · rcases Pool.step_cases host w.pool ⟨env, .withdraw args⟩ with ⟨failure, hstep⟩ | ⟨pool, r, hstep, heffect⟩
        · simp [hstep] at hfate
        · simpa [hstep] using Pool.isSpent_of_withdraw heffect
    · exact h tx hland hfate
  | expire hash =>
    have hexpire : tx ∈ (w.expire hash).txs := htx
    unfold World.expire at hexpire
    split at hexpire
    · rcases List.mem_or_eq_of_mem_set hexpire with hmem | rfl
      · exact hold hmem
      · cases hfate
    · exact hold hexpire
  | call request => exact hold htx
  | invoke inv => exact hold htx

/-- The calls after a step that is not an event of one. -/
theorem calls_step (host : Host) (w : World) (input : Input) (hinput : ∀ i event, input ≠ .event i event) :
    (∃ request, input = .call request ∧ (w.step host input).calls = w.calls ++ [⟨request, request.start⟩]) ∨
      (w.step host input).calls = w.calls := by
  cases input with
  | event i event => exact absurd rfl (hinput i event)
  | call request => exact .inl ⟨request, rfl, rfl⟩
  | land hash env =>
    right
    show (w.land host hash env).calls = w.calls
    unfold World.land
    split <;> rfl
  | expire hash =>
    right
    show (w.expire hash).calls = w.calls
    unfold World.expire
    split <;> rfl
  | invoke inv => exact .inr rfl

theorem length_calls_step (input : Input) : w.calls.length ≤ (w.step host input).calls.length := by
  by_cases hevent : ∃ i event, input = .event i event
  · obtain ⟨i, event, rfl⟩ := hevent
    cases hcall : w.calls[i]? with
    | none => rw [step_of_none hcall]
    | some call =>
      rw [step_of_some hcall]
      show _ ≤ (w.calls.set i _).length
      rw [List.length_set]
  · rcases calls_step host w input fun i event heq => hevent ⟨i, event, heq⟩ with
      ⟨request, -, hcalls⟩ | hcalls
    · simp [hcalls]
    · rw [hcalls]

theorem inv_start (host : Host) (hashNullifier : Str → BytesN 32) (pool : Pool.World) (notes : List PoolNote) :
    Inv host hashNullifier notes [] { pool := pool, notes := notes } := by
  refine ⟨?_, ?_, ?_, ?_⟩
  · exact List.forall₂_same.mpr fun n _ => .inl rfl
  · intro tx htx
    cases htx
  · intro i call hcall
    cases hcall
  · intro i _ e he
    cases he

theorem inv_step (h : Inv host hashNullifier notes t w) (input : Input)
    (howns : ∀ request, input = .call request → request.Owns hashNullifier notes) :
    Inv host hashNullifier notes (t ++ [(machine host).stepAt w input]) (w.step host input) := by
  have hlater := later_step host w input
  refine ⟨?_, txs_step h.txs input, ?_, ?_⟩
  · have hflagged : List.Forall₂ (Flagged hashNullifier (w.step host input).pool.pool) notes w.notes :=
      h.notes.imp fun n n' hn => hn.later hlater.spent
    rcases notes_step host w input with hsame | ⟨i, request, commitment, value, rfl, hcall, hmarked⟩
    · rwa [hsame]
    · rw [hmarked]
      obtain ⟨hrequest, hstage⟩ := h.calls i _ hcall
      refine flagged_markNotesSpent hflagged fun n hn hcommitment => hlater.spent _ ?_
      have hnote : request.noteCommitment = some n.commitment := by rw [hcommitment]; exact hstage.2.note
      rw [hrequest n hn hnote]
      exact hstage.2.spent
  · intro j call hj
    by_cases hevent : ∃ i event, input = .event i event
    · obtain ⟨i, event, rfl⟩ := hevent
      cases hcall : w.calls[i]? with
      | none =>
        have hsame : (w.step host (.event i event)).notes = w.notes := congrArg World.notes (step_of_none hcall)
        rw [step_of_none hcall] at hj
        obtain ⟨hrequest, hstage⟩ := h.calls j call hj
        exact ⟨hrequest, hstage.later hlater fun _ _ => hsame⟩
      | some before =>
        obtain ⟨request, stage⟩ := before
        have hset : (w.calls.set i ⟨request, w.next request stage event⟩)[j]? = some call := by
          rwa [step_of_some hcall] at hj
        by_cases hij : i = j
        · subst hij
          rw [List.getElem?_set_self (List.getElem?_eq_some_iff.mp hcall).1] at hset
          obtain rfl := Option.some.inj hset
          obtain ⟨hrequest, hstage⟩ := h.calls i _ hcall
          exact ⟨hrequest, stageOk_next h.txs hcall hstage event⟩
        · rw [List.getElem?_set_ne hij] at hset
          obtain ⟨hrequest, hstage⟩ := h.calls j call hset
          refine ⟨hrequest, hstage.later hlater fun event' heq => ?_⟩
          cases heq
          exact absurd rfl hij
    · have hquiet : ∀ i event, input ≠ .event i event := fun i event heq => hevent ⟨i, event, heq⟩
      have hold : ∀ call, w.calls[j]? = some call → call.request.Owns hashNullifier notes ∧
          StageOk host j (t ++ [(machine host).stepAt w input]) (w.step host input) call.request call.stage := by
        intro call hcall
        obtain ⟨hrequest, hstage⟩ := h.calls j call hcall
        exact ⟨hrequest, hstage.later hlater fun event heq => absurd heq (hquiet j event)⟩
      rcases calls_step host w input hquiet with ⟨request, rfl, hcalls⟩ | hcalls
      · rw [hcalls] at hj
        rcases lt_or_ge j w.calls.length with hlt | hge
        · exact hold call (by rwa [List.getElem?_append_left hlt] at hj)
        · have hleaves : LeavesNotes host j (t ++ [(machine host).stepAt w (.call request)]) :=
            (h.fresh j hge).snoc fun event heq => absurd heq (hquiet j event)
          rw [List.getElem?_append_right hge, List.getElem?_singleton] at hj
          split at hj
          · cases hj
            refine ⟨howns request rfl, ?_⟩
            cases request with
            | withdraw opts => exact hleaves
            | reconcileWithdrawal proof noteCommitment => exact hleaves
          · cases hj
      · exact hold call (by rwa [hcalls] at hj)
  · intro j hj
    have hge : w.calls.length ≤ j := le_trans (length_calls_step input) hj
    refine (h.fresh j hge).snoc fun event heq => ?_
    obtain rfl : input = .event j event := heq
    exact congrArg World.notes (step_of_none (List.getElem?_eq_none hge))

/-- **The run lemma.** -/
theorem inv_run (host : Host) (pool : Pool.World) (inputs : List Input)
    (howns : ∀ request, .call request ∈ inputs → request.Owns hashNullifier notes) :
    Inv host hashNullifier notes ((machine host).trace { pool := pool, notes := notes } inputs)
      ((machine host).final { pool := pool, notes := notes } inputs) := by
  refine (machine host).invariant_of_steps
    (P := fun e => ∀ request, e.input = .call request → request.Owns hashNullifier notes)
    (inv_start host hashNullifier pool notes) (fun t w input h hP => inv_step h input hP) inputs ?_
  intro e he request hcall
  exact howns request (hcall ▸ (machine host).input_mem_of_mem_trace he)

end Runs

theorem mem_trace_split {host : Host} {w : World} {inputs : List Input} {e : Machine.Step World Input Unit}
    (h : e ∈ (machine host).trace w inputs) :
    ∃ before later, inputs = before ++ later ∧ e.pre = (machine host).final w before := by
  obtain ⟨before, later, hinputs, he⟩ := (machine host).mem_trace h
  refine ⟨before, e.input :: later, hinputs, ?_⟩
  rw [he]
  rfl

namespace Demo

def proof : WithdrawProofBundle where
  proofA := Pool.Demo.args.proofA
  proofB := Pool.Demo.args.proofB
  proofC := Pool.Demo.args.proofC
  withdrawnValue := Pool.Demo.args.withdrawnValue
  stateRoot := Pool.Demo.args.stateRoot
  aspRoot := Pool.Demo.args.aspRoot
  nullifierHash := Pool.Demo.args.nullifierHash
  newCommitment := Pool.Demo.args.newCommitment

def note : PoolNote where
  cluster := "testnet".toList
  value := "10".toList
  scope := 9
  leafIndex := 0
  nullifier := "1".toList
  secret := "2".toList
  commitment := "0x7".toList
  spent := false
  createdAt := 0

def withdraw : Request := .withdraw {
  proof := proof
  recipient := Pool.Demo.args.recipient
  fee := some Pool.Demo.args.fee
  relayer := some Pool.Demo.args.relayer
  noteCommitment := some note.commitment }

def reconcile : Request := .reconcileWithdrawal proof note.commitment

def pool : Pool.World := (Pool.machine Pool.Demo.host).final (.deployed Pool.Demo.tokens) Pool.Demo.setup

def start : World := { pool := pool, notes := [note] }

/-- A withdrawal up to the write of the store. -/
def landed : List Input := [.call withdraw, .event 0 .resolves, .event 0 .resolves, .event 0 .resolves,
  .event 0 .resolves, .event 0 .performs, .event 0 .resolves, .land 0 Pool.Demo.spend.env, .event 0 .resolves]

/-- The confirmation is lost, and a reconciliation is about to read. -/
def lost : List Input :=
  landed.dropLast ++ [.event 0 .rejects, .call reconcile, .event 1 .resolves, .event 1 .resolves]

def final (inputs : List Input) : World := (machine Pool.Demo.host).final start inputs

def trace (inputs : List Input) : Trace := (machine Pool.Demo.host).trace start inputs

/-- It marks the note. -/
def reconciled : List Input :=
  lost ++ .event 1 .performs :: [.event 1 .resolves, .event 1 .performs, .event 1 .resolves]

end Demo

end OpaqueStellar.Wallet.Withdrawal
