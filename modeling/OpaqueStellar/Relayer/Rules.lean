import OpaqueStellar.Relayer.Engine

/-! # What the tasks of a relayer owe each other

Deliveries and recovery passes run side by side. This module says what each may rely on while it
waits and what it guarantees to the others, so that the code can be followed once, task by task.

There are four results to be had from that, each with conditions of its own on what the code is
answered: a `Topic` says which of them is at stake. What all of them rest on is not conditional: the
queue and its store know their jobs as the chain has them, and what the operator's key has done is
accounted for. -/

namespace OpaqueStellar.Relayer

open OpaqueStellar.Lib OpaqueStellar.Soroban OpaqueStellar.Registry
open OpaqueStellar.Schemas (Str)

inductive Topic where
  -- no accepted job is forgotten
  | durability
  -- only jobs worth it are accepted
  | bonding
  -- a job is settled once
  | settlement
  -- results are those of the job asked for
  | idempotency
  deriving DecidableEq

section Views

variable {W : Type}

def Node.keys (n : Node W) : List Str := n.entries.map (·.1)

/-- What a new process would start from. -/
def Node.written (n : Node W) : List (AcceptedJobEntry W) := n.store.getD []

def Node.reportsOf (n : Node W) (key : BytesN 32) : List (Str × Settlement) :=
  n.reports.filter fun r => jobKey r.1 = some key

def Node.recordsOf (n : Node W) (key : BytesN 32) : List JobLedgerEntry :=
  n.records.filter fun r => jobKey r.jobId = some key

/-- The job is neither queued nor would it be after a restart. -/
structure Absent (n : Node W) (key : BytesN 32) : Prop where
  queue : ∀ k ∈ n.keys, jobKey k ≠ some key
  store : ∀ e ∈ n.written, jobKey e.jobId ≠ some key

end Views

/-! ## Jobs on the chain -/

section Jobs

variable {P W : Type} (cfg : EngineConfig P W)

/-- The stake of the operator hangs on the job, with more than the margin left. -/
def Bonded (c : Chain) (key : BytesN 32) : Prop :=
  ∃ job, c.jobs.lookup key = some job ∧ job.status = .ACCEPTED ∧
    job.acceptedRelayer = some cfg.operator ∧ c.ledger + cfg.margin < job.deadlineLedger

/-- The job has enough time left and pays enough. -/
def Worthwhile (c : Chain) (jobId : Str) : Prop :=
  ∃ key job, jobKey jobId = some key ∧ c.jobs.lookup key = some job ∧
    cfg.minFee ≤ job.fee.val ∧ c.ledger + cfg.margin ≤ job.deadlineLedger

/-- The operator has accepted the job, whatever became of it since. -/
def Ours (c : Chain) (key : BytesN 32) : Prop :=
  ∃ job, c.jobs.lookup key = some job ∧ job.status ≠ .OPEN ∧
    job.acceptedRelayer = some cfg.operator

def Submitted (c : Chain) (key : BytesN 32) : Prop :=
  ∃ job, c.jobs.lookup key = some job ∧ job.status = .SUBMITTED

/-- The job is on these terms. -/
def OnTerms (c : Chain) (key : BytesN 32) (deadline : ℕ) (fee : ℤ) : Prop :=
  ∃ job, c.jobs.lookup key = some job ∧ job.deadlineLedger = deadline ∧ job.fee.val = fee

/-- The operator itself has submitted the withdrawal of the job. -/
def SubmittedByUs (c : Chain) (jobId : Str) : Prop :=
  ∃ key payloadHash, jobKey jobId = some key ∧ (Tx.submit key payloadHash, .success) ∈ c.txs

/-- The text stands for the acceptance of the job: a transaction of the operator that accepted it, or
the job as it was found on the chain. -/
def TxRef.AcceptedFor (c : Chain) (key : BytesN 32) : TxRef → Prop
  | .hash tx => c.txs[tx]? = some (.accept key, .success)
  | .onChainAccept jobId => jobKey jobId = some key
  | .onChain _ => False

/-- The text stands for the submission of the job. -/
def TxRef.SubmittedFor (c : Chain) (key : BytesN 32) : TxRef → Prop
  | .hash tx => ∃ payloadHash, c.txs[tx]? = some (.submit key payloadHash, .success)
  | .onChain jobId => jobKey jobId = some key
  | .onChainAccept _ => False

/-- The result is that of the job: the operator has submitted its withdrawal, and both texts are for
it. -/
structure ResultOf (c : Chain) (jobId : Str) (result : RelayResult) : Prop where
  submitted : SubmittedByUs c jobId
  own : ∃ key, jobKey jobId = some key ∧ result.acceptedTx.AcceptedFor c key ∧
    result.submittedTx.SubmittedFor c key

variable {cfg} {c c' : Chain} {key : BytesN 32}

theorem Ours.mono (h : Ours cfg c key) (hle : c.Le c') : Ours cfg c' key := by
  obtain ⟨job, hjob, htaken, hrelayer⟩ := h
  obtain ⟨job', hjob', hjobLe⟩ := hle.jobs key job hjob
  obtain ⟨htaken', hrelayer'⟩ := hjobLe.taken htaken
  exact ⟨job', hjob', htaken', hrelayer'.trans hrelayer⟩

theorem Submitted.mono (h : Submitted c key) (hle : c.Le c') : Submitted c' key := by
  obtain ⟨job, hjob, hstatus⟩ := h
  obtain ⟨job', hjob', hjobLe⟩ := hle.jobs key job hjob
  have hstatus' := hjobLe.settled (by rw [hstatus]; rfl)
  exact ⟨job', hjob', hstatus'.trans hstatus⟩

theorem OnTerms.mono {deadline : ℕ} {fee : ℤ} (h : OnTerms c key deadline fee) (hle : c.Le c') :
    OnTerms c' key deadline fee := by
  obtain ⟨job, hjob, hdeadline, hfee⟩ := h
  obtain ⟨job', hjob', hjobLe⟩ := hle.jobs key job hjob
  refine ⟨job', hjob', hjobLe.terms.deadlineLedger.trans hdeadline, ?_⟩
  rw [hjobLe.terms.fee]
  exact hfee

theorem SubmittedByUs.mono {jobId : Str} (h : SubmittedByUs c jobId) (hle : c.Le c') :
    SubmittedByUs c' jobId := by
  obtain ⟨key, payloadHash, hkey, htx⟩ := h
  exact ⟨key, payloadHash, hkey, hle.txs.mem htx⟩

theorem TxRef.AcceptedFor.mono {tx : TxRef} (h : tx.AcceptedFor c key) (hle : c.Le c') :
    tx.AcceptedFor c' key := by
  cases tx with
  | hash n => exact hle.txs n _ h
  | onChainAccept jobId => exact h
  | onChain jobId => exact h

theorem TxRef.SubmittedFor.mono {tx : TxRef} (h : tx.SubmittedFor c key) (hle : c.Le c') :
    tx.SubmittedFor c' key := by
  cases tx with
  | hash n =>
      obtain ⟨payloadHash, htx⟩ := h
      exact ⟨payloadHash, hle.txs n _ htx⟩
  | onChainAccept jobId => exact h
  | onChain jobId => exact h

theorem ResultOf.mono {jobId : Str} {result : RelayResult} (h : ResultOf c jobId result)
    (hle : c.Le c') : ResultOf c' jobId result := by
  obtain ⟨hsubmitted, key, hkey, haccept, hsubmit⟩ := h
  exact ⟨hsubmitted.mono hle, key, hkey, haccept.mono hle, hsubmit.mono hle⟩

/-- Only the job matters, not how it is spelt. -/
theorem ResultOf.congr {jobId jobId' : Str} {result : RelayResult} (h : ResultOf c jobId result)
    (hsame : jobKey jobId = jobKey jobId') : ResultOf c jobId' result := by
  obtain ⟨⟨key, payloadHash, hkey, htx⟩, key', hkey', hown⟩ := h
  exact ⟨⟨key, payloadHash, hsame ▸ hkey, htx⟩, key', hsame ▸ hkey', hown⟩

/-- A job of the operator that was submitted was so by the operator. -/
theorem submittedByUs {jobId : Str} (hok : c.Ok cfg.operator) (hkey : jobKey jobId = some key)
    (hours : Ours cfg c key) (hsubmitted : Submitted c key) : SubmittedByUs c jobId := by
  obtain ⟨job, hjob, -, hrelayer⟩ := hours
  obtain ⟨job', hjob', hstatus⟩ := hsubmitted
  obtain rfl := Option.some.inj (hjob.symm.trans hjob')
  obtain ⟨payloadHash, htx⟩ := hok.submitted key job hjob hstatus hrelayer
  exact ⟨key, payloadHash, hkey, htx⟩

theorem Submitted.not_bonded (h : Submitted c key) : ¬ Bonded cfg c key := by
  rintro ⟨job, hjob, haccepted, -⟩
  obtain ⟨job', hjob', hstatus⟩ := h
  obtain rfl := Option.some.inj (hjob.symm.trans hjob')
  rw [hstatus] at haccepted
  cases haccepted

end Jobs

/-! ## The invariant -/

section Invariant

variable {P W : Type} (cfg : EngineConfig P W) (about : Topic)

/-- The entry knows its job as the chain has it. -/
structure EntryOk (c : Chain) (e : AcceptedJobEntry W) : Prop where
  terms : ∃ key, jobKey e.jobId = some key ∧ OnTerms c key e.deadline e.fee
  fee : about = .bonding → cfg.minFee ≤ e.fee

/-- Jobs are settled once. -/
structure Once (n : Node W) : Prop where
  report : ∀ key, (n.reportsOf key).length ≤ 1
  record : ∀ key, (n.recordsOf key).length ≤ 1
  recorded : ∀ key, n.reportsOf key = [] → n.recordsOf key = []
  taken : ∀ key, n.reportsOf key ≠ [] →
    ∃ job, n.chain.jobs.lookup key = some job ∧ job.status ≠ .OPEN
  completed : ∀ r ∈ n.reports, r.2 = .completed → ∀ key, jobKey r.1 = some key → Absent n key
  holder : ∀ key i j, (key, i) ∈ n.working → (key, j) ∈ n.working → i = j
  /-- No job is queued under two spellings. -/
  spelling : ∀ k ∈ n.keys, ∀ k' ∈ n.keys, jobKey k = jobKey k' → k = k'
  writtenSpelling : ∀ e ∈ n.written, ∀ e' ∈ n.written, jobKey e.jobId = jobKey e'.jobId →
    toLowerCase e.jobId = toLowerCase e'.jobId

/-- What is remembered under a job is its result. -/
structure Remembered (n : Node W) : Prop where
  stored : ∀ x ∈ n.idempotencyStore, ResultOf n.chain x.2.jobId x.2.result
  settled : ∀ x ∈ n.settled, ∀ r, x.2 = .ok (some r) → ResultOf n.chain x.1.jobId r

/-- What holds of a node, the writing of its queue apart. -/
structure Node.Sane (n : Node W) : Prop where
  chain : n.chain.Ok cfg.operator
  object : ∀ e ∈ n.objects, EntryOk cfg about n.chain e
  entry : ∀ x ∈ n.entries, ∃ e, n.objects[x.2]? = some e ∧ toLowerCase e.jobId = x.1
  written : ∀ e ∈ n.written, EntryOk cfg about n.chain e
  once : about = .settlement → Once n
  remembered : about = .idempotency → Remembered n

structure Node.Ok (n : Node W) : Prop extends n.Sane cfg about where
  saved : n.saved = true → ∀ k ∈ n.keys, ∃ e ∈ n.written, toLowerCase e.jobId = k

end Invariant

/-! ## Relying and guaranteeing -/

section Rules

variable {P W : Type} (cfg : EngineConfig P W) (about : Topic)

/-- The deadline that a delivery has checked and relies on while it awaits this. -/
def EngineCall.checked : EngineCall → Option ℕ
  | .simulatePoolWithdraw deadline => some deadline
  | .enqueue deadline => some deadline
  | _ => none

/-- What others leave alone of the jobs that the task `i` works on. -/
structure Undisturbed (i : ℕ) (key : BytesN 32) (n n' : Node W) : Prop where
  working : (key, i) ∈ n'.working
  reports : n'.reportsOf key = n.reportsOf key
  keys : ∀ k ∈ n'.keys, jobKey k = some key → k ∈ n.keys
  absent : Absent n key → Absent n' key

structure Rely (i : ℕ) (call : EngineCall) (n n' : Node W) : Prop where
  ok : n'.Ok cfg about
  le : n.chain.Le n'.chain
  undisturbed : about = .settlement → ∀ key, (key, i) ∈ n.working → Undisturbed i key n n'
  /-- The ledgers that close meanwhile leave the margin. -/
  margin : about = .bonding → ∀ deadline ∈ call.checked,
    n.chain.ledger + cfg.margin ≤ deadline → n'.chain.ledger + cfg.margin ≤ deadline

structure Guar (i : ℕ) (n n' : Node W) : Prop where
  ok : n'.Ok cfg about
  ledger : n'.chain.ledger = n.chain.ledger
  jobs : n'.chain.jobs = n.chain.jobs
  txs : TxsLe n.chain.txs n'.chain.txs
  queue : about = .durability → ∀ k ∈ n.keys, ∀ key, jobKey k = some key →
    Bonded cfg n.chain key → k ∈ n'.keys
  undisturbed : about = .settlement → ∀ j ≠ i, ∀ key, (key, j) ∈ n.working → Undisturbed j key n n'

/-- The job that a delivery reads. -/
def EngineCall.delivers : EngineCall → Option Str
  | .getJob .deliver jobId => some jobId
  | _ => none

/-- The entry that a recovery pass looks at, and its job. -/
def EngineCall.recovers : EngineCall → Option (ℕ × Str)
  | .getJob (.recover entry) jobId => some (entry, jobId)
  | _ => none

/-- The deadline for which a delivery reads the head. -/
def EngineCall.checks : EngineCall → Option ℕ
  | .latestLedger .deliver deadline => some deadline
  | _ => none

/-- A recovery pass that cannot read a job whose acceptance it does not know of must not have one
that is bonded. -/
def DurableReply (n : Node W) (call : EngineCall) (r : Reply) : Prop :=
  ∀ x ∈ call.recovers, r = .ok ∨ (∃ e ∈ n.objects[x.1]?, e.unconfirmed = false) ∨
    ∀ key ∈ jobKey x.2, ¬ Bonded cfg n.chain key

/-- Open jobs that are delivered pay enough, the head can be read when a delivery asks for it, and
an open job that a recovery pass finds has time left. -/
def BondingReply (n : Node W) (call : EngineCall) (r : Reply) : Prop :=
  (∀ jobId ∈ call.delivers, r = .ok → ∀ key ∈ jobKey jobId, ∀ job ∈ n.chain.jobs.lookup key,
    job.status = .OPEN → cfg.minFee ≤ job.fee.val) ∧
  (∀ deadline ∈ call.checks, r = .ok ∨ n.chain.ledger + cfg.margin ≤ deadline) ∧
  ∀ x ∈ call.recovers, r = .ok → (∃ e ∈ n.objects[x.1]?, e.unconfirmed = false) ∨
    ∀ key ∈ jobKey x.2, ∀ job ∈ n.chain.jobs.lookup key,
      job.status = .OPEN → n.chain.ledger + cfg.margin ≤ job.deadlineLedger

/-- Nobody works on a job that is found open by a delivery or looked at by a recovery pass; the
delivery spells it as the queue does, and the recovery pass finds it still queued and not given up
by a delivery. -/
def SettlementReply (n : Node W) (call : EngineCall) (r : Reply) : Prop :=
  (∀ jobId ∈ call.delivers, r = .ok → ∀ key ∈ jobKey jobId, ∀ job ∈ n.chain.jobs.lookup key,
    job.status = .OPEN →
      (∀ w ∈ n.working, w.1 ≠ key) ∧ ∀ k ∈ n.keys, jobKey k = some key → k = toLowerCase jobId) ∧
  ∀ x ∈ call.recovers, ∀ key ∈ jobKey x.2,
    (∀ w ∈ n.working, w.1 ≠ key) ∧ toLowerCase x.2 ∈ n.keys ∧
      ∀ r ∈ n.reports, r.2 = .failed → jobKey r.1 ≠ some key

/-- What is remembered or under way under the key of a delivery is for the job of the delivery. -/
def IdempotencyStart (n : Node W) (msg : EncryptedPayload) : Prop :=
  ∀ key ∈ msg.idempotencyKey,
    (∀ entry ∈ n.live key, jobKey entry.jobId = jobKey msg.jobId) ∧
      ∀ p ∈ n.pendingIdempotency.find key, jobKey p.jobId = jobKey msg.jobId

def rules : Async.Rules (Node W) EngineCall Reply where
  rely := Rely cfg about
  guar := Guar cfg about
  may _ call n := about = .bonding → ∀ jobId tx, call = .acceptJob jobId tx →
    Worthwhile cfg n.chain jobId
  hears _ call r n := n.ready call r = true ∧
    (about = .durability → DurableReply cfg n call r) ∧
    (about = .bonding → BondingReply cfg n call r) ∧
    (about = .settlement → SettlementReply n call r)

end Rules

/-! ## How the parts of the invariant are kept -/

section Upkeep

variable {P W : Type} {cfg : EngineConfig P W} {about : Topic} {n n' : Node W} {key : BytesN 32}

theorem Chain.Le.of_guar {c c' : Chain} (hledger : c'.ledger = c.ledger) (hjobs : c'.jobs = c.jobs)
    (htxs : TxsLe c.txs c'.txs) : c.Le c' :=
  ⟨hledger.ge, hjobs ▸ .refl _, htxs⟩

theorem EntryOk.mono {c c' : Chain} {e : AcceptedJobEntry W} (h : EntryOk cfg about c e)
    (hle : c.Le c') : EntryOk cfg about c' e := by
  obtain ⟨key, hkey, hterms⟩ := h.terms
  exact ⟨⟨key, hkey, hterms.mono hle⟩, h.fee⟩

theorem Remembered.mono (h : Remembered n) (hle : n.chain.Le n'.chain)
    (hstore : ∀ x ∈ n'.idempotencyStore, x ∈ n.idempotencyStore) (hsettled : n'.settled = n.settled) :
    Remembered n' := by
  refine ⟨?_, ?_⟩
  · intro x hx
    exact (h.stored x (hstore x hx)).mono hle
  · intro x hx r hr
    rw [hsettled] at hx
    exact (h.settled x hx r hr).mono hle

/-- Settlement is not disturbed by what happens on the chain. -/
theorem Once.of_chain {chain : Chain} (h : Once n) (hle : n.chain.Le chain) :
    Once { n with chain := chain } := by
  refine ⟨h.report, h.record, h.recorded, ?_, fun r hr hc key hkey => ?_, h.holder, h.spelling,
    h.writtenSpelling⟩
  · intro key hreported
    obtain ⟨job, hjob, htaken⟩ := h.taken key hreported
    obtain ⟨job', hjob', hjobLe⟩ := hle.jobs key job hjob
    exact ⟨job', hjob', (hjobLe.taken htaken).1⟩
  · obtain ⟨hqueue, hstore⟩ := h.completed r hr hc key hkey
    exact ⟨hqueue, hstore⟩

theorem Node.Ok.of_chain {chain : Chain} (h : n.Ok cfg about) (hle : n.chain.Le chain)
    (hok : chain.Ok cfg.operator) : { n with chain := chain }.Ok cfg about := by
  refine ⟨⟨hok, ?_, h.entry, ?_, ?_, ?_⟩, h.saved⟩
  · intro e he
    exact (h.object e he).mono hle
  · intro e he
    exact (h.written e he).mono hle
  · intro hs
    exact (h.once hs).of_chain hle
  · intro hi
    exact (h.remembered hi).mono hle (fun _ hx => hx) rfl

/-! ### Writing the queue -/

theorem mem_snapshot {e : AcceptedJobEntry W} :
    e ∈ n.snapshot ↔ ∃ x ∈ n.entries, n.objects[x.2]? = some e := by
  unfold Node.snapshot Node.pending
  rw [List.mem_filterMap]
  constructor
  · rintro ⟨ref, href, he⟩
    rw [List.mem_mergeSort] at href
    obtain ⟨x, hx, rfl⟩ := List.mem_map.mp href
    exact ⟨x, hx, he⟩
  · rintro ⟨x, hx, he⟩
    refine ⟨x.2, ?_, he⟩
    rw [List.mem_mergeSort]
    exact List.mem_map_of_mem hx

/-- What is written down is queued under its spelling. -/
theorem Node.Sane.of_snapshot (h : n.Sane cfg about) {e : AcceptedJobEntry W} (he : e ∈ n.snapshot) :
    EntryOk cfg about n.chain e ∧ toLowerCase e.jobId ∈ n.keys ∧
      jobKey (toLowerCase e.jobId) = jobKey e.jobId := by
  obtain ⟨x, hx, hobject⟩ := mem_snapshot.mp he
  obtain ⟨e', he', hlower⟩ := h.entry x hx
  obtain rfl := Option.some.inj (hobject.symm.trans he')
  have hentry := h.object e (List.mem_of_getElem? hobject)
  refine ⟨hentry, ?_, ?_⟩
  · rw [hlower]
    exact List.mem_map_of_mem hx
  · obtain ⟨key, hkey, -⟩ := hentry.terms
    rw [jobKey_toLowerCase hkey, hkey]

theorem save_eq (n : Node W) :
    n.disk = true ∧ n.save = { n with store := some n.snapshot, saved := true } ∨
      n.disk = false ∧ n.save = { n with saved := false } := by
  unfold Node.save
  cases n.disk with
  | true => exact .inl ⟨rfl, rfl⟩
  | false => exact .inr ⟨rfl, rfl⟩

theorem Node.Sane.absent_save (h : n.Sane cfg about) (hqueue : ∀ k ∈ n.keys, jobKey k ≠ some key)
    (hstore : n.disk = false → ∀ e ∈ n.written, jobKey e.jobId ≠ some key) : Absent n.save key := by
  rcases save_eq n with ⟨-, heq⟩ | ⟨hdisk, heq⟩
  · rw [heq]
    refine ⟨hqueue, ?_⟩
    intro e he hkey
    obtain ⟨-, hmem, hlower⟩ := h.of_snapshot he
    exact hqueue _ hmem (hlower.trans hkey)
  · rw [heq]
    exact ⟨hqueue, hstore hdisk⟩

theorem Once.save (hsane : n.Sane cfg about) (h : Once n) : Once n.save := by
  have habsent : ∀ r ∈ n.reports, r.2 = .completed → ∀ key, jobKey r.1 = some key →
      Absent n.save key := by
    intro r hr hc key hkey
    obtain ⟨hqueue, hstore⟩ := h.completed r hr hc key hkey
    exact hsane.absent_save hqueue fun _ => hstore
  rcases save_eq n with ⟨-, heq⟩ | ⟨-, heq⟩
  · rw [heq] at habsent ⊢
    refine ⟨h.report, h.record, h.recorded, h.taken, habsent, h.holder, h.spelling, ?_⟩
    intro e he e' he' hsame
    obtain ⟨-, hmem, hlower⟩ := hsane.of_snapshot he
    obtain ⟨-, hmem', hlower'⟩ := hsane.of_snapshot he'
    exact h.spelling _ hmem _ hmem' (by rw [hlower, hlower', hsame])
  · rw [heq] at habsent ⊢
    exact ⟨h.report, h.record, h.recorded, h.taken, habsent, h.holder, h.spelling,
      h.writtenSpelling⟩

/-- **Writing the queue** makes good what was changed in it. -/
theorem Node.Sane.save (h : n.Sane cfg about) : n.save.Ok cfg about := by
  have honce : about = .settlement → Once n.save := fun hs => (h.once hs).save h
  have hremembered : about = .idempotency → Remembered n.save := by
    intro hi
    rcases save_eq n with ⟨-, heq⟩ | ⟨-, heq⟩
    · rw [heq]
      exact (h.remembered hi).mono (.refl _) (fun _ hx => hx) rfl
    · rw [heq]
      exact (h.remembered hi).mono (.refl _) (fun _ hx => hx) rfl
  rcases save_eq n with ⟨-, heq⟩ | ⟨-, heq⟩
  · rw [heq] at honce hremembered ⊢
    refine ⟨⟨h.chain, h.object, h.entry, ?_, honce, hremembered⟩, ?_⟩
    · intro e he
      exact (h.of_snapshot he).1
    · intro _ k hk
      obtain ⟨x, hx, rfl⟩ := List.mem_map.mp hk
      obtain ⟨e, he, hlower⟩ := h.entry x hx
      exact ⟨e, mem_snapshot.mpr ⟨x, hx, he⟩, hlower⟩
  · rw [heq] at honce hremembered ⊢
    refine ⟨⟨h.chain, h.object, h.entry, h.written, honce, hremembered⟩, ?_⟩
    intro hsaved
    cases hsaved

/-! ### Restarts -/

theorem mem_foldl_set {l : List (AcceptedJobEntry W × ℕ)} {d : Dict Str ℕ} {x : Str × ℕ}
    (h : x ∈ l.foldl (fun d e => d.set (toLowerCase e.1.jobId) e.2) d) :
    x ∈ d ∨ ∃ e ∈ l, x = (toLowerCase e.1.jobId, e.2) := by
  induction l generalizing d with
  | nil => exact .inl h
  | cons e l ih =>
      rcases ih h with hx | ⟨e', he', rfl⟩
      · rcases Dict.mem_set hx with rfl | ⟨hx, -⟩
        · exact .inr ⟨e, List.mem_cons_self, rfl⟩
        · exact .inl hx
      · exact .inr ⟨e', List.mem_cons_of_mem _ he', rfl⟩

theorem keys_foldl_set {l : List (AcceptedJobEntry W × ℕ)} {d : Dict Str ℕ} {k : Str}
    (h : k ∈ d.map (·.1) ∨ ∃ e ∈ l, toLowerCase e.1.jobId = k) :
    k ∈ (l.foldl (fun d e => d.set (toLowerCase e.1.jobId) e.2) d).map (·.1) := by
  induction l generalizing d with
  | nil =>
      rcases h with hk | ⟨e, he, -⟩
      · exact hk
      · cases he
  | cons e l ih =>
      refine ih ?_
      rw [Dict.mem_keys_set]
      rcases h with hk | ⟨e', he', hlower⟩
      · exact .inl (.inr hk)
      · rcases List.mem_cons.mp he' with rfl | he'
        · exact .inl (.inl hlower.symm)
        · exact .inr ⟨e', he', hlower⟩

theorem mem_hydrate {saved : List (AcceptedJobEntry W)} {x : Str × ℕ} (h : x ∈ hydrate saved) :
    ∃ e, saved[x.2]? = some e ∧ toLowerCase e.jobId = x.1 := by
  rcases mem_foldl_set h with hx | ⟨⟨e, ref⟩, he, rfl⟩
  · cases hx
  · exact ⟨e, List.mem_zipIdx_iff_getElem?.mp he, rfl⟩

theorem keys_reboot {k : Str} : k ∈ n.reboot.keys ↔ ∃ e ∈ n.written, toLowerCase e.jobId = k := by
  constructor
  · intro hk
    obtain ⟨x, hx, rfl⟩ := List.mem_map.mp hk
    obtain ⟨e, he, hlower⟩ := mem_hydrate hx
    exact ⟨e, List.mem_of_getElem? he, hlower⟩
  · rintro ⟨e, he, rfl⟩
    obtain ⟨ref, href⟩ := List.mem_iff_getElem?.mp he
    exact keys_foldl_set (.inr ⟨(e, ref), List.mem_zipIdx_iff_getElem?.mpr href, rfl⟩)

/-- **The next process** has what was written. -/
theorem Node.Ok.reboot (h : n.Ok cfg about) : n.reboot.Ok cfg about := by
  have hjobKey : ∀ e ∈ n.written, jobKey (toLowerCase e.jobId) = jobKey e.jobId := by
    intro e he
    obtain ⟨key, hkey, -⟩ := (h.written e he).terms
    rw [jobKey_toLowerCase hkey, hkey]
  refine ⟨⟨h.chain, h.written, fun x hx => mem_hydrate hx, h.written, ?_, fun _ => ⟨nofun, nofun⟩⟩,
    fun _ k hk => keys_reboot.mp hk⟩
  intro hs
  have honce := h.once hs
  refine ⟨honce.report, honce.record, honce.recorded, honce.taken, ?_, nofun, ?_,
    honce.writtenSpelling⟩
  · intro r hr hc key hkey
    have habsent := honce.completed r hr hc key hkey
    refine ⟨?_, habsent.store⟩
    intro k hk hsame
    obtain ⟨e, he, rfl⟩ := keys_reboot.mp hk
    exact habsent.store e he ((hjobKey e he).symm.trans hsame)
  · intro k hk k' hk' hsame
    obtain ⟨e, he, rfl⟩ := keys_reboot.mp hk
    obtain ⟨e', he', rfl⟩ := keys_reboot.mp hk'
    refine honce.writtenSpelling e he e' he' ?_
    rw [← hjobKey e he, ← hjobKey e' he', hsame]

/-! ### Changing the queue -/

theorem keys_insert {e : AcceptedJobEntry W} {k : Str} :
    k ∈ (n.insert e).keys ↔ k = toLowerCase e.jobId ∨ k ∈ n.keys := Dict.mem_keys_set

theorem keys_remove {jobId k : Str} :
    k ∈ (n.remove jobId).keys ↔ k ∈ n.keys ∧ k ≠ toLowerCase jobId := by
  constructor
  · intro hk
    obtain ⟨x, hx, rfl⟩ := List.mem_map.mp hk
    obtain ⟨hmem, hne⟩ := Dict.mem_delete.mp hx
    exact ⟨List.mem_map_of_mem hmem, hne⟩
  · rintro ⟨hk, hne⟩
    obtain ⟨x, hx, rfl⟩ := List.mem_map.mp hk
    exact List.mem_map_of_mem (Dict.mem_delete.mpr ⟨hx, hne⟩)

/-- A new intent, whose job nobody has reported or spelt in another way. -/
theorem Node.Sane.insert {e : AcceptedJobEntry W} (h : n.Sane cfg about)
    (he : EntryOk cfg about n.chain e) (hkey : jobKey e.jobId = some key)
    (hnew : about = .settlement → n.reportsOf key = [] ∧
      ∀ k ∈ n.keys, jobKey k = some key → k = toLowerCase e.jobId) :
    (n.insert e).Sane cfg about := by
  refine ⟨h.chain, ?_, ?_, h.written, ?_, fun hi =>
    (h.remembered hi).mono (.refl _) (fun _ hx => hx) rfl⟩
  · intro e' he'
    rcases List.mem_append.mp he' with he' | he'
    · exact h.object e' he'
    · rw [List.mem_singleton.mp he']
      exact he
  · intro x hx
    rcases Dict.mem_set hx with rfl | ⟨hx, -⟩
    · exact ⟨e, List.getElem?_concat_length, rfl⟩
    · obtain ⟨e', he', hlower⟩ := h.entry x hx
      refine ⟨e', ?_, hlower⟩
      show (n.objects ++ [e])[x.2]? = some e'
      rw [List.getElem?_append_left (List.getElem?_eq_some_iff.mp he').1]
      exact he'
  · intro hs
    obtain ⟨hsilent, hsole⟩ := hnew hs
    have honce := h.once hs
    refine ⟨honce.report, honce.record, honce.recorded, honce.taken, ?_, honce.holder, ?_,
      honce.writtenSpelling⟩
    · intro r hr hc key' hkey'
      obtain ⟨hqueue, hstore⟩ := honce.completed r hr hc key' hkey'
      refine ⟨?_, hstore⟩
      intro k hk hsame
      rcases keys_insert.mp hk with rfl | hk
      · rw [jobKey_toLowerCase hkey] at hsame
        obtain rfl := Option.some.inj hsame
        have hreport : r ∈ n.reportsOf key := List.mem_filter.mpr ⟨hr, by simpa using hkey'⟩
        rw [hsilent] at hreport
        cases hreport
      · exact hqueue k hk hsame
    · intro k hk k' hk' hsame
      rcases keys_insert.mp hk with rfl | hk <;> rcases keys_insert.mp hk' with rfl | hk'
      · rfl
      · rw [jobKey_toLowerCase hkey] at hsame
        exact (hsole k' hk' hsame.symm).symm
      · rw [jobKey_toLowerCase hkey] at hsame
        exact hsole k hk hsame
      · exact honce.spelling k hk k' hk' hsame

theorem Node.Sane.remove (h : n.Sane cfg about) (jobId : Str) : (n.remove jobId).Sane cfg about := by
  refine ⟨h.chain, h.object, ?_, h.written, ?_, fun hi =>
    (h.remembered hi).mono (.refl _) (fun _ hx => hx) rfl⟩
  · intro x hx
    exact h.entry x (Dict.mem_delete.mp hx).1
  · intro hs
    have honce := h.once hs
    refine ⟨honce.report, honce.record, honce.recorded, honce.taken, ?_, honce.holder, ?_,
      honce.writtenSpelling⟩
    · intro r hr hc key hkey
      obtain ⟨hqueue, hstore⟩ := honce.completed r hr hc key hkey
      exact ⟨fun k hk => hqueue k (keys_remove.mp hk).1, hstore⟩
    · intro k hk k' hk'
      exact honce.spelling k (keys_remove.mp hk).1 k' (keys_remove.mp hk').1

/-- A note on an entry that leaves its job and terms alone. -/
theorem Node.Ok.update (h : n.Ok cfg about) (ref : ℕ) {f : AcceptedJobEntry W → AcceptedJobEntry W}
    (hf : ∀ e, (f e).jobId = e.jobId ∧ (f e).deadline = e.deadline ∧ (f e).fee = e.fee) :
    (n.update ref f).Ok cfg about := by
  refine ⟨⟨h.chain, ?_, ?_, h.written, ?_, fun hi =>
    (h.remembered hi).mono (.refl _) (fun _ hx => hx) rfl⟩, h.saved⟩
  · intro e he
    obtain ⟨k, hk⟩ := List.mem_iff_getElem?.mp he
    rw [Node.update, List.getElem?_modify] at hk
    obtain ⟨old, hold, rfl⟩ := Option.map_eq_some_iff.mp hk
    have hentry := h.object old (List.mem_of_getElem? hold)
    split
    · obtain ⟨hid, hdeadline, hfee⟩ := hf old
      obtain ⟨key, hkey, hterms⟩ := hentry.terms
      refine ⟨⟨key, hid ▸ hkey, ?_⟩, fun hb => ?_⟩
      · rw [hdeadline, hfee]
        exact hterms
      · rw [hfee]
        exact hentry.fee hb
    · exact hentry
  · intro x hx
    obtain ⟨e, he, hlower⟩ := h.entry x hx
    refine ⟨_, by rw [Node.update, List.getElem?_modify, he]; rfl, ?_⟩
    split
    · rw [(hf e).1]
      exact hlower
    · exact hlower
  · intro hs
    have honce := h.once hs
    exact ⟨honce.report, honce.record, honce.recorded, honce.taken,
      fun r hr hc key hkey =>
        ⟨(honce.completed r hr hc key hkey).queue, (honce.completed r hr hc key hkey).store⟩,
      honce.holder, honce.spelling, honce.writtenSpelling⟩

end Upkeep

/-! ## What the sections of a task do -/

section Sections

variable {P W : Type} {cfg : EngineConfig P W} {about : Topic} {n n' n'' : Node W} {i : ℕ}
  {key : BytesN 32}

theorem Undisturbed.trans (h : Undisturbed i key n n') (h' : Undisturbed i key n' n'') :
    Undisturbed i key n n'' :=
  ⟨h'.working, h'.reports.trans h.reports,
    fun k hk hkey => h.keys k (h'.keys k hk hkey) hkey, fun ha => h'.absent (h.absent ha)⟩

theorem Undisturbed.refl (h : (key, i) ∈ n.working) : Undisturbed i key n n :=
  ⟨h, rfl, fun _ hk _ => hk, fun ha => ha⟩

theorem bonded_congr {c c' : Chain} (hledger : c'.ledger = c.ledger) (hjobs : c'.jobs = c.jobs) :
    Bonded cfg c' key ↔ Bonded cfg c key := by
  unfold Bonded
  rw [hledger, hjobs]

theorem Guar.refl (h : n.Ok cfg about) : Guar cfg about i n n :=
  ⟨h, rfl, rfl, .refl _, fun _ _ hk _ _ _ => hk, fun _ _ _ _ hw => .refl hw⟩

theorem Guar.trans (h : Guar cfg about i n n') (h' : Guar cfg about i n' n'') :
    Guar cfg about i n n'' := by
  refine ⟨h'.ok, h'.ledger.trans h.ledger, h'.jobs.trans h.jobs,
    h.txs.trans h'.txs, ?_, ?_⟩
  · intro hd k hk key hkey hbonded
    have hk' := h.queue hd k hk key hkey hbonded
    exact h'.queue hd k hk' key hkey ((bonded_congr h.ledger h.jobs).mpr hbonded)
  · intro hs j hj key hw
    have hfirst := h.undisturbed hs j hj key hw
    exact hfirst.trans (h'.undisturbed hs j hj key hfirst.working)

theorem Guar.le (h : Guar cfg about i n n') : n.chain.Le n'.chain :=
  .of_guar h.ledger h.jobs h.txs

theorem Rely.trans {call : EngineCall} (h : Rely cfg about i call n n')
    (h' : Rely cfg about i call n' n'') : Rely cfg about i call n n'' := by
  refine ⟨h'.ok, h.le.trans h'.le, ?_, ?_⟩
  · intro hs key hw
    have hfirst := h.undisturbed hs key hw
    exact hfirst.trans (h'.undisturbed hs key hfirst.working)
  · intro hb deadline hcall hle
    exact h'.margin hb deadline hcall (h.margin hb deadline hcall hle)

/-- **What one task does, the others rely on.** -/
theorem Guar.rely {j : ℕ} (hij : i ≠ j) (h : Guar cfg about i n n') (call : EngineCall) :
    Rely cfg about j call n n' := by
  refine ⟨h.ok, h.le, fun hs key hw => h.undisturbed hs j hij.symm key hw, ?_⟩
  intro _ deadline _ hle
  rw [h.ledger]
  exact hle

/-- Doings that nobody takes notice of, not even the task itself. -/
def Quiet (cfg : EngineConfig P W) (about : Topic) (n n' : Node W) : Prop :=
  ∀ i, Guar cfg about i n n'

theorem Quiet.rely (h : Quiet cfg about n n') (call : EngineCall) : Rely cfg about i call n n' :=
  (h (i + 1)).rely (Nat.succ_ne_self i) call

theorem Quiet.trans (h : Quiet cfg about n n') (h' : Quiet cfg about n' n'') :
    Quiet cfg about n n'' :=
  fun i => (h i).trans (h' i)

theorem quiet_save (h : n.Ok cfg about) : Quiet cfg about n n.save := by
  have hundisturbed : about = .settlement → ∀ j key, (key, j) ∈ n.working →
      Absent n key → Absent n.save key :=
    fun _ _ _ _ ha => h.absent_save ha.queue fun _ => ha.store
  have hok := h.toSane.save
  rcases save_eq n with ⟨-, heq⟩ | ⟨-, heq⟩ <;> rw [heq] at hok hundisturbed ⊢
  all_goals
    intro i
    exact ⟨hok, rfl, rfl, .refl _, fun _ _ hk _ _ _ => hk, fun hs j _ key hw =>
      ⟨hw, rfl, fun _ hk _ => hk, hundisturbed hs j key hw⟩⟩

theorem quiet_update (h : n.Ok cfg about) (ref : ℕ) {f : AcceptedJobEntry W → AcceptedJobEntry W}
    (hf : ∀ e, (f e).jobId = e.jobId ∧ (f e).deadline = e.deadline ∧ (f e).fee = e.fee) :
    Quiet cfg about n (n.update ref f) := by
  intro i
  exact ⟨h.update ref hf, rfl, rfl, .refl _, fun _ _ hk _ _ _ => hk, fun _ _ _ _ hw =>
    ⟨hw, rfl, fun _ hk _ => hk, fun ha => ⟨ha.queue, ha.store⟩⟩⟩

theorem quiet_send (h : n.Ok cfg about) (tx : Option Tx) : Quiet cfg about n (n.send tx) := by
  intro i
  cases tx with
  | none => exact .refl h
  | some tx =>
      refine ⟨h.of_chain (n.chain.le_send tx) (h.chain.send tx), rfl, rfl,
        TxsLe.append _ _, fun _ _ hk _ _ _ => hk, fun _ _ _ _ hw => ?_⟩
      exact ⟨hw, rfl, fun _ hk _ => hk, fun ha => ⟨ha.queue, ha.store⟩⟩

/-- A job that is not bonded may be taken from the queue. -/
theorem quiet_remove (h : n.Ok cfg about) {jobId : Str} (hkey : jobKey jobId = some key)
    (hbonded : about = .durability → ¬ Bonded cfg n.chain key) :
    Quiet cfg about n (n.remove jobId) := by
  intro i
  refine ⟨⟨h.toSane.remove jobId, fun hsaved k hk => h.saved hsaved k (keys_remove.mp hk).1⟩, rfl,
    rfl, .refl _, ?_, ?_⟩
  · intro hd k hk key' hkey' hbonded'
    refine keys_remove.mpr ⟨hk, ?_⟩
    rintro rfl
    rw [jobKey_toLowerCase hkey] at hkey'
    obtain rfl := Option.some.inj hkey'
    exact hbonded hd hbonded'
  · intro _ j _ key' hw
    exact ⟨hw, rfl, fun k hk _ => (keys_remove.mp hk).1,
      fun ha => ⟨fun k hk => ha.queue k (keys_remove.mp hk).1, ha.store⟩⟩

/-- The clock and the disk may change, and what is remembered of deliveries, as long as it is the
operator's own. -/
theorem quiet_memory (h : n.Ok cfg about) {now : ℕ} {disk : Bool} {idempotencyStore : Dict Str IdempotencyEntry}
    {pendingIdempotency : Dict Str Promise}
    {settled : List (Promise × Except EngineError (Option RelayResult))} {resumeInFlight : Bool}
    (hown : about = .idempotency →
      (∀ x ∈ idempotencyStore, ResultOf n.chain x.2.jobId x.2.result) ∧
        ∀ x ∈ settled, ∀ r, x.2 = .ok (some r) → ResultOf n.chain x.1.jobId r) :
    Quiet cfg about n
      { n with
        now := now
        disk := disk
        idempotencyStore := idempotencyStore
        pendingIdempotency := pendingIdempotency
        settled := settled
        resumeInFlight := resumeInFlight } := by
  intro i
  refine ⟨⟨⟨h.chain, h.object, h.entry, h.written, ?_, fun hi => ⟨(hown hi).1, (hown hi).2⟩⟩,
    h.saved⟩, rfl, rfl, .refl _, fun _ _ hk _ _ _ => hk, fun _ _ _ _ hw =>
      ⟨hw, rfl, fun _ hk _ => hk, fun ha => ⟨ha.queue, ha.store⟩⟩⟩
  intro hs
  have honce := h.once hs
  exact ⟨honce.report, honce.record, honce.recorded, honce.taken, fun r hr hc key hkey =>
    ⟨(honce.completed r hr hc key hkey).queue, (honce.completed r hr hc key hkey).store⟩,
    honce.holder, honce.spelling, honce.writtenSpelling⟩

/-! ### The job that a task works on -/

/-- The task works on the job, nothing was reported of it, and it is queued as `jobId` at most. -/
structure Holds (i : ℕ) (key : BytesN 32) (jobId : Str) (n : Node W) : Prop where
  working : (key, i) ∈ n.working
  silent : n.reportsOf key = []
  sole : ∀ k ∈ n.keys, jobKey k = some key → k = toLowerCase jobId

theorem Holds.undisturbed {jobId : Str} (h : Holds i key jobId n) (hu : Undisturbed i key n n') :
    Holds i key jobId n' :=
  ⟨hu.working, hu.reports.trans h.silent, fun k hk hkey => h.sole k (hu.keys k hk hkey) hkey⟩

/-- Nobody else works on the job. -/
theorem Node.Ok.sole_holder (h : n.Ok cfg about) (hs : about = .settlement)
    (hw : (key, i) ∈ n.working) {j : ℕ} (hj : j ≠ i) : (key, j) ∉ n.working :=
  fun hw' => hj ((h.once hs).holder key j i hw' hw)

/-- A task takes up a job that nobody works on. -/
theorem guar_take (h : n.Ok cfg about) {jobId : Str} (hkey : jobKey jobId = some key)
    (hfree : about = .settlement → ∀ w ∈ n.working, w.1 ≠ key) :
    Guar cfg about i n (n.take i jobId) := by
  have hworking : (n.take i jobId).working = n.working ++ [(key, i)] := by
    simp [Node.take, hkey]
  refine ⟨⟨⟨h.chain, h.object, h.entry, h.written, ?_, fun hi =>
    (h.remembered hi).mono (.refl _) (fun _ hx => hx) rfl⟩, h.saved⟩, rfl, rfl, .refl _,
    fun _ _ hk _ _ _ => hk, ?_⟩
  · intro hs
    have honce := h.once hs
    refine ⟨honce.report, honce.record, honce.recorded, honce.taken, fun r hr hc key hkey =>
      ⟨(honce.completed r hr hc key hkey).queue, (honce.completed r hr hc key hkey).store⟩,
      ?_, honce.spelling, honce.writtenSpelling⟩
    intro key' a b ha hb
    rw [hworking, List.mem_append, List.mem_singleton, Prod.mk.injEq] at ha hb
    rcases ha with ha | ⟨rfl, rfl⟩ <;> rcases hb with hb | ⟨hsame, rfl⟩
    · exact honce.holder key' a b ha hb
    · exact absurd hsame (hfree hs _ ha)
    · exact absurd rfl (hfree hs _ hb)
    · rfl
  · intro _ j _ key' hw
    refine ⟨?_, rfl, fun _ hk _ => hk, fun ha => ⟨ha.queue, ha.store⟩⟩
    rw [hworking]
    exact List.mem_append_left _ hw

/-- A task lets go of its jobs. -/
theorem guar_release (h : n.Ok cfg about) : Guar cfg about i n (n.release i) := by
  refine ⟨⟨⟨h.chain, h.object, h.entry, h.written, ?_, fun hi =>
    (h.remembered hi).mono (.refl _) (fun _ hx => hx) rfl⟩, h.saved⟩, rfl, rfl, .refl _,
    fun _ _ hk _ _ _ => hk, ?_⟩
  · intro hs
    have honce := h.once hs
    refine ⟨honce.report, honce.record, honce.recorded, honce.taken, fun r hr hc key hkey =>
      ⟨(honce.completed r hr hc key hkey).queue, (honce.completed r hr hc key hkey).store⟩,
      ?_, honce.spelling, honce.writtenSpelling⟩
    intro key a b ha hb
    exact honce.holder key a b (List.mem_filter.mp ha).1 (List.mem_filter.mp hb).1
  · intro _ j hj key hw
    refine ⟨?_, rfl, fun _ hk _ => hk, fun ha => ⟨ha.queue, ha.store⟩⟩
    exact List.mem_filter.mpr ⟨hw, by simpa using hj⟩

/-- **An intent is written down.** -/
theorem guar_insert (h : n.Ok cfg about) {e : AcceptedJobEntry W}
    (he : EntryOk cfg about n.chain e) (hkey : jobKey e.jobId = some key)
    (hholds : about = .settlement → Holds i key e.jobId n) :
    Guar cfg about i n (n.insert e).save := by
  have hsane : (n.insert e).Sane cfg about :=
    h.toSane.insert he hkey fun hs => ⟨(hholds hs).silent, (hholds hs).sole⟩
  have hok := hsane.save
  have habsent : ∀ key', key' ≠ key → Absent n key' → Absent (n.insert e).save key' := by
    intro key' hne ha
    refine hsane.absent_save ?_ fun _ => ha.store
    intro k hk hsame
    rcases keys_insert.mp hk with rfl | hk
    · rw [jobKey_toLowerCase hkey] at hsame
      exact hne (Option.some.inj hsame).symm
    · exact ha.queue k hk hsame
  rcases save_eq (n.insert e) with ⟨-, heq⟩ | ⟨-, heq⟩ <;> rw [heq] at hok habsent ⊢
  all_goals
    refine ⟨hok, rfl, rfl, .refl _, fun _ k hk _ _ _ => keys_insert.mpr (.inr hk), ?_⟩
    intro hs j hj key' hw
    have hne : key' ≠ key := by
      rintro rfl
      exact h.sole_holder hs (hholds hs).working hj hw
    refine ⟨hw, rfl, ?_, habsent key' hne⟩
    intro k hk hsame
    rcases keys_insert.mp hk with rfl | hk
    · rw [jobKey_toLowerCase hkey] at hsame
      exact absurd (Option.some.inj hsame).symm hne
    · exact hk

theorem Holds.insert {e : AcceptedJobEntry W} (h : Holds i key e.jobId n) :
    Holds i key e.jobId (n.insert e).save := by
  have hsole : ∀ k ∈ (n.insert e).keys, jobKey k = some key → k = toLowerCase e.jobId := by
    intro k hk hkey
    rcases keys_insert.mp hk with rfl | hk
    · rfl
    · exact h.sole k hk hkey
  rcases save_eq (n.insert e) with ⟨-, heq⟩ | ⟨-, heq⟩
  · rw [heq]
    exact ⟨h.working, h.silent, hsole⟩
  · rw [heq]
    exact ⟨h.working, h.silent, hsole⟩

/-- A report counts for its own job. -/
theorem filter_reports_append {jobId : Str} {result : Settlement} (hkey : jobKey jobId = some key)
    (key' : BytesN 32) :
    ((n.reports ++ [(jobId, result)]).filter fun r => jobKey r.1 = some key') =
      n.reportsOf key' ++ if key' = key then [(jobId, result)] else [] := by
  rw [List.filter_append]
  by_cases hsame : key' = key
  · subst hsame
    simp [Node.reportsOf, hkey]
  · have hne : ¬ jobKey jobId = some key' := by
      rw [hkey]
      exact fun h => hsame (Option.some.inj h).symm
    simp [Node.reportsOf, hne, hsame]

/-- An entry of the ledger counts for its own job. -/
theorem filter_records_append {jobId : Str} {records : List JobLedgerEntry}
    (hkey : jobKey jobId = some key)
    (hrecords : records = n.records ∨ ∃ entry, entry.jobId = jobId ∧ records = n.records ++ [entry])
    (key' : BytesN 32) :
    (records.filter fun r => jobKey r.jobId = some key') = n.recordsOf key' ∨
      key' = key ∧ ∃ entry,
        (records.filter fun r => jobKey r.jobId = some key') = n.recordsOf key' ++ [entry] := by
  rcases hrecords with rfl | ⟨entry, hentry, rfl⟩
  · exact .inl rfl
  · rw [List.filter_append]
    by_cases hsame : key' = key
    · subst hsame
      exact .inr ⟨rfl, entry, by simp [Node.recordsOf, hentry, hkey]⟩
    · have hne : ¬ jobKey entry.jobId = some key' := by
        rw [hentry, hkey]
        exact fun h => hsame (Option.some.inj h).symm
      exact .inl (by simp [Node.recordsOf, hne])

/-- The first report of a job, and perhaps its first record. -/
theorem Once.report_first (h : Once n) {jobId : Str} {result : Settlement}
    {records : List JobLedgerEntry} (hkey : jobKey jobId = some key) (hsilent : n.reportsOf key = [])
    (hrecords : records = n.records ∨ ∃ entry, entry.jobId = jobId ∧ records = n.records ++ [entry])
    (htaken : ∃ job, n.chain.jobs.lookup key = some job ∧ job.status ≠ .OPEN)
    (habsent : result = .completed → Absent n key) :
    Once { n with records := records, reports := n.reports ++ [(jobId, result)] } := by
  have hreports : ∀ key', ((n.reports ++ [(jobId, result)]).filter fun r => jobKey r.1 = some key') =
      n.reportsOf key' ++ if key' = key then [(jobId, result)] else [] := filter_reports_append hkey
  have hfilter := filter_records_append hkey hrecords
  refine ⟨?_, ?_, ?_, ?_, ?_, h.holder, h.spelling, h.writtenSpelling⟩
  · intro key'
    show List.length (List.filter _ _) ≤ 1
    rw [hreports]
    split
    · next hsame =>
        rw [hsame, hsilent]
        exact le_refl _
    · rw [List.append_nil]
      exact h.report key'
  · intro key'
    show List.length (List.filter _ _) ≤ 1
    rcases hfilter key' with heq | ⟨rfl, entry, heq⟩
    · rw [heq]
      exact h.record key'
    · rw [heq, h.recorded key' hsilent]
      exact le_refl _
  · intro key' hnone
    replace hnone := (hreports key').symm.trans hnone
    show List.filter _ _ = []
    rcases hfilter key' with heq | ⟨rfl, entry, heq⟩
    · rw [heq]
      exact h.recorded key' (List.append_eq_nil_iff.mp hnone).1
    · simp at hnone
  · intro key' hreported
    by_cases hsame : key' = key
    · subst hsame
      exact htaken
    · refine h.taken key' ?_
      intro hnone
      refine hreported ((hreports key').trans ?_)
      rw [hnone, if_neg hsame]
      rfl
  · intro r hr hc key' hkey'
    rcases List.mem_append.mp hr with hr | hr
    · exact ⟨(h.completed r hr hc key' hkey').queue, (h.completed r hr hc key' hkey').store⟩
    · rw [List.mem_singleton] at hr
      subst hr
      obtain rfl := Option.some.inj (hkey.symm.trans hkey')
      exact ⟨(habsent hc).queue, (habsent hc).store⟩

/-- **A job is reported**, and perhaps recorded. -/
theorem guar_report (h : n.Ok cfg about) {jobId : Str} {result : Settlement}
    {records : List JobLedgerEntry} (hkey : jobKey jobId = some key)
    (hholds : about = .settlement → Holds i key jobId n)
    (hrecords : records = n.records ∨ ∃ entry, entry.jobId = jobId ∧ records = n.records ++ [entry])
    (htaken : ∃ job, n.chain.jobs.lookup key = some job ∧ job.status ≠ .OPEN)
    (habsent : about = .settlement → result = .completed → Absent n key) :
    Guar cfg about i n
      { n with records := records, reports := n.reports ++ [(jobId, result)] } := by
  refine ⟨⟨⟨h.chain, h.object, h.entry, h.written, ?_, fun hi =>
    (h.remembered hi).mono (.refl _) (fun _ hx => hx) rfl⟩, h.saved⟩, rfl, rfl, .refl _,
    fun _ _ hk _ _ _ => hk, ?_⟩
  · intro hs
    exact (h.once hs).report_first hkey (hholds hs).silent hrecords htaken (habsent hs)
  · intro hs j hj key' hw
    have hne : key' ≠ key := by
      rintro rfl
      exact h.sole_holder hs (hholds hs).working hj hw
    refine ⟨hw, ?_, fun _ hk _ => hk, fun ha => ⟨ha.queue, ha.store⟩⟩
    refine (filter_reports_append hkey key').trans ?_
    rw [if_neg hne, List.append_nil]

end Sections

end OpaqueStellar.Relayer
