import OpaqueStellar.Registry.Jobs

/-! # The chain of a relayer

What a relayer sees of the registry: the jobs and the ledger number. Its own transactions are sent
at one moment and land later or never, whatever the relayer is told in between; everybody else's
calls move the jobs in between. `follows_of_effect` says that this is all that calls of the registry
contract can do to the jobs.

`Chain.Le` is the order in which the chain moves on, and `Chain.Ok` what the operator's key accounts
for: a job that the operator has accepted or submitted was so by one of these transactions. -/

namespace OpaqueStellar.Relayer

open OpaqueStellar.Lib OpaqueStellar.Soroban OpaqueStellar.Registry

inductive Tx where
  | accept (jobId : BytesN 32)
  | submit (jobId payloadHash : BytesN 32)
  deriving DecidableEq

inductive TxStatus where
  | pending
  | success
  | failed
  deriving DecidableEq

structure Chain where
  ledger : ℕ := 0
  jobs : Store (BytesN 32) JobRecord := ∅
  -- the transactions the operator has signed, with what has become of them
  txs : List (Tx × TxStatus) := []

inductive ChainEvent where
  | close (ledgers : ℕ)
  -- one of the operator's transactions is executed; it may also fail for reasons of its own
  | land (tx : ℕ) (ok : Bool)
  -- a call that the operator did not sign
  | other (jobId : BytesN 32) (new : JobRecord)

instance (job new : JobRecord) : Decidable (SameTerms job new) :=
  decidable_of_iff (new.creator = job.creator ∧ new.fee = job.fee ∧
      new.payloadHash = job.payloadHash ∧ new.deadlineLedger = job.deadlineLedger)
    ⟨fun h => ⟨h.1, h.2.1, h.2.2.1, h.2.2.2⟩,
      fun h => ⟨h.creator, h.fee, h.payloadHash, h.deadlineLedger⟩⟩

/-- What a call that the operator did not sign can make of a job. -/
def Foreign (operator : Address) : Option JobRecord → JobRecord → Prop
  | none, new => new.status = .OPEN ∧ new.acceptedRelayer = none
  | some job, new => SameTerms job new ∧
      (job.status = .OPEN ∧ new.status = .ACCEPTED ∧ new.acceptedRelayer ≠ none ∧
          new.acceptedRelayer ≠ some operator ∨
        new.acceptedRelayer = job.acceptedRelayer ∧
          (job.status = .OPEN ∧ new.status = .CANCELED ∨
            job.status = .ACCEPTED ∧ new.status = .SLASHED ∨
            job.status = .ACCEPTED ∧ new.status = .SUBMITTED ∧
              job.acceptedRelayer ≠ some operator))

instance (operator : Address) (old : Option JobRecord) (new : JobRecord) :
    Decidable (Foreign operator old new) :=
  match old with
  | none => inferInstanceAs (Decidable (_ ∧ _))
  | some _ => inferInstanceAs (Decidable (_ ∧ _))

/-- The job as the transaction leaves it, if the contract lets it through. -/
def Tx.execute (operator : Address) (c : Chain) : Tx → Option (BytesN 32 × JobRecord)
  | .accept jobId => do
      let job ← c.jobs.lookup jobId
      if job.status = .OPEN ∧ c.ledger < job.deadlineLedger then
        some (jobId, { job with acceptedRelayer := some operator, status := .ACCEPTED })
      else none
  | .submit jobId payloadHash => do
      let job ← c.jobs.lookup jobId
      if job.status = .ACCEPTED ∧ job.acceptedRelayer = some operator ∧
          c.ledger < job.deadlineLedger ∧ payloadHash = job.payloadHash then
        some (jobId, { job with status := .SUBMITTED, submittedLedger := c.ledger })
      else none

def Chain.land (operator : Address) (c : Chain) (tx : ℕ) (ok : Bool) : Chain :=
  match c.txs[tx]? with
  | some (t, .pending) =>
      match t.execute operator c with
      | some (jobId, job) =>
          if ok then
            { c with jobs := c.jobs.insert jobId job, txs := c.txs.set tx (t, .success) }
          else { c with txs := c.txs.set tx (t, .failed) }
      | none => { c with txs := c.txs.set tx (t, .failed) }
  | _ => c

def Chain.apply (operator : Address) (c : Chain) : ChainEvent → Chain
  | .close ledgers => { c with ledger := c.ledger + ledgers }
  | .land tx ok => c.land operator tx ok
  | .other jobId new =>
      if Foreign operator (c.jobs.lookup jobId) new then { c with jobs := c.jobs.insert jobId new }
      else c

def Chain.send (c : Chain) (tx : Tx) : Chain := { c with txs := c.txs ++ [(tx, .pending)] }

/-! ## How the chain moves on -/

/-- A job later on. -/
structure JobLe (job job' : JobRecord) : Prop where
  terms : SameTerms job job'
  taken : job.status ≠ .OPEN → job'.status ≠ .OPEN ∧ job'.acceptedRelayer = job.acceptedRelayer
  settled : job.status.settled = true → job'.status = job.status

theorem JobLe.refl (job : JobRecord) : JobLe job job :=
  ⟨.refl job, fun h => ⟨h, rfl⟩, fun _ => rfl⟩

theorem JobLe.trans {a b c : JobRecord} (h : JobLe a b) (h' : JobLe b c) : JobLe a c := by
  refine ⟨⟨?_, ?_, ?_, ?_⟩, ?_, ?_⟩
  · exact h'.terms.creator.trans h.terms.creator
  · exact h'.terms.fee.trans h.terms.fee
  · exact h'.terms.payloadHash.trans h.terms.payloadHash
  · exact h'.terms.deadlineLedger.trans h.terms.deadlineLedger
  · intro hopen
    obtain ⟨hb, hrelayer⟩ := h.taken hopen
    obtain ⟨hc, hrelayer'⟩ := h'.taken hb
    exact ⟨hc, hrelayer'.trans hrelayer⟩
  · intro hsettled
    have hb := h.settled hsettled
    exact (h'.settled (hb ▸ hsettled)).trans hb

/-- Jobs stay and move along. -/
def JobsLe (jobs jobs' : Store (BytesN 32) JobRecord) : Prop :=
  ∀ jobId job, jobs.lookup jobId = some job →
    ∃ job', jobs'.lookup jobId = some job' ∧ JobLe job job'

theorem JobsLe.refl (jobs : Store (BytesN 32) JobRecord) : JobsLe jobs jobs :=
  fun _ job h => ⟨job, h, .refl job⟩

theorem JobsLe.trans {a b c : Store (BytesN 32) JobRecord} (h : JobsLe a b) (h' : JobsLe b c) :
    JobsLe a c := by
  intro jobId job hjob
  obtain ⟨job', hjob', hle⟩ := h jobId job hjob
  obtain ⟨job'', hjob'', hle'⟩ := h' jobId job' hjob'
  exact ⟨job'', hjob'', hle.trans hle'⟩

theorem JobsLe.insert {jobs : Store (BytesN 32) JobRecord} {jobId : BytesN 32} {new : JobRecord}
    (h : ∀ job, jobs.lookup jobId = some job → JobLe job new) :
    JobsLe jobs (jobs.insert jobId new) := by
  intro jobId' job hjob
  by_cases hid : jobId' = jobId
  · subst hid
    exact ⟨new, Finmap.lookup_insert _, h job hjob⟩
  · refine ⟨job, ?_, .refl job⟩
    rw [Finmap.lookup_insert_of_ne _ hid]
    exact hjob

/-- Transactions that were executed stay so, under their numbers. -/
def TxsLe (txs txs' : List (Tx × TxStatus)) : Prop :=
  ∀ (n : ℕ) (tx : Tx), txs[n]? = some (tx, .success) → txs'[n]? = some (tx, .success)

section TxsLe

variable {txs txs' txs'' : List (Tx × TxStatus)}

theorem TxsLe.refl (txs : List (Tx × TxStatus)) : TxsLe txs txs := fun _ _ h => h

theorem TxsLe.trans (h : TxsLe txs txs') (h' : TxsLe txs' txs'') : TxsLe txs txs'' :=
  fun n tx htx => h' n tx (h n tx htx)

theorem TxsLe.append (txs txs' : List (Tx × TxStatus)) : TxsLe txs (txs ++ txs') := by
  intro n tx htx
  rw [List.getElem?_append_left (List.getElem?_eq_some_iff.mp htx).1]
  exact htx

/-- Deciding a pending transaction leaves those alone that were executed. -/
theorem TxsLe.set {n : ℕ} {t : Tx} (h : txs[n]? = some (t, .pending)) (status : TxStatus) :
    TxsLe txs (txs.set n (t, status)) := by
  intro k tx htx
  have hne : n ≠ k := by
    rintro rfl
    rw [h] at htx
    cases htx
  rw [List.getElem?_set_ne hne]
  exact htx

theorem TxsLe.mem (h : TxsLe txs txs') {tx : Tx} (htx : (tx, .success) ∈ txs) :
    (tx, .success) ∈ txs' := by
  obtain ⟨n, hn⟩ := List.mem_iff_getElem?.mp htx
  exact List.mem_of_getElem? (h n tx hn)

end TxsLe

structure Chain.Le (c c' : Chain) : Prop where
  ledger : c.ledger ≤ c'.ledger
  jobs : JobsLe c.jobs c'.jobs
  txs : TxsLe c.txs c'.txs

theorem Chain.Le.refl (c : Chain) : c.Le c := ⟨le_refl _, .refl _, .refl _⟩

theorem Chain.Le.trans {a b c : Chain} (h : a.Le b) (h' : b.Le c) : a.Le c :=
  ⟨h.ledger.trans h'.ledger, h.jobs.trans h'.jobs, h.txs.trans h'.txs⟩

theorem Chain.le_send (c : Chain) (tx : Tx) : c.Le (c.send tx) :=
  ⟨le_refl _, .refl _, .append _ _⟩

theorem jobLe_of_foreign {operator : Address} {job new : JobRecord}
    (h : Foreign operator (some job) new) : JobLe job new := by
  obtain ⟨hterms, hmove⟩ := h
  refine ⟨hterms, ?_, ?_⟩
  · rcases hmove with ⟨hopen, -⟩ | ⟨hrelayer, ⟨hopen, -⟩ | ⟨-, hnew⟩ | ⟨-, hnew, -⟩⟩
    · exact fun h => absurd hopen h
    · exact fun h => absurd hopen h
    · exact fun _ => ⟨by simp [hnew], hrelayer⟩
    · exact fun _ => ⟨by simp [hnew], hrelayer⟩
  · intro hsettled
    rcases hmove with ⟨hold, -⟩ | ⟨-, ⟨hold, -⟩ | ⟨hold, -⟩ | ⟨hold, -⟩⟩
    all_goals
      rw [hold] at hsettled
      cases hsettled

/-- What the operator's own transactions do to a job. -/
theorem execute_cases {operator : Address} {c : Chain} {tx : Tx} {jobId : BytesN 32}
    {new : JobRecord} (h : tx.execute operator c = some (jobId, new)) :
    ∃ job, c.jobs.lookup jobId = some job ∧ c.ledger < job.deadlineLedger ∧
      (tx = .accept jobId ∧ job.status = .OPEN ∧
          new = { job with acceptedRelayer := some operator, status := .ACCEPTED } ∨
        ∃ payloadHash, tx = .submit jobId payloadHash ∧ job.status = .ACCEPTED ∧
          job.acceptedRelayer = some operator ∧
          new = { job with status := .SUBMITTED, submittedLedger := c.ledger }) := by
  cases tx with
  | accept id =>
      simp only [Tx.execute, Option.bind_eq_bind, Option.bind_eq_some_iff] at h
      obtain ⟨job, hjob, hif⟩ := h
      split at hif
      · next hcond =>
          cases hif
          exact ⟨job, hjob, hcond.2, .inl ⟨rfl, hcond.1, rfl⟩⟩
      · cases hif
  | submit id payloadHash =>
      simp only [Tx.execute, Option.bind_eq_bind, Option.bind_eq_some_iff] at h
      obtain ⟨job, hjob, hif⟩ := h
      split at hif
      · next hcond =>
          cases hif
          exact ⟨job, hjob, hcond.2.2.1, .inr ⟨payloadHash, rfl, hcond.1, hcond.2.1, rfl⟩⟩
      · cases hif

theorem jobLe_of_execute {operator : Address} {c : Chain} {tx : Tx} {jobId : BytesN 32}
    {job new : JobRecord} (h : tx.execute operator c = some (jobId, new))
    (hjob : c.jobs.lookup jobId = some job) : JobLe job new := by
  obtain ⟨job', hjob', -, hcases⟩ := execute_cases h
  obtain rfl := Option.some.inj (hjob.symm.trans hjob')
  rcases hcases with ⟨-, hopen, rfl⟩ | ⟨payloadHash, -, haccepted, -, rfl⟩
  · refine ⟨⟨rfl, rfl, rfl, rfl⟩, fun h => absurd hopen h, ?_⟩
    rw [hopen]
    intro h
    cases h
  · refine ⟨⟨rfl, rfl, rfl, rfl⟩, fun _ => ⟨by simp, rfl⟩, ?_⟩
    rw [haccepted]
    intro h
    cases h

theorem mem_set_of_pending {txs : List (Tx × TxStatus)} {n : ℕ} {t : Tx} {status : TxStatus}
    (hn : txs[n]? = some (t, .pending)) {tx : Tx × TxStatus} (hok : tx.2 = .success) :
    tx ∈ txs.set n (t, status) ↔ tx ∈ txs ∨ tx = (t, status) := by
  constructor
  · exact List.mem_or_eq_of_mem_set
  · rintro (hmem | rfl)
    · obtain ⟨tx, ok⟩ := tx
      obtain rfl : ok = .success := hok
      exact (TxsLe.set hn status).mem hmem
    · exact List.mem_set (List.getElem?_eq_some_iff.mp hn).1 _

/-- **What an event does**: nothing to the jobs, or it moves one of them along, by a call of somebody
else or by one of the operator's transactions. -/
theorem apply_cases (operator : Address) (c : Chain) (e : ChainEvent) :
    (∃ ledger txs, c.apply operator e = { c with ledger := ledger, txs := txs } ∧
      c.ledger ≤ ledger ∧ TxsLe c.txs txs ∧ ∀ tx, tx.2 = .success → tx ∈ txs → tx ∈ c.txs) ∨
    (∃ jobId new, Foreign operator (c.jobs.lookup jobId) new ∧
      c.apply operator e = { c with jobs := c.jobs.insert jobId new }) ∨
    ∃ n tx jobId new, c.txs[n]? = some (tx, .pending) ∧ tx.execute operator c = some (jobId, new) ∧
      c.apply operator e =
        { c with jobs := c.jobs.insert jobId new, txs := c.txs.set n (tx, .success) } := by
  have hfailed : ∀ {n : ℕ} {t : Tx}, c.txs[n]? = some (t, .pending) →
      TxsLe c.txs (c.txs.set n (t, .failed)) ∧
        ∀ tx : Tx × TxStatus, tx.2 = .success → tx ∈ c.txs.set n (t, .failed) → tx ∈ c.txs := by
    intro n t hn
    refine ⟨.set hn .failed, ?_⟩
    intro tx hok htx
    rcases (mem_set_of_pending hn hok).mp htx with hold | rfl
    · exact hold
    · cases hok
  cases e with
  | close ledgers =>
      exact .inl ⟨c.ledger + ledgers, c.txs, rfl, Nat.le_add_right _ _, .refl _, fun _ _ h => h⟩
  | land n ok =>
      simp only [Chain.apply, Chain.land]
      split
      · next t hpending =>
          split
          · next jobId new hexec =>
              cases ok with
              | true => exact .inr (.inr ⟨n, t, jobId, new, hpending, hexec, rfl⟩)
              | false => exact .inl ⟨_, _, rfl, le_refl _, hfailed hpending⟩
          · exact .inl ⟨_, _, rfl, le_refl _, hfailed hpending⟩
      · exact .inl ⟨c.ledger, c.txs, rfl, le_refl _, .refl _, fun _ _ h => h⟩
  | other jobId new =>
      simp only [Chain.apply]
      split
      · next hforeign => exact .inr (.inl ⟨jobId, new, hforeign, rfl⟩)
      · exact .inl ⟨c.ledger, c.txs, rfl, le_refl _, .refl _, fun _ _ h => h⟩

theorem Chain.land_ledger {operator : Address} {c : Chain} {tx : ℕ} {ok : Bool} :
    (c.land operator tx ok).ledger = c.ledger := by
  unfold Chain.land
  split
  · split
    · split <;> rfl
    · rfl
  · rfl

theorem Chain.le_apply (operator : Address) (c : Chain) (e : ChainEvent) :
    c.Le (c.apply operator e) := by
  rcases apply_cases operator c e with ⟨ledger, txs, heq, hledger, htxs, -⟩ |
    ⟨jobId, new, hforeign, heq⟩ | ⟨n, tx, jobId, new, hpending, hexec, heq⟩
  · rw [heq]
    exact ⟨hledger, .refl _, htxs⟩
  · rw [heq]
    refine ⟨le_refl _, .insert ?_, .refl _⟩
    intro job hjob
    rw [hjob] at hforeign
    exact jobLe_of_foreign hforeign
  · rw [heq]
    exact ⟨le_refl _, .insert fun job hjob => jobLe_of_execute hexec hjob, .set hpending _⟩

/-! ## What the operator's key accounts for -/

structure Chain.Ok (operator : Address) (c : Chain) : Prop where
  accepted : ∀ jobId job, c.jobs.lookup jobId = some job → job.status = .ACCEPTED →
    job.acceptedRelayer ≠ none
  submitted : ∀ jobId job, c.jobs.lookup jobId = some job → job.status = .SUBMITTED →
    job.acceptedRelayer = some operator → ∃ payloadHash, (Tx.submit jobId payloadHash, .success) ∈ c.txs
  acceptTx : ∀ jobId, (Tx.accept jobId, .success) ∈ c.txs → ∃ job,
    c.jobs.lookup jobId = some job ∧ job.status ≠ .OPEN ∧ job.acceptedRelayer = some operator
  submitTx : ∀ jobId payloadHash, (Tx.submit jobId payloadHash, .success) ∈ c.txs → ∃ job,
    c.jobs.lookup jobId = some job ∧ job.status = .SUBMITTED ∧ job.acceptedRelayer = some operator

theorem Chain.ok_empty (operator : Address) (ledger : ℕ) :
    Chain.Ok operator { ledger := ledger } := by
  refine ⟨?_, ?_, ?_, ?_⟩
  · intro jobId job hjob
    cases hjob
  · intro jobId job hjob
    cases hjob
  · intro jobId htx
    cases htx
  · intro jobId payloadHash htx
    cases htx

/-- What the executed transactions account for stays so. -/
theorem Chain.Ok.of_le {operator : Address} {c c' : Chain} (h : c.Ok operator) (hle : c.Le c')
    (haccepted : ∀ jobId job, c'.jobs.lookup jobId = some job → job.status = .ACCEPTED →
      job.acceptedRelayer ≠ none)
    (hsubmitted : ∀ jobId job, c'.jobs.lookup jobId = some job → job.status = .SUBMITTED →
      job.acceptedRelayer = some operator →
        ∃ payloadHash, (Tx.submit jobId payloadHash, .success) ∈ c'.txs)
    (hnew : ∀ tx ∈ c'.txs, tx.2 = .success → tx ∉ c.txs → ∃ jobId job,
      c'.jobs.lookup jobId = some job ∧ job.acceptedRelayer = some operator ∧
        (tx.1 = .accept jobId ∧ job.status ≠ .OPEN ∨
          ∃ payloadHash, tx.1 = .submit jobId payloadHash ∧ job.status = .SUBMITTED)) :
    c'.Ok operator := by
  refine ⟨haccepted, hsubmitted, ?_, ?_⟩
  · intro jobId htx
    by_cases hold : (Tx.accept jobId, TxStatus.success) ∈ c.txs
    · obtain ⟨job, hjob, htaken, hrelayer⟩ := h.acceptTx jobId hold
      obtain ⟨job', hjob', hjobLe⟩ := hle.jobs jobId job hjob
      obtain ⟨htaken', hrelayer'⟩ := hjobLe.taken htaken
      exact ⟨job', hjob', htaken', hrelayer'.trans hrelayer⟩
    · obtain ⟨jobId', job, hjob, hrelayer, ⟨htx', htaken⟩ | ⟨payloadHash, htx', -⟩⟩ :=
        hnew _ htx rfl hold
      · cases htx'
        exact ⟨job, hjob, htaken, hrelayer⟩
      · cases htx'
  · intro jobId payloadHash htx
    by_cases hold : (Tx.submit jobId payloadHash, TxStatus.success) ∈ c.txs
    · obtain ⟨job, hjob, hstatus, hrelayer⟩ := h.submitTx jobId payloadHash hold
      obtain ⟨job', hjob', hjobLe⟩ := hle.jobs jobId job hjob
      have hstatus' := hjobLe.settled (by rw [hstatus]; rfl)
      obtain ⟨-, hrelayer'⟩ := hjobLe.taken (by rw [hstatus]; simp)
      exact ⟨job', hjob', hstatus'.trans hstatus, hrelayer'.trans hrelayer⟩
    · obtain ⟨jobId', job, hjob, hrelayer, ⟨htx', -⟩ | ⟨payloadHash', htx', hstatus⟩⟩ :=
        hnew _ htx rfl hold
      · cases htx'
      · cases htx'
        exact ⟨job, hjob, hstatus, hrelayer⟩

theorem Chain.Ok.send {operator : Address} {c : Chain} (h : c.Ok operator) (tx : Tx) :
    (c.send tx).Ok operator := by
  refine h.of_le (c.le_send tx) h.accepted ?_ ?_
  · intro jobId job hjob hstatus hrelayer
    obtain ⟨payloadHash, htx⟩ := h.submitted jobId job hjob hstatus hrelayer
    exact ⟨payloadHash, List.mem_append_left _ htx⟩
  · intro tx' htx hok hnew
    rcases List.mem_append.mp htx with htx | htx
    · exact absurd htx hnew
    · rw [List.mem_singleton.mp htx] at hok
      cases hok

theorem Chain.Ok.apply {operator : Address} {c : Chain} (h : c.Ok operator) (e : ChainEvent) :
    (c.apply operator e).Ok operator := by
  have hle := c.le_apply operator e
  rcases apply_cases operator c e with ⟨ledger, txs, heq, -, htxs, hold⟩ |
    ⟨jobId, new, hforeign, heq⟩ | ⟨n, tx, jobId, new, hpending, hexec, heq⟩
  · rw [heq] at hle ⊢
    refine h.of_le hle h.accepted ?_ ?_
    · intro jobId job hjob hstatus hrelayer
      obtain ⟨payloadHash, htx⟩ := h.submitted jobId job hjob hstatus hrelayer
      exact ⟨payloadHash, htxs.mem htx⟩
    · intro tx htx hok hnew
      exact absurd (hold tx hok htx) hnew
  · rw [heq] at hle ⊢
    refine h.of_le hle ?_ ?_ fun tx htx _ hnew => absurd htx hnew
    · intro jobId' job hjob hstatus
      rcases Store.lookup_insert_cases hjob with ⟨rfl, rfl⟩ | hold
      · cases hread : c.jobs.lookup jobId' with
        | none =>
            rw [hread] at hforeign
            rw [hforeign.1] at hstatus
            cases hstatus
        | some old =>
            rw [hread] at hforeign
            rcases hforeign.2 with ⟨-, -, hsome, -⟩ | ⟨-, ⟨-, hnew⟩ | ⟨-, hnew⟩ | ⟨-, hnew, -⟩⟩
            · exact hsome
            all_goals
              rw [hnew] at hstatus
              cases hstatus
      · exact h.accepted jobId' job hold hstatus
    · intro jobId' job hjob hstatus hrelayer
      rcases Store.lookup_insert_cases hjob with ⟨rfl, rfl⟩ | hold
      · cases hread : c.jobs.lookup jobId' with
        | none =>
            rw [hread] at hforeign
            rw [hforeign.1] at hstatus
            cases hstatus
        | some old =>
            rw [hread] at hforeign
            rcases hforeign.2 with ⟨-, hnew, -⟩ | ⟨hsame, ⟨-, hnew⟩ | ⟨-, hnew⟩ | ⟨-, -, hne⟩⟩
            · rw [hnew] at hstatus
              cases hstatus
            · rw [hnew] at hstatus
              cases hstatus
            · rw [hnew] at hstatus
              cases hstatus
            · exact absurd (hsame.symm.trans hrelayer) hne
      · exact h.submitted jobId' job hold hstatus hrelayer
  · rw [heq] at hle ⊢
    have hthis : (tx, .success) ∈ c.txs.set n (tx, .success) :=
      (mem_set_of_pending hpending rfl).mpr (.inr rfl)
    obtain ⟨job, hjob, -, hcases⟩ := execute_cases hexec
    refine h.of_le hle ?_ ?_ ?_
    · intro jobId' job' hjob' hstatus
      rcases Store.lookup_insert_cases hjob' with ⟨rfl, rfl⟩ | hold
      · rcases hcases with ⟨-, -, rfl⟩ | ⟨payloadHash, -, -, -, rfl⟩
        · simp
        · cases hstatus
      · exact h.accepted jobId' job' hold hstatus
    · intro jobId' job' hjob' hstatus hrelayer
      rcases Store.lookup_insert_cases hjob' with ⟨rfl, rfl⟩ | hold
      · rcases hcases with ⟨-, -, rfl⟩ | ⟨payloadHash, rfl, -, -, rfl⟩
        · cases hstatus
        · exact ⟨payloadHash, hthis⟩
      · obtain ⟨payloadHash, htx⟩ := h.submitted jobId' job' hold hstatus hrelayer
        exact ⟨payloadHash, (TxsLe.set hpending _).mem htx⟩
    · intro tx' htx hok hnew
      rcases (mem_set_of_pending hpending hok).mp htx with hold | rfl
      · exact absurd hold hnew
      · refine ⟨jobId, new, Finmap.lookup_insert _, ?_⟩
        rcases hcases with ⟨rfl, -, rfl⟩ | ⟨payloadHash, rfl, -, hrelayer, rfl⟩
        · exact ⟨rfl, .inl ⟨rfl, by simp⟩⟩
        · exact ⟨hrelayer, .inr ⟨payloadHash, rfl, rfl⟩⟩

/-! ## The registry contract -/

/-- **Calls of the registry** move the jobs as the events do: those that the operator signed as its
transactions, all others as somebody else's calls. -/
theorem follows_of_effect {host : Host} {env : Env} {w w' : World} {call : Call}
    (h : Effect host env w call w') (operator : Address) (txs : List (Tx × TxStatus)) :
    w'.registry.jobs = w.registry.jobs ∨ ∃ jobId new,
      w'.registry.jobs = w.registry.jobs.insert jobId new ∧
        (Foreign operator (w.registry.jobs.lookup jobId) new ∨
          Signed host env operator ∧
            ∃ tx : Tx, tx.execute operator ⟨env.sequence, w.registry.jobs, txs⟩ =
              some (jobId, new)) := by
  cases h with
  | createJob hsigned hpositive hstored hahead hnear hfresh hpaid =>
      obtain ⟨tokens, -, rfl⟩ := hpaid
      refine .inr ⟨_, _, rfl, .inl ?_⟩
      show Foreign operator (w.registry.jobs.lookup _) _
      rw [hfresh]
      exact ⟨rfl, rfl⟩
  | @acceptJob signer jobId job relayer free bonded hsigned hjob hopen hinTime hread hle hfree
      hbonded =>
      refine .inr ⟨jobId, _, rfl, ?_⟩
      by_cases hown : signer = operator
      · subst hown
        refine .inr ⟨hsigned, .accept jobId, ?_⟩
        simp [Tx.execute, hjob, hopen, hinTime]
      · refine .inl ?_
        rw [hjob]
        exact ⟨⟨rfl, rfl, rfl, rfl⟩, .inl ⟨hopen, rfl, by simp, by simpa using hown⟩⟩
  | @submitPoolWithdraw signer jobId args config job pool relayer free bonded w₁ hsigned hstored
      hjob hstatus haccepted hinTime hpayload hcalled hwithdrawn hread hbonded hfree hpaid =>
      obtain ⟨tokens, -, rfl⟩ := hpaid
      refine .inr ⟨jobId, _, rfl, ?_⟩
      by_cases hown : signer = operator
      · subst hown
        refine .inr ⟨hsigned, .submit jobId job.payloadHash, ?_⟩
        simp [Tx.execute, hjob, hstatus, haccepted, hinTime]
      · refine .inl ?_
        rw [hjob]
        exact ⟨⟨rfl, rfl, rfl, rfl⟩,
          .inr ⟨rfl, .inr (.inr ⟨hstatus, rfl, by simpa [haccepted] using hown⟩)⟩⟩
  | slashJob hsigned hstored hjob hcreator hstatus hlate haccepted hread hbonded hpending hdouble
      hpaid =>
      obtain ⟨tokens, -, rfl⟩ := hpaid
      refine .inr ⟨_, _, rfl, .inl ?_⟩
      rw [hjob]
      exact ⟨⟨rfl, rfl, rfl, rfl⟩, .inr ⟨rfl, .inr (.inl ⟨hstatus, rfl⟩)⟩⟩
  | cancelJob hsigned hstored hjob hcreator hopen hlate hpaid =>
      obtain ⟨tokens, -, rfl⟩ := hpaid
      refine .inr ⟨_, _, rfl, .inl ?_⟩
      rw [hjob]
      exact ⟨⟨rfl, rfl, rfl, rfl⟩, .inr ⟨rfl, .inl ⟨hopen, rfl⟩⟩⟩
  | register hsigned hstored henough hfresh hpaid =>
      obtain ⟨tokens, -, rfl⟩ := hpaid
      exact .inl rfl
  | addStake hsigned hpositive hstored hread hpaid hfree =>
      obtain ⟨tokens, -, rfl⟩ := hpaid
      exact .inl rfl
  | withdrawStake hsigned hstored hread hpositive hunlocked hpaid =>
      obtain ⟨tokens, -, rfl⟩ := hpaid
      exact .inl rfl
  | reportSlash hpositive hevidence hstored hread hdeducted hpaid =>
      obtain ⟨tokens, -, rfl⟩ := hpaid
      exact .inl rfl
  | initializeRegistry => exact .inl rfl
  | requestUnstake => exact .inl rfl
  | setConfig => exact .inl rfl
  | transferAdmin => exact .inl rfl

end OpaqueStellar.Relayer
