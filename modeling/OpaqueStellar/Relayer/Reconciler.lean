import OpaqueStellar.Relayer.JobIds

/-! # Payout reconciliation

`PayoutReconciler` of `relayer/src/reconciler.ts`. A pass asks the chain for the job of each entry of the
ledger, one after the other, and sorts the entries by the answers: the job was submitted for the fee that
is expected, there is no such job, or something else is the matter, which includes that the chain could not
be asked. On boot the entries without a job are dropped, and an entry whose answer is an error is not one
of them. -/

namespace OpaqueStellar.Relayer

open OpaqueStellar.Lib
open OpaqueStellar.Registry (JobStatus)
open OpaqueStellar.Schemas (Str)

/-! ## The ledger -/

namespace JobLedger

def all (ledger : JobLedger) : List JobLedgerEntry := ledger.map (·.2)

/-- `hydrate`, with what the store has: nothing where there is no store, it was read before or it cannot
be read. -/
def hydrate (ledger : JobLedger) (saved : Option (List JobLedgerEntry)) : JobLedger :=
  (saved.getD []).foldl record ledger

/-- The map has each identifier once, and under its own key. -/
structure Ok (ledger : JobLedger) : Prop where
  distinct : ledger.Distinct
  keyed : ∀ e ∈ ledger, e.1 = toLowerCase e.2.jobId

theorem ok_empty : Ok [] := ⟨List.nodup_nil, fun _ he => absurd he List.not_mem_nil⟩

theorem Ok.record {ledger : JobLedger} (h : ledger.Ok) (entry : JobLedgerEntry) : (ledger.record entry).Ok := by
  refine ⟨Dict.distinct_set h.distinct _ _, fun e he => ?_⟩
  rcases Dict.mem_set he with rfl | ⟨he, -⟩
  · rfl
  · exact h.keyed e he

theorem Ok.remove {ledger : JobLedger} (h : ledger.Ok) (jobId : Str) : (ledger.remove jobId).Ok :=
  ⟨Dict.distinct_delete h.distinct _, fun e he => h.keyed e (Dict.mem_delete.mp he).1⟩

theorem Ok.hydrate {ledger : JobLedger} (h : ledger.Ok) (saved : Option (List JobLedgerEntry)) :
    (ledger.hydrate saved).Ok := by
  unfold JobLedger.hydrate
  generalize saved.getD [] = entries
  induction entries generalizing ledger with
  | nil => exact h
  | cons entry entries ih => exact ih (h.record entry)

end JobLedger

/-! ## A pass -/

structure OnChainJob where
  -- `exists`
  present : Bool
  status : JobStatus
  fee : ℤ

/-- What `getJob` comes to: the message of an error, no job, or a job. -/
abbrev JobAnswer := Except Str (Option OnChainJob)

inductive ReconciliationOutcome where
  | clean
  | discrepancy
  | not_found
  deriving DecidableEq

structure JobReconciliationResult where
  jobId : Str
  outcome : ReconciliationOutcome
  expectedFee : Str
  onChainFee : Option Str
  onChainStatus : Option Str
  submittedTx : TxRef
  detail : Str

def statusText : JobStatus → Str
  | .OPEN => "open".toList
  | .ACCEPTED => "accepted".toList
  | .SUBMITTED => "submitted".toList
  | .SLASHED => "slashed".toList
  | .CANCELED => "canceled".toList

def mismatch (entry : JobLedgerEntry) (job : OnChainJob) : List Str :=
  (if job.fee = entry.expectedFee then []
    else ["fee mismatch: expected ".toList ++ bigIntToString entry.expectedFee ++ ", on-chain ".toList ++
      bigIntToString job.fee]) ++
  (if job.status = .SUBMITTED then []
    else ["unexpected status: ".toList ++ statusText job.status ++ " (expected submitted)".toList])

/-- What is noted for an entry. -/
def reconcileEntry (entry : JobLedgerEntry) : JobAnswer → JobReconciliationResult
  | .error message =>
      { jobId := entry.jobId
        outcome := .discrepancy
        expectedFee := bigIntToString entry.expectedFee
        onChainFee := none
        onChainStatus := some "unknown".toList
        submittedTx := entry.submittedTx
        detail := "RPC error during lookup: ".toList ++ message }
  | .ok none => notFound entry
  | .ok (some job) =>
      if !job.present then notFound entry
      else if job.fee = entry.expectedFee ∧ job.status = .SUBMITTED then
        { found entry job with outcome := .clean, detail := "OK".toList }
      else { found entry job with
        outcome := .discrepancy
        detail := List.intercalate "; ".toList (mismatch entry job) }
where
  notFound (entry : JobLedgerEntry) : JobReconciliationResult :=
    { jobId := entry.jobId
      outcome := .not_found
      expectedFee := bigIntToString entry.expectedFee
      onChainFee := none
      onChainStatus := none
      submittedTx := entry.submittedTx
      detail :=
        "Job not found on-chain. Possible chain reorganisation or wrong contract address.".toList }
  found (entry : JobLedgerEntry) (job : OnChainJob) : JobReconciliationResult :=
    { jobId := entry.jobId
      outcome := .clean
      expectedFee := bigIntToString entry.expectedFee
      onChainFee := some (bigIntToString job.fee)
      onChainStatus := some (statusText job.status)
      submittedTx := entry.submittedTx
      detail := [] }

/-- The loop, from the call with this number on. -/
def reconcileEntries (chain : ℕ → Str → JobAnswer) : ℕ → List JobLedgerEntry → List JobReconciliationResult
  | _, [] => []
  | call, entry :: rest =>
      reconcileEntry entry (chain call entry.jobId) :: reconcileEntries chain (call + 1) rest

inductive ReconciliationSummary where
  | clean
  | discrepancies_found
  deriving DecidableEq

structure ReconciliationReport where
  runAt : ℕ
  coveredRange : Option (ℕ × ℕ)
  totalChecked : ℕ
  cleanCount : ℕ
  discrepancyCount : ℕ
  notFoundCount : ℕ
  summary : ReconciliationSummary
  discrepancies : List JobReconciliationResult

structure PayoutReconciler where
  ledger : JobLedger
  lastReport : Option ReconciliationReport := none
  runCount : ℕ := 0

namespace PayoutReconciler

def outcomeCount (results : List JobReconciliationResult) (outcome : ReconciliationOutcome) : ℕ :=
  (results.filter fun r => r.outcome = outcome).length

def reportOf (runAt : ℕ) (entries : List JobLedgerEntry) (results : List JobReconciliationResult) :
    ReconciliationReport :=
  let discrepancies := results.filter fun r => r.outcome ≠ .clean
  let times := entries.map (·.submittedAt)
  { runAt := runAt
    coveredRange := times.min?.bind fun fromMs => times.max?.map fun toMs => (fromMs, toMs)
    totalChecked := entries.length
    cleanCount := outcomeCount results .clean
    discrepancyCount := outcomeCount results .discrepancy
    notFoundCount := outcomeCount results .not_found
    summary := if discrepancies.length = 0 then .clean else .discrepancies_found
    discrepancies := discrepancies }

/-- A pass, against a chain that answers each call as it likes. -/
def reconcile (rec : PayoutReconciler) (chain : ℕ → Str → JobAnswer) (runAt : ℕ) :
    PayoutReconciler × ReconciliationReport :=
  let entries := rec.ledger.all
  let report := reportOf runAt entries (reconcileEntries chain 0 entries)
  ({ rec with lastReport := some report, runCount := rec.runCount + 1 }, report)

/-- What is done about a line of the report. -/
def dropStale (ledger : JobLedger) (d : JobReconciliationResult) : JobLedger :=
  if d.outcome = .not_found ∧ d.onChainStatus = none then ledger.remove d.jobId else ledger

def verifyOnBoot (rec : PayoutReconciler) (saved : Option (List JobLedgerEntry)) (chain : ℕ → Str → JobAnswer)
    (runAt : ℕ) : PayoutReconciler × ReconciliationReport :=
  let (rec, report) := reconcile { rec with ledger := rec.ledger.hydrate saved } chain runAt
  ({ rec with ledger := report.discrepancies.foldl dropStale rec.ledger }, report)

end PayoutReconciler

/-! ## What an answer says of an entry -/

/-- The job is submitted on the chain, with the fee that is expected. -/
def PaidOut (entry : JobLedgerEntry) : JobAnswer → Prop
  | .ok (some job) => job.present = true ∧ job.status = .SUBMITTED ∧ job.fee = entry.expectedFee
  | _ => False

/-- The chain says that there is no such job. -/
def Missing : JobAnswer → Prop
  | .ok (some job) => job.present = false
  | .ok none => True
  | .error _ => False

instance (entry : JobLedgerEntry) (answer : JobAnswer) : Decidable (PaidOut entry answer) :=
  match answer with
  | .ok (some _) => inferInstanceAs (Decidable (_ ∧ _))
  | .ok none => isFalse id
  | .error _ => isFalse id

instance (answer : JobAnswer) : Decidable (Missing answer) :=
  match answer with
  | .ok (some job) => inferInstanceAs (Decidable (job.present = false))
  | .ok none => isTrue trivial
  | .error _ => isFalse id

theorem outcome_reconcileEntry (entry : JobLedgerEntry) (answer : JobAnswer) :
    (reconcileEntry entry answer).outcome =
      if PaidOut entry answer then .clean else if Missing answer then .not_found else .discrepancy := by
  cases answer with
  | error message => rfl
  | ok job =>
      cases job with
      | none => rfl
      | some job =>
          cases hpresent : job.present with
          | false => simp [reconcileEntry, reconcileEntry.notFound, PaidOut, Missing, hpresent]
          | true =>
              by_cases hok : job.fee = entry.expectedFee ∧ job.status = .SUBMITTED
              · simp [reconcileEntry, PaidOut, hpresent, hok]
              · have hnot : ¬ (job.status = .SUBMITTED ∧ job.fee = entry.expectedFee) := fun h => hok h.symm
                simp [reconcileEntry, PaidOut, Missing, hpresent, hok, hnot]

theorem jobId_reconcileEntry (entry : JobLedgerEntry) (answer : JobAnswer) :
    (reconcileEntry entry answer).jobId = entry.jobId := by
  unfold reconcileEntry
  repeat' split
  all_goals rfl

theorem paidOut_not_missing {entry : JobLedgerEntry} {answer : JobAnswer} (h : PaidOut entry answer) :
    ¬ Missing answer := by
  rcases answer with message | (_ | job)
  · exact h.elim
  · exact h.elim
  · have hpresent : job.present = true := h.1
    simp [Missing, hpresent]

theorem outcome_eq_clean {entry : JobLedgerEntry} {answer : JobAnswer} :
    (reconcileEntry entry answer).outcome = .clean ↔ PaidOut entry answer := by
  rw [outcome_reconcileEntry]
  split_ifs <;> simp_all

theorem outcome_eq_not_found {entry : JobLedgerEntry} {answer : JobAnswer} :
    (reconcileEntry entry answer).outcome = .not_found ↔ Missing answer := by
  rw [outcome_reconcileEntry]
  split_ifs with hpaid
  · simp [paidOut_not_missing hpaid]
  · simp_all
  · simp_all

theorem outcome_eq_discrepancy {entry : JobLedgerEntry} {answer : JobAnswer} :
    (reconcileEntry entry answer).outcome = .discrepancy ↔ ¬ PaidOut entry answer ∧ ¬ Missing answer := by
  rw [outcome_reconcileEntry]
  split_ifs <;> simp_all

/-- A job that is not there has no status; a chain that cannot be asked has an unknown one. -/
theorem onChainStatus_of_missing {entry : JobLedgerEntry} {answer : JobAnswer} (h : Missing answer) :
    (reconcileEntry entry answer).onChainStatus = none := by
  rcases answer with message | (_ | job)
  · exact h.elim
  · rfl
  · have hpresent : job.present = false := h
    simp [reconcileEntry, reconcileEntry.notFound, hpresent]

/-! ## Reports -/

/-- The entries with the number of the call that asks for each of them. -/
def answerTo (chain : ℕ → Str → JobAnswer) (x : JobLedgerEntry × ℕ) : JobAnswer := chain x.2 x.1.jobId

theorem reconcileEntries_eq (chain : ℕ → Str → JobAnswer) (call : ℕ) (entries : List JobLedgerEntry) :
    reconcileEntries chain call entries =
      (entries.zipIdx call).map fun x => reconcileEntry x.1 (answerTo chain x) := by
  induction entries generalizing call with
  | nil => rfl
  | cons entry rest ih =>
      rw [reconcileEntries, ih, List.zipIdx_cons, List.map_cons]
      rfl

/-- The report says of each entry, once, what the answer to it says. -/
structure Reconciled (chain : ℕ → Str → JobAnswer) (entries : List JobLedgerEntry)
    (report : ReconciliationReport) : Prop where
  checked : report.totalChecked = entries.length
  clean : report.cleanCount = (entries.zipIdx.filter fun x => PaidOut x.1 (answerTo chain x)).length
  notFound : report.notFoundCount = (entries.zipIdx.filter fun x => Missing (answerTo chain x)).length
  discrepancy : report.discrepancyCount =
    (entries.zipIdx.filter fun x => ¬ PaidOut x.1 (answerTo chain x) ∧ ¬ Missing (answerTo chain x)).length
  sum : report.cleanCount + report.discrepancyCount + report.notFoundCount = entries.length
  lines : report.discrepancies = (entries.zipIdx.filter fun x => ¬ PaidOut x.1 (answerTo chain x)).map
    fun x => reconcileEntry x.1 (answerTo chain x)
  summary : report.summary = .clean ↔ ∀ x ∈ entries.zipIdx, PaidOut x.1 (answerTo chain x)

namespace PayoutReconciler

variable {rec : PayoutReconciler} {chain : ℕ → Str → JobAnswer}

theorem outcomeCount_map (outcome : ReconciliationOutcome) (asked : List (JobLedgerEntry × ℕ)) :
    outcomeCount (asked.map fun x => reconcileEntry x.1 (answerTo chain x)) outcome =
      (asked.filter fun x => (reconcileEntry x.1 (answerTo chain x)).outcome = outcome).length := by
  rw [outcomeCount, List.filter_map, List.length_map]
  rfl

/-- Every line counts for one outcome. -/
theorem outcomeCount_sum (results : List JobReconciliationResult) :
    outcomeCount results .clean + outcomeCount results .discrepancy + outcomeCount results .not_found =
      results.length := by
  induction results with
  | nil => rfl
  | cons r results ih =>
      simp only [outcomeCount] at ih ⊢
      cases houtcome : r.outcome <;> simp [houtcome] <;> omega

theorem reconciled (rec : PayoutReconciler) (chain : ℕ → Str → JobAnswer) (runAt : ℕ) :
    Reconciled chain rec.ledger.all (rec.reconcile chain runAt).2 := by
  have hresults := reconcileEntries_eq chain 0 rec.ledger.all
  have hlines : (rec.reconcile chain runAt).2.discrepancies =
      (rec.ledger.all.zipIdx.filter fun x => ¬ PaidOut x.1 (answerTo chain x)).map
        fun x => reconcileEntry x.1 (answerTo chain x) := by
    show (reconcileEntries chain 0 rec.ledger.all).filter _ = _
    rw [hresults, List.filter_map]
    simp only [Function.comp_def, ne_eq, outcome_eq_clean]
  refine ⟨rfl, ?_, ?_, ?_, ?_, hlines, ?_⟩
  · show outcomeCount (reconcileEntries chain 0 rec.ledger.all) .clean = _
    rw [hresults, outcomeCount_map]
    simp only [outcome_eq_clean]
  · show outcomeCount (reconcileEntries chain 0 rec.ledger.all) .not_found = _
    rw [hresults, outcomeCount_map]
    simp only [outcome_eq_not_found]
  · show outcomeCount (reconcileEntries chain 0 rec.ledger.all) .discrepancy = _
    rw [hresults, outcomeCount_map]
    simp only [outcome_eq_discrepancy]
  · show outcomeCount _ _ + outcomeCount _ _ + outcomeCount _ _ = _
    rw [outcomeCount_sum, hresults, List.length_map, List.length_zipIdx]
  · have hnone : (rec.reconcile chain runAt).2.discrepancies.length = 0 ↔
        ∀ x ∈ rec.ledger.all.zipIdx, PaidOut x.1 (answerTo chain x) := by
      rw [hlines, List.length_map, List.length_eq_zero_iff, List.filter_eq_nil_iff]
      simp
    show (if (rec.reconcile chain runAt).2.discrepancies.length = 0 then ReconciliationSummary.clean
      else .discrepancies_found) = .clean ↔ _
    rw [← hnone]
    split_ifs with hzero <;> simp [hzero]

/-! ## On boot -/

theorem foldl_dropStale (ds : List JobReconciliationResult) (ledger : JobLedger) :
    ds.foldl dropStale ledger = ledger.filter fun e =>
      ∀ d ∈ ds, d.outcome = .not_found ∧ d.onChainStatus = none → e.1 ≠ toLowerCase d.jobId := by
  induction ds generalizing ledger with
  | nil => simp
  | cons d ds ih =>
      rw [List.foldl_cons, ih]
      unfold dropStale
      split_ifs with hstale
      · rw [JobLedger.remove, Dict.delete, List.filter_filter]
        apply List.filter_congr
        intro e _
        simp [hstale, Bool.and_comm]
      · apply List.filter_congr
        intro e _
        rw [decide_eq_decide, List.forall_mem_cons]
        constructor
        · intro h
          exact ⟨fun hd => absurd hd hstale, h⟩
        · exact And.right

/-- The entries of a map that is cut down, and their places before. -/
theorem all_filter {ledger : JobLedger} {keep : Str × JobLedgerEntry → Bool} {kept : JobLedgerEntry × ℕ → Bool}
    (h : ∀ x ∈ ledger.zipIdx, keep x.1 = kept (x.1.2, x.2)) :
    JobLedger.all (ledger.filter keep) = (ledger.all.zipIdx.filter kept).map (·.1) := by
  have hledger : ledger.filter keep = (ledger.zipIdx.filter fun x => keep x.1).map (·.1) := by
    conv_lhs => rw [← List.zipIdx_map_fst 0 ledger]
    rw [List.filter_map]
    rfl
  rw [hledger, List.filter_congr h, JobLedger.all, JobLedger.all, List.zipIdx_map, List.filter_map, List.map_map,
    List.map_map]
  rfl

/-- Two places of one key are one place. -/
theorem eq_of_key {ledger : JobLedger} (h : ledger.Distinct) {x y : (Str × JobLedgerEntry) × ℕ}
    (hx : x ∈ ledger.zipIdx) (hy : y ∈ ledger.zipIdx) (hkey : x.1.1 = y.1.1) : x = y := by
  obtain ⟨ex, i⟩ := x
  obtain ⟨ey, j⟩ := y
  rw [List.mk_mem_zipIdx_iff_getElem?] at hx hy
  have hkeys : ∀ {k : ℕ} {e : Str × JobLedgerEntry}, ledger[k]? = some e →
      (ledger.map (·.1))[k]? = some e.1 := by
    intro k e he
    rw [List.getElem?_map, he]
    rfl
  have hi := hkeys hx
  have hj := hkeys hy
  obtain ⟨hlt, hget⟩ := List.getElem?_eq_some_iff.mp hi
  have hij : i = j := by
    apply (List.getElem?_inj hlt h).mp
    rw [hi, hj]
    exact congrArg some hkey
  subst hij
  rw [hx] at hy
  rw [Option.some.inj hy]

/-- **Boot drops the entries without a job and no others**, in a ledger that is a map. -/
theorem all_verifyOnBoot (h : rec.ledger.Ok) (saved : Option (List JobLedgerEntry))
    (chain : ℕ → Str → JobAnswer) (runAt : ℕ) :
    (rec.verifyOnBoot saved chain runAt).1.ledger.all =
      ((rec.ledger.hydrate saved).all.zipIdx.filter fun x => ¬ Missing (answerTo chain x)).map (·.1) := by
  have hok := h.hydrate saved
  generalize hledger : rec.ledger.hydrate saved = ledger at hok
  have hlines := (reconciled { rec with ledger := ledger } chain runAt).lines
  have hboot : (rec.verifyOnBoot saved chain runAt).1.ledger =
      ((reconcile { rec with ledger := ledger } chain runAt).2.discrepancies).foldl dropStale ledger := by
    rw [← hledger]
    rfl
  rw [hboot, foldl_dropStale, hlines]
  apply all_filter
  intro x hx
  have hkey := hok.keyed x.1 (List.fst_mem_of_mem_zipIdx hx)
  have hplace : ∀ {y : (Str × JobLedgerEntry) × ℕ}, y ∈ ledger.zipIdx → (y.1.2, y.2) ∈ ledger.all.zipIdx := by
    intro y hy
    rw [JobLedger.all, List.zipIdx_map]
    exact List.mem_map_of_mem hy
  rw [decide_eq_decide]
  constructor
  · intro hkeep hmissing
    -- its own line would have dropped it
    have hline : reconcileEntry x.1.2 (answerTo chain (x.1.2, x.2)) ∈ (ledger.all.zipIdx.filter fun x =>
        ¬ PaidOut x.1 (answerTo chain x)).map fun x => reconcileEntry x.1 (answerTo chain x) := by
      refine List.mem_map.mpr ⟨_, List.mem_filter.mpr ⟨hplace hx, ?_⟩, rfl⟩
      exact decide_eq_true fun hpaid => paidOut_not_missing hpaid hmissing
    refine hkeep _ hline ⟨outcome_eq_not_found.mpr hmissing, onChainStatus_of_missing hmissing⟩ ?_
    rw [jobId_reconcileEntry]
    exact hkey
  · rintro hthere d hd ⟨houtcome, -⟩ heq
    obtain ⟨y, hy, rfl⟩ := List.mem_map.mp hd
    have hyledger := (List.mem_filter.mp hy).1
    rw [JobLedger.all, List.zipIdx_map] at hyledger
    obtain ⟨z, hz, rfl⟩ := List.mem_map.mp hyledger
    -- no other entry has its key
    have hzkey := hok.keyed z.1 (List.fst_mem_of_mem_zipIdx hz)
    rw [jobId_reconcileEntry] at heq
    obtain rfl := eq_of_key hok.distinct hx hz (heq.trans hzkey.symm)
    exact hthere (outcome_eq_not_found.mp houtcome)

/-- **A reconciliation sorts every entry once, and boot drops what is not on the chain.** For every ledger,
whatever the chain answers to each call: the report of a pass is that of its answers, a pass changes no
entry, and boot, which is such a pass, leaves the entries whose job the chain did not say to be missing. -/
theorem reconciliation_exact (rec : PayoutReconciler) (h : rec.ledger.Ok) (saved : Option (List JobLedgerEntry))
    (chain : ℕ → Str → JobAnswer) (runAt : ℕ) :
    (Reconciled chain rec.ledger.all (rec.reconcile chain runAt).2 ∧
      (rec.reconcile chain runAt).1.ledger = rec.ledger) ∧
    Reconciled chain (rec.ledger.hydrate saved).all (rec.verifyOnBoot saved chain runAt).2 ∧
      (rec.verifyOnBoot saved chain runAt).1.ledger.all =
        ((rec.ledger.hydrate saved).all.zipIdx.filter fun x => ¬ Missing (answerTo chain x)).map (·.1) :=
  ⟨⟨reconciled rec chain runAt, rfl⟩, reconciled { rec with ledger := rec.ledger.hydrate saved } chain runAt,
    all_verifyOnBoot h saved chain runAt⟩

/-- Three jobs: one is submitted, one is unknown to the chain and one cannot be asked for. -/
def demoChain : ℕ → Str → JobAnswer
  | 0, _ => .ok (some ⟨true, .SUBMITTED, 100⟩)
  | 1, _ => .ok none
  | _, _ => .error "timeout".toList

def demoEntry (jobId : Str) : JobLedgerEntry := ⟨jobId, .hash 1, .hash 2, 100, 7⟩

theorem reconciliation_exact_three :
    (verifyOnBoot ⟨[], none, 0⟩ (some [demoEntry ['a'], demoEntry ['B'], demoEntry ['c']]) demoChain 9).1.ledger.all =
      [demoEntry ['a'], demoEntry ['c']] :=
  (reconciliation_exact ⟨[], none, 0⟩ JobLedger.ok_empty _ demoChain 9).2.2

end PayoutReconciler

end OpaqueStellar.Relayer
