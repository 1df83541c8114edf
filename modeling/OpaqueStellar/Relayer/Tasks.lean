import OpaqueStellar.Relayer.Rules

/-! # The tasks keep to the rules

The code of deliveries and of recovery passes is followed once, function by function: what each of
them has to be given and what it leaves behind, on whatever topic. `engine_fits` puts them together
with what happens outside and with restarts. -/

namespace OpaqueStellar.Relayer

open OpaqueStellar.Lib OpaqueStellar.Soroban OpaqueStellar.Registry
open OpaqueStellar.Schemas (Str)

variable {P W : Type} {cfg : EngineConfig P W} {about : Topic} {i : ℕ} {s₀ s : Node W}
  {key : BytesN 32}

/-- Others do not put an end to it while the call is awaited. -/
def Stable (cfg : EngineConfig P W) (about : Topic) (i : ℕ) (call : EngineCall)
    (A : Node W → Prop) : Prop :=
  ∀ n n', Rely cfg about i call n n' → A n → A n'

/-- What a task may await at any time. -/
def EngineCall.harmless : EngineCall → Bool
  | .acceptJob _ _ => false
  | _ => true

/-! ## The queue -/

section Queue

theorem safe_call {call : EngineCall} {Q : Except EngineError Reply → Node W → Node W → Prop}
    (hcall : call.harmless = true) (h : Guar cfg about i s₀ s)
    (hnext : ∀ s', Rely cfg about i call s s' → ∀ r, (rules cfg about).hears i call r s' →
      Q (.ok r) s' s') :
    Async.Safe (rules cfg about) i Q (Async.call call) s₀ s := by
  rw [Async.safe_call]
  refine ⟨h, ?_, hnext⟩
  intro _ jobId tx heq
  rw [heq] at hcall
  cases hcall

variable {A : Node W → Prop}

theorem safe_persist {call : EngineCall} (hcall : call.harmless = true)
    (hA : Stable cfg about i call A) (h : Guar cfg about i s₀ s.save) (hs : A s.save) :
    Async.Safe (rules cfg about) i
      (fun r s₀ s' => Guar cfg about i s₀ s' ∧ A s' ∧ (r = .ok () → s.disk = true))
      (persist call) s₀ s := by
  simp only [persist, Async.safe_bind, Async.safe_get, Async.andThen_ok, Async.safe_modify]
  apply safe_call hcall h
  intro s' hrely r _
  rw [Async.andThen_ok]
  split
  · next hdisk => exact ⟨.refl hrely.ok, hA _ _ hrely hs, fun _ => hdisk⟩
  · exact ⟨.refl hrely.ok, hA _ _ hrely hs, Async.failed_elim⟩

/-- The queue is changed quietly and written. -/
theorem safe_persist_quiet {n : Node W} (hA : ∀ call, Stable cfg about i call A)
    (h : Guar cfg about i s₀ s) (hs : A s) (hquiet : Quiet cfg about s n) :
    Async.Safe (rules cfg about) i
      (fun r s₀ s' => Guar cfg about i s₀ s' ∧ A s' ∧ (r = .ok () → n.disk = true))
      (persist .persist) s₀ n := by
  have hsave : Quiet cfg about s n.save := hquiet.trans (quiet_save (hquiet i).ok)
  exact safe_persist rfl (hA _) (h.trans (hsave i)) (hA .persist _ _ (hsave.rely _) hs)

theorem safe_recordFailure (hA : ∀ call, Stable cfg about i call A) (h : Guar cfg about i s₀ s)
    (hs : A s) (jobId : Str) (error : EngineError) :
    Async.Safe (rules cfg about) i (fun _ s₀ s => Guar cfg about i s₀ s ∧ A s)
      (recordFailure jobId error) s₀ s := by
  simp only [recordFailure, Async.safe_bind, Async.safe_get, Async.andThen_ok]
  split
  · rw [Async.safe_bind]
    apply safe_call rfl h
    intro s' hrely r _
    exact ⟨.refl hrely.ok, hA _ _ _ hrely hs⟩
  · next entry _ =>
      rw [Async.safe_bind, Async.safe_modify, Async.andThen_ok]
      refine Async.Safe.mono (safe_persist_quiet hA h hs ?_) ?_
      · exact quiet_update h.ok entry fun _ => ⟨rfl, rfl, rfl⟩
      · exact fun _ _ _ hpost => ⟨hpost.1, hpost.2.1⟩

theorem safe_markAccepted (hA : ∀ call, Stable cfg about i call A) (h : Guar cfg about i s₀ s)
    (hs : A s) (jobId : Str) (acceptedTx : TxRef) :
    Async.Safe (rules cfg about) i (fun _ s₀ s => Guar cfg about i s₀ s ∧ A s)
      (markAccepted jobId acceptedTx) s₀ s := by
  simp only [markAccepted, Async.safe_bind, Async.safe_get, Async.andThen_ok]
  split
  · rw [Async.safe_bind]
    apply safe_call rfl h
    intro s' hrely r _
    exact ⟨.refl hrely.ok, hA _ _ _ hrely hs⟩
  · next entry _ =>
      rw [Async.safe_bind, Async.safe_modify, Async.andThen_ok]
      refine Async.Safe.mono (safe_persist_quiet hA h hs ?_) ?_
      · exact quiet_update h.ok entry fun _ => ⟨rfl, rfl, rfl⟩
      · exact fun _ _ _ hpost => ⟨hpost.1, hpost.2.1⟩

/-- The job is taken from the queue, and from the store if that can be written. -/
theorem safe_resolve (hA : ∀ call, Stable cfg about i call A) (h : Guar cfg about i s₀ s)
    (hs : A s) {jobId : Str} (hkey : jobKey jobId = some key)
    (hbonded : about = .durability → ¬ Bonded cfg s.chain key) :
    Async.Safe (rules cfg about) i (fun _ s₀ s => Guar cfg about i s₀ s ∧ A s) (resolve jobId)
      s₀ s := by
  simp only [resolve, Async.safe_bind, Async.safe_modify, Async.andThen_ok]
  refine Async.Safe.mono (safe_persist_quiet hA h hs (quiet_remove h.ok hkey hbonded)) ?_
  exact fun _ _ _ hpost => ⟨hpost.1, hpost.2.1⟩

/-- The job that the task works on is taken from the queue. -/
theorem safe_resolve_held (hA : ∀ call, Stable cfg about i call A) (h : Guar cfg about i s₀ s)
    (hs : A s) {jobId : Str} (hkey : jobKey jobId = some key)
    (hbonded : about = .durability → ¬ Bonded cfg s.chain key)
    (hholds : about = .settlement → Holds i key jobId s) :
    Async.Safe (rules cfg about) i
      (fun r s₀ s => Guar cfg about i s₀ s ∧ A s ∧
        (about = .settlement → Holds i key jobId s ∧ (r = .ok () → Absent s key)))
      (resolve jobId) s₀ s := by
  have hquiet := quiet_remove h.ok hkey hbonded
  have hsave : Quiet cfg about s (s.remove jobId).save := hquiet.trans (quiet_save (hquiet i).ok)
  -- whether the job is gone from the store was decided when it was written
  have hB : Stable cfg about i .persist fun n => A n ∧ (about = .settlement →
      Holds i key jobId n ∧ ((s.remove jobId).disk = true → Absent n key)) := by
    rintro n n' hrely ⟨hn, hrest⟩
    refine ⟨hA _ _ _ hrely hn, fun hsettle => ?_⟩
    obtain ⟨hholds, habsent⟩ := hrest hsettle
    have hundisturbed := hrely.undisturbed hsettle key hholds.working
    exact ⟨hholds.undisturbed hundisturbed, fun hdisk => hundisturbed.absent (habsent hdisk)⟩
  simp only [resolve, Async.safe_bind, Async.safe_modify, Async.andThen_ok]
  refine Async.Safe.mono (safe_persist rfl hB (h.trans (hsave i)) ⟨?_, ?_⟩) ?_
  · exact hA .persist _ _ (hsave.rely _) hs
  · intro hsettle
    have hundisturbed := (hsave.rely .persist : Rely cfg about i _ _ _).undisturbed hsettle key (hholds hsettle).working
    refine ⟨(hholds hsettle).undisturbed hundisturbed, ?_⟩
    intro hdisk
    refine (hquiet i).ok.absent_save ?_ fun hdisk' => ?_
    · intro k hk hsame
      obtain ⟨hk, hne⟩ := keys_remove.mp hk
      exact hne ((hholds hsettle).sole k hk hsame)
    · rw [hdisk'] at hdisk
      cases hdisk
  · rintro r s₀' s' ⟨hguar, ⟨hs', hrest⟩, hdisk⟩
    exact ⟨hguar, hs', fun hsettle => ⟨(hrest hsettle).1, fun hr => (hrest hsettle).2 (hdisk hr)⟩⟩

end Queue

/-! ## The chain adapter -/

section Adapter

variable {A : Node W → Prop}

/-- What `getJob` makes of the answer. -/
def readJob (jobId : Str) (n : Node W) : Reply → Except EngineError (Option JobRecord)
  | .ok => .ok ((jobKey jobId).bind n.chain.jobs.lookup)
  | .null => .ok none
  | .fail => .error .rpc

theorem safe_getJob {site : Site} {jobId : Str}
    {Q : Except EngineError (Option JobRecord) → Node W → Node W → Prop}
    (h : Guar cfg about i s₀ s)
    (hnext : ∀ s', Rely cfg about i (.getJob site jobId) s s' → ∀ r,
      (rules cfg about).hears i (.getJob site jobId) r s' → Q (readJob jobId s' r) s' s') :
    Async.Safe (rules cfg about) i Q (getJob site jobId) s₀ s := by
  rw [getJob, Async.safe_bind]
  apply safe_call rfl h
  intro s' hrely r hr
  rw [Async.andThen_ok]
  cases r with
  | ok => exact hnext s' hrely .ok hr
  | null => exact hnext s' hrely .null hr
  | fail => exact hnext s' hrely .fail hr

/-- `getJobOrNull` never throws. -/
theorem safe_getJobOrNull {site : Site} {jobId : Str}
    {Q : Except EngineError (Option JobRecord) → Node W → Node W → Prop}
    (h : Guar cfg about i s₀ s)
    (hnext : ∀ s', Rely cfg about i (.getJob site jobId) s s' → ∀ r current,
      (rules cfg about).hears i (.getJob site jobId) r s' →
      (r = .ok ∧ current = (jobKey jobId).bind s'.chain.jobs.lookup ∨ r ≠ .ok ∧ current = none) →
        Q (.ok current) s' s') :
    Async.Safe (rules cfg about) i Q (getJobOrNull site jobId) s₀ s := by
  rw [getJobOrNull, Async.safe_tryCatch]
  apply safe_getJob h
  intro s' hrely r hr
  cases r with
  | ok => exact hnext s' hrely .ok _ hr (.inl ⟨rfl, rfl⟩)
  | null => exact hnext s' hrely .null _ hr (.inr ⟨by simp, rfl⟩)
  | fail => exact hnext s' hrely .fail _ hr (.inr ⟨by simp, rfl⟩)

theorem safe_hasDeadlineHeadroom {site : Site} {deadline : ℕ}
    {Q : Except EngineError Bool → Node W → Node W → Prop} (h : Guar cfg about i s₀ s)
    (hnext : ∀ s', Rely cfg about i (.latestLedger site deadline) s s' → ∀ r answer,
      (rules cfg about).hears i (.latestLedger site deadline) r s' →
      (r = .ok ∧ answer = decide (s'.chain.ledger + cfg.margin ≤ deadline) ∨
        r ≠ .ok ∧ answer = true) → Q (.ok answer) s' s') :
    Async.Safe (rules cfg about) i Q (hasDeadlineHeadroom cfg site deadline) s₀ s := by
  rw [hasDeadlineHeadroom, Async.safe_bind]
  apply safe_call rfl h
  intro s' hrely r hr
  rw [Async.andThen_ok]
  cases r with
  | ok => exact hnext s' hrely .ok _ hr (.inl ⟨rfl, rfl⟩)
  | null => exact hnext s' hrely .null _ hr (.inr ⟨by simp, rfl⟩)
  | fail => exact hnext s' hrely .fail _ hr (.inr ⟨by simp, rfl⟩)

/-- The operator has accepted the job, and this text stands for it. -/
def AcceptedAs (cfg : EngineConfig P W) (key : BytesN 32) (tx : TxRef) (n : Node W) : Prop :=
  Ours cfg n.chain key ∧ tx.AcceptedFor n.chain key

/-- The job is submitted, and this text stands for it. -/
def SubmittedAs (key : BytesN 32) (tx : TxRef) (n : Node W) : Prop :=
  Submitted n.chain key ∧ tx.SubmittedFor n.chain key

/-- A transaction that was confirmed was executed. -/
theorem safe_acceptJob (hA : ∀ call, Stable cfg about i call A) (h : Guar cfg about i s₀ s)
    (hs : A s) {jobId : Str} (hkey : jobKey jobId = some key)
    (hworth : about = .bonding → Worthwhile cfg s.chain jobId) :
    Async.Safe (rules cfg about) i
      (fun r s₀ s => Guar cfg about i s₀ s ∧ A s ∧ ∀ tx, r = .ok tx → AcceptedAs cfg key tx s)
      (acceptJob jobId) s₀ s := by
  have hsend : Quiet cfg about s (s.send ((jobKey jobId).map .accept)) := quiet_send h.ok _
  simp only [acceptJob, Async.safe_bind, Async.safe_get, Async.safe_modify, Async.andThen_ok]
  rw [Async.safe_call]
  refine ⟨h.trans (hsend i), ?_, ?_⟩
  · intro hb jobId' tx heq
    cases heq
    obtain ⟨key, job, hkey, hjob, hfee, hmargin⟩ := hworth hb
    refine ⟨key, job, hkey, ?_, hfee, ?_⟩
    · rw [(hsend i).jobs]
      exact hjob
    · rw [(hsend i).ledger]
      exact hmargin
  · intro s' hrely r hr
    have hs' := hA _ _ _ hrely (hA (.acceptJob jobId s.chain.txs.length) _ _ (hsend.rely _) hs)
    rw [Async.andThen_ok]
    cases r with
    | ok =>
        refine ⟨.refl hrely.ok, hs', ?_⟩
        rintro _ ⟨⟩
        have hready : (jobKey jobId).any (fun key =>
            s'.chain.txs[s.chain.txs.length]? = some (Tx.accept key, .success)) = true := hr.1
        rw [hkey] at hready
        simp only [Option.any_some, decide_eq_true_eq] at hready
        exact ⟨hrely.ok.chain.acceptTx key (List.mem_of_getElem? hready), hready⟩
    | null => exact ⟨.refl hrely.ok, hs', fun _ => Async.failed_elim⟩
    | fail => exact ⟨.refl hrely.ok, hs', fun _ => Async.failed_elim⟩

theorem safe_submitPoolWithdraw (hA : ∀ call, Stable cfg about i call A)
    (h : Guar cfg about i s₀ s) (hs : A s) {jobId : Str} (hkey : jobKey jobId = some key)
    (payload : P) :
    Async.Safe (rules cfg about) i
      (fun r s₀ s => Guar cfg about i s₀ s ∧ A s ∧ ∀ tx, r = .ok tx → SubmittedAs key tx s)
      (submitPoolWithdraw cfg jobId payload) s₀ s := by
  have hsend : Quiet cfg about s
      (s.send ((jobKey jobId).map (.submit · (cfg.hashPoolWithdrawPayload payload)))) :=
    quiet_send h.ok _
  simp only [submitPoolWithdraw, Async.safe_bind, Async.safe_get, Async.safe_modify,
    Async.andThen_ok]
  apply safe_call rfl (h.trans (hsend i))
  intro s' hrely r hr
  have hs' := hA _ _ _ hrely (hA (.submitPoolWithdraw jobId s.chain.txs.length) _ _ (hsend.rely _) hs)
  rw [Async.andThen_ok]
  cases r with
  | ok =>
      refine ⟨.refl hrely.ok, hs', ?_⟩
      rintro _ ⟨⟩
      have hready := hr.1
      simp only [Node.ready, hkey, Option.any_some] at hready
      obtain ⟨tx, htx, hmatch⟩ := (Option.any_eq_true _ _).mp hready
      split at hmatch
      · next key' payloadHash =>
          simp only [decide_eq_true_eq] at hmatch
          subst hmatch
          obtain ⟨job, hjob, hstatus, -⟩ :=
            hrely.ok.chain.submitTx key' payloadHash (List.mem_of_getElem? htx)
          exact ⟨⟨job, hjob, hstatus⟩, payloadHash, htx⟩
      · cases hmatch
  | null => exact ⟨.refl hrely.ok, hs', fun _ => Async.failed_elim⟩
  | fail => exact ⟨.refl hrely.ok, hs', fun _ => Async.failed_elim⟩

end Adapter

/-! ## Accepting and submitting -/

section Engine

variable {A : Node W → Prop}

theorem statusOf_eq_some {job : Option JobRecord} {status : JobStatus} :
    statusOf job = some status ↔ ∃ record, job = some record ∧ record.status = status :=
  Option.map_eq_some_iff

/-- What the chain says of a job that was read. -/
theorem submitted_of_status {jobId : Str} {c : Chain} (hkey : jobKey jobId = some key)
    (h : statusOf ((jobKey jobId).bind c.jobs.lookup) = some .SUBMITTED) : Submitted c key := by
  rw [hkey] at h
  exact statusOf_eq_some.mp h

theorem submittedAs_of_status {jobId : Str} {n : Node W} (hkey : jobKey jobId = some key)
    (h : statusOf ((jobKey jobId).bind n.chain.jobs.lookup) = some .SUBMITTED) :
    SubmittedAs key (.onChain jobId) n := ⟨submitted_of_status hkey h, hkey⟩

theorem safe_submitOnce (hA : ∀ call, Stable cfg about i call A) (h : Guar cfg about i s₀ s)
    (hs : A s) {jobId : Str} (hkey : jobKey jobId = some key) (payload : P) :
    Async.Safe (rules cfg about) i
      (fun r s₀ s => Guar cfg about i s₀ s ∧ A s ∧ ∀ tx, r = .ok tx → SubmittedAs key tx s)
      (submitOnce cfg jobId payload) s₀ s := by
  rw [submitOnce, Async.safe_bind]
  apply safe_getJob h
  intro s' hrely r _
  have hs' := hA _ _ _ hrely hs
  cases r with
  | ok =>
      simp only [readJob, Async.andThen_ok]
      split
      · next hstatus =>
          refine ⟨.refl hrely.ok, hs', ?_⟩
          rintro _ ⟨⟩
          exact submittedAs_of_status hkey hstatus
      · exact safe_submitPoolWithdraw hA (.refl hrely.ok) hs' hkey payload
  | null => exact safe_submitPoolWithdraw hA (.refl hrely.ok) hs' hkey payload
  | fail => exact ⟨.refl hrely.ok, hs', fun _ => Async.failed_elim⟩

/-- **However often it is tried**, a submit that succeeds has submitted the job. -/
theorem safe_submitWithRetry (hA : ∀ call, Stable cfg about i call A) {jobId : Str}
    (hkey : jobKey jobId = some key) (payload : P) (deadline left : ℕ) {s₀ s : Node W}
    (h : Guar cfg about i s₀ s) (hs : A s) :
    Async.Safe (rules cfg about) i
      (fun r s₀ s => Guar cfg about i s₀ s ∧ A s ∧ ∀ tx, r = .ok tx → SubmittedAs key tx s)
      (submitWithRetry cfg jobId payload deadline left) s₀ s := by
  induction left generalizing s₀ s with
  | zero => exact ⟨h, hs, fun _ => Async.failed_elim⟩
  | succ left ih =>
      rw [submitWithRetry, Async.safe_tryCatch]
      refine Async.Safe.mono (safe_submitOnce hA h hs hkey payload) ?_
      rintro (err | tx) s₁ s ⟨h, hs, hdone⟩
      · rw [Async.orElse_error, Async.safe_bind]
        refine Async.Safe.mono (safe_recordFailure hA h hs jobId err) ?_
        rintro (err' | _) s₁ s ⟨h, hs⟩
        · exact ⟨h, hs, fun _ => Async.failed_elim⟩
        · rw [Async.andThen_ok, Async.safe_bind]
          apply safe_getJobOrNull h
          intro s' hrely r current _ hcurrent
          have hs' := hA _ _ _ hrely hs
          rw [Async.andThen_ok]
          split
          · next hstatus =>
              refine ⟨.refl hrely.ok, hs', ?_⟩
              rintro _ ⟨⟩
              rcases hcurrent with ⟨-, rfl⟩ | ⟨-, rfl⟩
              · exact submittedAs_of_status hkey hstatus
              · cases hstatus
          · split
            · exact ⟨.refl hrely.ok, hs', fun _ => Async.failed_elim⟩
            · rw [Async.safe_bind]
              apply safe_hasDeadlineHeadroom (.refl hrely.ok)
              intro s'' hrely' r answer _ _
              have hs'' := hA _ _ _ hrely' hs'
              rw [Async.andThen_ok]
              split
              · rw [Async.safe_bind]
                apply safe_call rfl (.refl hrely'.ok)
                intro s₂ hrely₂ r _
                exact ih (.refl hrely₂.ok) (hA _ _ _ hrely₂ hs'')
              · exact ⟨.refl hrely'.ok, hs'', fun _ => Async.failed_elim⟩
      · exact ⟨h, hs, hdone⟩

/-- What a task may go on from, whatever its topic: the job is on these terms, and nobody else works
on it. -/
def Working (about : Topic) (i : ℕ) (key : BytesN 32) (jobId : Str) (deadline : ℕ) (fee : ℤ)
    (n : Node W) : Prop :=
  OnTerms n.chain key deadline fee ∧ (about = .settlement → Holds i key jobId n)

theorem stable_working {jobId : Str} {deadline : ℕ} {fee : ℤ} {call : EngineCall} :
    Stable cfg about i call (Working about i key jobId deadline fee) := by
  rintro n n' hrely ⟨hterms, hholds⟩
  refine ⟨hterms.mono hrely.le, fun hs => ?_⟩
  exact (hholds hs).undisturbed (hrely.undisturbed hs key (hholds hs).working)

theorem stable_submitted {call : EngineCall} :
    Stable cfg about i call fun n => Submitted n.chain key :=
  fun _ _ hrely h => h.mono hrely.le

theorem stable_acceptedAs {tx : TxRef} {call : EngineCall} :
    Stable cfg about i call (AcceptedAs cfg key tx) :=
  fun _ _ hrely h => ⟨h.1.mono hrely.le, h.2.mono hrely.le⟩

theorem stable_submittedAs {tx : TxRef} {call : EngineCall} :
    Stable cfg about i call (SubmittedAs key tx) :=
  fun _ _ hrely h => ⟨h.1.mono hrely.le, h.2.mono hrely.le⟩

theorem Stable.and {B : Node W → Prop} {call : EngineCall} (hA : Stable cfg about i call A)
    (hB : Stable cfg about i call B) : Stable cfg about i call fun n => A n ∧ B n :=
  fun _ _ hrely h => ⟨hA _ _ hrely h.1, hB _ _ hrely h.2⟩

/-- A job that the operator gave up on is reported. -/
theorem safe_notifyFailed {jobId : Str} (h : Guar cfg about i s₀ s)
    (hkey : jobKey jobId = some key) (hholds : about = .settlement → Holds i key jobId s)
    (hours : Ours cfg s.chain key) :
    Async.Safe (rules cfg about) i (fun _ s₀ s => Guar cfg about i s₀ s)
      (notifySettled jobId .failed) s₀ s := by
  obtain ⟨job, hjob, htaken, -⟩ := hours
  have hreport : Guar cfg about i s (s.report jobId .failed) :=
    guar_report h.ok hkey hholds (.inl rfl) ⟨job, hjob, htaken⟩ fun _ => nofun
  simp only [notifySettled, Async.safe_bind, Async.safe_modify, Async.andThen_ok]
  apply safe_call rfl (h.trans hreport)
  intro s' hrely r _
  exact .refl hrely.ok

/-- A job that is done with is recorded and reported. -/
theorem safe_recordCompleted (hA : ∀ call, Stable cfg about i call A) {jobId : Str}
    {acceptedTx submittedTx : TxRef} {expectedFee : ℤ}
    (h : Guar cfg about i s₀ s) (hkey : jobKey jobId = some key)
    (hholds : about = .settlement → Holds i key jobId s ∧ Absent s key)
    (hsubmitted : Submitted s.chain key)
    (hs : ∀ entry, A ((s.record entry).report jobId .completed)) :
    Async.Safe (rules cfg about) i (fun r s₀ s => Guar cfg about i s₀ s ∧ A s ∧ r = .ok ())
      (recordCompleted jobId acceptedTx submittedTx expectedFee) s₀ s := by
  obtain ⟨job, hjob, hstatus⟩ := hsubmitted
  have hreport : Guar cfg about i s ((s.record
      ⟨jobId, acceptedTx, submittedTx, expectedFee, s.now⟩).report jobId .completed) := by
    refine guar_report h.ok hkey (fun hsettle => (hholds hsettle).1) (.inr ⟨_, rfl, rfl⟩)
      ⟨job, hjob, ?_⟩ fun hsettle _ => (hholds hsettle).2
    rw [hstatus]
    simp
  simp only [recordCompleted, notifySettled, Async.safe_bind, Async.safe_modify, Async.andThen_ok]
  apply safe_call rfl (h.trans hreport)
  intro s' hrely r _
  exact ⟨.refl hrely.ok, hA _ _ _ hrely (hs _), rfl⟩

/-- The operator is not in doubt about an accepted job. -/
theorem ours_of_acceptedByUs {n : Node W} {job : JobRecord} (hok : n.Ok cfg about)
    (hjob : n.chain.jobs.lookup key = some job) (h : acceptedByUs cfg job = true) :
    Ours cfg n.chain key := by
  unfold acceptedByUs at h
  obtain ⟨hstatus, hrelayer⟩ := of_decide_eq_true h
  refine ⟨job, hjob, by rw [hstatus]; simp, ?_⟩
  rcases hrelayer with hnone | hus
  · exact absurd hnone (hok.chain.accepted key job hjob hstatus)
  · exact hus

/-- **An acceptance that was confirmed or found on the chain** is the operator's. -/
theorem safe_acceptOrReconcile (hA : ∀ call, Stable cfg about i call A) (h : Guar cfg about i s₀ s)
    (hs : A s) {jobId : Str} (hkey : jobKey jobId = some key)
    (hworth : about = .bonding → Worthwhile cfg s.chain jobId) :
    Async.Safe (rules cfg about) i
      (fun r s₀ s => Guar cfg about i s₀ s ∧ A s ∧ ∀ tx, r = .ok tx → AcceptedAs cfg key tx s)
      (acceptOrReconcile cfg jobId) s₀ s := by
  rw [acceptOrReconcile, Async.safe_tryCatch]
  refine Async.Safe.mono (safe_acceptJob hA h hs hkey hworth) ?_
  rintro (err | tx) s₁ s ⟨h, hs, hours⟩
  · rw [Async.orElse_error, Async.safe_bind, reconcileAcceptance, Async.safe_bind]
    apply safe_getJobOrNull h
    intro s' hrely r current _ hcurrent
    have hs' := hA _ _ _ hrely hs
    have hthrow : Guar cfg about i s' s' ∧ A s' ∧
        ∀ tx, (.error err : Except EngineError TxRef) = .ok tx → AcceptedAs cfg key tx s' :=
      ⟨.refl hrely.ok, hs', fun _ => Async.failed_elim⟩
    rw [Async.andThen_ok]
    cases current with
    | none => exact hthrow
    | some job =>
        show Async.andThen _ _ _ _ _ _ _
        by_cases hus : acceptedByUs cfg job = true
        · rw [if_pos hus]
          refine ⟨.refl hrely.ok, hs', ?_⟩
          rintro _ ⟨⟩
          rcases hcurrent with ⟨-, hjob⟩ | ⟨-, hnone⟩
          · rw [hkey] at hjob
            exact ⟨ours_of_acceptedByUs hrely.ok hjob.symm hus, hkey⟩
          · cases hnone
        · rw [if_neg hus]
          exact hthrow
  · exact ⟨h, hs, hours⟩

end Engine

/-! ## Deliveries -/

section Deliveries

theorem guar_remember {msg : EncryptedPayload} {result : RelayResult} (h : s.Ok cfg about)
    (hown : ResultOf s.chain msg.jobId result) : Guar cfg about i s (s.remember msg result) := by
  unfold Node.remember
  split
  · refine quiet_memory h (fun hi => ⟨?_, (h.remembered hi).settled⟩) i
    intro x hx
    rcases Dict.mem_set hx with rfl | ⟨hx, -⟩
    · exact hown
    · exact (h.remembered hi).stored x hx
  · exact .refl h

theorem remember_chain {msg : EncryptedPayload} {result : RelayResult} :
    (s.remember msg result).chain = s.chain := by
  unfold Node.remember
  split <;> rfl

/-- **What is done about a job of the operator**: it is submitted and reported, or it is neither. -/
theorem safe_completeDelivery {msg : EncryptedPayload} {payload : P} {job : JobRecord}
    {acceptedTx : TxRef} {deadline : ℕ} {fee : ℤ} (h : Guar cfg about i s₀ s)
    (hkey : jobKey msg.jobId = some key) (hs : Working about i key msg.jobId deadline fee s)
    (hours : AcceptedAs cfg key acceptedTx s) :
    Async.Safe (rules cfg about) i
      (fun r s₀ s => Guar cfg about i s₀ s ∧
        (∀ result, r = .ok (some result) → ResultOf s.chain msg.jobId result) ∧
        ∀ err, r = .error err →
          (about = .settlement → Holds i key msg.jobId s) ∧ Ours cfg s.chain key)
      (completeDelivery cfg msg payload job acceptedTx) s₀ s := by
  have hA : ∀ call, Stable cfg about i call fun n =>
      Working about i key msg.jobId deadline fee n ∧ AcceptedAs cfg key acceptedTx n :=
    fun _ => stable_working.and stable_acceptedAs
  rw [completeDelivery, Async.safe_bind]
  refine Async.Safe.mono (safe_submitWithRetry hA hkey payload _ _ h ⟨hs, hours⟩) ?_
  rintro (err | submittedTx) s₁ s ⟨h, ⟨hs, hours⟩, hsubmitted⟩
  · exact ⟨h, fun _ => Async.failed_elim, fun _ _ => ⟨hs.2, hours.1⟩⟩
  · have hdone := hsubmitted submittedTx rfl
    have hB : ∀ call, Stable cfg about i call fun n =>
        AcceptedAs cfg key acceptedTx n ∧ SubmittedAs key submittedTx n :=
      fun _ => stable_acceptedAs.and stable_submittedAs
    rw [Async.andThen_ok, Async.safe_bind]
    refine Async.Safe.mono
      (safe_resolve_held hB h ⟨hours, hdone⟩ hkey (fun _ => hdone.1.not_bonded) hs.2) ?_
    rintro (err | _) s₁ s ⟨h, ⟨hours, hdone⟩, hheld⟩
    · exact ⟨h, fun _ => Async.failed_elim, fun _ _ => ⟨fun hsettle => (hheld hsettle).1, hours.1⟩⟩
    · rw [Async.andThen_ok, Async.safe_bind]
      refine Async.Safe.mono (safe_recordCompleted hB h hkey
        (fun hsettle => ⟨(hheld hsettle).1, (hheld hsettle).2 rfl⟩) hdone.1
        fun _ => ⟨hours, hdone⟩) ?_
      rintro r s₁ s ⟨h, ⟨hours, hdone⟩, rfl⟩
      have hown : ResultOf s.chain msg.jobId ⟨acceptedTx, submittedTx⟩ :=
        ⟨submittedByUs h.ok.chain hkey hours.1 hdone.1, key, hkey, hours.2, hdone.2⟩
      simp only [Async.andThen_ok, Async.safe_bind, Async.safe_modify]
      refine ⟨h.trans (guar_remember h.ok hown), ?_, fun _ hr => Async.failed_elim hr.symm⟩
      rintro _ ⟨⟩
      rw [remember_chain]
      exact hown

/-- What holds when a delivery has ended. -/
def Delivered (cfg : EngineConfig P W) (about : Topic) (i : ℕ) (jobId : Str)
    (r : Except EngineError (Option RelayResult)) (n n' : Node W) : Prop :=
  Guar cfg about i n n' ∧ ∀ result, r = .ok (some result) → ResultOf n'.chain jobId result

theorem delivered_error {jobId : Str} {err : EngineError} (h : Guar cfg about i s₀ s) :
    Delivered cfg about i jobId (.error err) s₀ s :=
  ⟨h, fun _ => Async.failed_elim⟩

theorem delivered_null {jobId : Str} (h : Guar cfg about i s₀ s) :
    Delivered cfg about i jobId (.ok none) s₀ s := by
  refine ⟨h, ?_⟩
  intro result hresult
  cases hresult

theorem delivered_release {jobId : Str} {r : Except EngineError (Option RelayResult)}
    (h : Delivered cfg about i jobId r s₀ s) :
    Delivered cfg about i jobId r s₀ (s.release i) :=
  ⟨h.1.trans (guar_release h.1.ok), h.2⟩

/-- From the intent on. -/
theorem safe_acceptAndComplete {msg : EncryptedPayload} {payload : P} {job : JobRecord} {fee : ℤ}
    (h : Guar cfg about i s₀ s) (hkey : jobKey msg.jobId = some key)
    (hs : Working about i key msg.jobId job.deadlineLedger fee s)
    (hworth : about = .bonding → Worthwhile cfg s.chain msg.jobId) :
    Async.Safe (rules cfg about) i (Delivered cfg about i msg.jobId)
      (acceptAndComplete cfg msg payload job) s₀ s := by
  rw [acceptAndComplete, Async.safe_bind]
  refine Async.Safe.mono (safe_acceptOrReconcile (fun _ => stable_working) h hs hkey hworth) ?_
  rintro (err | acceptedTx) s₁ s ⟨h, hs, hours⟩
  · exact delivered_error h
  · rw [Async.andThen_ok, Async.safe_bind]
    refine Async.Safe.mono (safe_markAccepted (fun _ => stable_working.and stable_acceptedAs) h
      ⟨hs, hours acceptedTx rfl⟩ msg.jobId acceptedTx) ?_
    rintro (err | _) s₁ s ⟨h, hs, hours⟩
    · exact delivered_error h
    · rw [Async.andThen_ok, Async.safe_tryCatch]
      refine Async.Safe.mono (safe_completeDelivery h hkey hs hours) ?_
      rintro (err | result) s₁ s ⟨h, hown, hfailed⟩
      · obtain ⟨hholds, hours⟩ := hfailed err rfl
        rw [Async.orElse_error, Async.safe_bind]
        refine Async.Safe.mono (safe_notifyFailed h hkey hholds hours) ?_
        rintro (err | _) s₁ s h
        · exact delivered_error h
        · exact delivered_error h
      · refine ⟨h, fun result' hresult => hown result' hresult⟩

/-- While a simulation or the writing of an intent is awaited, the margin stays. -/
theorem stable_margin {call : EngineCall} {deadline : ℕ}
    (hcall : deadline ∈ call.checked) :
    Stable cfg about i call fun n =>
      about = .bonding → n.chain.ledger + cfg.margin ≤ deadline :=
  fun _ _ hrely h hb => hrely.margin hb deadline hcall (h hb)

theorem safe_enqueue {e : AcceptedJobEntry W} (h : Guar cfg about i s₀ s)
    (hkey : jobKey e.jobId = some key) (hs : Working about i key e.jobId e.deadline e.fee s)
    (hfee : about = .bonding → cfg.minFee ≤ e.fee)
    (hmargin : about = .bonding → s.chain.ledger + cfg.margin ≤ e.deadline) :
    Async.Safe (rules cfg about) i
      (fun _ s₀ s => Guar cfg about i s₀ s ∧ Working about i key e.jobId e.deadline e.fee s ∧
        (about = .bonding → s.chain.ledger + cfg.margin ≤ e.deadline))
      (enqueue e) s₀ s := by
  have hentry : EntryOk cfg about s.chain e := ⟨⟨key, hkey, hs.1⟩, hfee⟩
  have hinsert := guar_insert h.ok hentry hkey hs.2
  have hA : Stable cfg about i (.enqueue e.deadline) fun n =>
      Working about i key e.jobId e.deadline e.fee n ∧
        (about = .bonding → n.chain.ledger + cfg.margin ≤ e.deadline) :=
    stable_working.and (stable_margin rfl)
  simp only [enqueue, Async.safe_bind, Async.safe_modify, Async.andThen_ok]
  refine Async.Safe.mono (safe_persist rfl hA (h.trans hinsert) ⟨⟨?_, ?_⟩, ?_⟩) ?_
  · exact hs.1.mono hinsert.le
  · exact fun hsettle => (hs.2 hsettle).insert
  · intro hb
    rw [hinsert.ledger]
    exact hmargin hb
  · rintro r s₁ s' ⟨h, hs, -⟩
    exact ⟨h, hs.1, hs.2⟩

/-- A delivery finds its job open and works on it from then on. -/
theorem working_take {jobId : Str} {job : JobRecord} {n : Node W} (hok : n.Ok cfg about)
    (hhears : (rules cfg about).hears i (.getJob .deliver jobId) .ok n)
    (hkey : jobKey jobId = some key) (hjob : n.chain.jobs.lookup key = some job)
    (hopen : job.status = .OPEN) :
    Guar cfg about i n (n.take i jobId) ∧
      Working about i key jobId job.deadlineLedger job.fee.val (n.take i jobId) := by
  refine ⟨guar_take hok hkey fun hs => ((hhears.2.2.2 hs).1 jobId rfl rfl key hkey job hjob hopen).1,
    ⟨job, hjob, rfl, rfl⟩, fun hs => ?_⟩
  obtain ⟨-, hsole⟩ := (hhears.2.2.2 hs).1 jobId rfl rfl key hkey job hjob hopen
  refine ⟨?_, ?_, hsole⟩
  · simp [Node.take, hkey]
  · by_contra hreported
    obtain ⟨job', hjob', htaken⟩ := (hok.once hs).taken key hreported
    obtain rfl := Option.some.inj (hjob.symm.trans hjob')
    exact htaken hopen

/-- Until the job is known to be worth it, and the intent written down, nothing is accepted. -/
theorem safe_processOpenJob {msg : EncryptedPayload} {payload : P} {job : JobRecord}
    (h : Guar cfg about i s₀ s) (hkey : jobKey msg.jobId = some key)
    (hs : Working about i key msg.jobId job.deadlineLedger job.fee.val s)
    (hfee : about = .bonding → cfg.minFee ≤ job.fee.val) :
    Async.Safe (rules cfg about) i (Delivered cfg about i msg.jobId)
      (processOpenJob cfg msg payload job) s₀ s := by
  unfold processOpenJob
  split
  · exact delivered_error h
  rw [Async.safe_bind]
  apply safe_hasDeadlineHeadroom h
  intro n hrely r answer hhears hanswer
  have hs := stable_working _ _ hrely hs
  rw [Async.andThen_ok]
  split
  · next hroom =>
      have hmargin : about = .bonding → n.chain.ledger + cfg.margin ≤ job.deadlineLedger := by
        intro hb
        rcases hanswer with ⟨-, rfl⟩ | ⟨hr, -⟩
        · exact of_decide_eq_true hroom
        · exact ((hhears.2.2.1 hb).2.1 _ rfl).resolve_left hr
      rw [Async.safe_bind]
      apply safe_call rfl (.refl hrely.ok)
      intro n' hrely' r _
      have hs := stable_working _ _ hrely' hs
      have hmargin := stable_margin rfl _ _ hrely' hmargin
      rw [Async.andThen_ok]
      cases r with
      | null => exact delivered_error (.refl hrely'.ok)
      | fail => exact delivered_error (.refl hrely'.ok)
      | ok =>
          simp only [Async.safe_bind, Async.safe_gets, Async.andThen_ok]
          refine Async.Safe.mono (safe_enqueue (.refl hrely'.ok) hkey hs hfee hmargin) ?_
          rintro (err | _) s₁ s ⟨h, hs, hmargin⟩
          · exact delivered_error h
          · rw [Async.andThen_ok]
            apply safe_acceptAndComplete h hkey hs
            intro hb
            obtain ⟨job', hjob', hdeadline, hfee'⟩ := hs.1
            refine ⟨key, job', hkey, hjob', ?_, ?_⟩
            · rw [hfee']
              exact hfee hb
            · rw [hdeadline]
              exact hmargin hb
  · exact delivered_null (.refl hrely.ok)

/-- **A delivery**, from the box on. -/
theorem safe_processPayload {msg : EncryptedPayload} (h : Guar cfg about i s₀ s) :
    Async.Safe (rules cfg about) i (Delivered cfg about i msg.jobId) (processPayload cfg i msg)
      s₀ s := by
  rw [processPayload, Async.safe_tryFinally]
  suffices hbody : Async.Safe (rules cfg about) i (Delivered cfg about i msg.jobId) _ s₀ s from
    hbody.mono fun _ _ _ hend => delivered_release hend
  split
  · exact delivered_error h
  · next payload hbox =>
      obtain ⟨key, hkey, -⟩ := Option.bind_eq_some_iff.mp hbox
      rw [Async.safe_bind]
      apply safe_getJob h
      intro n hrely r hhears
      have hok := hrely.ok
      cases r with
      | null => exact delivered_null (.refl hok)
      | fail => exact delivered_error (.refl hok)
      | ok =>
          simp only [readJob, hkey, Option.bind_some, Async.andThen_ok]
          cases hjob : n.chain.jobs.lookup key with
          | none => exact delivered_null (.refl hok)
          | some job =>
              by_cases hopen : job.status = .OPEN
              · obtain ⟨htake, hs⟩ := working_take hok hhears hkey hjob hopen
                simp only [hopen, ne_eq, not_true_eq_false, if_false, Async.safe_bind,
                  Async.safe_modify, Async.andThen_ok]
                apply safe_processOpenJob htake hkey hs
                exact fun hb => (hhears.2.2.1 hb).1 msg.jobId rfl rfl key hkey job hjob hopen
              · simp only [ne_eq, hopen, not_false_eq_true, if_true]
                exact delivered_null (.refl hok)

/-- What holds when the code of a delivery has ended, wherever it has its result from. -/
def Handled (cfg : EngineConfig P W) (about : Topic) (i : ℕ) (jobId : Str)
    (r : Except EngineError (Option RelayResult)) (n n' : Node W) : Prop :=
  Guar cfg about i n n' ∧ (about = .idempotency →
    ∀ result, r = .ok (some result) → ResultOf n'.chain jobId result)

theorem safe_processShared {msg : EncryptedPayload} (h : Guar cfg about i s₀ s) (k : Str) :
    Async.Safe (rules cfg about) i (Handled cfg about i msg.jobId) (processShared cfg i msg k)
      s₀ s := by
  rw [processShared, Async.safe_bind, Async.safe_modify, Async.andThen_ok, Async.safe_tryFinally]
  have hpending : Guar cfg about i s
      { s with pendingIdempotency := s.pendingIdempotency.set k ⟨i, msg.jobId⟩ } :=
    quiet_memory h.ok (fun hi => ⟨(h.ok.remembered hi).stored, (h.ok.remembered hi).settled⟩) i
  refine Async.Safe.mono (safe_processPayload (h.trans hpending)) ?_
  rintro r s₁ s ⟨h, hown⟩
  refine ⟨h.trans (quiet_memory h.ok (fun hi => ⟨(h.ok.remembered hi).stored, ?_⟩) i),
    fun _ => hown⟩
  intro x hx result hresult
  rcases List.mem_append.mp hx with hx | hx
  · exact (h.ok.remembered hi).settled x hx result hresult
  · rw [List.mem_singleton] at hx
    subst hx
    exact hown result hresult

theorem safe_awaitPromise {p : Promise} (h : Guar cfg about i s₀ s) :
    Async.Safe (rules cfg about) i (Handled cfg about i p.jobId) (awaitPromise p) s₀ s := by
  rw [awaitPromise, Async.safe_bind]
  apply safe_call rfl h
  intro n hrely r _
  simp only [Async.andThen_ok, Async.safe_bind, Async.safe_get]
  split
  · next r houtcome =>
      refine ⟨.refl hrely.ok, fun hi result hresult => ?_⟩
      obtain ⟨x, hx, rfl⟩ := Option.map_eq_some_iff.mp houtcome
      have hp : x.1 = p := by simpa using List.find?_some hx
      rw [← hp]
      exact (hrely.ok.remembered hi).settled x (List.mem_of_find?_eq_some hx) result hresult
  · exact ⟨.refl hrely.ok, fun _ _ => Async.failed_elim⟩

theorem Delivered.handled {jobId : Str} {r : Except EngineError (Option RelayResult)}
    {n n' : Node W} (h : Delivered cfg about i jobId r n n') : Handled cfg about i jobId r n n' :=
  ⟨h.1, fun _ => h.2⟩

/-- **Every delivery** keeps to the rules. -/
theorem safe_handlePayload {msg : EncryptedPayload} (h : Guar cfg about i s₀ s)
    (hstart : about = .idempotency → IdempotencyStart s msg) :
    Async.Safe (rules cfg about) i (Handled cfg about i msg.jobId) (handlePayload cfg i msg)
      s₀ s := by
  have halone : Async.Safe (rules cfg about) i (Handled cfg about i msg.jobId)
      (processPayload cfg i msg) s₀ s :=
    (safe_processPayload h).mono fun _ _ _ hend => hend.handled
  unfold handlePayload
  split
  · exact (delivered_error h).handled
  split
  · exact (delivered_null h).handled
  split
  · exact halone
  · exact halone
  · next k ks hkey =>
      simp only [Async.safe_bind, Async.safe_get, Async.andThen_ok]
      split
      · next existing hlive =>
          refine ⟨h, ?_⟩
          rintro hi _ ⟨⟩
          have hfind := (Option.filter_eq_some_iff.mp hlive).1
          have hown := (h.ok.remembered hi).stored _ (Dict.mem_of_find hfind)
          exact hown.congr ((hstart hi _ hkey).1 existing hlive)
      · rw [Async.safe_bind, Async.safe_modify, Async.andThen_ok]
        have hdelete : Guar cfg about i s
            { s with idempotencyStore := s.idempotencyStore.delete (k :: ks) } := by
          refine quiet_memory h.ok (fun hi => ⟨?_, (h.ok.remembered hi).settled⟩) i
          intro x hx
          exact (h.ok.remembered hi).stored x (Dict.mem_delete.mp hx).1
        split
        · next p hp =>
            refine Async.Safe.mono (safe_awaitPromise (h.trans hdelete)) ?_
            rintro r s₁ s ⟨h, hown⟩
            refine ⟨h, fun hi result hresult => ?_⟩
            exact (hown hi result hresult).congr ((hstart hi _ hkey).2 p hp)
        · exact safe_processShared (h.trans hdelete) _

end Deliveries

/-! ## Recovery -/

section Recovery

variable {e : AcceptedJobEntry W} {ref : ℕ}

theorem safe_settleAcceptance {current : Option JobRecord} (h : Guar cfg about i s₀ s)
    (hkey : jobKey e.jobId = some key) (hs : Working about i key e.jobId e.deadline e.fee s)
    (hworth : about = .bonding → statusOf current = some .OPEN → Worthwhile cfg s.chain e.jobId)
    (hbonded : about = .durability → current.any (acceptedByUs cfg) = false →
      ¬ Bonded cfg s.chain key) :
    Async.Safe (rules cfg about) i
      (fun _ s₀ s => Guar cfg about i s₀ s ∧ Working about i key e.jobId e.deadline e.fee s)
      (settleAcceptance cfg e current) s₀ s := by
  have hA : ∀ call, Stable cfg about i call (Working about i key e.jobId e.deadline e.fee) :=
    fun _ => stable_working
  unfold settleAcceptance
  split
  · rw [Async.safe_bind]
    refine Async.Safe.mono (safe_markAccepted hA h hs _ _) ?_
    rintro (err | _) s₁ s hend
    · exact hend
    · exact hend
  · next hnot =>
      split
      · next hopen =>
          rw [Async.safe_tryCatch, Async.safe_bind]
          refine Async.Safe.mono (safe_acceptJob hA h hs hkey fun hb => hworth hb hopen) ?_
          have hcatch : ∀ err s₁ s, Guar cfg about i s₁ s →
              Working about i key e.jobId e.deadline e.fee s →
              Async.Safe (rules cfg about) i
                (fun _ s₀ s => Guar cfg about i s₀ s ∧
                  Working about i key e.jobId e.deadline e.fee s)
                (do
                  recordFailure e.jobId err
                  pure (some Verdict.failed)) s₁ s := by
            intro err s₁ s h hs
            rw [Async.safe_bind]
            refine Async.Safe.mono (safe_recordFailure hA h hs e.jobId err) ?_
            rintro (err | _) s₁ s hend
            · exact hend
            · exact hend
          rintro (err | acceptedTx) s₁ s ⟨h, hs, -⟩
          · exact hcatch err s₁ s h hs
          · rw [Async.andThen_ok, Async.safe_bind]
            refine Async.Safe.mono (safe_markAccepted hA h hs _ _) ?_
            rintro (err | _) s₁ s ⟨h, hs⟩
            · exact hcatch err s₁ s h hs
            · exact ⟨h, hs⟩
      · rw [Async.safe_bind]
        refine Async.Safe.mono (safe_resolve hA h hs hkey fun hd => hbonded hd ?_) ?_
        · simpa using hnot
        · rintro (err | _) s₁ s hend
          · exact hend
          · exact hend

/-- A job that could be read and is not accepted by the operator is not bonded. -/
theorem not_bonded_of_read {n : Node W}
    (hread : ((jobKey e.jobId).bind n.chain.jobs.lookup).any (acceptedByUs cfg) = false)
    (hkey : jobKey e.jobId = some key) : ¬ Bonded cfg n.chain key := by
  rintro ⟨job, hjob, hstatus, hrelayer, -⟩
  rw [hkey, Option.bind_some, hjob, Option.any_some] at hread
  simp [acceptedByUs, hstatus, hrelayer] at hread

/-- **An entry whose acceptance is not confirmed**: the operator finds out, or gives it up for a job
that is not bonded. -/
theorem safe_confirmEntry {r : Reply} {current : Option JobRecord} (h : Guar cfg about i s₀ s)
    (hkey : jobKey e.jobId = some key) (hs : Working about i key e.jobId e.deadline e.fee s)
    (hfee : about = .bonding → cfg.minFee ≤ e.fee)
    (hdurable : about = .durability → DurableReply cfg s (.getJob (.recover ref) e.jobId) r)
    (hbonding : about = .bonding → BondingReply cfg s (.getJob (.recover ref) e.jobId) r)
    (hcurrent : r = .ok ∧ current = (jobKey e.jobId).bind s.chain.jobs.lookup ∨
      r ≠ .ok ∧ current = none) :
    Async.Safe (rules cfg about) i
      (fun _ s₀ s => Guar cfg about i s₀ s ∧ Working about i key e.jobId e.deadline e.fee s)
      (confirmEntry cfg ref e current) s₀ s := by
  simp only [confirmEntry, Async.safe_bind, Async.safe_get, Async.andThen_ok]
  split
  · next hunconfirmed =>
      have hno : ¬ ∃ e' ∈ s.objects[ref]?, e'.unconfirmed = false := by
        rintro ⟨e', he', hconfirmed⟩
        rw [Node.object, Option.mem_def.mp he', Option.getD_some, hconfirmed] at hunconfirmed
        cases hunconfirmed
      rw [Async.safe_bind]
      refine Async.Safe.mono (safe_settleAcceptance h hkey hs ?_ ?_) ?_
      · intro hb hopen
        rcases hcurrent with ⟨rfl, rfl⟩ | ⟨-, rfl⟩
        · obtain ⟨job, hjob, hstatus⟩ := statusOf_eq_some.mp hopen
          rw [hkey, Option.bind_some] at hjob
          obtain ⟨job', hjob', hdeadline, hfee'⟩ := hs.1
          obtain rfl := Option.some.inj (hjob.symm.trans hjob')
          refine ⟨key, job, hkey, hjob, ?_, ?_⟩
          · rw [hfee']
            exact hfee hb
          · exact ((hbonding hb).2.2 _ rfl rfl).resolve_left hno key hkey job hjob hstatus
        · cases hopen
      · intro hd hnot
        rcases hcurrent with ⟨rfl, rfl⟩ | ⟨hr, rfl⟩
        · exact not_bonded_of_read hnot hkey
        · exact ((hdurable hd _ rfl).resolve_left hr).resolve_left hno key hkey
      · rintro (err | verdict) s₁ s ⟨h, hs⟩
        · exact ⟨h, hs⟩
        · rw [Async.andThen_ok]
          split
          · exact ⟨h, hs⟩
          · rw [Async.safe_bind, Async.safe_modify, Async.andThen_ok, Async.safe_pure]
            have hquiet : Quiet cfg about s (s.update ref fun old =>
                { old with
                  acceptedTx := (s.get e.jobId).bind fun found => (s.object found e).acceptedTx }) :=
              quiet_update h.ok ref fun _ => ⟨rfl, rfl, rfl⟩
            exact ⟨h.trans (hquiet i), stable_working _ _ (hquiet.rely .persist) hs⟩
  · exact ⟨h, hs⟩

/-- An entry is submitted, or it stays queued. -/
theorem safe_finishEntry (h : Guar cfg about i s₀ s) (hkey : jobKey e.jobId = some key)
    (hs : Working about i key e.jobId e.deadline e.fee s) :
    Async.Safe (rules cfg about) i (fun _ s₀ s => Guar cfg about i s₀ s) (finishEntry cfg ref e)
      s₀ s := by
  rw [finishEntry, Async.safe_tryCatch]
  split
  · exact h
  · next payload _ =>
      rw [Async.safe_bind]
      refine Async.Safe.mono
        (safe_submitWithRetry (fun _ => stable_working) hkey payload _ _ h hs) ?_
      rintro (err | submittedTx) s₁ s ⟨h, hs, hsubmitted⟩
      · exact h
      · have hdone := (hsubmitted submittedTx rfl).1
        rw [Async.andThen_ok, Async.safe_bind]
        refine Async.Safe.mono (safe_resolve_held (fun _ => stable_submitted) h hdone hkey
          (fun _ => hdone.not_bonded) hs.2) ?_
        rintro (err | _) s₁ s ⟨h, hdone, hheld⟩
        · exact h
        · simp only [Async.andThen_ok, Async.safe_bind, Async.safe_get]
          refine Async.Safe.mono (safe_recordCompleted (fun _ => stable_submitted) h hkey
            (fun hsettle => ⟨(hheld hsettle).1, (hheld hsettle).2 rfl⟩) hdone fun _ => hdone) ?_
          rintro r s₁ s ⟨h, -, rfl⟩
          exact h

/-- A recovery pass has read the job of an entry and works on it from then on. -/
theorem recover_take {n : Node W} {r : Reply} (hok : n.Ok cfg about)
    (hentry : EntryOk cfg about n.chain e)
    (hhears : (rules cfg about).hears i (.getJob (.recover ref) e.jobId) r n)
    (hkey : jobKey e.jobId = some key) :
    Guar cfg about i n (n.take i e.jobId) ∧
      Working about i key e.jobId e.deadline e.fee (n.take i e.jobId) := by
  obtain ⟨key', hkey', hterms⟩ := hentry.terms
  obtain rfl := Option.some.inj (hkey.symm.trans hkey')
  refine ⟨guar_take hok hkey fun hs => ((hhears.2.2.2 hs).2 _ rfl key hkey).1, hterms, fun hs => ?_⟩
  obtain ⟨-, hqueued, hfailed⟩ := (hhears.2.2.2 hs).2 _ rfl key hkey
  have honce := hok.once hs
  refine ⟨?_, ?_, ?_⟩
  · simp [Node.take, hkey]
  · -- nothing was reported: not a failure, and what was completed is no longer queued
    rw [List.eq_nil_iff_forall_not_mem]
    intro report hreport
    obtain ⟨hmem, hsame⟩ := List.mem_filter.mp hreport
    have hsame : jobKey report.1 = some key := by simpa using hsame
    cases hresult : report.2 with
    | failed => exact hfailed report hmem hresult hsame
    | completed =>
        have habsent := honce.completed report hmem hresult key hsame
        exact habsent.queue _ hqueued (jobKey_toLowerCase hkey)
  · intro k hk hsame
    exact honce.spelling k hk _ hqueued (by rw [hsame, jobKey_toLowerCase hkey])

theorem safe_resumeEntry (h : Guar cfg about i s₀ s) (hentry : EntryOk cfg about s.chain e) :
    Async.Safe (rules cfg about) i (fun _ s₀ s => Guar cfg about i s₀ s)
      (resumeEntry cfg i ref e) s₀ s := by
  rw [resumeEntry, Async.safe_bind]
  apply safe_getJobOrNull h
  intro n hrely r current hhears hcurrent
  have hentry := hentry.mono hrely.le
  obtain ⟨key, hkey, -⟩ := hentry.terms
  obtain ⟨h, hs⟩ := recover_take hrely.ok hentry hhears hkey
  simp only [Async.andThen_ok, Async.safe_bind, Async.safe_modify]
  split
  · next hstatus =>
      have hdone : Submitted n.chain key := by
        rcases hcurrent with ⟨-, rfl⟩ | ⟨-, rfl⟩
        · exact submitted_of_status hkey hstatus
        · cases hstatus
      rw [Async.safe_bind]
      refine Async.Safe.mono (safe_resolve_held (fun _ => stable_submitted) h hdone hkey
        (fun _ => hdone.not_bonded) hs.2) ?_
      rintro (err | _) s₁ s ⟨h, hdone, hheld⟩
      · exact h
      · simp only [Async.andThen_ok, Async.safe_bind, Async.safe_get]
        refine Async.Safe.mono (safe_recordCompleted (fun _ => stable_submitted) h hkey
          (fun hsettle => ⟨(hheld hsettle).1, (hheld hsettle).2 rfl⟩) hdone fun _ => hdone) ?_
        rintro r s₁ s ⟨h, -, rfl⟩
        exact h
  · rw [Async.safe_bind]
    refine Async.Safe.mono (safe_confirmEntry h hkey hs hentry.fee hhears.2.1 hhears.2.2.1
      hcurrent) ?_
    rintro (err | verdict) s₁ s ⟨h, hs⟩
    · exact h
    · rw [Async.andThen_ok]
      split
      · exact h
      · rw [Async.safe_bind]
        apply safe_hasDeadlineHeadroom h
        intro n hrely r answer _ hanswer
        have hs := stable_working _ _ hrely hs
        rw [Async.andThen_ok]
        split
        · exact safe_finishEntry (.refl hrely.ok) hkey hs
        · next hlate =>
            rw [Async.safe_bind]
            refine Async.Safe.mono (safe_resolve (fun _ => stable_working) (.refl hrely.ok) hs hkey
              fun _ => ?_) ?_
            · -- the head is past the margin
              rintro ⟨job, hjob, -, -, hmargin⟩
              obtain ⟨job', hjob', hdeadline, -⟩ := hs.1
              obtain rfl := Option.some.inj (hjob.symm.trans hjob')
              rcases hanswer with ⟨-, rfl⟩ | ⟨-, rfl⟩
              · rw [decide_eq_true_eq] at hlate
                omega
              · exact hlate rfl
            · rintro (err | _) s₁ s ⟨h, -⟩
              · exact h
              · exact h

/-- **A recovery pass** over the entries, one after the other. -/
theorem safe_resumeEntries (entries : List (ℕ × AcceptedJobEntry W)) (resumed : Resumed)
    {s₀ s : Node W} (h : Guar cfg about i s₀ s)
    (hentries : ∀ x ∈ entries, EntryOk cfg about s₀.chain x.2) :
    Async.Safe (rules cfg about) i (fun _ s₀ s => Guar cfg about i s₀ s)
      (resumeEntries cfg i entries resumed) s₀ s := by
  induction entries generalizing resumed s₀ s with
  | nil => exact h
  | cons x rest ih =>
      obtain ⟨ref, e⟩ := x
      have hfirst : EntryOk cfg about s.chain e := (hentries (ref, e) List.mem_cons_self).mono h.le
      have hrest : ∀ x ∈ rest, EntryOk cfg about s₀.chain x.2 :=
        fun x hx => hentries x (List.mem_cons_of_mem _ hx)
      rw [resumeEntries, Async.safe_bind, Async.safe_tryFinally]
      -- the other entries stay as the chain has them while this one is worked on
      refine Async.Safe.mono ((safe_resumeEntry h hfirst).frame
        (A := fun n => ∀ x ∈ rest, EntryOk cfg about n.chain x.2) ?_ ?_ hrest) ?_
      · exact fun _ _ _ hrely hall x hx => (hall x hx).mono hrely.le
      · exact fun _ _ hguar hall x hx => (hall x hx).mono (Guar.le hguar)
      · rintro (err | verdict) s₁ s ⟨h, hrest⟩
        · exact h.trans (guar_release h.ok)
        · rw [Async.andThen_ok]
          exact ih _ (h.trans (guar_release h.ok)) hrest

theorem safe_resumeAcceptedJobs (h : Guar cfg about i s₀ s) :
    Async.Safe (rules cfg about) i (fun _ s₀ s => Guar cfg about i s₀ s)
      (resumeAcceptedJobs cfg i) s₀ s := by
  rw [resumeAcceptedJobs, Async.safe_bind]
  apply safe_call rfl h
  intro n hrely r _
  simp only [Async.andThen_ok, Async.safe_bind, Async.safe_get]
  apply safe_resumeEntries _ _ (.refl hrely.ok)
  intro x hx
  obtain ⟨ref, -, href⟩ := List.mem_filterMap.mp hx
  obtain ⟨e, he, rfl⟩ := Option.map_eq_some_iff.mp href
  exact hrely.ok.object e (List.mem_of_getElem? he)

theorem safe_acceptedJobWatch (h : Guar cfg about i s₀ s) :
    Async.Safe (rules cfg about) i (fun _ s₀ s => Guar cfg about i s₀ s)
      (acceptedJobWatch cfg i) s₀ s := by
  have hmemory : ∀ (n : Node W) (inFlight : Bool), n.Ok cfg about →
      Guar cfg about i n { n with resumeInFlight := inFlight } := fun n inFlight hok =>
    quiet_memory hok (fun hi => ⟨(hok.remembered hi).stored, (hok.remembered hi).settled⟩) i
  simp only [acceptedJobWatch, Async.safe_bind, Async.safe_get, Async.andThen_ok]
  split
  · exact h
  · rw [Async.safe_bind, Async.safe_modify, Async.andThen_ok, Async.safe_tryFinally]
    refine Async.Safe.mono (safe_resumeAcceptedJobs (h.trans (hmemory s true h.ok))) ?_
    exact fun _ _ s h => h.trans (hmemory s false h.ok)

end Recovery

/-! ## All of them together -/

section Together

/-- What the end of a task says. -/
def Ended (about : Topic) : Job → Except EngineError Outcome → Node W → Prop
  | .deliver msg, r, n => about = .idempotency → ∀ result, r = .ok (.delivered (some result)) →
      ResultOf n.chain msg.jobId result
  | .watch, _, _ => True

/-- The steps that are considered: deliveries whose key is for their job, ledgers that leave the
margin to those who have checked it, restarts of a node whose queue is written. -/
def terms (cfg : EngineConfig P W) (about : Topic) : System.Terms Job (Node W) EngineCall Outside where
  start _ job n := about = .idempotency → ∀ msg, job = .deliver msg → IdempotencyStart n msg
  outside awaits n e := about = .bonding → ∀ ledgers, e = .chain (.close ledgers) →
    ∀ i call, awaits i call → ∀ deadline ∈ call.checked,
      n.chain.ledger + cfg.margin ≤ deadline → n.chain.ledger + ledgers + cfg.margin ≤ deadline
  restart _ := True

theorem ok_init (ledger : ℕ) : (Node.init ledger : Node W).Ok cfg about := by
  refine ⟨⟨Chain.ok_empty _ _, nofun, nofun, nofun, fun _ => ?_, fun _ => ⟨nofun, nofun⟩⟩,
    fun _ => nofun⟩
  exact ⟨fun _ => Nat.zero_le _, fun _ => Nat.zero_le _, fun _ _ => rfl, fun _ h => absurd rfl h,
    nofun, nofun, nofun, nofun⟩

/-- What happens outside leaves the tasks alone. -/
theorem outside_rely {n : Node W} {e : Outside} {call : EngineCall} (hok : n.Ok cfg about)
    (hclose : about = .bonding → ∀ ledgers, e = .chain (.close ledgers) →
      ∀ deadline ∈ call.checked, n.chain.ledger + cfg.margin ≤ deadline →
        n.chain.ledger + ledgers + cfg.margin ≤ deadline) :
    Rely cfg about i call n (n.outside cfg e) := by
  have hremembered := fun hi => hok.remembered hi
  cases e with
  | tick ms =>
      exact (quiet_memory hok fun hi => ⟨(hremembered hi).stored, (hremembered hi).settled⟩).rely call
  | disk works =>
      exact (quiet_memory hok fun hi => ⟨(hremembered hi).stored, (hremembered hi).settled⟩).rely call
  | prune =>
      refine (quiet_memory hok fun hi => ⟨?_, (hremembered hi).settled⟩).rely call
      intro x hx
      exact (hremembered hi).stored x (List.mem_filter.mp hx).1
  | chain e =>
      have hle := n.chain.le_apply cfg.operator e
      refine ⟨hok.of_chain hle (hok.chain.apply e), hle, fun _ key hw =>
        ⟨hw, rfl, fun _ hk _ => hk, fun ha => ⟨ha.queue, ha.store⟩⟩, ?_⟩
      intro hb deadline hcall hmargin
      cases e with
      | close ledgers => exact hclose hb ledgers rfl deadline hcall hmargin
      | land tx ok =>
          show (n.chain.land cfg.operator tx ok).ledger + cfg.margin ≤ deadline
          rw [Chain.land_ledger]
          exact hmargin
      | other jobId new =>
          simp only [Node.outside, Chain.apply]
          split
          · exact hmargin
          · exact hmargin

/-- **The tasks, what happens outside and the restarts fit together.** -/
theorem engine_fits (cfg : EngineConfig P W) (about : Topic) :
    System.Fits (engine cfg) (rules cfg about) (terms cfg about) (Node.Ok cfg about)
      (Ended about) where
  refl i call n hok := (Guar.refl hok : Guar cfg about (i + 1) n n).rely (Nat.succ_ne_self i) call
  trans _ _ _ _ _ h h' := Rely.trans h h'
  other i j call n n' _ hij hguar := Guar.rely hij hguar call
  inv _ _ _ _ hguar := Guar.ok hguar
  start i job n hok hstart := by
    cases job with
    | deliver msg =>
        show Async.Safe _ _ _ (engineCode cfg i (.deliver msg)) n n
        rw [engineCode, Async.safe_bind]
        refine Async.Safe.mono (safe_handlePayload (.refl hok) fun hi => hstart hi msg rfl) ?_
        rintro (err | r) s₀ s ⟨hguar, hown⟩
        · exact ⟨hguar, fun _ _ => nofun⟩
        · refine ⟨hguar, fun hi result hresult => ?_⟩
          cases hresult
          exact hown hi result rfl
    | watch =>
        show Async.Safe _ _ _ (engineCode cfg i .watch) n n
        rw [engineCode, Async.safe_bind]
        refine Async.Safe.mono (safe_acceptedJobWatch (.refl hok)) ?_
        rintro (err | r) s₀ s hguar
        · exact ⟨hguar, trivial⟩
        · exact ⟨hguar, trivial⟩
  outside awaits n e hok hterms := by
    refine ⟨(outside_rely hok ?_ : Rely cfg about 0 .sleep n _).ok, ?_⟩
    · exact fun _ _ _ _ => nofun
    · intro i call hawaits
      apply outside_rely hok
      exact fun hb ledgers heq => hterms hb ledgers heq i call hawaits
  restart n hok _ := hok.reboot

end Together

end OpaqueStellar.Relayer
