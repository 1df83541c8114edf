import OpaqueStellar.Registry.Bonds

/-! # The relayer registry: the life of a job

A job is open, then accepted or canceled; an accepted job is submitted or slashed. `jobs_cases` says
once what a call does to the stored jobs, and the laws about statuses, about the data a job keeps
and about the one call that settles it are read off it.

The fee of a job is safe as long as slashes are paid from free stake only: the conditions of
solvency and of bond accounting together. -/

namespace OpaqueStellar.Registry

open OpaqueStellar.Lib OpaqueStellar.Soroban

variable {host : Host} {env : Env}

/-! ## Statuses -/

/-- The moves between two different statuses. -/
inductive StatusMove : JobStatus → JobStatus → Prop
  | accept : StatusMove .OPEN .ACCEPTED
  | cancel : StatusMove .OPEN .CANCELED
  | submit : StatusMove .ACCEPTED .SUBMITTED
  | slash : StatusMove .ACCEPTED .SLASHED

def JobStatus.settled : JobStatus → Bool
  | .OPEN | .ACCEPTED => false
  | .SUBMITTED | .SLASHED | .CANCELED => true

theorem StatusMove.not_settled {a b : JobStatus} (h : StatusMove a b) : a.settled = false := by
  cases h <;> rfl

/-- What a job keeps from its creation on. -/
structure SameTerms (job job' : JobRecord) : Prop where
  creator : job'.creator = job.creator
  fee : job'.fee = job.fee
  payloadHash : job'.payloadHash = job.payloadHash
  deadlineLedger : job'.deadlineLedger = job.deadlineLedger

theorem SameTerms.refl (job : JobRecord) : SameTerms job job := ⟨rfl, rfl, rfl, rfl⟩

/-- The job a step settles: the calls that pay out its fee. -/
def settlement (e : RegistryStep) : Option (BytesN 32) :=
  match e.input, e.output with
  | .registry _ (.submitPoolWithdraw _ jobId _), .registry (.ok ()) => some jobId
  | .registry _ (.slashJob _ jobId), .registry (.ok ()) => some jobId
  | .registry _ (.cancelJob _ jobId), .registry (.ok ()) => some jobId
  | _, _ => none

theorem settlement_error (w : World) (inv : Invocation) (e : Failure RegistryError) :
    settlement ⟨w, inv, .registry (.error e)⟩ = none := by
  unfold settlement
  split <;> simp_all

theorem settlement_pool (w : World) (inv : Pool.Invocation) (o : Outcome) :
    settlement ⟨w, .pool inv, o⟩ = none := rfl

/-- **What a call does to the jobs.** It leaves them alone, adds an open one, or moves one along. -/
theorem jobs_cases {w w' : World} {call : Call} (h : Effect host env w call w') :
    (w'.registry.jobs = w.registry.jobs ∧
      settlement ⟨w, .registry env call, .registry (.ok ())⟩ = none) ∨
    (∃ jobId new, w.registry.jobs.lookup jobId = none ∧
      w'.registry.jobs = w.registry.jobs.insert jobId new ∧ new.status = .OPEN ∧ 0 < new.fee.val ∧
      settlement ⟨w, .registry env call, .registry (.ok ())⟩ = none) ∨
    ∃ jobId job new, w.registry.jobs.lookup jobId = some job ∧
      w'.registry.jobs = w.registry.jobs.insert jobId new ∧ SameTerms job new ∧
      StatusMove job.status new.status ∧
      settlement ⟨w, .registry env call, .registry (.ok ())⟩ =
        if new.status.settled then some jobId else none := by
  cases h with
  | createJob hsigned hpositive hstored hahead hnear hfresh hpaid =>
      obtain ⟨tokens, -, rfl⟩ := hpaid
      exact .inr (.inl ⟨_, _, hfresh, rfl, rfl, hpositive, rfl⟩)
  | acceptJob hsigned hjob hopen hinTime hread hle hfree hbonded =>
      refine .inr (.inr ⟨_, _, _, hjob, rfl, ⟨rfl, rfl, rfl, rfl⟩, ?_, rfl⟩)
      rw [hopen]
      exact .accept
  | submitPoolWithdraw hsigned hstored hjob hstatus haccepted hinTime hpayload hcalled hwithdrawn
      hread hbonded hfree hpaid =>
      obtain ⟨tokens, -, rfl⟩ := hpaid
      refine .inr (.inr ⟨_, _, _, hjob, rfl, ⟨rfl, rfl, rfl, rfl⟩, ?_, rfl⟩)
      rw [hstatus]
      exact .submit
  | slashJob hsigned hstored hjob hcreator hstatus hlate haccepted hread hbonded hpending hdouble
      hpaid =>
      obtain ⟨tokens, -, rfl⟩ := hpaid
      refine .inr (.inr ⟨_, _, _, hjob, rfl, ⟨rfl, rfl, rfl, rfl⟩, ?_, rfl⟩)
      rw [hstatus]
      exact .slash
  | cancelJob hsigned hstored hjob hcreator hopen hlate hpaid =>
      obtain ⟨tokens, -, rfl⟩ := hpaid
      refine .inr (.inr ⟨_, _, _, hjob, rfl, ⟨rfl, rfl, rfl, rfl⟩, ?_, rfl⟩)
      rw [hopen]
      exact .cancel
  | register hsigned hstored henough hfresh hpaid =>
      obtain ⟨tokens, -, rfl⟩ := hpaid
      exact .inl ⟨rfl, rfl⟩
  | addStake hsigned hpositive hstored hread hpaid hfree =>
      obtain ⟨tokens, -, rfl⟩ := hpaid
      exact .inl ⟨rfl, rfl⟩
  | withdrawStake hsigned hstored hread hpositive hunlocked hpaid =>
      obtain ⟨tokens, -, rfl⟩ := hpaid
      exact .inl ⟨rfl, rfl⟩
  | reportSlash hpositive hevidence hstored hread hdeducted hpaid =>
      obtain ⟨tokens, -, rfl⟩ := hpaid
      exact .inl ⟨rfl, rfl⟩
  | initializeRegistry => exact .inl ⟨rfl, rfl⟩
  | requestUnstake => exact .inl ⟨rfl, rfl⟩
  | setConfig => exact .inl ⟨rfl, rfl⟩
  | transferAdmin => exact .inl ⟨rfl, rfl⟩

/-! ## What one step keeps -/

/-- After a step the job is still there, on the same terms, where it was or one move along. -/
def JobKept (w w' : World) : Prop :=
  ∀ jobId job, w.registry.jobs.lookup jobId = some job →
    ∃ job', w'.registry.jobs.lookup jobId = some job' ∧ SameTerms job job' ∧
      (job'.status = job.status ∨ StatusMove job.status job'.status)

theorem jobKept_of_eq {w w' : World} (h : w'.registry.jobs = w.registry.jobs) : JobKept w w' := by
  intro jobId job hread
  refine ⟨job, ?_, .refl job, .inl rfl⟩
  rw [h]
  exact hread

theorem jobKept_effect {w w' : World} {call : Call} (h : Effect host env w call w') :
    JobKept w w' := by
  rcases jobs_cases h with ⟨hjobs, -⟩ | ⟨jobId, new, hfresh, hjobs, -, -, -⟩ |
    ⟨jobId, job, new, hread, hjobs, hterms, hmove, -⟩
  · exact jobKept_of_eq hjobs
  · intro jobId' job hread
    have hne : jobId' ≠ jobId := by
      rintro rfl
      rw [hfresh] at hread
      cases hread
    refine ⟨job, ?_, .refl job, .inl rfl⟩
    rw [hjobs, Finmap.lookup_insert_of_ne _ hne]
    exact hread
  · intro jobId' job' hread'
    by_cases hid : jobId' = jobId
    · subst hid
      obtain rfl := Option.some.inj (hread.symm.trans hread')
      refine ⟨new, ?_, hterms, .inr hmove⟩
      rw [hjobs]
      exact Finmap.lookup_insert _
    · refine ⟨job', ?_, .refl job', .inl rfl⟩
      rw [hjobs, Finmap.lookup_insert_of_ne _ hid]
      exact hread'

/-! ## Settling once -/

/-- How often a job was settled so far: once if its status says so, never otherwise; the fees of all
jobs are positive. -/
structure SettledOnce (t : List RegistryStep) (w : World) : Prop where
  stored : ∀ jobId job, w.registry.jobs.lookup jobId = some job →
    t.countP (settlement · = some jobId) = if job.status.settled then 1 else 0
  missing : ∀ jobId, w.registry.jobs.lookup jobId = none →
    t.countP (settlement · = some jobId) = 0
  fees : ∀ jobId job, w.registry.jobs.lookup jobId = some job → 0 < job.fee.val

/-- A step that settles nothing and leaves the jobs alone. -/
theorem SettledOnce.kept {t : List RegistryStep} {w w' : World} {e : RegistryStep}
    (h : SettledOnce t w) (he : settlement e = none)
    (hjobs : w'.registry.jobs = w.registry.jobs) : SettledOnce (t ++ [e]) w' := by
  have hcount : ∀ jobId, (t ++ [e]).countP (settlement · = some jobId) =
      t.countP (settlement · = some jobId) := by
    intro jobId
    simp [List.countP_append, he]
  refine ⟨?_, ?_, ?_⟩
  · intro jobId job hread
    rw [hcount]
    rw [hjobs] at hread
    exact h.stored jobId job hread
  · intro jobId hread
    rw [hcount]
    rw [hjobs] at hread
    exact h.missing jobId hread
  · rw [hjobs]
    exact h.fees

theorem settledOnce_effect {t : List RegistryStep} {w w' : World} {call : Call}
    (h : SettledOnce t w) (heffect : Effect host env w call w') :
    SettledOnce (t ++ [⟨w, .registry env call, .registry (.ok ())⟩]) w' := by
  have hcount : ∀ jobId, (t ++ [(⟨w, .registry env call, .registry (.ok ())⟩ : RegistryStep)]).countP
      (settlement · = some jobId) = t.countP (settlement · = some jobId) +
        if settlement ⟨w, .registry env call, .registry (.ok ())⟩ = some jobId then 1 else 0 := by
    intro jobId
    simp [List.countP_append, List.countP_cons]
  rcases jobs_cases heffect with ⟨hjobs, hnone⟩ | ⟨jobId, new, hfresh, hjobs, hopen, hfee, hnone⟩ |
    ⟨jobId, job, new, hread, hjobs, hterms, hmove, hsettles⟩
  · exact h.kept hnone hjobs
  · simp only [hnone, reduceCtorEq, if_false, add_zero] at hcount
    refine ⟨?_, ?_, ?_⟩
    · intro jobId' job' hread'
      rw [hjobs] at hread'
      rw [hcount]
      rcases Store.lookup_insert_cases hread' with ⟨rfl, rfl⟩ | hold
      · rw [h.missing jobId' hfresh, hopen]
        rfl
      · exact h.stored jobId' job' hold
    · intro jobId' hread'
      rw [hjobs] at hread'
      rw [hcount]
      exact h.missing jobId' (Store.lookup_of_insert_none hread').2
    · intro jobId' job' hread'
      rw [hjobs] at hread'
      rcases Store.lookup_insert_cases hread' with ⟨rfl, rfl⟩ | hold
      · exact hfee
      · exact h.fees jobId' job' hold
  · have hother : ∀ jobId', jobId' ≠ jobId →
        settlement ⟨w, .registry env call, .registry (.ok ())⟩ ≠ some jobId' := by
      intro jobId' hne heq
      rw [hsettles] at heq
      split at heq
      · exact hne (Option.some.inj heq).symm
      · cases heq
    refine ⟨?_, ?_, ?_⟩
    · intro jobId' job' hread'
      rw [hjobs] at hread'
      rw [hcount]
      by_cases hid : jobId' = jobId
      · subst hid
        rw [Finmap.lookup_insert] at hread'
        obtain rfl := Option.some.inj hread'
        rw [h.stored jobId' job hread, hmove.not_settled, hsettles]
        cases new.status.settled <;> simp
      · rw [Finmap.lookup_insert_of_ne _ hid] at hread'
        rw [h.stored jobId' job' hread', if_neg (hother jobId' hid)]
        rfl
    · intro jobId' hread'
      rw [hjobs] at hread'
      obtain ⟨hne, hold⟩ := Store.lookup_of_insert_none hread'
      rw [hcount, h.missing jobId' hold, if_neg (hother jobId' hne)]
    · intro jobId' job' hread'
      rw [hjobs] at hread'
      rcases Store.lookup_insert_cases hread' with ⟨rfl, rfl⟩ | hold
      · rw [hterms.fee]
        exact h.fees jobId' job hread
      · exact h.fees jobId' job' hold

theorem settledOnce_run (host : Host) (pool : Pool.World) (invs : List Invocation) :
    SettledOnce ((machine host).trace (.deployed pool) invs)
      ((machine host).final (.deployed pool) invs) := by
  refine run_invariant_of_steps (P := fun _ => True) (I := SettledOnce) ?_ ?_ ?_ ?_ invs
    (fun _ _ => trivial)
  · refine ⟨?_, fun _ _ => rfl, ?_⟩
    · intro jobId job hread
      cases hread
    · intro jobId job hread
      cases hread
  · intro t w env call e h
    exact h.kept (settlement_error w _ e) rfl
  · intro t w env call w' h _ heffect
    exact settledOnce_effect h heffect
  · intro t w inv h
    exact h.kept (settlement_pool w inv _) rfl

/-! ## Where the fee goes -/

/-- From balances `t` to `t'`, the amount went from `src` to `dst`. -/
def Moved (t t' : TokenLedger) (sac src dst : Address) (amount : ℤ) : Prop :=
  ∀ token holder,
    (t' token holder : ℤ) = t token holder + TokenLedger.gain sac src dst amount token holder

/-- The payment that goes with a final status: the fee to the relayer that had accepted the job, on
top of what the pool paid; the fee and the bond to the creator; the fee back to the creator. -/
inductive FeePaid (host : Host) (sac : Address) (input : Invocation) (w w' : World) (job : JobRecord) :
    JobStatus → Prop
  | submitted {env : Env} {operator : Address} {jobId : BytesN 32} {args : Pool.WithdrawArgs}
      {pool : Pool.World} (called : input = .registry env (.submitPoolWithdraw operator jobId args))
      (accepted : job.acceptedRelayer = some operator)
      (withdrawn : Pool.withdraw host.pool env w.pool args = .ok pool)
      (paid : Moved pool.tokens w'.pool.tokens sac host.self operator job.fee.val) :
      FeePaid host sac input w w' job .SUBMITTED
  | slashed (paid : Moved w.pool.tokens w'.pool.tokens sac host.self job.creator (job.fee.val * 2)) :
      FeePaid host sac input w w' job .SLASHED
  | canceled (paid : Moved w.pool.tokens w'.pool.tokens sac host.self job.creator job.fee.val) :
      FeePaid host sac input w w' job .CANCELED

/-- A step that settles a job pays its fee. -/
def SettlementPaid (host : Host) (e : RegistryStep) (w' : World) : Prop :=
  ∀ jobId, settlement e = some jobId → ∃ config job job',
    e.pre.registry.config = some config ∧ e.pre.registry.jobs.lookup jobId = some job ∧
      w'.registry.jobs.lookup jobId = some job' ∧
      FeePaid host config.nativeSac e.input e.pre w' job job'.status

theorem settlementPaid_of_none {e : RegistryStep} {w' : World} (h : settlement e = none) :
    SettlementPaid host e w' := by
  intro jobId hsettles
  rw [h] at hsettles
  cases hsettles

theorem settlementPaid_effect {w w' : World} {call : Call}
    (hfees : ∀ jobId job, w.registry.jobs.lookup jobId = some job → 0 < job.fee.val)
    (h : Effect host env w call w') :
    SettlementPaid host ⟨w, .registry env call, .registry (.ok ())⟩ w' := by
  cases h with
  | submitPoolWithdraw hsigned hstored hjob hstatus haccepted hinTime hpayload hcalled hwithdrawn
      hread hbonded hfree hpaid =>
      have hfee := hfees _ _ hjob
      obtain ⟨tokens, htransfer, rfl⟩ := hpaid
      intro jobId' hsettles
      obtain rfl := Option.some.inj hsettles
      refine ⟨_, _, _, hstored, hjob, Finmap.lookup_insert _, ?_⟩
      exact .submitted rfl haccepted hwithdrawn (TokenLedger.transferPositive_eq_ok hfee.le htransfer)
  | @slashJob creator jobId config job operator relayer slashed bonded award w₁ hsigned hstored hjob
      hcreator hstatus hlate haccepted hread hbonded hpending hdouble hpaid =>
      have hfee := hfees _ _ hjob
      obtain ⟨tokens, htransfer, rfl⟩ := hpaid
      have hmoved := TokenLedger.transferPositive_eq_ok (by omega) htransfer
      intro jobId' hsettles
      obtain rfl := Option.some.inj hsettles
      refine ⟨_, _, _, hstored, hjob, Finmap.lookup_insert _, .slashed ?_⟩
      rw [hcreator, ← hdouble]
      exact hmoved
  | cancelJob hsigned hstored hjob hcreator hopen hlate hpaid =>
      have hfee := hfees _ _ hjob
      obtain ⟨tokens, htransfer, rfl⟩ := hpaid
      intro jobId' hsettles
      obtain rfl := Option.some.inj hsettles
      refine ⟨_, _, _, hstored, hjob, Finmap.lookup_insert _, .canceled ?_⟩
      rw [hcreator]
      exact TokenLedger.transferPositive_eq_ok hfee.le htransfer
  | _ => exact settlementPaid_of_none rfl

/-! ## What leaves the registry otherwise -/

theorem stakes_replaceRelayer {w : World} {operator : Address} {old new : RelayerRecord}
    (hread : w.registry.relayers.lookup operator = some old) (hkey : new.operator = operator) :
    stakes (writeRelayer w new).registry = stakes w.registry - old.holding + new.holding := by
  show Store.total _ (Finmap.insert new.operator new w.registry.relayers) = _
  rw [Store.total_insert, hkey, Store.share_eq_of_lookup hread]
  rfl

/-- What leaves the registry in a step that settles no job is taken off the stakes. -/
def OnlyStakeLeaves (host : Host) (e : RegistryStep) (w' : World) : Prop :=
  settlement e = none → ∀ config, e.pre.registry.config = some config →
    balance host config e.pre - balance host config w' ≤ stakes e.pre.registry - stakes w'.registry

/-- The same from the new stakes `S` and a lower bound `B` of the new balance. -/
theorem leaves_of_moved {w w' : World} {config : RegistryConfig} {S B : ℤ}
    (hs : stakes w'.registry = S) (hb : B ≤ balance host config w')
    (hm : balance host config w - B ≤ stakes w.registry - S) :
    balance host config w - balance host config w' ≤ stakes w.registry - stakes w'.registry := by
  omega

theorem onlyStakeLeaves_effect {w w' : World} {call : Call} (h : Sound host w)
    (hcovered : SlashCovered host ⟨w, .registry env call, .registry (.ok ())⟩)
    (heffect : Effect host env w call w') :
    OnlyStakeLeaves host ⟨w, .registry env call, .registry (.ok ())⟩ w' := by
  intro hnone config₀ hconfig₀
  cases heffect with
  | initializeRegistry hsigned hfresh hminimum hwired => exact absurd hconfig₀ (by simp [hfresh])
  | @register operator pubkey endpoint stake config w₁ hsigned hstored henough hfresh hpaid =>
      obtain rfl := Option.some.inj (hstored.symm.trans hconfig₀)
      have hminimum := h.minimum config hstored
      obtain ⟨hbalance, -⟩ := balance_received hsigned.2 (by omega) hpaid
      obtain ⟨tokens, -, rfl⟩ := hpaid
      have hstakes : stakes (writeRelayer w ⟨operator, pubkey, endpoint, stake, 0, 0, 0⟩).registry =
          stakes w.registry + stake.val := by
        show Store.total _ (Finmap.insert operator _ w.registry.relayers) = _
        rw [Store.total_insert, Store.share_eq_zero hfresh]
        simp [stakes, RelayerRecord.holding]
      refine leaves_of_moved hstakes hbalance.ge ?_
      show balance host config w - _ ≤ stakes w.registry - _
      omega
  | addStake hsigned hpositive hstored hread hpaid hfree =>
      obtain rfl := Option.some.inj (hstored.symm.trans hconfig₀)
      obtain ⟨hbalance, -⟩ := balance_received hsigned.2 hpositive.le hpaid
      obtain ⟨tokens, -, rfl⟩ := hpaid
      refine leaves_of_moved (stakes_replaceRelayer hread (h.relayers _ _ hread).1) hbalance.ge ?_
      simp only [RelayerRecord.holding]
      omega
  | requestUnstake hsigned hpositive hstored hread hle hfree hpending =>
      refine leaves_of_moved (stakes_replaceRelayer hread (h.relayers _ _ hread).1) (le_refl _) ?_
      simp only [RelayerRecord.holding]
      show balance host config₀ w - balance host config₀ w ≤ _
      omega
  | withdrawStake hsigned hstored hread hpositive hunlocked hpaid =>
      obtain rfl := Option.some.inj (hstored.symm.trans hconfig₀)
      obtain ⟨hbalance, -, -⟩ := balance_paid hpositive.le hpaid
      obtain ⟨tokens, -, rfl⟩ := hpaid
      refine leaves_of_moved (stakes_replaceRelayer hread (h.relayers _ _ hread).1) hbalance ?_
      simp only [RelayerRecord.holding, I128.val_zero]
      show balance host _ w - (balance host _ w - _) ≤ _
      omega
  | createJob hsigned hpositive hstored hahead hnear hfresh hpaid =>
      obtain rfl := Option.some.inj (hstored.symm.trans hconfig₀)
      obtain ⟨hbalance, -⟩ := balance_received hsigned.2 hpositive.le hpaid
      obtain ⟨tokens, -, rfl⟩ := hpaid
      refine leaves_of_moved rfl hbalance.ge ?_
      show balance host _ w - _ ≤ stakes w.registry - stakes w.registry
      omega
  | acceptJob hsigned hjob hopen hinTime hread hle hfree hbonded =>
      refine leaves_of_moved (stakes_replaceRelayer hread (h.relayers _ _ hread).1) (le_refl _) ?_
      simp only [RelayerRecord.holding]
      show balance host config₀ w - balance host config₀ w ≤ _
      omega
  | submitPoolWithdraw => cases hnone
  | slashJob => cases hnone
  | cancelJob => cases hnone
  | setConfig =>
      show balance host config₀ w - balance host config₀ w ≤ stakes w.registry - stakes w.registry
      omega
  | transferAdmin =>
      show balance host config₀ w - balance host config₀ w ≤ stakes w.registry - stakes w.registry
      omega
  | @reportSlash proof amount config record relayer slashed w₁ hpositive hevidence hstored hread
      hdeducted hpaid =>
      obtain rfl := Option.some.inj (hstored.symm.trans hconfig₀)
      obtain ⟨hkey, hfree₀, -⟩ := h.relayers _ _ hread
      have hamount := I128.asU128_of_nonneg hpositive.le
      have hbound := amount.upper
      obtain ⟨hoperator, -, -, hholding, hwhole⟩ := deductSlash_eq_ok (by omega) hfree₀ hdeducted
      rw [hamount] at hwhole
      obtain ⟨hbalance, hself, -⟩ := balance_paid hpositive.le hpaid
      obtain ⟨tokens, -, rfl⟩ := hpaid
      have hs := stakes_replaceRelayer hread (hoperator.trans hkey)
      rcases hcovered env proof amount relayer rfl hpositive hevidence hread with hreporter | hstake
      · refine leaves_of_moved hs (hself hreporter).ge ?_
        show balance host config w - balance host config w ≤
          stakes w.registry - (stakes w.registry - relayer.holding + slashed.holding)
        omega
      · have hdeduction := hwhole hstake
        refine leaves_of_moved hs hbalance ?_
        show balance host config w - (balance host config w - amount.val) ≤
          stakes w.registry - (stakes w.registry - relayer.holding + slashed.holding)
        omega

/-! ## Submitting and slashing exclude each other -/

/-- A job is submitted before its deadline and slashed after it. -/
theorem submit_slash_exclusive {w w₁ w₂ : World} {env' : Env} {operator creator : Address}
    {jobId : BytesN 32} {args : Pool.WithdrawArgs} (hledger : env.sequence = env'.sequence)
    (hsubmit : exec host env w (.submitPoolWithdraw operator jobId args) = .ok w₁)
    (hslash : exec host env' w (.slashJob creator jobId) = .ok w₂) : False := by
  cases effect_of_exec hsubmit with
  | submitPoolWithdraw _ _ hjob _ _ hinTime =>
      cases effect_of_exec hslash with
      | slashJob _ _ hjob' _ _ hlate =>
          obtain rfl := Option.some.inj (hjob.symm.trans hjob')
          omega

/-! ## Every run -/

/-- Both conditions on slashes: the stakes cover it, and none of it comes from a bond. -/
def SlashFromFree (host : Host) (e : RegistryStep) : Prop :=
  SlashCovered host e ∧ BondUntouched host e

/-- With the bonds accounted for, a solvent registry holds every fee in escrow. -/
theorem escrow_le_balance {w : World} {config : RegistryConfig} (hsound : Sound host w)
    (hbooked : Booked w.registry) (hstored : w.registry.config = some config) :
    escrow w.registry ≤ balance host config w := by
  have hstakes : 0 ≤ stakes w.registry := by
    apply Store.total_nonneg
    intro k r hread
    obtain ⟨hfree, hbonded, hpending, -⟩ := hbooked.accounted k r hread
    simp only [RelayerRecord.holding]
    omega
  have howed := hsound.solvent config hstored
  rw [liabilities] at howed
  omega

/-- What one step does to the jobs and their fees. -/
structure StepLawful (host : Host) (e : RegistryStep) (w' : World) : Prop where
  kept : JobKept e.pre w'
  paid : SettlementPaid host e w'
  others : OnlyStakeLeaves host e w'

theorem stepLawful_quiet {w w' : World} {inv : Invocation} {o : Outcome}
    (hnone : settlement ⟨w, inv, o⟩ = none) (hregistry : w'.registry = w.registry)
    (hbalance : ∀ config, balance host config w ≤ balance host config w') :
    StepLawful host ⟨w, inv, o⟩ w' := by
  refine ⟨jobKept_of_eq (by rw [hregistry]), settlementPaid_of_none hnone, ?_⟩
  intro _ config _
  have hgrown := hbalance config
  show balance host config w - _ ≤ stakes w.registry - _
  rw [hregistry]
  omega

theorem stepLawful_step {w : World} {inv : Invocation} (hsound : Sound host w)
    (hfees : ∀ jobId job, w.registry.jobs.lookup jobId = some job → 0 < job.fee.val)
    (hcovered : SlashCovered host ((machine host).stepAt w inv)) :
    StepLawful host ((machine host).stepAt w inv) ((machine host).step w inv).1 := by
  cases inv with
  | pool inv =>
      refine stepLawful_quiet (settlement_pool w inv _) rfl ?_
      intro config
      exact Int.ofNat_le.mpr (balance_of_step_pool host w inv config.nativeSac)
  | registry env call =>
      rcases step_registry_cases host w env call with ⟨e, hstep⟩ | ⟨w', hstep, heffect⟩
      · have hstep' : (machine host).step w (.registry env call) = (w, .registry (.error e)) := hstep
        rw [Machine.stepAt, hstep']
        exact stepLawful_quiet (settlement_error w _ e) rfl (fun _ => le_refl _)
      · have hstep' : (machine host).step w (.registry env call) = (w', .registry (.ok ())) := hstep
        rw [Machine.stepAt, hstep'] at hcovered ⊢
        exact ⟨jobKept_effect heffect, settlementPaid_effect hfees heffect,
          onlyStakeLeaves_effect hsound hcovered heffect⟩

/-- What holds of a state after the steps `t`: each job was settled as often as its status says, and
the fees of the others are there. -/
structure StateLawful (host : Host) (t : List RegistryStep) (w : World) : Prop where
  once : ∀ jobId job, w.registry.jobs.lookup jobId = some job →
    t.countP (settlement · = some jobId) = if job.status.settled then 1 else 0
  escrowed : ∀ config, w.registry.config = some config →
    escrow w.registry ≤ balance host config w

/-- **The life of a job.** In every run whose slashes are paid from free stake, statuses only move
along the life of a job, its terms never change, the step that settles it pays its fee to whom the
new status says, it is the only one, and until then the fee is in the registry. In no state at all
can a job be both submitted and slashed at one ledger. -/
theorem job_lifecycle (host : Host) (pool : Pool.World) (invs : List Invocation)
    (hslashes : ∀ e ∈ (machine host).trace (.deployed pool) invs, SlashFromFree host e) :
    (∀ before inv later, invs = before ++ inv :: later →
      StepLawful host ((machine host).stepAt ((machine host).final (.deployed pool) before) inv)
        ((machine host).final (.deployed pool) (before ++ [inv]))) ∧
    (∀ before later, invs = before ++ later →
      StateLawful host ((machine host).trace (.deployed pool) before)
        ((machine host).final (.deployed pool) before)) ∧
    ∀ w env env' operator creator jobId args w₁ w₂, env.sequence = env'.sequence →
      ¬ (exec host env w (.submitPoolWithdraw operator jobId args) = .ok w₁ ∧
        exec host env' w (.slashJob creator jobId) = .ok w₂) := by
  have hinitial : ∀ before later, invs = before ++ later →
      ∀ e ∈ (machine host).trace (.deployed pool) before, SlashFromFree host e := by
    intro before later hinvs e he
    apply hslashes e
    rw [hinvs]
    exact Machine.mem_trace_append _ later he
  refine ⟨?_, ?_, ?_⟩
  · intro before inv later hinvs
    have hbefore := hinitial before (inv :: later) hinvs
    have hlast : SlashFromFree host
        ((machine host).stepAt ((machine host).final (.deployed pool) before) inv) := by
      apply hinitial (before ++ [inv]) later (by rw [hinvs, List.append_assoc]; rfl)
      rw [Machine.trace_snoc]
      exact List.mem_append_right _ (List.mem_singleton.mpr rfl)
    rw [Machine.final_snoc]
    exact stepLawful_step (sound_run host pool before (fun e he => (hbefore e he).1))
      (settledOnce_run host pool before).fees hlast.1
  · intro before later hinvs
    have hbefore := hinitial before later hinvs
    refine ⟨(settledOnce_run host pool before).stored, ?_⟩
    intro config hstored
    exact escrow_le_balance (sound_run host pool before (fun e he => (hbefore e he).1))
      (booked_run host pool before (fun e he => (hbefore e he).2)) hstored
  · intro w env env' operator creator jobId args w₁ w₂ hledger hboth
    exact submit_slash_exclusive hledger hboth.1 hboth.2

/-- The accepted job misses its deadline and is slashed, and then the relayer is slashed for ten. -/
def Demo.missed : List Invocation := Demo.bonding ++ [
  .registry (Pool.Demo.env 21 (Pool.Demo.account 3))
    (.slashJob (Pool.Demo.account 3) (BytesN.ofNat 32 1))]

def Demo.lateSlash : Invocation :=
  .registry (Pool.Demo.env 22 (Pool.Demo.account 9)) (.reportSlash Demo.proof (I128.ofNat 10 I128.ten_lt))

/-- After the missed job the relayer has seventy left and nothing bonded, so the slash of ten comes
from free stake; the creator has its fee back, and that once. -/
theorem job_lifecycle_missed :
    StateLawful Demo.host
      ((machine Demo.host).trace (.deployed Demo.bondingPool) (Demo.missed ++ [Demo.lateSlash]))
      ((machine Demo.host).final (.deployed Demo.bondingPool) (Demo.missed ++ [Demo.lateSlash])) := by
  refine (job_lifecycle Demo.host Demo.bondingPool (Demo.missed ++ [Demo.lateSlash]) ?_).2.1 _ []
    (List.append_nil _).symm
  intro e he
  rw [Machine.trace_append, List.mem_append] at he
  rcases he with hearly | hlast
  · have hmem : e.input ∈ Demo.missed := Machine.input_mem_of_mem_trace _ hearly
    have hother : ∀ env proof amount, e.input ≠ .registry env (.reportSlash proof amount) := by
      intro env proof amount hinput
      rw [hinput] at hmem
      simp [Demo.missed, Demo.bonding, Demo.setup] at hmem
    refine ⟨?_, ?_⟩
    · intro env proof amount relayer hinput
      exact absurd hinput (hother env proof amount)
    · intro env proof amount config relayer tokens hinput
      exact absurd hinput (hother env proof amount)
  · obtain rfl := List.mem_singleton.mp hlast
    have hstored : (((machine Demo.host).final (.deployed Demo.bondingPool)
        Demo.missed).registry.relayers.lookup Demo.proof.relayer).map
          (fun r => (r.bondedStake.val, r.freeStake.val)) = some (0, 70) := by
      decide
    obtain ⟨relayer, hread, hstakes⟩ := Option.map_eq_some_iff.mp hstored
    obtain ⟨hbonded, hfree⟩ := Prod.mk.inj hstakes
    refine ⟨?_, ?_⟩
    · intro env proof amount relayer' hinput hpositive hevidence hread'
      cases hinput
      obtain rfl := Option.some.inj (hread.symm.trans hread')
      right
      right
      rw [hbonded, hfree]
      decide
    · intro env proof amount config relayer' tokens hinput hpositive hevidence hconfig hread' _
      cases hinput
      obtain rfl := Option.some.inj (hread.symm.trans hread')
      exact hbonded

/-- An open job of thirty, and a slash of all the registry holds. -/
def Demo.drained : List Invocation := Demo.setup ++ [
  .registry (Pool.Demo.env 12 (Pool.Demo.account 3)) (.createJob (Pool.Demo.account 3)
    (BytesN.ofNat 32 1) (BytesN.ofNat 32 0) 20 (I128.ofNat 30 I128.thirty_lt)),
  Demo.slash (I128.ofNat 230)]

/-- The slash takes the fee of the open job along. -/
theorem fee_gone_while_open :
    (((machine Demo.host).final (.deployed Demo.bondingPool) Demo.drained).registry.jobs.lookup
        (BytesN.ofNat 32 1)).map (fun j => (j.status, j.fee.val)) = some (.OPEN, 30) ∧
      ((machine Demo.host).final (.deployed Demo.bondingPool) Demo.drained).pool.tokens
        (Pool.Demo.contract 2) Demo.host.self = 0 ∧
      ¬ StateLawful Demo.host ((machine Demo.host).trace (.deployed Demo.bondingPool) Demo.drained)
        ((machine Demo.host).final (.deployed Demo.bondingPool) Demo.drained) := by
  refine ⟨by decide +kernel, by decide +kernel, ?_⟩
  intro h
  have hconfig : ((machine Demo.host).final (.deployed Demo.bondingPool)
      Demo.drained).registry.config = some ⟨Pool.Demo.account 0, Pool.Demo.contract 2,
        Pool.Demo.contract 0, I128.ofNat 10, 720, 17280⟩ := by
    decide +kernel
  have hheld := h.escrowed _ hconfig
  revert hheld
  decide +kernel

end OpaqueStellar.Registry
