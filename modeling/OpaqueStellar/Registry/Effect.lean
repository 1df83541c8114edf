import OpaqueStellar.Pool.Effect
import OpaqueStellar.Registry.Contract

/-! # What a successful registry invocation did

As for the pool: `Effect` has one constructor per call with the checks it passed and the world it
left, `effect_of_exec` reads the entry points that way once, and `run_invariant_of_steps` is the
induction over runs of both contracts. -/

namespace OpaqueStellar.Registry

open OpaqueStellar.Lib OpaqueStellar.Soroban

variable {host : Host} {env : Env}

/-- `a` signed the invocation; the registry itself never does. -/
def Signed (host : Host) (env : Env) (a : Address) : Prop := a ∈ env.auths ∧ a ≠ host.self

/-- The world in which the guarded transfer was made. -/
def Paid (env : Env) (w : World) (sac src dst : Address) (amount : I128) (w' : World) : Prop :=
  ∃ tokens, (w.pool.tokens.transferPositive env sac src dst amount :
    Result RegistryError TokenLedger) = .ok tokens ∧ w' = { w with pool.tokens := tokens }

inductive Effect (host : Host) (env : Env) (w : World) : Call → World → Prop
  | initializeRegistry {admin sac pool : Address} {minimumStake : I128} {cooldown maxDeadline : ℕ}
      {config : RegistryConfig} (signed : Signed host env admin)
      (fresh : w.registry.config = none) (minimum : 0 < config.minimumStake.val)
      (wired : config.admin = admin ∧ config.nativeSac = sac ∧ config.privacyPool = pool) :
      Effect host env w (.initializeRegistry admin sac pool minimumStake cooldown maxDeadline)
        { w with registry.config := some config }
  | register {operator : Address} {pubkey : BytesN 32} {endpoint : String} {stake : I128}
      {config : RegistryConfig} {w₁ : World} (signed : Signed host env operator)
      (stored : w.registry.config = some config)
      (enough : config.minimumStake.val ≤ stake.val)
      (fresh : w.registry.relayers.lookup operator = none)
      (paid : Paid env w config.nativeSac operator host.self stake w₁) :
      Effect host env w (.register operator pubkey endpoint stake)
        (World.publish (writeRelayer w₁ ⟨operator, pubkey, endpoint, stake, 0, 0, 0⟩)
          (.RelayerRegistered operator stake))
  | addStake {operator : Address} {amount : I128} {config : RegistryConfig}
      {relayer : RelayerRecord} {w₁ : World} {freeStake : I128} (signed : Signed host env operator)
      (positive : 0 < amount.val) (stored : w.registry.config = some config)
      (read : w.registry.relayers.lookup operator = some relayer)
      (paid : Paid env w config.nativeSac operator host.self amount w₁)
      (free : freeStake.val = relayer.freeStake.val + amount.val) :
      Effect host env w (.addStake operator amount)
        (World.publish (writeRelayer w₁ { relayer with freeStake := freeStake })
          (.StakeAdded operator amount))
  | requestUnstake {operator : Address} {amount : I128} {config : RegistryConfig}
      {relayer : RelayerRecord} {freeStake pendingUnstake : I128}
      (signed : Signed host env operator) (positive : 0 < amount.val)
      (stored : w.registry.config = some config)
      (read : w.registry.relayers.lookup operator = some relayer)
      (covered : amount.val ≤ relayer.freeStake.val)
      (free : freeStake.val = relayer.freeStake.val - amount.val)
      (pending : pendingUnstake.val = relayer.pendingUnstake.val + amount.val) :
      Effect host env w (.requestUnstake operator amount)
        (World.publish
          (writeRelayer w { relayer with
            freeStake := freeStake
            pendingUnstake := pendingUnstake
            unstakeUnlockLedger := saturatingAdd env.sequence config.unstakeCooldownLedgers })
          (.UnstakeRequested operator amount
            (saturatingAdd env.sequence config.unstakeCooldownLedgers)))
  | withdrawStake {operator : Address} {config : RegistryConfig} {relayer : RelayerRecord}
      {w₁ : World} (signed : Signed host env operator)
      (stored : w.registry.config = some config)
      (read : w.registry.relayers.lookup operator = some relayer)
      (positive : 0 < relayer.pendingUnstake.val)
      (unlocked : relayer.unstakeUnlockLedger ≤ env.sequence)
      (paid : Paid env
        (writeRelayer w { relayer with pendingUnstake := 0, unstakeUnlockLedger := 0 })
        config.nativeSac host.self operator relayer.pendingUnstake w₁) :
      Effect host env w (.withdrawStake operator)
        (w₁.publish (.StakeWithdrawn operator relayer.pendingUnstake))
  | createJob {creator : Address} {jobId hash : BytesN 32} {deadline : ℕ} {fee : I128}
      {config : RegistryConfig} {w₁ : World} (signed : Signed host env creator)
      (positive : 0 < fee.val) (stored : w.registry.config = some config)
      (ahead : env.sequence < deadline)
      (near : deadline - env.sequence ≤ config.maxDeadlineLedgers)
      (fresh : w.registry.jobs.lookup jobId = none)
      (paid : Paid env w config.nativeSac creator host.self fee w₁) :
      Effect host env w (.createJob creator jobId hash deadline fee)
        (World.publish
          (writeJob w₁ jobId ⟨creator, hash, fee, deadline, none, .OPEN, env.sequence, 0⟩)
          (.JobCreated jobId creator fee deadline))
  | acceptJob {operator : Address} {jobId : BytesN 32} {job : JobRecord} {relayer : RelayerRecord}
      {freeStake bondedStake : I128} (signed : Signed host env operator)
      (readJob : w.registry.jobs.lookup jobId = some job) (isOpen : job.status = .OPEN)
      (inTime : env.sequence < job.deadlineLedger)
      (read : w.registry.relayers.lookup operator = some relayer)
      (covered : job.fee.val ≤ relayer.freeStake.val)
      (free : freeStake.val = relayer.freeStake.val - job.fee.val)
      (bonded : bondedStake.val = relayer.bondedStake.val + job.fee.val) :
      Effect host env w (.acceptJob operator jobId)
        (World.publish
          (writeJob
            (writeRelayer w { relayer with freeStake := freeStake, bondedStake := bondedStake })
            jobId { job with acceptedRelayer := some operator, status := .ACCEPTED })
          (.JobAccepted jobId operator job.fee))
  | submitPoolWithdraw {operator : Address} {jobId : BytesN 32} {args : Pool.WithdrawArgs}
      {config : RegistryConfig} {job : JobRecord} {pool : Pool.World} {relayer : RelayerRecord}
      {freeStake bondedStake : I128} {w₁ : World} (signed : Signed host env operator)
      (stored : w.registry.config = some config)
      (readJob : w.registry.jobs.lookup jobId = some job) (isAccepted : job.status = .ACCEPTED)
      (accepted : job.acceptedRelayer = some operator)
      (inTime : env.sequence < job.deadlineLedger)
      (payload : poolWithdrawPayloadHash host.pool config.privacyPool args = job.payloadHash)
      (called : config.privacyPool = host.pool.self)
      (withdrawn : Pool.withdraw host.pool env w.pool args = .ok pool)
      (read : w.registry.relayers.lookup operator = some relayer)
      (bonded : bondedStake.val = relayer.bondedStake.val - job.fee.val)
      (free : freeStake.val = relayer.freeStake.val + job.fee.val)
      (paid : Paid env
        (writeJob
          (writeRelayer { w with pool := pool }
            { relayer with freeStake := freeStake, bondedStake := bondedStake })
          jobId { job with status := .SUBMITTED, submittedLedger := env.sequence })
        config.nativeSac host.self operator job.fee w₁) :
      Effect host env w (.submitPoolWithdraw operator jobId args)
        (w₁.publish (.JobSubmitted jobId operator job.fee))
  | slashJob {creator : Address} {jobId : BytesN 32} {config : RegistryConfig} {job : JobRecord}
      {operator : Address} {relayer slashed : RelayerRecord} {bondedStake award : I128} {w₁ : World}
      (signed : Signed host env creator) (stored : w.registry.config = some config)
      (readJob : w.registry.jobs.lookup jobId = some job) (isCreator : job.creator = creator)
      (isAccepted : job.status = .ACCEPTED) (late : job.deadlineLedger < env.sequence)
      (accepted : job.acceptedRelayer = some operator)
      (read : w.registry.relayers.lookup operator = some relayer)
      (bonded : bondedStake.val = relayer.bondedStake.val - job.fee.val)
      (pending : slashPending { relayer with bondedStake := bondedStake } job.fee = .ok slashed)
      (double : award.val = job.fee.val * 2)
      (paid : Paid env (writeJob (writeRelayer w slashed) jobId { job with status := .SLASHED })
        config.nativeSac host.self creator award w₁) :
      Effect host env w (.slashJob creator jobId)
        (w₁.publish (.JobSlashed jobId operator job.fee))
  | cancelJob {creator : Address} {jobId : BytesN 32} {config : RegistryConfig} {job : JobRecord}
      {w₁ : World} (signed : Signed host env creator)
      (stored : w.registry.config = some config)
      (readJob : w.registry.jobs.lookup jobId = some job) (isCreator : job.creator = creator)
      (isOpen : job.status = .OPEN) (late : job.deadlineLedger < env.sequence)
      (paid : Paid env (writeJob w jobId { job with status := .CANCELED })
        config.nativeSac host.self creator job.fee w₁) :
      Effect host env w (.cancelJob creator jobId)
        (w₁.publish (.JobCanceled jobId creator job.fee))
  | setConfig {admin : Address} {minimumStake : I128} {cooldown maxDeadline : ℕ}
      {config : RegistryConfig} (signed : Signed host env admin)
      (stored : w.registry.config = some config) (isAdmin : config.admin = admin)
      (minimum : 0 < minimumStake.val) :
      Effect host env w (.setConfig admin minimumStake cooldown maxDeadline)
        { w with
          registry.config := some { config with
            minimumStake := minimumStake
            unstakeCooldownLedgers := cooldown
            maxDeadlineLedgers := maxDeadline } }
  | transferAdmin {admin newAdmin : Address} {config : RegistryConfig}
      (signed : Signed host env admin) (stored : w.registry.config = some config)
      (isAdmin : config.admin = admin) :
      Effect host env w (.transferAdmin admin newAdmin)
        { w with registry.config := some { config with admin := newAdmin } }
  | reportSlash {proof : SlashingProof} {slashAmount : I128} {config : RegistryConfig}
      {record : RelayerSlashRecord} {relayer slashed : RelayerRecord} {w₁ : World}
      (positive : 0 < slashAmount.val) (evidence : verifySlashProof proof = .ok ())
      (stored : w.registry.config = some config)
      (read : w.registry.relayers.lookup proof.relayer = some relayer)
      (deducted : deductSlash relayer slashAmount.asU128 = .ok slashed)
      (paid : Paid env
        (writeRelayer
          (World.publish
            { w with
              registry.slashRecords := w.registry.slashRecords.insert proof.relayer record }
            (.relayerSlashed proof.relayer proof.offense slashAmount.asU128 proof.reporter))
          slashed)
        config.nativeSac host.self proof.reporter slashAmount w₁) :
      Effect host env w (.reportSlash proof slashAmount)
        (w₁.publish (.SlashReported proof.relayer proof.offense slashAmount proof.reporter))

/-! ## Reading the entry points -/

theorem requireAuth_eq_ok {a : Address} {u : Unit} :
    (env.requireAuth host.self a : Result RegistryError Unit) = .ok u ↔ Signed host env a :=
  Env.requireAuth_eq_ok

theorem tokenTransfer_eq_ok {w w' : World} {sac src dst : Address} {amount : I128} :
    tokenTransfer env w sac src dst amount = .ok w' ↔ Paid env w sac src dst amount w' := by
  simp only [tokenTransfer, Paid, bind_eq_ok, pure_eq_ok]
  constructor
  · intro h
    obtain ⟨tokens, htransfer, rfl⟩ := h
    exact ⟨tokens, htransfer, rfl⟩
  · intro h
    obtain ⟨tokens, htransfer, rfl⟩ := h
    exact ⟨tokens, htransfer, rfl⟩

theorem isSome_eq_false {α : Type} {o : Option α} : o.isSome = false ↔ o = none := by
  rw [Option.isSome_eq_false_iff, Option.isNone_iff_eq_none]

/-- **Every successful invocation has the effect of its call.** -/
theorem effect_of_exec {w w' : World} {call : Call} (h : exec host env w call = .ok w') :
    Effect host env w call w' := by
  cases call with
  | initializeRegistry admin sac pool minimumStake cooldown maxDeadline =>
      simp only [exec, initializeRegistry, bind_eq_ok, requireAuth_eq_ok, exists_const,
        ensure_eq_ok, isSome_eq_false, pure_eq_ok] at h
      obtain ⟨hsigned, hfresh, rfl⟩ := h
      refine .initializeRegistry hsigned hfresh ?_ ⟨rfl, rfl, rfl⟩
      simp only
      split_ifs with hpositive
      · exact hpositive
      · decide
  | register operator pubkey endpoint stake =>
      simp only [exec, register, cfg, bind_eq_ok, requireAuth_eq_ok, exists_const, ensure_eq_ok,
        isSome_eq_false, okOr_eq_ok, tokenTransfer_eq_ok, pure_eq_ok] at h
      obtain ⟨hsigned, config, hstored, henough, hfresh, w₁, hpaid, rfl⟩ := h
      exact .register hsigned hstored henough hfresh hpaid
  | addStake operator amount =>
      simp only [exec, addStake, cfg, readRelayer, bind_eq_ok, requireAuth_eq_ok, exists_const,
        ensure_eq_ok, okOr_eq_ok, tokenTransfer_eq_ok, I128.checked_eq_ok, pure_eq_ok] at h
      obtain ⟨hsigned, hpositive, config, hstored, relayer, hread, w₁, hpaid, free, hfree, rfl⟩ := h
      exact .addStake hsigned hpositive hstored hread hpaid hfree
  | requestUnstake operator amount =>
      simp only [exec, requestUnstake, cfg, readRelayer, bind_eq_ok, requireAuth_eq_ok,
        exists_const, ensure_eq_ok, okOr_eq_ok, I128.checked_eq_ok, pure_eq_ok] at h
      obtain ⟨hsigned, hpositive, config, hstored, relayer, hread, hcovered, free, hfree, pending,
        hpending, rfl⟩ := h
      exact .requestUnstake hsigned hpositive hstored hread hcovered hfree hpending
  | withdrawStake operator =>
      simp only [exec, withdrawStake, cfg, readRelayer, bind_eq_ok, requireAuth_eq_ok,
        exists_const, ensure_eq_ok, okOr_eq_ok, tokenTransfer_eq_ok, pure_eq_ok] at h
      obtain ⟨hsigned, config, hstored, relayer, hread, hpositive, hunlocked, w₁, hpaid, rfl⟩ := h
      exact .withdrawStake hsigned hstored hread hpositive hunlocked hpaid
  | createJob creator jobId hash deadline fee =>
      simp only [exec, createJob, cfg, bind_eq_ok, requireAuth_eq_ok, exists_const, ensure_eq_ok,
        isSome_eq_false, okOr_eq_ok, tokenTransfer_eq_ok, pure_eq_ok] at h
      obtain ⟨hsigned, hpositive, config, hstored, ⟨hahead, hnear⟩, hfresh, w₁, hpaid, rfl⟩ := h
      exact .createJob hsigned hpositive hstored hahead hnear hfresh hpaid
  | acceptJob operator jobId =>
      simp only [exec, acceptJob, readJob, readRelayer, bind_eq_ok, requireAuth_eq_ok,
        exists_const, ensure_eq_ok, okOr_eq_ok, I128.checked_eq_ok, pure_eq_ok] at h
      obtain ⟨hsigned, job, hjob, hopen, hinTime, relayer, hread, hcovered, free, hfree, bonded,
        hbonded, rfl⟩ := h
      exact .acceptJob hsigned hjob hopen hinTime hread hcovered hfree hbonded
  | submitPoolWithdraw operator jobId args =>
      simp only [exec, submitPoolWithdraw, invokePoolWithdraw, cfg, readJob, readRelayer, bind_eq_ok,
        requireAuth_eq_ok, exists_const, ensure_eq_ok, okOr_eq_ok, tokenTransfer_eq_ok,
        invoke_eq_ok, I128.checked_eq_ok, pure_eq_ok] at h
      obtain ⟨hsigned, config, hstored, job, hjob, hstatus, haccepted, hinTime, hpayload, w₂,
        ⟨hcalled, pool, hwithdrawn, rfl⟩, relayer, hread, bonded, hbonded, free, hfree, w₁, hpaid,
        rfl⟩ := h
      exact .submitPoolWithdraw hsigned hstored hjob hstatus haccepted hinTime hpayload hcalled
        hwithdrawn hread hbonded hfree hpaid
  | slashJob creator jobId =>
      simp only [exec, slashJob, cfg, readJob, readRelayer, bind_eq_ok, requireAuth_eq_ok,
        exists_const, ensure_eq_ok, okOr_eq_ok, tokenTransfer_eq_ok, I128.checked_eq_ok,
        pure_eq_ok] at h
      obtain ⟨hsigned, config, hstored, job, hjob, hcreator, hstatus, hlate, operator, haccepted,
        relayer, hread, bonded, hbonded, slashed, hpending, award, hdouble, w₁, hpaid, rfl⟩ := h
      exact .slashJob hsigned hstored hjob hcreator hstatus hlate haccepted hread hbonded hpending
        hdouble hpaid
  | cancelJob creator jobId =>
      simp only [exec, cancelJob, cfg, readJob, bind_eq_ok, requireAuth_eq_ok, exists_const,
        ensure_eq_ok, okOr_eq_ok, tokenTransfer_eq_ok, pure_eq_ok] at h
      obtain ⟨hsigned, config, hstored, job, hjob, hcreator, hopen, hlate, w₁, hpaid, rfl⟩ := h
      exact .cancelJob hsigned hstored hjob hcreator hopen hlate hpaid
  | setConfig admin minimumStake cooldown maxDeadline =>
      simp only [exec, setConfig, requireAdmin, cfg, bind_eq_ok, requireAuth_eq_ok, exists_const,
        ensure_eq_ok, okOr_eq_ok, pure_eq_ok] at h
      obtain ⟨config', ⟨hsigned, config, hstored, hadmin, rfl⟩, ⟨hminimum, -, -⟩, rfl⟩ := h
      exact .setConfig hsigned hstored hadmin hminimum
  | transferAdmin admin newAdmin =>
      simp only [exec, transferAdmin, requireAdmin, cfg, bind_eq_ok, requireAuth_eq_ok,
        exists_const, ensure_eq_ok, okOr_eq_ok, pure_eq_ok] at h
      obtain ⟨config', ⟨hsigned, config, hstored, hadmin, rfl⟩, rfl⟩ := h
      exact .transferAdmin hsigned hstored hadmin
  | reportSlash proof slashAmount =>
      simp only [exec, reportSlash, slashRelayer, cfg, readRelayer, bind_eq_ok, exists_const,
        ensure_eq_ok, okOr_eq_ok, tokenTransfer_eq_ok, pure_eq_ok] at h
      obtain ⟨hpositive, w₂, ⟨⟨⟩, hevidence, -, rfl⟩, config, hstored, relayer, hread, slashed,
        hdeducted, w₁, hpaid, rfl⟩ := h
      exact .reportSlash hpositive hevidence hstored hread hdeducted hpaid

/-! ## Runs -/

/-- A call to the registry either failed and changed nothing, or had its effect. -/
theorem step_registry_cases (host : Host) (w : World) (env : Env) (call : Call) :
    (∃ e, step host w (.registry env call) = (w, .registry (.error e))) ∨
      ∃ w', step host w (.registry env call) = (w', .registry (.ok ())) ∧
        Effect host env w call w' := by
  cases h : exec host env w call with
  | error e =>
      left
      refine ⟨e, ?_⟩
      simp only [step, h]
  | ok w' =>
      right
      refine ⟨w', ?_, effect_of_exec h⟩
      simp only [step, h]

/-- What others do around the registry takes nothing from its balances. -/
theorem balance_of_step_pool (host : Host) (w : World) (inv : Pool.Invocation) (token : Address) :
    w.pool.tokens token host.self ≤
      (Pool.step host.pool w.pool (unsigned host.self inv)).1.tokens token host.self := by
  rcases Pool.step_cases host.pool w.pool (unsigned host.self inv) with
    ⟨e, hstep⟩ | ⟨pool, r, hstep, heffect⟩
  · rw [hstep]
  · rw [hstep]
    apply Pool.balance_of_effect heffect host.distinct
    intro hsigned
    simp [unsigned] at hsigned

/-- **Invariants of the registry.** What holds at the start and survives a failed call, the effect
of a successful call that satisfies `P`, and whatever happens outside, holds after every run whose
successful calls all satisfy `P`. -/
theorem run_invariant_of_steps {P : RegistryStep → Prop} {I : List RegistryStep → World → Prop}
    {w₀ : World} (h₀ : I [] w₀)
    (hfail : ∀ t w env call e, I t w →
      I (t ++ [⟨w, .registry env call, .registry (.error e)⟩]) w)
    (hok : ∀ t w env call w', I t w → P ⟨w, .registry env call, .registry (.ok ())⟩ →
      Effect host env w call w' → I (t ++ [⟨w, .registry env call, .registry (.ok ())⟩]) w')
    (houtside : ∀ t w inv, I t w →
      I (t ++ [⟨w, .pool inv,
          .pool (Pool.step host.pool w.pool (unsigned host.self inv)).2⟩])
        { w with pool := (Pool.step host.pool w.pool (unsigned host.self inv)).1 })
    (invs : List Invocation) (hP : ∀ e ∈ (machine host).trace w₀ invs, P e) :
    I ((machine host).trace w₀ invs) ((machine host).final w₀ invs) := by
  refine (machine host).invariant_of_steps h₀ ?_ invs hP
  intro t w inv hI hp
  cases inv with
  | pool inv => exact houtside t w inv hI
  | registry env call =>
      rcases step_registry_cases host w env call with ⟨e, hstep⟩ | ⟨w', hstep, heffect⟩
      · have hstep' : (machine host).step w (.registry env call) = (w, .registry (.error e)) := hstep
        rw [Machine.stepAt, hstep']
        exact hfail t w env call e hI
      · have hstep' : (machine host).step w (.registry env call) = (w', .registry (.ok ())) := hstep
        rw [Machine.stepAt, hstep'] at hp ⊢
        exact hok t w env call w' hI hp heffect

end OpaqueStellar.Registry
