import OpaqueStellar.Registry.Effect

/-! # The relayer registry: solvency

What the registry owes is the stakes of all relayers and the fees of all jobs that are not settled.
Every operation but one moves its balance and its liabilities together. The exception is
`report_slash`: it deducts at most what the relayer has, and pays the reporter what was asked for.

`Sound` carries, besides solvency, what the operations rely on: records sit under their operator,
free and pending stakes and fees are not negative, and the minimum stake is positive. Bonded stakes
may be negative, since a slash takes from a bond that the job then takes from again. -/

namespace OpaqueStellar.Registry

open OpaqueStellar.Lib OpaqueStellar.Soroban

variable {host : Host} {env : Env}

def RelayerRecord.holding (r : RelayerRecord) : ℤ :=
  r.freeStake.val + r.bondedStake.val + r.pendingUnstake.val

/-- The fee the registry holds for a job. -/
def JobRecord.escrowed (j : JobRecord) : ℤ :=
  match j.status with
  | .OPEN => j.fee.val
  | .ACCEPTED => j.fee.val
  | _ => 0

def stakes (s : RegistryState) : ℤ := Store.total (fun _ r => r.holding) s.relayers

def escrow (s : RegistryState) : ℤ := Store.total (fun _ j => j.escrowed) s.jobs

def liabilities (s : RegistryState) : ℤ := stakes s + escrow s

def balance (host : Host) (config : RegistryConfig) (w : World) : ℤ :=
  w.pool.tokens config.nativeSac host.self

/-- The registry can pay what it owes. -/
def Solvent (host : Host) (w : World) : Prop :=
  ∀ config, w.registry.config = some config → liabilities w.registry ≤ balance host config w

structure Sound (host : Host) (w : World) : Prop where
  solvent : Solvent host w
  relayers : ∀ k r, w.registry.relayers.lookup k = some r →
    r.operator = k ∧ 0 ≤ r.freeStake.val ∧ 0 ≤ r.pendingUnstake.val
  fees : ∀ id j, w.registry.jobs.lookup id = some j → 0 ≤ j.fee.val
  minimum : ∀ config, w.registry.config = some config → 0 < config.minimumStake.val
  untouched : w.registry.config = none → w.registry.relayers = ∅ ∧ w.registry.jobs = ∅

/-! ## How a write moves the liabilities -/

theorem liabilities_writeRelayer (w : World) (new : RelayerRecord) :
    liabilities (writeRelayer w new).registry =
      liabilities w.registry -
        Store.share (fun _ r => RelayerRecord.holding r) w.registry.relayers new.operator +
        new.holding := by
  have htotal := Store.total_insert (fun _ r => RelayerRecord.holding r) w.registry.relayers
    new.operator new
  show Store.total _ (Finmap.insert new.operator new w.registry.relayers) + _ = _
  rw [htotal]
  simp only [liabilities, stakes, escrow, writeRelayer]
  omega

theorem liabilities_writeJob (w : World) (jobId : BytesN 32) (new : JobRecord) :
    liabilities (writeJob w jobId new).registry =
      liabilities w.registry -
        Store.share (fun _ j => JobRecord.escrowed j) w.registry.jobs jobId + new.escrowed := by
  have htotal := Store.total_insert (fun _ j => JobRecord.escrowed j) w.registry.jobs jobId new
  show _ + Store.total _ (Finmap.insert jobId new w.registry.jobs) = _
  rw [htotal]
  simp only [liabilities, stakes, escrow, writeJob]
  omega

/-- Replacing a relayer's record replaces its holding. -/
theorem liabilities_replaceRelayer {w : World} {operator : Address} {old new : RelayerRecord}
    (hread : w.registry.relayers.lookup operator = some old) (hkey : new.operator = operator) :
    liabilities (writeRelayer w new).registry =
      liabilities w.registry - old.holding + new.holding := by
  rw [liabilities_writeRelayer, hkey, Store.share_eq_of_lookup hread]

/-- Replacing a job's record replaces its escrow. -/
theorem liabilities_replaceJob {w : World} {jobId : BytesN 32} {old new : JobRecord}
    (hread : w.registry.jobs.lookup jobId = some old) :
    liabilities (writeJob w jobId new).registry =
      liabilities w.registry - old.escrowed + new.escrowed := by
  rw [liabilities_writeJob, Store.share_eq_of_lookup hread]

/-- Replacing a relayer's record and a job's record at once. -/
theorem liabilities_replaceBoth {w : World} {operator : Address} {old new : RelayerRecord}
    {jobId : BytesN 32} {oldJob newJob : JobRecord}
    (hread : w.registry.relayers.lookup operator = some old) (hkey : new.operator = operator)
    (hjob : w.registry.jobs.lookup jobId = some oldJob) :
    liabilities (writeJob (writeRelayer w new) jobId newJob).registry =
      liabilities w.registry - old.holding + new.holding - oldJob.escrowed + newJob.escrowed := by
  have hjob' : (writeRelayer w new).registry.jobs.lookup jobId = some oldJob := hjob
  rw [liabilities_replaceJob hjob', liabilities_replaceRelayer hread hkey]

/-! ## How a payment moves the balance -/

theorem balance_received {w w' : World} {config : RegistryConfig} {src : Address} {amount : I128}
    (hsrc : src ≠ host.self) (hnonneg : 0 ≤ amount.val)
    (h : Paid env w config.nativeSac src host.self amount w') :
    balance host config w' = balance host config w + amount.val ∧ w'.registry = w.registry := by
  obtain ⟨tokens, htransfer, rfl⟩ := h
  refine ⟨?_, rfl⟩
  show (tokens config.nativeSac host.self : ℤ) = _
  rw [TokenLedger.transferPositive_eq_ok hnonneg htransfer]
  simp [TokenLedger.gain, hsrc.symm, balance]

theorem balance_paid {w w' : World} {config : RegistryConfig} {dst : Address} {amount : I128}
    (hnonneg : 0 ≤ amount.val) (h : Paid env w config.nativeSac host.self dst amount w') :
    balance host config w - amount.val ≤ balance host config w' ∧
      (dst = host.self → balance host config w' = balance host config w) ∧
      w'.registry = w.registry := by
  obtain ⟨tokens, htransfer, rfl⟩ := h
  refine ⟨TokenLedger.le_of_transferPositive hnonneg htransfer, ?_, rfl⟩
  intro hself
  show (tokens config.nativeSac host.self : ℤ) = _
  rw [TokenLedger.transferPositive_eq_ok hnonneg htransfer]
  simp [TokenLedger.gain, hself, balance]

/-! ## One step -/

/-- Soundness carries over when the entries that changed are in order and the liabilities `L` grew
by no more than the balance, now at least `B`. -/
theorem sound_of_moved {w w' : World} {config : RegistryConfig} {L B : ℤ} (h : Sound host w)
    (hstored : w.registry.config = some config) (hconfig : w'.registry.config = some config)
    (hrelayers : ∀ k r, w'.registry.relayers.lookup k = some r →
      w.registry.relayers.lookup k = some r ∨
        (r.operator = k ∧ 0 ≤ r.freeStake.val ∧ 0 ≤ r.pendingUnstake.val))
    (hjobs : ∀ id j, w'.registry.jobs.lookup id = some j →
      w.registry.jobs.lookup id = some j ∨ 0 ≤ j.fee.val)
    (hl : liabilities w'.registry = L) (hb : B ≤ balance host config w')
    (hmoney : L + balance host config w ≤ B + liabilities w.registry) : Sound host w' := by
  refine ⟨?_, ?_, ?_, ?_, ?_⟩
  · intro config' hconfig'
    obtain rfl := Option.some.inj (hconfig.symm.trans hconfig')
    have hold := h.solvent config hstored
    omega
  · intro k r hlookup
    rcases hrelayers k r hlookup with hold | hnew
    · exact h.relayers k r hold
    · exact hnew
  · intro id j hlookup
    rcases hjobs id j hlookup with hold | hnew
    · exact h.fees id j hold
    · exact hnew
  · intro config' hconfig'
    exact h.minimum config' (hstored.trans (hconfig.symm.trans hconfig'))
  · intro hnone
    cases hconfig.symm.trans hnone

/-- The entries after writing one relayer's record. -/
theorem relayers_written {w : World} {new : RelayerRecord} (hfree : 0 ≤ new.freeStake.val)
    (hpending : 0 ≤ new.pendingUnstake.val) (k : Address) (r : RelayerRecord)
    (h : (writeRelayer w new).registry.relayers.lookup k = some r) :
    w.registry.relayers.lookup k = some r ∨
      (r.operator = k ∧ 0 ≤ r.freeStake.val ∧ 0 ≤ r.pendingUnstake.val) := by
  rcases Store.lookup_insert_cases h with ⟨rfl, rfl⟩ | hold
  · exact .inr ⟨rfl, hfree, hpending⟩
  · exact .inl hold

theorem jobs_written {w : World} {jobId : BytesN 32} {new : JobRecord} (hfee : 0 ≤ new.fee.val)
    (id : BytesN 32) (j : JobRecord)
    (h : (writeJob w jobId new).registry.jobs.lookup id = some j) :
    w.registry.jobs.lookup id = some j ∨ 0 ≤ j.fee.val := by
  rcases Store.lookup_insert_cases h with ⟨rfl, rfl⟩ | hold
  · exact .inr hfee
  · exact .inl hold

/-! The two deductions. -/

theorem slashPending_eq_ok {relayer slashed : RelayerRecord} {fee : I128} (hfee : 0 ≤ fee.val)
    (hpending : 0 ≤ relayer.pendingUnstake.val) (h : slashPending relayer fee = .ok slashed) :
    slashed.operator = relayer.operator ∧ slashed.freeStake = relayer.freeStake ∧
      0 ≤ slashed.pendingUnstake.val ∧ slashed.holding ≤ relayer.holding := by
  unfold slashPending at h
  split at h
  · simp only [bind_eq_ok, I128.checked_eq_ok, pure_eq_ok] at h
    obtain ⟨pending, hleft, rfl⟩ := h
    refine ⟨rfl, rfl, ?_, ?_⟩
    · show 0 ≤ pending.val
      omega
    · simp only [RelayerRecord.holding]
      omega
  · rw [pure_eq_ok] at h
    subst h
    exact ⟨rfl, rfl, hpending, le_refl _⟩

/-- What a slash leaves of a record: the free stake does not go below zero, and the holding falls by
the whole slash where the two stakes cover it, or where the bonded stake is negative already. -/
theorem deductSlash_eq_ok {relayer slashed : RelayerRecord} {slash : ℕ}
    (hslash : (slash : ℤ) < 2 ^ 127) (hfree : 0 ≤ relayer.freeStake.val)
    (h : deductSlash relayer slash = .ok slashed) :
    slashed.operator = relayer.operator ∧ slashed.pendingUnstake = relayer.pendingUnstake ∧
      0 ≤ slashed.freeStake.val ∧ slashed.holding ≤ relayer.holding ∧
      (relayer.bondedStake.val < 0 ∨
          (slash : ℤ) ≤ relayer.bondedStake.val + relayer.freeStake.val →
        slashed.holding = relayer.holding - slash) := by
  have hfreeU := I128.asU128_of_nonneg hfree
  simp only [deductSlash, bind_eq_ok, I128.checked_eq_ok] at h
  obtain ⟨bonded, hbonded, h⟩ := h
  -- a negative bonded stake reads as a number above the slash, so all of it is taken there
  have hbondedU : relayer.bondedStake.val < 0 ∧ (slash : ℤ) ≤ relayer.bondedStake.asU128 ∨
      0 ≤ relayer.bondedStake.val ∧ (relayer.bondedStake.asU128 : ℤ) = relayer.bondedStake.val := by
    by_cases hneg : relayer.bondedStake.val < 0
    · have hbig := I128.lt_asU128_of_neg hneg
      exact .inl ⟨hneg, by omega⟩
    · exact .inr ⟨not_lt.mp hneg, I128.asU128_of_nonneg (not_lt.mp hneg)⟩
  split at h
  · simp only [bind_eq_ok, I128.checked_eq_ok, pure_eq_ok] at h
    obtain ⟨free, hleft, rfl⟩ := h
    refine ⟨rfl, rfl, ?_, ?_, ?_⟩
    · show 0 ≤ free.val
      omega
    · simp only [RelayerRecord.holding]
      omega
    · simp only [RelayerRecord.holding]
      omega
  · rw [pure_eq_ok] at h
    subst h
    refine ⟨rfl, rfl, hfree, ?_, ?_⟩
    · simp only [RelayerRecord.holding]
      omega
    · simp only [RelayerRecord.holding]
      omega

/-- The step is not a slash, or one that the relayer's stakes cover. A slash reported by the registry
itself is paid to itself. -/
def SlashCovered (host : Host) (e : RegistryStep) : Prop :=
  ∀ env proof amount relayer, e.input = .registry env (.reportSlash proof amount) →
    0 < amount.val → verifySlashProof proof = .ok () →
    e.pre.registry.relayers.lookup proof.relayer = some relayer →
    proof.reporter = host.self ∨ relayer.bondedStake.val < 0 ∨
      amount.val ≤ relayer.bondedStake.val + relayer.freeStake.val

/-- Only an initialised registry has entries. -/
theorem Sound.configured {w : World} (h : Sound host w) {k : Address} {r : RelayerRecord}
    (hread : w.registry.relayers.lookup k = some r) :
    ∃ config, w.registry.config = some config := by
  cases hconfig : w.registry.config with
  | none =>
      rw [(h.untouched hconfig).1] at hread
      cases hread
  | some config => exact ⟨config, rfl⟩

theorem sound_reconfigured {w : World} {config config' : RegistryConfig} (h : Sound host w)
    (hstored : w.registry.config = some config) (hsac : config'.nativeSac = config.nativeSac)
    (hminimum : 0 < config'.minimumStake.val) :
    Sound host { w with registry.config := some config' } := by
  refine ⟨?_, h.relayers, h.fees, ?_, ?_⟩
  · intro config'' hconfig
    obtain rfl := Option.some.inj hconfig
    have hold := h.solvent config hstored
    rw [balance, ← hsac] at hold
    exact hold
  · intro config'' hconfig
    obtain rfl := Option.some.inj hconfig
    exact hminimum
  · intro hnone
    cases hnone

theorem sound_effect {w w' : World} {call : Call} {o : Outcome} (h : Sound host w)
    (hcovered : SlashCovered host ⟨w, .registry env call, o⟩) (heffect : Effect host env w call w') :
    Sound host w' := by
  cases heffect with
  | initializeRegistry hsigned hfresh hminimum =>
      obtain ⟨hrelayers, hjobs⟩ := h.untouched hfresh
      refine ⟨?_, h.relayers, h.fees, ?_, ?_⟩
      · intro config _
        have hzero : liabilities w.registry = 0 := by
          rw [liabilities, stakes, escrow, hrelayers, hjobs]
          rfl
        exact le_of_eq_of_le hzero (Int.natCast_nonneg _)
      · intro config hconfig
        cases hconfig
        exact hminimum
      · intro hnone
        cases hnone
  | @register operator pubkey endpoint stake config w₁ hsigned hstored henough hfresh hpaid =>
      have hminimum := h.minimum config hstored
      have hstake : 0 ≤ stake.val := by omega
      obtain ⟨hbalance, -⟩ := balance_received hsigned.2 hstake hpaid
      obtain ⟨tokens, -, rfl⟩ := hpaid
      refine sound_of_moved h hstored hstored (relayers_written hstake (le_refl _))
        (fun _ _ hjob => .inl hjob) (liabilities_writeRelayer w ⟨operator, pubkey, endpoint, stake,
          0, 0, 0⟩) hbalance.ge ?_
      rw [Store.share_eq_zero hfresh]
      simp only [RelayerRecord.holding, I128.val_zero]
      omega
  | @addStake operator amount config relayer w₁ free hsigned hpositive hstored hread hpaid hfree =>
      obtain ⟨hkey, hfree₀, hpending₀⟩ := h.relayers _ _ hread
      have hfree' : 0 ≤ free.val := by omega
      obtain ⟨hbalance, -⟩ := balance_received hsigned.2 hpositive.le hpaid
      obtain ⟨tokens, -, rfl⟩ := hpaid
      refine sound_of_moved h hstored hstored (relayers_written hfree' hpending₀)
        (fun _ _ hjob => .inl hjob) (liabilities_replaceRelayer hread hkey) hbalance.ge ?_
      simp only [RelayerRecord.holding]
      omega
  | @requestUnstake operator amount config relayer free pending hsigned hpositive hstored hread hle
      hfree hpending =>
      obtain ⟨hkey, hfree₀, hpending₀⟩ := h.relayers _ _ hread
      have hfree' : 0 ≤ free.val := by omega
      have hpending' : 0 ≤ pending.val := by omega
      refine sound_of_moved h hstored hstored (relayers_written hfree' hpending')
        (fun _ _ hjob => .inl hjob) (liabilities_replaceRelayer hread hkey) (le_refl _) ?_
      simp only [RelayerRecord.holding]
      show _ ≤ balance host config w + _
      omega
  | withdrawStake hsigned hstored hread hpositive hunlocked hpaid =>
      obtain ⟨hkey, hfree₀, hpending₀⟩ := h.relayers _ _ hread
      obtain ⟨hbalance, -, -⟩ := balance_paid hpositive.le hpaid
      obtain ⟨tokens, -, rfl⟩ := hpaid
      refine sound_of_moved h hstored hstored (relayers_written hfree₀ (le_refl _))
        (fun _ _ hjob => .inl hjob) (liabilities_replaceRelayer hread hkey) hbalance ?_
      simp only [RelayerRecord.holding, I128.val_zero]
      show _ ≤ balance host _ w - _ + _
      omega
  | @createJob creator jobId hash deadline fee config w₁ hsigned hpositive hstored hahead hnear
      hfresh hpaid =>
      obtain ⟨hbalance, -⟩ := balance_received hsigned.2 hpositive.le hpaid
      obtain ⟨tokens, -, rfl⟩ := hpaid
      refine sound_of_moved h hstored hstored (fun _ _ hr => .inl hr) (jobs_written hpositive.le)
        (liabilities_writeJob w jobId ⟨creator, hash, fee, deadline, none, .OPEN, env.sequence, 0⟩)
        hbalance.ge ?_
      rw [Store.share_eq_zero hfresh]
      simp only [JobRecord.escrowed]
      omega
  | @acceptJob operator jobId job relayer free bonded hsigned hjob hopen hinTime hread hle hfree
      hbonded =>
      obtain ⟨config, hstored⟩ := h.configured hread
      obtain ⟨hkey, hfree₀, hpending₀⟩ := h.relayers _ _ hread
      have hfree' : 0 ≤ free.val := by omega
      have hfee := h.fees _ _ hjob
      refine sound_of_moved h hstored hstored (relayers_written hfree' hpending₀) (jobs_written hfee)
        (liabilities_replaceBoth hread hkey hjob) (le_refl _) ?_
      simp only [RelayerRecord.holding, JobRecord.escrowed, hopen]
      show _ ≤ balance host config w + _
      omega
  | @submitPoolWithdraw operator jobId args config job pool relayer free bonded w₁ hsigned hstored
      hjob hstatus haccepted hinTime hpayload hcalled hwithdrawn hread hbonded hfree hpaid =>
      obtain ⟨hkey, hfree₀, hpending₀⟩ := h.relayers _ _ hread
      have hfee := h.fees _ _ hjob
      have hfree' : 0 ≤ free.val := by omega
      have hpool : balance host config w ≤ balance host config { w with pool := pool } :=
        Int.ofNat_le.mpr (Pool.balance_of_withdraw (Pool.withdraw_effect hwithdrawn) host.distinct _)
      obtain ⟨hbalance, -, -⟩ := balance_paid hfee hpaid
      obtain ⟨tokens, -, rfl⟩ := hpaid
      refine sound_of_moved h hstored hstored (relayers_written hfree' hpending₀) (jobs_written hfee)
        (liabilities_replaceBoth hread hkey hjob) hbalance ?_
      simp only [RelayerRecord.holding, JobRecord.escrowed, hstatus]
      show _ ≤ balance host config { w with pool := pool } - _ + _
      omega
  | @slashJob creator jobId config job operator relayer slashed bonded award w₁ hsigned hstored hjob
      hcreator hstatus hlate haccepted hread hbonded hpending hdouble hpaid =>
      obtain ⟨hkey, hfree₀, hpending₀⟩ := h.relayers _ _ hread
      have hfee := h.fees _ _ hjob
      obtain ⟨hoperator, hfree, hpending', hholding⟩ :=
        slashPending_eq_ok hfee (by exact hpending₀) hpending
      have haward : 0 ≤ award.val := by omega
      have hfree' : 0 ≤ slashed.freeStake.val := by rw [hfree]; exact hfree₀
      obtain ⟨hbalance, -, -⟩ := balance_paid haward hpaid
      obtain ⟨tokens, -, rfl⟩ := hpaid
      refine sound_of_moved h hstored hstored (relayers_written hfree' hpending') (jobs_written hfee)
        (liabilities_replaceBoth hread (hoperator.trans hkey) hjob) hbalance ?_
      simp only [RelayerRecord.holding, JobRecord.escrowed, hstatus] at hholding ⊢
      show _ ≤ balance host config w - _ + _
      omega
  | cancelJob hsigned hstored hjob hcreator hopen hlate hpaid =>
      have hfee := h.fees _ _ hjob
      obtain ⟨hbalance, -, -⟩ := balance_paid hfee hpaid
      obtain ⟨tokens, -, rfl⟩ := hpaid
      refine sound_of_moved h hstored hstored (fun _ _ hr => .inl hr) (jobs_written hfee)
        (liabilities_replaceJob hjob) hbalance ?_
      simp only [JobRecord.escrowed, hopen]
      show _ ≤ balance host _ w - _ + _
      omega
  | setConfig hsigned hstored hadmin hminimum => exact sound_reconfigured h hstored rfl hminimum
  | transferAdmin hsigned hstored hadmin =>
      have hminimum := h.minimum _ hstored
      exact sound_reconfigured h hstored rfl hminimum
  | @reportSlash proof amount config record relayer slashed w₁ hpositive hevidence hstored hread
      hdeducted hpaid =>
      obtain ⟨hkey, hfree₀, hpending₀⟩ := h.relayers _ _ hread
      have hamount := I128.asU128_of_nonneg hpositive.le
      have hbound := amount.upper
      obtain ⟨hoperator, hpending, hfree, hholding, hwhole⟩ :=
        deductSlash_eq_ok (by omega) hfree₀ hdeducted
      rw [hamount] at hwhole
      have hpending' : 0 ≤ slashed.pendingUnstake.val := by rw [hpending]; exact hpending₀
      obtain ⟨hbalance, hself, -⟩ := balance_paid hpositive.le hpaid
      obtain ⟨tokens, -, rfl⟩ := hpaid
      have hl := liabilities_replaceRelayer hread (hoperator.trans hkey)
      rcases hcovered env proof amount relayer rfl hpositive hevidence hread with hreporter | hstake
      · refine sound_of_moved h hstored hstored (relayers_written hfree hpending')
          (fun _ _ hjob => .inl hjob) hl (hself hreporter).ge ?_
        show _ ≤ balance host config w + _
        omega
      · refine sound_of_moved h hstored hstored (relayers_written hfree hpending')
          (fun _ _ hjob => .inl hjob) hl hbalance ?_
        have hdeduction := hwhole hstake
        show _ ≤ balance host config w - _ + _
        omega

/-! ## Every run -/

theorem sound_deployed (host : Host) (pool : Pool.World) : Sound host (.deployed pool) := by
  refine ⟨?_, ?_, ?_, ?_, fun _ => ⟨rfl, rfl⟩⟩
  · intro config hconfig
    cases hconfig
  · intro k r hread
    cases hread
  · intro id j hread
    cases hread
  · intro config hconfig
    cases hconfig

/-- What happens outside leaves the registry's entries alone and its balance no smaller. -/
theorem sound_outside {w : World} (h : Sound host w) (inv : Pool.Invocation) :
    Sound host { w with pool := (Pool.step host.pool w.pool (unsigned host.self inv)).1 } := by
  refine ⟨?_, h.relayers, h.fees, h.minimum, h.untouched⟩
  intro config hconfig
  have hkept := balance_of_step_pool host w inv config.nativeSac
  exact le_trans (h.solvent config hconfig) (Int.ofNat_le.mpr hkept)

theorem sound_run (host : Host) (pool : Pool.World) (invs : List Invocation)
    (hcovered : ∀ e ∈ (machine host).trace (.deployed pool) invs, SlashCovered host e) :
    Sound host ((machine host).final (.deployed pool) invs) := by
  refine run_invariant_of_steps (P := SlashCovered host) (I := fun _ w => Sound host w)
    (sound_deployed host pool) ?_ ?_ ?_ invs hcovered
  · intro t w env call e h
    exact h
  · intro t w env call w' h hp heffect
    exact sound_effect h hp heffect
  · intro t w inv h
    exact sound_outside h inv

/-- **Registry solvency.** In every state reached by a run whose slashes are covered by the slashed
relayer's stakes, the registry's balance is at least what it owes. -/
theorem registry_solvent_of_covered (host : Host) (pool : Pool.World) (invs : List Invocation)
    (hcovered : ∀ e ∈ (machine host).trace (.deployed pool) invs, SlashCovered host e) :
    ∀ before later, invs = before ++ later →
      Solvent host ((machine host).final (.deployed pool) before) := by
  intro before later hinvs
  refine (sound_run host pool before ?_).solvent
  intro e he
  apply hcovered e
  rw [hinvs]
  exact Machine.mem_trace_append _ later he

/-- A slash of sixty is covered by the hundred staked, and the registry stays solvent. -/
theorem registry_solvent_covered_demo :
    Solvent Demo.host ((machine Demo.host).final (.deployed Demo.pool)
      (Demo.setup ++ [Demo.slash (I128.ofNat 60)])) := by
  refine registry_solvent_of_covered Demo.host Demo.pool
    (Demo.setup ++ [Demo.slash (I128.ofNat 60)]) ?_ _ [] (List.append_nil _).symm
  intro e he env proof amount relayer hinput hpositive hevidence hread
  rw [Machine.trace_append, List.mem_append] at he
  rcases he with hsetup | hslash
  · exfalso
    have hmem : e.input ∈ Demo.setup := Machine.input_mem_of_mem_trace _ hsetup
    rw [hinput] at hmem
    simp [Demo.setup] at hmem
  · obtain rfl := List.mem_singleton.mp hslash
    cases hinput
    right
    right
    have hstored :
        (((machine Demo.host).final (.deployed Demo.pool) Demo.setup).registry.relayers.lookup
          Demo.proof.relayer).map (fun r => (r.bondedStake.val, r.freeStake.val)) =
            some (0, 100) := by
      decide
    have hread' :
        ((machine Demo.host).final (.deployed Demo.pool) Demo.setup).registry.relayers.lookup
          Demo.proof.relayer = some relayer := hread
    rw [hread'] at hstored
    have hpair := Option.some.inj hstored
    have hbonded := congrArg Prod.fst hpair
    have hfree := congrArg Prod.snd hpair
    simp only at hbonded hfree
    rw [hbonded, hfree]
    decide

/-- A slash of two hundred takes the other relayer's stake along. -/
theorem registry_not_solvent :
    ¬ Solvent Demo.host ((machine Demo.host).final (.deployed Demo.pool)
      (Demo.setup ++ [Demo.slash (I128.ofNat 200)])) := by
  intro h
  have hconfig : ((machine Demo.host).final (.deployed Demo.pool)
      (Demo.setup ++ [Demo.slash (I128.ofNat 200)])).registry.config =
        some ⟨Pool.Demo.account 0, Pool.Demo.contract 2, Pool.Demo.contract 0, I128.ofNat 10, 720,
          17280⟩ := by
    decide +kernel
  have howed := h _ hconfig
  revert howed
  decide +kernel

end OpaqueStellar.Registry
