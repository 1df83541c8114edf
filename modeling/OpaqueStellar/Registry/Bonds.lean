import OpaqueStellar.Registry.Solvency

/-! # The relayer registry: bonds

A relayer's bonded stake is meant to be the fees of the jobs it has accepted. Accepting, submitting
and slashing a job move both sides together. `report_slash` takes from the bonded stake and leaves
the jobs alone, so the account is right in every state of a run exactly when every slash that goes
through finds no bond to take from. -/

namespace OpaqueStellar.Registry

open OpaqueStellar.Lib OpaqueStellar.Soroban

variable {host : Host} {env : Env}

/-- What a job binds of the stake of relayer `k`: its fee, while `k` has it accepted. -/
def JobRecord.bond (j : JobRecord) (k : Address) : ℤ :=
  if j.status = .ACCEPTED ∧ j.acceptedRelayer = some k then j.fee.val else 0

/-- The fees of the jobs that relayer `k` has accepted. -/
def bonds (s : RegistryState) (k : Address) : ℤ := Store.total (fun _ j => j.bond k) s.jobs

/-- No stake of a relayer is negative, and its bonded stake is the fees of its accepted jobs. -/
def BondsAccounted (s : RegistryState) : Prop :=
  ∀ k r, s.relayers.lookup k = some r →
    0 ≤ r.freeStake.val ∧ 0 ≤ r.bondedStake.val ∧ 0 ≤ r.pendingUnstake.val ∧
      r.bondedStake.val = bonds s k

/-- What the operations keep: besides the account itself, that records sit under their operator,
that fees are not negative and that accepted jobs are held by registered relayers. -/
structure Booked (s : RegistryState) : Prop where
  relayers : ∀ k r, s.relayers.lookup k = some r →
    r.operator = k ∧ 0 ≤ r.freeStake.val ∧ 0 ≤ r.pendingUnstake.val
  bonded : ∀ k r, s.relayers.lookup k = some r → r.bondedStake.val = bonds s k
  fees : ∀ id j, s.jobs.lookup id = some j → 0 ≤ j.fee.val
  holders : ∀ id j k, s.jobs.lookup id = some j → j.status = .ACCEPTED →
    j.acceptedRelayer = some k → k ∈ s.relayers
  minimum : ∀ config, s.config = some config → 0 < config.minimumStake.val

/-! ## The sum of the bonds -/

theorem JobRecord.bond_nonneg {j : JobRecord} (h : 0 ≤ j.fee.val) (k : Address) : 0 ≤ j.bond k := by
  unfold JobRecord.bond
  split
  · exact h
  · exact le_refl _

theorem JobRecord.bond_of_not_accepted {j : JobRecord} (h : j.status ≠ .ACCEPTED) (k : Address) :
    j.bond k = 0 := by
  simp [JobRecord.bond, h]

theorem JobRecord.bond_of_accepted {j : JobRecord} {k : Address} (h : j.status = .ACCEPTED)
    (hk : j.acceptedRelayer = some k) : j.bond k = j.fee.val := by
  simp [JobRecord.bond, h, hk]

theorem JobRecord.bond_of_other {j : JobRecord} {k k' : Address} (h : j.acceptedRelayer = some k)
    (hne : k' ≠ k) : j.bond k' = 0 := by
  simp [JobRecord.bond, h, hne.symm]

theorem bonds_nonneg {s : RegistryState} (h : Booked s) (k : Address) : 0 ≤ bonds s k := by
  apply Store.total_nonneg
  intro id j hread
  exact JobRecord.bond_nonneg (h.fees id j hread) k

/-- A stranger has accepted nothing. -/
theorem bonds_eq_zero {s : RegistryState} (h : Booked s) {k : Address}
    (hk : s.relayers.lookup k = none) : bonds s k = 0 := by
  refine le_antisymm ?_ (bonds_nonneg h k)
  rw [← Store.total_zero s.jobs]
  apply Store.total_le_total
  intro id j hread
  apply le_of_eq
  by_cases hstatus : j.status = .ACCEPTED
  · by_cases haccepted : j.acceptedRelayer = some k
    · exact absurd (h.holders id j k hread hstatus haccepted) (Finmap.lookup_eq_none.mp hk)
    · simp [JobRecord.bond, haccepted]
  · exact JobRecord.bond_of_not_accepted hstatus k

theorem Booked.accounted {s : RegistryState} (h : Booked s) : BondsAccounted s := by
  intro k r hread
  obtain ⟨-, hfree, hpending⟩ := h.relayers k r hread
  have hbonded := h.bonded k r hread
  refine ⟨hfree, ?_, hpending, hbonded⟩
  rw [hbonded]
  exact bonds_nonneg h k

/-- Replacing a job replaces what it binds. -/
theorem bonds_replaceJob {w : World} {jobId : BytesN 32} {old new : JobRecord}
    (hread : w.registry.jobs.lookup jobId = some old) (k : Address) :
    bonds (writeJob w jobId new).registry k = bonds w.registry k - old.bond k + new.bond k := by
  show Store.total _ (Finmap.insert jobId new w.registry.jobs) = _
  rw [Store.total_insert, Store.share_eq_of_lookup hread]
  rfl

/-- A new job that nobody accepted binds nothing. -/
theorem bonds_newJob {w : World} {jobId : BytesN 32} {new : JobRecord}
    (hfresh : w.registry.jobs.lookup jobId = none) (hnew : new.status ≠ .ACCEPTED) (k : Address) :
    bonds (writeJob w jobId new).registry k = bonds w.registry k := by
  show Store.total _ (Finmap.insert jobId new w.registry.jobs) = _
  rw [Store.total_insert, Store.share_eq_zero hfresh, JobRecord.bond_of_not_accepted hnew]
  simp [bonds]

/-! ## Writes that keep the books -/

/-- Writing a record that carries the right bond. -/
theorem booked_writeRelayer {w : World} {new : RelayerRecord} (h : Booked w.registry)
    (hfree : 0 ≤ new.freeStake.val) (hpending : 0 ≤ new.pendingUnstake.val)
    (hbonded : new.bondedStake.val = bonds w.registry new.operator) :
    Booked (writeRelayer w new).registry := by
  refine ⟨?_, ?_, h.fees, ?_, h.minimum⟩
  · intro k r hread
    rcases relayers_written hfree hpending k r hread with hold | hnew
    · exact h.relayers k r hold
    · exact hnew
  · intro k r hread
    rcases Store.lookup_insert_cases hread with ⟨rfl, rfl⟩ | hold
    · exact hbonded
    · exact h.bonded k r hold
  · intro id j k hread hstatus haccepted
    exact Finmap.mem_insert.mpr (.inr (h.holders id j k hread hstatus haccepted))

/-- Writing a job that binds the same stakes as before. -/
theorem booked_writeJob {w : World} {jobId : BytesN 32} {new : JobRecord} (h : Booked w.registry)
    (hfee : 0 ≤ new.fee.val) (hstatus : new.status ≠ .ACCEPTED)
    (hbonds : ∀ k, bonds (writeJob w jobId new).registry k = bonds w.registry k) :
    Booked (writeJob w jobId new).registry := by
  refine ⟨h.relayers, ?_, ?_, ?_, h.minimum⟩
  · intro k r hread
    rw [hbonds]
    exact h.bonded k r hread
  · intro id j hread
    rcases jobs_written hfee id j hread with hold | hnew
    · exact h.fees id j hold
    · exact hnew
  · intro id j k hread haccepted
    rcases Store.lookup_insert_cases hread with ⟨rfl, rfl⟩ | hold
    · exact absurd haccepted hstatus
    · exact h.holders id j k hold haccepted

/-- Writing a relayer's record and a job held by nobody else, the bond moving with the job. -/
theorem booked_writeBoth {w : World} {operator : Address} {old new : RelayerRecord}
    {jobId : BytesN 32} {oldJob newJob : JobRecord} (h : Booked w.registry)
    (hread : w.registry.relayers.lookup operator = some old) (hkey : new.operator = operator)
    (hjob : w.registry.jobs.lookup jobId = some oldJob) (hfee : 0 ≤ newJob.fee.val)
    (hfree : 0 ≤ new.freeStake.val) (hpending : 0 ≤ new.pendingUnstake.val)
    (holder : newJob.acceptedRelayer = some operator)
    (hothers : ∀ k, k ≠ operator → oldJob.bond k = 0)
    (hbonded : new.bondedStake.val =
      old.bondedStake.val - oldJob.bond operator + newJob.bond operator) :
    Booked (writeJob (writeRelayer w new) jobId newJob).registry := by
  have hjob' : (writeRelayer w new).registry.jobs.lookup jobId = some oldJob := hjob
  have hmoved : ∀ k, bonds (writeJob (writeRelayer w new) jobId newJob).registry k =
      bonds w.registry k - oldJob.bond k + newJob.bond k := fun k => bonds_replaceJob hjob' k
  refine ⟨?_, ?_, ?_, ?_, h.minimum⟩
  · intro k r hlookup
    rcases relayers_written hfree hpending k r hlookup with hold | hnew
    · exact h.relayers k r hold
    · exact hnew
  · intro k r hlookup
    rw [hmoved]
    by_cases hk : k = operator
    · subst hk
      have hwritten : (writeJob (writeRelayer w new) jobId newJob).registry.relayers.lookup k =
          some new := by
        rw [← hkey]
        exact Finmap.lookup_insert _
      obtain rfl := Option.some.inj (hwritten.symm.trans hlookup)
      rw [hbonded, h.bonded k old hread]
    · rcases Store.lookup_insert_cases hlookup with ⟨rfl, -⟩ | hold
      · exact absurd hkey hk
      · rw [h.bonded k r hold, hothers k hk, JobRecord.bond_of_other holder hk]
        omega
  · intro id j hlookup
    rcases jobs_written hfee id j hlookup with hold | hnew
    · exact h.fees id j hold
    · exact hnew
  · intro id j k hlookup hstatus haccepted
    apply Finmap.mem_insert.mpr
    rcases Store.lookup_insert_cases hlookup with ⟨rfl, rfl⟩ | hold
    · left
      rw [hkey]
      exact Option.some.inj (haccepted.symm.trans holder)
    · right
      exact h.holders id j k hold hstatus haccepted

/-- A new configuration leaves the books alone. -/
theorem booked_reconfigured {s : RegistryState} {config : RegistryConfig} (h : Booked s)
    (hminimum : 0 < config.minimumStake.val) : Booked { s with config := some config } := by
  refine ⟨h.relayers, h.bonded, h.fees, h.holders, ?_⟩
  intro config' hconfig
  cases hconfig
  exact hminimum

/-- The slashing records are not part of the books. -/
theorem booked_slashRecords {s : RegistryState} (h : Booked s)
    (records : Store Address RelayerSlashRecord) : Booked { s with slashRecords := records } :=
  ⟨h.relayers, h.bonded, h.fees, h.holders, h.minimum⟩

/-! ## What the slashes do to a bond -/

theorem slashPending_bonded {relayer slashed : RelayerRecord} {fee : I128}
    (h : slashPending relayer fee = .ok slashed) : slashed.bondedStake = relayer.bondedStake := by
  unfold slashPending at h
  split at h
  · simp only [bind_eq_ok, pure_eq_ok] at h
    obtain ⟨pending, -, rfl⟩ := h
    rfl
  · rw [pure_eq_ok] at h
    rw [← h]

/-- A slash takes from the bonded stake what it finds there, up to its amount. -/
theorem deductSlash_bonded {relayer slashed : RelayerRecord} {slash : ℕ}
    (hbonded : 0 ≤ relayer.bondedStake.val) (h : deductSlash relayer slash = .ok slashed) :
    slashed.bondedStake.val = relayer.bondedStake.val - min (slash : ℤ) relayer.bondedStake.val := by
  have hbondedU := I128.asU128_of_nonneg hbonded
  simp only [deductSlash, bind_eq_ok, I128.checked_eq_ok] at h
  obtain ⟨bonded, hleft, h⟩ := h
  have hbond : slashed.bondedStake = bonded := by
    split at h
    · simp only [bind_eq_ok, pure_eq_ok] at h
      obtain ⟨free, -, rfl⟩ := h
      rfl
    · rw [pure_eq_ok] at h
      rw [← h]
  rw [hbond, hleft]
  omega

/-- A slash of stakes that are not negative is always deducted. -/
theorem exists_deductSlash {relayer : RelayerRecord} (slash : ℕ)
    (hfree : 0 ≤ relayer.freeStake.val) (hbonded : 0 ≤ relayer.bondedStake.val) :
    ∃ slashed, deductSlash relayer slash = .ok slashed := by
  have hbondedU := I128.asU128_of_nonneg hbonded
  have hfreeU := I128.asU128_of_nonneg hfree
  have hupper := relayer.bondedStake.upper
  have hupper' := relayer.freeStake.upper
  have hleft : ∃ bonded : I128, bonded.val =
      relayer.bondedStake.val - (min slash relayer.bondedStake.asU128 : ℕ) :=
    ⟨⟨_, by omega, by omega⟩, rfl⟩
  have hrest : ∃ free : I128, free.val = relayer.freeStake.val -
      (min (slash - min slash relayer.bondedStake.asU128) relayer.freeStake.asU128 : ℕ) :=
    ⟨⟨_, by omega, by omega⟩, rfl⟩
  obtain ⟨bonded, hleft⟩ := hleft
  obtain ⟨free, hrest⟩ := hrest
  simp only [deductSlash, bind_eq_ok, I128.checked_eq_ok]
  by_cases hremaining : 0 < slash - min slash relayer.bondedStake.asU128
  · refine ⟨{ relayer with bondedStake := bonded, freeStake := free }, bonded, hleft, ?_⟩
    rw [if_pos hremaining, bind_eq_ok]
    exact ⟨free, I128.checked_eq_ok.mpr hrest, rfl⟩
  · refine ⟨{ relayer with bondedStake := bonded }, bonded, hleft, ?_⟩
    rw [if_neg hremaining]
    rfl

/-! ## One step -/

/-- The step is not a slash, or one that fails on its checks or its payment, or one of a relayer
that has nothing bonded. -/
def BondUntouched (host : Host) (e : RegistryStep) : Prop :=
  ∀ env proof amount config relayer tokens,
    e.input = .registry env (.reportSlash proof amount) →
    0 < amount.val → verifySlashProof proof = .ok () → e.pre.registry.config = some config →
    e.pre.registry.relayers.lookup proof.relayer = some relayer →
    (e.pre.pool.tokens.transferPositive env config.nativeSac host.self proof.reporter amount :
      Result RegistryError TokenLedger) = .ok tokens →
    relayer.bondedStake.val = 0

theorem booked_effect {w w' : World} {call : Call} {o : Outcome} (h : Booked w.registry)
    (huntouched : BondUntouched host ⟨w, .registry env call, o⟩)
    (heffect : Effect host env w call w') : Booked w'.registry := by
  cases heffect with
  | initializeRegistry hsigned hfresh hminimum hwired => exact booked_reconfigured h hminimum
  | @register operator pubkey endpoint stake config w₁ hsigned hstored henough hfresh hpaid =>
      obtain ⟨tokens, -, rfl⟩ := hpaid
      have hminimum := h.minimum config hstored
      refine booked_writeRelayer h ?_ (le_refl _) (bonds_eq_zero h hfresh).symm
      show 0 ≤ stake.val
      omega
  | @addStake operator amount config relayer w₁ free hsigned hpositive hstored hread hpaid hfree =>
      obtain ⟨tokens, -, rfl⟩ := hpaid
      obtain ⟨hkey, hfree₀, hpending₀⟩ := h.relayers _ _ hread
      refine booked_writeRelayer h ?_ hpending₀ ?_
      · show 0 ≤ free.val
        omega
      · exact (h.bonded _ _ hread).trans (congrArg _ hkey.symm)
  | @requestUnstake operator amount config relayer free pending hsigned hpositive hstored hread hle
      hfree hpending =>
      obtain ⟨hkey, hfree₀, hpending₀⟩ := h.relayers _ _ hread
      refine booked_writeRelayer h ?_ ?_ ?_
      · show 0 ≤ free.val
        omega
      · show 0 ≤ pending.val
        omega
      · exact (h.bonded _ _ hread).trans (congrArg _ hkey.symm)
  | withdrawStake hsigned hstored hread hpositive hunlocked hpaid =>
      obtain ⟨tokens, -, rfl⟩ := hpaid
      obtain ⟨hkey, hfree₀, -⟩ := h.relayers _ _ hread
      exact booked_writeRelayer h hfree₀ (le_refl _)
        ((h.bonded _ _ hread).trans (congrArg _ hkey.symm))
  | createJob hsigned hpositive hstored hahead hnear hfresh hpaid =>
      obtain ⟨tokens, -, rfl⟩ := hpaid
      refine booked_writeJob h hpositive.le ?_ (bonds_newJob hfresh ?_)
      · simp
      · simp
  | @acceptJob operator jobId job relayer free bonded hsigned hjob hopen hinTime hread hle hfree
      hbonded =>
      obtain ⟨hkey, hfree₀, hpending₀⟩ := h.relayers _ _ hread
      have hfee := h.fees _ _ hjob
      have hunbound : ∀ k, job.bond k = 0 := by
        intro k
        apply JobRecord.bond_of_not_accepted
        simp [hopen]
      refine booked_writeBoth h hread hkey hjob hfee ?_ hpending₀ rfl (fun k _ => hunbound k) ?_
      · show 0 ≤ free.val
        omega
      · rw [hunbound, JobRecord.bond_of_accepted rfl rfl]
        show bonded.val = relayer.bondedStake.val - 0 + job.fee.val
        omega
  | @submitPoolWithdraw operator jobId args config job pool relayer free bonded w₁ hsigned hstored
      hjob hstatus haccepted hinTime hpayload hcalled hwithdrawn hread hbonded hfree hpaid =>
      obtain ⟨tokens, -, rfl⟩ := hpaid
      obtain ⟨hkey, hfree₀, hpending₀⟩ := h.relayers _ _ hread
      have hfee := h.fees _ _ hjob
      refine booked_writeBoth (w := { w with pool := pool }) h hread hkey hjob hfee ?_ hpending₀
        haccepted (fun k hk => JobRecord.bond_of_other haccepted hk) ?_
      · show 0 ≤ free.val
        omega
      · rw [JobRecord.bond_of_accepted hstatus haccepted, JobRecord.bond_of_not_accepted (by simp)]
        show bonded.val = _
        rw [hbonded]
        omega
  | @slashJob creator jobId config job operator relayer slashed bonded award w₁ hsigned hstored hjob
      hcreator hstatus hlate haccepted hread hbonded hpending hdouble hpaid =>
      obtain ⟨tokens, -, rfl⟩ := hpaid
      obtain ⟨hkey, hfree₀, hpending₀⟩ := h.relayers _ _ hread
      have hfee := h.fees _ _ hjob
      obtain ⟨hoperator, hfree, hpending', -⟩ :=
        slashPending_eq_ok hfee (by exact hpending₀) hpending
      refine booked_writeBoth h hread (hoperator.trans hkey) hjob hfee ?_ hpending' haccepted
        (fun k hk => JobRecord.bond_of_other haccepted hk) ?_
      · rw [hfree]
        exact hfree₀
      · rw [JobRecord.bond_of_accepted hstatus haccepted, JobRecord.bond_of_not_accepted (by simp),
          slashPending_bonded hpending]
        show bonded.val = _
        rw [hbonded]
        omega
  | @cancelJob creator jobId config job w₁ hsigned hstored hjob hcreator hopen hlate hpaid =>
      obtain ⟨tokens, -, rfl⟩ := hpaid
      have hfee := h.fees _ _ hjob
      refine booked_writeJob h hfee (by simp) ?_
      intro k
      rw [bonds_replaceJob hjob, JobRecord.bond_of_not_accepted (by simp [hopen]),
        JobRecord.bond_of_not_accepted (by simp)]
      omega
  | setConfig hsigned hstored hadmin hminimum => exact booked_reconfigured h hminimum
  | transferAdmin hsigned hstored hadmin =>
      have hminimum := h.minimum _ hstored
      exact booked_reconfigured h hminimum
  | @reportSlash proof amount config record relayer slashed w₁ hpositive hevidence hstored hread
      hdeducted hpaid =>
      obtain ⟨tokens, htransfer, rfl⟩ := hpaid
      have hnone := huntouched env proof amount config relayer tokens rfl hpositive hevidence hstored
        hread htransfer
      obtain ⟨hkey, hfree₀, hpending₀⟩ := h.relayers _ _ hread
      have hamount := I128.asU128_of_nonneg hpositive.le
      have hbound := amount.upper
      obtain ⟨hoperator, hpending, hfree, -, -⟩ := deductSlash_eq_ok (by omega) hfree₀ hdeducted
      have hbonded := deductSlash_bonded hnone.ge hdeducted
      refine booked_writeRelayer (booked_slashRecords h _) hfree ?_ ?_
      · rw [hpending]
        exact hpending₀
      · rw [hbonded, hoperator, hkey]
        show _ = bonds w.registry proof.relayer
        rw [← h.bonded _ _ hread]
        omega

/-! ## Every run -/

theorem booked_deployed (pool : Pool.World) : Booked (World.deployed pool).registry := by
  refine ⟨?_, ?_, ?_, ?_, ?_⟩
  · intro k r hread
    cases hread
  · intro k r hread
    cases hread
  · intro id j hread
    cases hread
  · intro id j k hread
    cases hread
  · intro config hconfig
    cases hconfig

theorem booked_run (host : Host) (pool : Pool.World) (invs : List Invocation)
    (huntouched : ∀ e ∈ (machine host).trace (.deployed pool) invs, BondUntouched host e) :
    Booked ((machine host).final (.deployed pool) invs).registry := by
  refine run_invariant_of_steps (P := BondUntouched host) (I := fun _ w => Booked w.registry)
    (booked_deployed pool) ?_ ?_ ?_ invs huntouched
  · intro t w env call e h
    exact h
  · intro t w env call w' h hp heffect
    exact booked_effect h hp heffect
  · intro t w inv h
    exact h

/-- A slash that passes its checks and its payment goes through where the stakes are not negative,
and takes from the bonded stake. -/
theorem exists_reportSlash {w : World} {proof : SlashingProof} {amount : I128}
    {config : RegistryConfig} {relayer : RelayerRecord} {tokens : TokenLedger}
    (hpositive : 0 < amount.val) (hevidence : verifySlashProof proof = .ok ())
    (hstored : w.registry.config = some config)
    (hread : w.registry.relayers.lookup proof.relayer = some relayer)
    (hkey : relayer.operator = proof.relayer)
    (hfree : 0 ≤ relayer.freeStake.val) (hbonded : 0 ≤ relayer.bondedStake.val)
    (htransfer : (w.pool.tokens.transferPositive env config.nativeSac host.self proof.reporter
      amount : Result RegistryError TokenLedger) = .ok tokens) :
    ∃ w' slashed, exec host env w (.reportSlash proof amount) = .ok w' ∧
      w'.registry.relayers.lookup proof.relayer = some slashed ∧
      w'.registry.jobs = w.registry.jobs ∧
      slashed.bondedStake.val =
        relayer.bondedStake.val - min amount.val relayer.bondedStake.val := by
  have hamount := I128.asU128_of_nonneg hpositive.le
  have hbound := amount.upper
  have hnonzero : amount.asU128 ≠ 0 := by omega
  obtain ⟨slashed₀, hdeducted₀⟩ := exists_deductSlash amount.asU128 hfree hbonded
  have hok : ∃ w', exec host env w (.reportSlash proof amount) = .ok w' := by
    simp only [exec, reportSlash, slashRelayer, cfg, readRelayer, bind_eq_ok, exists_const,
      ensure_eq_ok, okOr_eq_ok, tokenTransfer_eq_ok, pure_eq_ok]
    exact ⟨_, hpositive, _, ⟨(), hevidence, hnonzero, rfl⟩, config, hstored, relayer, hread,
      slashed₀, hdeducted₀, _, ⟨tokens, htransfer, rfl⟩, rfl⟩
  obtain ⟨w', hexec⟩ := hok
  refine ⟨w', ?_⟩
  cases effect_of_exec hexec with
  | @reportSlash _ _ _ _ relayer' slashed w₁ _ _ _ hread' hdeducted hpaid =>
      obtain rfl := Option.some.inj (hread.symm.trans hread')
      obtain ⟨tokens', -, rfl⟩ := hpaid
      have hleft := deductSlash_bonded hbonded hdeducted
      rw [hamount] at hleft
      obtain ⟨hoperator, -, -, -, -⟩ := deductSlash_eq_ok (by omega) hfree hdeducted
      refine ⟨slashed, hexec, ?_, rfl, hleft⟩
      rw [← hkey, ← hoperator]
      exact Finmap.lookup_insert _

/-- A step that leaves the account right did not slash a bond. -/
theorem untouched_of_accounted {w : World} {inv : Invocation} (h : Booked w.registry)
    (hafter : BondsAccounted ((machine host).step w inv).1.registry) :
    BondUntouched host ((machine host).stepAt w inv) := by
  intro env proof amount config relayer tokens hinput hpositive hevidence hstored hread htransfer
  obtain rfl : inv = .registry env (.reportSlash proof amount) := hinput
  have hread₀ : w.registry.relayers.lookup proof.relayer = some relayer := hread
  obtain ⟨hkey, hfree, -⟩ := h.relayers _ _ hread₀
  obtain ⟨-, hnonneg, -, hbefore⟩ := h.accounted _ _ hread₀
  obtain ⟨w', slashed, hexec, hread', hjobs, hleft⟩ :=
    exists_reportSlash (w := w) hpositive hevidence hstored hread₀ hkey hfree hnonneg htransfer
  have hstep : ((machine host).step w (.registry env (.reportSlash proof amount))).1 = w' := by
    show (step host w _).1 = w'
    rw [step, hexec]
  rw [hstep] at hafter
  obtain ⟨-, -, -, hsum⟩ := hafter _ _ hread'
  rw [bonds, hjobs] at hsum
  have hsame : slashed.bondedStake.val = relayer.bondedStake.val := hsum.trans hbefore.symm
  omega

/-- **Bond accounting.** In every state of a run the stakes are not negative and each relayer's
bonded stake is the fees of its accepted jobs, if and only if every slash of the run that goes
through finds nothing bonded. -/
theorem bonds_accounted_iff (host : Host) (pool : Pool.World) (invs : List Invocation) :
    (∀ before later, invs = before ++ later →
        BondsAccounted ((machine host).final (.deployed pool) before).registry) ↔
      ∀ e ∈ (machine host).trace (.deployed pool) invs, BondUntouched host e := by
  constructor
  · intro haccounted
    -- up to its last step the run keeps the books, and that step leaves the account right
    induction invs using List.reverseRecOn with
    | nil =>
        intro e he
        cases he
    | append_singleton invs inv ih =>
        have huntouched := ih (fun before later hsplit =>
          haccounted before (later ++ [inv]) (by rw [hsplit, List.append_assoc]))
        have hafter := haccounted (invs ++ [inv]) [] (List.append_nil _).symm
        rw [Machine.final_snoc] at hafter
        rw [Machine.trace_snoc]
        intro e he
        rcases List.mem_append.mp he with hold | hlast
        · exact huntouched e hold
        · obtain rfl := List.mem_singleton.mp hlast
          exact untouched_of_accounted (booked_run host pool invs huntouched) hafter
  · intro huntouched before later hsplit
    refine (booked_run host pool before ?_).accounted
    intro e he
    apply huntouched e
    rw [hsplit]
    exact Machine.mem_trace_append _ _ he

/-- The setting with a creator of jobs. -/
def Demo.bondingPool : Pool.World := .deployed fun _ holder =>
  if holder ∈ [Pool.Demo.account 1, Pool.Demo.account 2, Pool.Demo.account 3] then 100 else 0

/-- A job of thirty that the first relayer accepts. -/
def Demo.bonding : List Invocation := Demo.setup ++ [
  .registry (Pool.Demo.env 12 (Pool.Demo.account 3)) (.createJob (Pool.Demo.account 3)
    (BytesN.ofNat 32 1) (BytesN.ofNat 32 0) 20 (I128.ofNat 30 I128.thirty_lt)),
  .registry (Pool.Demo.env 13 (Pool.Demo.account 1))
    (.acceptJob (Pool.Demo.account 1) (BytesN.ofNat 32 1))]

/-- The slash leaves twenty bonded under a job of thirty. -/
theorem bonds_not_accounted :
    ¬ BondsAccounted ((machine Demo.host).final (.deployed Demo.bondingPool)
      (Demo.bonding ++ [Demo.slash (I128.ofNat 10)])).registry := by
  intro h
  have hread : (((machine Demo.host).final (.deployed Demo.bondingPool)
      (Demo.bonding ++ [Demo.slash (I128.ofNat 10)])).registry.relayers.lookup
        (Pool.Demo.account 1)).map (·.bondedStake.val) = some 20 := by
    decide +kernel
  obtain ⟨r, hread, hbonded⟩ := Option.map_eq_some_iff.mp hread
  obtain ⟨-, -, -, hsum⟩ := h _ r hread
  rw [hbonded] at hsum
  revert hsum
  decide +kernel

end OpaqueStellar.Registry
