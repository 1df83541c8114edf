import OpaqueStellar.Registry.Jobs

/-! # The relayer registry: what a slash takes and what it pays

Two calls take stake away. `slash_job` takes the fee from the bond, takes up to the fee once more
from a pending unstake, and pays the creator the fee twice, once out of the job's escrow: what came
from the pending unstake stays behind with no owner. `report_slash` takes what it finds of the
amount and pays all of it. Its evidence is checked for its shape alone: nothing ties it to the
relayer, and nothing remembers that it was used. -/

namespace OpaqueStellar.Registry

open OpaqueStellar.Lib OpaqueStellar.Soroban

variable {host : Host} {env : Env}

/-! ## What every run keeps

Neither solvency nor the bonds survive every slash; what both slashes read does. -/

/-- Records sit under their operator, with no negative free or pending stake, and jobs have a fee. -/
structure Stocked (s : RegistryState) : Prop where
  relayers : ∀ k r, s.relayers.lookup k = some r →
    r.operator = k ∧ 0 ≤ r.freeStake.val ∧ 0 ≤ r.pendingUnstake.val
  fees : ∀ id j, s.jobs.lookup id = some j → 0 < j.fee.val
  minimum : ∀ config, s.config = some config → 0 < config.minimumStake.val

theorem stocked_deployed (pool : Pool.World) : Stocked (World.deployed pool).registry := by
  refine ⟨?_, ?_, ?_⟩
  · intro k r hread
    cases hread
  · intro id j hread
    cases hread
  · intro config hconfig
    cases hconfig

theorem stocked_writeRelayer {w : World} {new : RelayerRecord} (h : Stocked w.registry)
    (hfree : 0 ≤ new.freeStake.val) (hpending : 0 ≤ new.pendingUnstake.val) :
    Stocked (writeRelayer w new).registry := by
  refine ⟨?_, h.fees, h.minimum⟩
  intro k r hread
  rcases relayers_written hfree hpending k r hread with hold | hnew
  · exact h.relayers k r hold
  · exact hnew

theorem stocked_writeJob {w : World} {jobId : BytesN 32} {new : JobRecord} (h : Stocked w.registry)
    (hfee : 0 < new.fee.val) : Stocked (writeJob w jobId new).registry := by
  refine ⟨h.relayers, ?_, h.minimum⟩
  intro id j hread
  rcases Store.lookup_insert_cases hread with ⟨rfl, rfl⟩ | hold
  · exact hfee
  · exact h.fees id j hold

theorem stocked_reconfigured {s : RegistryState} {config : RegistryConfig} (h : Stocked s)
    (hminimum : 0 < config.minimumStake.val) : Stocked { s with config := some config } := by
  refine ⟨h.relayers, h.fees, ?_⟩
  intro config' hconfig
  cases hconfig
  exact hminimum

theorem stocked_effect {w w' : World} {call : Call} (h : Stocked w.registry)
    (heffect : Effect host env w call w') : Stocked w'.registry := by
  cases heffect with
  | initializeRegistry hsigned hfresh hminimum hwired => exact stocked_reconfigured h hminimum
  | @register operator pubkey endpoint stake config w₁ hsigned hstored henough hfresh hpaid =>
      obtain ⟨tokens, -, rfl⟩ := hpaid
      have hminimum := h.minimum config hstored
      refine stocked_writeRelayer h ?_ (le_refl _)
      show 0 ≤ stake.val
      omega
  | @addStake operator amount config relayer w₁ free hsigned hpositive hstored hread hpaid hfree =>
      obtain ⟨tokens, -, rfl⟩ := hpaid
      obtain ⟨-, hfree₀, hpending₀⟩ := h.relayers _ _ hread
      refine stocked_writeRelayer h ?_ hpending₀
      show 0 ≤ free.val
      omega
  | @requestUnstake operator amount config relayer free pending hsigned hpositive hstored hread hle
      hfree hpending =>
      obtain ⟨-, hfree₀, hpending₀⟩ := h.relayers _ _ hread
      refine stocked_writeRelayer h ?_ ?_
      · show 0 ≤ free.val
        omega
      · show 0 ≤ pending.val
        omega
  | withdrawStake hsigned hstored hread hpositive hunlocked hpaid =>
      obtain ⟨tokens, -, rfl⟩ := hpaid
      exact stocked_writeRelayer h (h.relayers _ _ hread).2.1 (le_refl _)
  | createJob hsigned hpositive hstored hahead hnear hfresh hpaid =>
      obtain ⟨tokens, -, rfl⟩ := hpaid
      exact stocked_writeJob h hpositive
  | @acceptJob operator jobId job relayer free bonded hsigned hjob hopen hinTime hread hle hfree
      hbonded =>
      obtain ⟨-, -, hpending₀⟩ := h.relayers _ _ hread
      have hfee := h.fees _ _ hjob
      refine stocked_writeJob (stocked_writeRelayer h ?_ hpending₀) hfee
      show 0 ≤ free.val
      omega
  | @submitPoolWithdraw operator jobId args config job pool relayer free bonded w₁ hsigned hstored
      hjob hstatus haccepted hinTime hpayload hcalled hwithdrawn hread hbonded hfree hpaid =>
      obtain ⟨tokens, -, rfl⟩ := hpaid
      obtain ⟨-, hfree₀, hpending₀⟩ := h.relayers _ _ hread
      have hfee := h.fees _ _ hjob
      refine stocked_writeJob (stocked_writeRelayer (w := { w with pool := pool }) h ?_ hpending₀) hfee
      show 0 ≤ free.val
      omega
  | slashJob hsigned hstored hjob hcreator hstatus hlate haccepted hread hbonded hpending hdouble
      hpaid =>
      obtain ⟨tokens, -, rfl⟩ := hpaid
      obtain ⟨-, hfree₀, hpending₀⟩ := h.relayers _ _ hread
      have hfee := h.fees _ _ hjob
      obtain ⟨-, hfree, hpending', -⟩ := slashPending_eq_ok hfee.le (by exact hpending₀) hpending
      refine stocked_writeJob (stocked_writeRelayer h ?_ hpending') hfee
      rw [hfree]
      exact hfree₀
  | cancelJob hsigned hstored hjob hcreator hopen hlate hpaid =>
      obtain ⟨tokens, -, rfl⟩ := hpaid
      have hfee := h.fees _ _ hjob
      exact stocked_writeJob h hfee
  | setConfig hsigned hstored hadmin hminimum => exact stocked_reconfigured h hminimum
  | transferAdmin hsigned hstored hadmin =>
      have hminimum := h.minimum _ hstored
      exact stocked_reconfigured h hminimum
  | @reportSlash proof amount config record relayer slashed w₁ hpositive hevidence hstored hread
      hdeducted hpaid =>
      obtain ⟨tokens, -, rfl⟩ := hpaid
      obtain ⟨-, hfree₀, hpending₀⟩ := h.relayers _ _ hread
      have hamount := I128.asU128_of_nonneg hpositive.le
      have hbound := amount.upper
      obtain ⟨-, hpending, hfree, -, -⟩ := deductSlash_eq_ok (by omega) hfree₀ hdeducted
      refine stocked_writeRelayer ⟨h.relayers, h.fees, h.minimum⟩ hfree ?_
      rw [hpending]
      exact hpending₀

theorem stocked_run (host : Host) (pool : Pool.World) (invs : List Invocation) :
    Stocked ((machine host).final (.deployed pool) invs).registry := by
  refine run_invariant_of_steps (P := fun _ => True) (I := fun _ w => Stocked w.registry)
    (stocked_deployed pool) ?_ ?_ ?_ invs (fun _ _ => trivial)
  · intro t w env call e h
    exact h
  · intro t w env call w' h _ heffect
    exact stocked_effect h heffect
  · intro t w inv h
    exact h

/-! ## A missed deadline -/

/-- A missed deadline takes the fee from the bond, and up to the fee from a pending unstake. -/
theorem slashPending_holding {relayer slashed : RelayerRecord} {bondedStake fee : I128}
    (hfee : 0 ≤ fee.val) (hpending : 0 ≤ relayer.pendingUnstake.val)
    (hbonded : bondedStake.val = relayer.bondedStake.val - fee.val)
    (h : slashPending { relayer with bondedStake := bondedStake } fee = .ok slashed) :
    slashed.holding = relayer.holding - fee.val - min relayer.pendingUnstake.val fee.val := by
  unfold slashPending at h
  split at h
  · simp only [bind_eq_ok, I128.checked_eq_ok, pure_eq_ok] at h
    obtain ⟨pending, hleft, rfl⟩ := h
    simp only [RelayerRecord.holding]
    omega
  · next hnone =>
      rw [pure_eq_ok] at h
      subst h
      have hzero : ¬ 0 < relayer.pendingUnstake.val := hnone
      simp only [RelayerRecord.holding]
      omega

/-- The slash of a job took the fee off its relayer's stake and nothing off anybody else's, paid the
creator the fee and the bond, and the registry lost what the relayer and the job lost. -/
def SlashJobExact (host : Host) (creator : Address) (jobId : BytesN 32) (w w' : World) : Prop :=
  ∃ config job job' operator relayer relayer',
    w.registry.config = some config ∧
    w.registry.jobs.lookup jobId = some job ∧ w'.registry.jobs.lookup jobId = some job' ∧
    job.acceptedRelayer = some operator ∧
    w.registry.relayers.lookup operator = some relayer ∧
    w'.registry.relayers.lookup operator = some relayer' ∧
    relayer'.holding = relayer.holding - job.fee.val ∧
    (∀ k, k ≠ operator → w'.registry.relayers.lookup k = w.registry.relayers.lookup k) ∧
    (w'.pool.tokens config.nativeSac creator : ℤ) =
      w.pool.tokens config.nativeSac creator + (job.fee.val + job.fee.val) ∧
    balance host config w - balance host config w' =
      (relayer.holding - relayer'.holding) + (job.escrowed - job'.escrowed)

/-- The relayer that accepted the job is not unstaking. -/
def NothingPending (s : RegistryState) (jobId : BytesN 32) : Prop :=
  ∀ job operator relayer, s.jobs.lookup jobId = some job → job.acceptedRelayer = some operator →
    s.relayers.lookup operator = some relayer → relayer.pendingUnstake.val = 0

/-- **Job slashes.** In every state a run reaches, a slash of a job that goes through is exact if and
only if its relayer has no unstake pending. -/
theorem slash_job_exact_iff (pool : Pool.World) (invs : List Invocation) {creator : Address}
    {jobId : BytesN 32} {w' : World}
    (h : exec host env ((machine host).final (.deployed pool) invs) (.slashJob creator jobId) =
      .ok w') :
    SlashJobExact host creator jobId ((machine host).final (.deployed pool) invs) w' ↔
      NothingPending ((machine host).final (.deployed pool) invs).registry jobId := by
  have hstocked := stocked_run host pool invs
  generalize (machine host).final (.deployed pool) invs = w at h hstocked ⊢
  cases effect_of_exec h with
  | @slashJob _ _ config job operator relayer slashed bonded award w₁ hsigned hstored hjob hcreator
      hstatus hlate haccepted hread hbonded hpending hdouble hpaid =>
      obtain ⟨hkey, hfree₀, hpending₀⟩ := hstocked.relayers _ _ hread
      have hfee := hstocked.fees _ _ hjob
      have hfell := slashPending_holding hfee.le hpending₀ hbonded hpending
      obtain ⟨hoperator, -, -, -⟩ := slashPending_eq_ok hfee.le (by exact hpending₀) hpending
      have hnew : slashed.operator = operator := hoperator.trans hkey
      obtain ⟨tokens, htransfer, rfl⟩ := hpaid
      have hmoved := TokenLedger.transferPositive_eq_ok (by omega) htransfer
      have hwritten : Finmap.lookup operator (w.registry.relayers.insert slashed.operator slashed) =
          some slashed := by
        rw [hnew]
        exact Finmap.lookup_insert _
      constructor
      · intro hexact job' operator' relayer' hjob' haccepted' hread'
        obtain ⟨-, job₁, -, operator₁, relayer₁, slashed₁, -, hjob₁, -, haccepted₁, hread₁,
          hwritten₁, hfall, -⟩ := hexact
        obtain rfl := Option.some.inj (hjob.symm.trans hjob₁)
        obtain rfl := Option.some.inj (hjob.symm.trans hjob')
        obtain rfl := Option.some.inj (haccepted.symm.trans haccepted₁)
        obtain rfl := Option.some.inj (haccepted.symm.trans haccepted')
        obtain rfl := Option.some.inj (hread.symm.trans hread₁)
        obtain rfl := Option.some.inj (hread.symm.trans hread')
        obtain rfl := Option.some.inj (hwritten.symm.trans hwritten₁)
        omega
      · intro hnone
        have hzero := hnone job operator relayer hjob haccepted hread
        refine ⟨config, job, _, operator, relayer, slashed, hstored, hjob, Finmap.lookup_insert _,
          haccepted, hread, hwritten, ?_, ?_, ?_, ?_⟩
        · omega
        · intro k hk
          rw [← hnew] at hk
          exact Finmap.lookup_insert_of_ne _ hk
        · show (tokens config.nativeSac creator : ℤ) = _
          rw [hmoved, TokenLedger.gain_dst hsigned.2, hdouble, mul_two]
          rfl
        · show balance host config w - (tokens config.nativeSac host.self : ℤ) = _
          rw [hmoved, TokenLedger.gain_src hsigned.2, hdouble]
          simp only [JobRecord.escrowed, hstatus]
          show balance host config w - (balance host config w + _) = _
          omega

/-- A call that goes through after a run leads to the state that the longer run ends in. -/
theorem exec_eq_final {w₀ : World} {invs : List Invocation} {call : Call}
    (h : (exec host env ((machine host).final w₀ invs) call).isOk = true) :
    exec host env ((machine host).final w₀ invs) call =
      .ok ((machine host).final w₀ (invs ++ [.registry env call])) := by
  rw [Machine.final_snoc]
  show _ = Except.ok (step host _ _).1
  cases hexec : exec host env ((machine host).final w₀ invs) call with
  | error e =>
      rw [hexec] at h
      cases h
  | ok w' => rw [step, hexec]

def Demo.late : Env := Pool.Demo.env 21 (Pool.Demo.account 3)

/-- The accepted job of thirty, slashed after its deadline. -/
def Demo.miss : Call := .slashJob (Pool.Demo.account 3) (BytesN.ofNat 32 1)

/-- With nothing pending the slash takes thirty off the relayer and pays sixty. -/
theorem slash_job_exact_demo :
    SlashJobExact Demo.host (Pool.Demo.account 3) (BytesN.ofNat 32 1)
      ((machine Demo.host).final (.deployed Demo.bondingPool) Demo.bonding)
      ((machine Demo.host).final (.deployed Demo.bondingPool)
        (Demo.bonding ++ [.registry Demo.late Demo.miss])) := by
  have hexec : exec Demo.host Demo.late
      ((machine Demo.host).final (.deployed Demo.bondingPool) Demo.bonding) Demo.miss = .ok _ :=
    exec_eq_final (by decide)
  refine (slash_job_exact_iff Demo.bondingPool Demo.bonding hexec).mpr ?_
  intro job operator relayer hjob haccepted hread
  have hoperator : (((machine Demo.host).final (.deployed Demo.bondingPool)
      Demo.bonding).registry.jobs.lookup (BytesN.ofNat 32 1)).bind (·.acceptedRelayer) =
        some (Pool.Demo.account 1) := by
    decide
  have hpending : (((machine Demo.host).final (.deployed Demo.bondingPool)
      Demo.bonding).registry.relayers.lookup (Pool.Demo.account 1)).map (·.pendingUnstake.val) =
        some 0 := by
    decide
  rw [hjob] at hoperator
  obtain rfl := Option.some.inj (haccepted.symm.trans hoperator)
  rw [hread] at hpending
  exact Option.some.inj hpending

/-- The same job, and twenty of the relayer's stake on its way out. -/
def Demo.unstaking : List Invocation := Demo.bonding ++ [
  .registry (Pool.Demo.env 14 (Pool.Demo.account 1))
    (.requestUnstake (Pool.Demo.account 1) (I128.ofNat 20))]

/-- The slash takes the twenty along with the bond of thirty, and pays sixty all the same. -/
theorem slash_job_not_exact :
    exec Demo.host Demo.late
        ((machine Demo.host).final (.deployed Demo.bondingPool) Demo.unstaking) Demo.miss =
      .ok ((machine Demo.host).final (.deployed Demo.bondingPool)
        (Demo.unstaking ++ [.registry Demo.late Demo.miss])) ∧
    ¬ SlashJobExact Demo.host (Pool.Demo.account 3) (BytesN.ofNat 32 1)
      ((machine Demo.host).final (.deployed Demo.bondingPool) Demo.unstaking)
      ((machine Demo.host).final (.deployed Demo.bondingPool)
        (Demo.unstaking ++ [.registry Demo.late Demo.miss])) := by
  refine ⟨exec_eq_final (by decide), ?_⟩
  intro hexact
  obtain ⟨-, job, -, operator, relayer, relayer', -, hjob, -, haccepted, hread, hread', hfall, -⟩ :=
    hexact
  have hterms : (((machine Demo.host).final (.deployed Demo.bondingPool)
      Demo.unstaking).registry.jobs.lookup (BytesN.ofNat 32 1)).map
        (fun j => (j.fee.val, j.acceptedRelayer)) = some (30, some (Pool.Demo.account 1)) := by
    decide
  have hbefore : (((machine Demo.host).final (.deployed Demo.bondingPool)
      Demo.unstaking).registry.relayers.lookup (Pool.Demo.account 1)).map (·.holding) =
        some 100 := by
    decide
  have hafter : (((machine Demo.host).final (.deployed Demo.bondingPool)
      (Demo.unstaking ++ [.registry Demo.late Demo.miss])).registry.relayers.lookup
        (Pool.Demo.account 1)).map (·.holding) = some 50 := by
    decide
  rw [hjob] at hterms
  obtain ⟨hfee, hoperator⟩ := Prod.mk.inj (Option.some.inj hterms)
  obtain rfl := Option.some.inj (haccepted.symm.trans hoperator)
  rw [hread] at hbefore
  rw [hread'] at hafter
  have hheld : relayer.holding = 100 := Option.some.inj hbefore
  have hleft : relayer'.holding = 50 := Option.some.inj hafter
  rw [hheld, hleft, hfee] at hfall
  revert hfall
  decide

/-! ## A reported offence -/

/-- What the record of a relayer says was slashed; a relayer without one was never slashed. -/
def totalSlashed (s : RegistryState) (k : Address) : ℕ :=
  ((s.slashRecords.lookup k).map (·.totalSlashed)).getD 0

/-- Everything the registry asks of a report, in the state it is made in. -/
def ReportPasses (host : Host) (env : Env) (w : World) (proof : SlashingProof) (amount : I128) :
    Prop :=
  0 < amount.val ∧ verifySlashProof proof = .ok () ∧ ∃ config relayer slashed tokens,
    w.registry.config = some config ∧ w.registry.relayers.lookup proof.relayer = some relayer ∧
    deductSlash relayer amount.asU128 = .ok slashed ∧
    (w.pool.tokens.transferPositive env config.nativeSac host.self proof.reporter amount :
      Result RegistryError TokenLedger) = .ok tokens

/-- What a report that went through did. -/
structure ReportDone (host : Host) (env : Env) (w : World) (proof : SlashingProof) (amount : I128)
    (config : RegistryConfig) (relayer slashed : RelayerRecord) (w' : World) : Prop where
  stored : w.registry.config = some config
  read : w.registry.relayers.lookup proof.relayer = some relayer
  deducted : deductSlash relayer amount.asU128 = .ok slashed
  written : w'.registry.relayers = w.registry.relayers.insert slashed.operator slashed
  recorded : totalSlashed w'.registry proof.relayer =
    min (totalSlashed w.registry proof.relayer + amount.asU128) (2 ^ 128 - 1)
  paid : Moved w.pool.tokens w'.pool.tokens config.nativeSac host.self proof.reporter amount.val

theorem getD_totalSlashed (o : Option RelayerSlashRecord) (k : Address) :
    (o.getD ⟨k, 0, 0, 0⟩).totalSlashed = (o.map (·.totalSlashed)).getD 0 := by
  cases o <;> rfl

theorem reportDone_of_exec {w w' : World} {proof : SlashingProof} {amount : I128}
    (h : exec host env w (.reportSlash proof amount) = .ok w') :
    ReportPasses host env w proof amount ∧
      ∃ config relayer slashed, ReportDone host env w proof amount config relayer slashed w' := by
  simp only [exec, reportSlash, slashRelayer, cfg, readRelayer, bind_eq_ok, exists_const,
    ensure_eq_ok, okOr_eq_ok, tokenTransfer_eq_ok, pure_eq_ok] at h
  obtain ⟨hpositive, w₂, ⟨⟨⟩, hevidence, -, rfl⟩, config, hstored, relayer, hread, slashed,
    hdeducted, w₁, ⟨tokens, htransfer, rfl⟩, rfl⟩ := h
  refine ⟨⟨hpositive, hevidence, config, relayer, slashed, tokens, hstored, hread, hdeducted,
    htransfer⟩, config, relayer, slashed, hstored, hread, hdeducted, rfl, ?_, ?_⟩
  · simp only [totalSlashed, World.publish, writeRelayer, Finmap.lookup_insert, Option.map_some,
      Option.getD_some, getD_totalSlashed]
  · exact TokenLedger.transferPositive_eq_ok hpositive.le htransfer

/-- A report that passes the checks goes through. -/
theorem exec_of_reportPasses {w : World} {proof : SlashingProof} {amount : I128}
    (h : ReportPasses host env w proof amount) :
    ∃ w', exec host env w (.reportSlash proof amount) = .ok w' := by
  obtain ⟨hpositive, hevidence, config, relayer, slashed, tokens, hstored, hread, hdeducted,
    htransfer⟩ := h
  have hamount := I128.asU128_of_nonneg hpositive.le
  have hnonzero : amount.asU128 ≠ 0 := by omega
  simp only [exec, reportSlash, slashRelayer, cfg, readRelayer, bind_eq_ok, exists_const,
    ensure_eq_ok, okOr_eq_ok, tokenTransfer_eq_ok, pure_eq_ok]
  exact ⟨_, hpositive, _, ⟨(), hevidence, hnonzero, rfl⟩, config, hstored, relayer, hread, slashed,
    hdeducted, _, ⟨tokens, htransfer, rfl⟩, rfl⟩

/-- The evidence and the amount of a report that went through. -/
def reported (e : RegistryStep) : Option (SlashingProof × I128) :=
  match e.input, e.output with
  | .registry _ (.reportSlash proof amount), .registry (.ok ()) => some (proof, amount)
  | _, _ => none

/-- The step is a report that passes the checks. -/
def Passing (host : Host) (e : RegistryStep) (proof : SlashingProof) (amount : I128) : Prop :=
  ∃ env, e.input = .registry env (.reportSlash proof amount) ∧
    ReportPasses host env e.pre proof amount

theorem reported_stepAt (host : Host) (w : World) (inv : Invocation) (proof : SlashingProof)
    (amount : I128) :
    reported ((machine host).stepAt w inv) = some (proof, amount) ↔
      Passing host ((machine host).stepAt w inv) proof amount := by
  constructor
  · intro h
    unfold reported at h
    split at h
    · next env proof' amount' hinput houtput =>
        obtain ⟨rfl, rfl⟩ := Prod.mk.inj (Option.some.inj h)
        obtain rfl : inv = .registry env (.reportSlash proof' amount') := hinput
        refine ⟨env, rfl, ?_⟩
        cases hexec : exec host env w (.reportSlash proof' amount') with
        | error e =>
            have hfailed : (step host w (.registry env (.reportSlash proof' amount'))).2 =
                .registry (.ok ()) := houtput
            rw [step, hexec] at hfailed
            cases hfailed
        | ok w' => exact (reportDone_of_exec hexec).1
    · cases h
  · intro h
    obtain ⟨env, hinput, hpasses⟩ := h
    obtain rfl : inv = .registry env (.reportSlash proof amount) := hinput
    have hpasses : ReportPasses host env w proof amount := hpasses
    obtain ⟨w', hexec⟩ := exec_of_reportPasses hpasses
    show reported ⟨w, _, (step host w _).2⟩ = _
    rw [step, hexec]
    rfl

/-- A report that went through paid the reporter what the relayer lost, which is what the relayer's
record grew by, and no more than the relayer had. -/
def ReportExact (host : Host) (e : RegistryStep) : Prop :=
  ∀ proof amount, reported e = some (proof, amount) → ∃ config relayer relayer',
    e.pre.registry.config = some config ∧
    e.pre.registry.relayers.lookup proof.relayer = some relayer ∧
    (step host e.pre e.input).1.registry.relayers.lookup proof.relayer = some relayer' ∧
    Moved e.pre.pool.tokens (step host e.pre e.input).1.pool.tokens config.nativeSac host.self
      proof.reporter amount.val ∧
    amount.val = relayer.holding - relayer'.holding ∧
    amount.val = totalSlashed (step host e.pre e.input).1.registry proof.relayer -
      totalSlashed e.pre.registry proof.relayer ∧
    amount.val ≤ relayer.holding

/-- A report that passes the checks asks for no more than the relayer's free and bonded stake, or
finds the bond overdrawn; for no more than all of its stake; and for what its record can hold. -/
def ReportCovered (host : Host) (e : RegistryStep) : Prop :=
  ∀ proof amount relayer, Passing host e proof amount →
    e.pre.registry.relayers.lookup proof.relayer = some relayer →
    (relayer.bondedStake.val < 0 ∨
      amount.val ≤ relayer.bondedStake.val + relayer.freeStake.val) ∧
    amount.val ≤ relayer.holding ∧
    totalSlashed e.pre.registry proof.relayer + amount.val < 2 ^ 128

/-- A slash is deducted in full exactly where the two stakes cover it, or the bond is overdrawn. -/
theorem deductSlash_whole_iff {relayer slashed : RelayerRecord} {slash : ℕ}
    (hslash : (slash : ℤ) < 2 ^ 127) (hfree : 0 ≤ relayer.freeStake.val)
    (h : deductSlash relayer slash = .ok slashed) :
    (slash : ℤ) = relayer.holding - slashed.holding ↔
      relayer.bondedStake.val < 0 ∨
        (slash : ℤ) ≤ relayer.bondedStake.val + relayer.freeStake.val := by
  obtain ⟨-, hpending, hfree', -, hwhole⟩ := deductSlash_eq_ok hslash hfree h
  constructor
  · intro hfell
    by_cases hneg : relayer.bondedStake.val < 0
    · left
      exact hneg
    · right
      have hbonded := deductSlash_bonded (not_lt.mp hneg) h
      simp only [RelayerRecord.holding, hpending] at hfell
      omega
  · intro hcovered
    have hfell := hwhole hcovered
    omega

/-- A report that passes the checks is carried out. -/
theorem done_of_passing {w : World} {inv : Invocation} {proof : SlashingProof} {amount : I128}
    (h : Stocked w.registry) (hpassing : Passing host ((machine host).stepAt w inv) proof amount) :
    0 < amount.val ∧ ∃ env config relayer slashed,
      ReportDone host env w proof amount config relayer slashed (step host w inv).1 ∧
      (step host w inv).1.registry.relayers.lookup proof.relayer = some slashed := by
  obtain ⟨env, hinput, hpasses⟩ := hpassing
  obtain rfl : inv = .registry env (.reportSlash proof amount) := hinput
  have hpasses : ReportPasses host env w proof amount := hpasses
  obtain ⟨w', hexec⟩ := exec_of_reportPasses hpasses
  obtain ⟨-, config, relayer, slashed, hdone⟩ := reportDone_of_exec hexec
  have hstep : (step host w (.registry env (.reportSlash proof amount))).1 = w' := by
    rw [step, hexec]
  rw [hstep]
  refine ⟨hpasses.1, env, config, relayer, slashed, hdone, ?_⟩
  obtain ⟨hkey, hfree, -⟩ := h.relayers _ _ hdone.read
  have hamount := I128.asU128_of_nonneg hpasses.1.le
  have hbound := amount.upper
  obtain ⟨hoperator, -, -, -, -⟩ := deductSlash_eq_ok (by omega) hfree hdone.deducted
  rw [hdone.written, hoperator.trans hkey]
  exact Finmap.lookup_insert _

/-- What a report does is exact if and only if it is covered. -/
theorem reportDone_exact_iff {w w' : World} {proof : SlashingProof} {amount : I128}
    {config : RegistryConfig} {relayer slashed : RelayerRecord} (hpositive : 0 < amount.val)
    (hfree : 0 ≤ relayer.freeStake.val)
    (h : ReportDone host env w proof amount config relayer slashed w') :
    (amount.val = relayer.holding - slashed.holding ∧
      amount.val = totalSlashed w'.registry proof.relayer - totalSlashed w.registry proof.relayer ∧
      amount.val ≤ relayer.holding) ↔
    ((relayer.bondedStake.val < 0 ∨
        amount.val ≤ relayer.bondedStake.val + relayer.freeStake.val) ∧
      amount.val ≤ relayer.holding ∧
      totalSlashed w.registry proof.relayer + amount.val < 2 ^ 128) := by
  have hamount := I128.asU128_of_nonneg hpositive.le
  have hbound := amount.upper
  have hwhole := deductSlash_whole_iff (by omega) hfree h.deducted
  rw [hamount] at hwhole
  have hrecorded := h.recorded
  rw [hwhole]
  constructor
  · intro hexact
    obtain ⟨hcovered, hgrown, hheld⟩ := hexact
    exact ⟨hcovered, hheld, by omega⟩
  · intro hcovered
    obtain ⟨hstake, hheld, hroom⟩ := hcovered
    exact ⟨hstake, by omega, hheld⟩

theorem reportExact_iff_covered {w : World} (h : Stocked w.registry) (inv : Invocation) :
    ReportExact host ((machine host).stepAt w inv) ↔
      ReportCovered host ((machine host).stepAt w inv) := by
  constructor
  · intro hexact proof amount relayer hpassing hread
    obtain ⟨hpositive, env, config, relayer₁, slashed, hdone, hwritten⟩ :=
      done_of_passing h hpassing
    obtain rfl := Option.some.inj (hread.symm.trans hdone.read)
    obtain ⟨-, relayer₂, slashed₂, -, hread₂, hwritten₂, -, hamounts⟩ :=
      hexact proof amount ((reported_stepAt host w inv proof amount).mpr hpassing)
    obtain rfl := Option.some.inj (hread.symm.trans hread₂)
    obtain rfl := Option.some.inj (hwritten.symm.trans hwritten₂)
    exact (reportDone_exact_iff hpositive (h.relayers _ _ hread).2.1 hdone).mp hamounts
  · intro hcovered proof amount hreported
    have hpassing := (reported_stepAt host w inv proof amount).mp hreported
    obtain ⟨hpositive, env, config, relayer, slashed, hdone, hwritten⟩ := done_of_passing h hpassing
    have hamounts := (reportDone_exact_iff hpositive (h.relayers _ _ hdone.read).2.1 hdone).mpr
      (hcovered proof amount relayer hpassing hdone.read)
    exact ⟨config, relayer, slashed, hdone.stored, hdone.read, hwritten, hdone.paid, hamounts⟩

/-! ## Every run

What the relayers did is nothing the registry knows: `committed k offense evidence` says that relayer
`k` committed the offence that the evidence is of. -/

/-- No two of the reports that `made` picks from the steps show the same offence by the same
evidence. -/
def NeverTwice (made : RegistryStep → SlashingProof → I128 → Prop) (t : List RegistryStep) : Prop :=
  t.Pairwise fun e e' => ∀ proof amount proof' amount', made e proof amount →
    made e' proof' amount' → ¬ (proof.offense = proof'.offense ∧ proof.evidence = proof'.evidence)

/-- The reports that `made` picks name relayers that did what the evidence shows. -/
def OnlyGuilty (committed : Address → SlashableOffense → List UInt8 → Prop)
    (made : RegistryStep → SlashingProof → I128 → Prop) (t : List RegistryStep) : Prop :=
  ∀ e ∈ t, ∀ proof amount, made e proof amount →
    committed proof.relayer proof.offense proof.evidence

/-- Each report that went through was exact, and no evidence went through twice or against a relayer
that did not do what it shows. -/
structure EvidenceExact (host : Host) (committed : Address → SlashableOffense → List UInt8 → Prop)
    (t : List RegistryStep) : Prop where
  exact : ∀ e ∈ t, ReportExact host e
  once : NeverTwice (fun e proof amount => reported e = some (proof, amount)) t
  guilty : OnlyGuilty committed (fun e proof amount => reported e = some (proof, amount)) t

/-- The reports that pass the checks are covered, rest on evidence of their own, and are true. -/
structure ReportsSound (host : Host) (committed : Address → SlashableOffense → List UInt8 → Prop)
    (t : List RegistryStep) : Prop where
  covered : ∀ e ∈ t, ReportCovered host e
  fresh : NeverTwice (Passing host) t
  honest : OnlyGuilty committed (Passing host) t

theorem reported_mem_trace {w₀ : World} {invs : List Invocation} {e : RegistryStep}
    (he : e ∈ (machine host).trace w₀ invs) (proof : SlashingProof) (amount : I128) :
    reported e = some (proof, amount) ↔ Passing host e proof amount := by
  obtain ⟨before, later, -, hstep⟩ := Machine.mem_trace _ he
  rw [hstep]
  exact reported_stepAt host _ _ proof amount

theorem reportExact_mem_trace {pool : Pool.World} {invs : List Invocation} {e : RegistryStep}
    (he : e ∈ (machine host).trace (.deployed pool) invs) :
    ReportExact host e ↔ ReportCovered host e := by
  obtain ⟨before, later, -, hstep⟩ := Machine.mem_trace _ he
  rw [hstep]
  exact reportExact_iff_covered (stocked_run host pool before) _

/-- **Evidence slashes.** The reports of a run are exact, made once and made of the guilty if and
only if those that pass the checks ask for what the stakes cover, each with evidence not used before,
of a relayer that did what it shows: the checks themselves see to none of the three. -/
theorem evidence_slashes_iff (host : Host) (pool : Pool.World) (invs : List Invocation)
    (committed : Address → SlashableOffense → List UInt8 → Prop) :
    EvidenceExact host committed ((machine host).trace (.deployed pool) invs) ↔
      ReportsSound host committed ((machine host).trace (.deployed pool) invs) := by
  constructor
  · intro h
    refine ⟨?_, ?_, ?_⟩
    · intro e he
      exact (reportExact_mem_trace he).mp (h.exact e he)
    · refine h.once.imp_of_mem ?_
      intro e e' he he' hdistinct proof amount proof' amount' hmade hmade'
      exact hdistinct proof amount proof' amount' ((reported_mem_trace he _ _).mpr hmade)
        ((reported_mem_trace he' _ _).mpr hmade')
    · intro e he proof amount hmade
      exact h.guilty e he proof amount ((reported_mem_trace he _ _).mpr hmade)
  · intro h
    refine ⟨?_, ?_, ?_⟩
    · intro e he
      exact (reportExact_mem_trace he).mpr (h.covered e he)
    · refine h.fresh.imp_of_mem ?_
      intro e e' he he' hdistinct proof amount proof' amount' hmade hmade'
      exact hdistinct proof amount proof' amount' ((reported_mem_trace he _ _).mp hmade)
        ((reported_mem_trace he' _ _).mp hmade')
    · intro e he proof amount hmade
      exact h.honest e he proof amount ((reported_mem_trace he _ _).mp hmade)

/-- The relayer of a hundred is reported twice for sixty, with the same evidence. -/
def Demo.again : List Invocation :=
  Demo.setup ++ [Demo.slash (I128.ofNat 60), Demo.slash (I128.ofNat 60)]

def Demo.first : RegistryStep :=
  (machine Demo.host).stepAt ((machine Demo.host).final (.deployed Demo.pool) Demo.setup)
    (Demo.slash (I128.ofNat 60))

def Demo.second : RegistryStep :=
  (machine Demo.host).stepAt
    ((machine Demo.host).final (.deployed Demo.pool) (Demo.setup ++ [Demo.slash (I128.ofNat 60)]))
    (Demo.slash (I128.ofNat 60))

theorem Demo.trace_again : (machine Demo.host).trace (.deployed Demo.pool) Demo.again =
    (machine Demo.host).trace (.deployed Demo.pool) Demo.setup ++ [Demo.first, Demo.second] := by
  rw [Demo.again, Machine.trace_append]
  rfl

/-- Both reports go through; the second takes forty and pays sixty. Of a relayer that did nothing,
the first is one too many. -/
theorem evidence_slashed_twice :
    ¬ EvidenceExact Demo.host (fun _ _ _ => True)
        ((machine Demo.host).trace (.deployed Demo.pool) Demo.again) ∧
      ¬ ReportExact Demo.host Demo.second ∧
      ¬ NeverTwice (fun e proof amount => reported e = some (proof, amount))
          ((machine Demo.host).trace (.deployed Demo.pool) Demo.again) ∧
      ¬ OnlyGuilty (fun _ _ _ => False) (fun e proof amount => reported e = some (proof, amount))
          ((machine Demo.host).trace (.deployed Demo.pool) Demo.again) := by
  have hfirst : reported Demo.first = some (Demo.proof, I128.ofNat 60) := by decide +kernel
  have hsecond : reported Demo.second = some (Demo.proof, I128.ofNat 60) := by decide +kernel
  have htwice : ¬ NeverTwice (fun e proof amount => reported e = some (proof, amount))
      ((machine Demo.host).trace (.deployed Demo.pool) Demo.again) := by
    intro h
    rw [Demo.trace_again] at h
    have hpair := List.rel_of_pairwise_cons (List.pairwise_append.mp h).2.1 (List.mem_singleton.mpr rfl)
    exact hpair _ _ _ _ hfirst hsecond ⟨rfl, rfl⟩
  refine ⟨fun h => htwice h.once, ?_, htwice, ?_⟩
  · intro h
    obtain ⟨-, relayer, relayer', -, hread, hread', -, hfell, -⟩ := h _ _ hsecond
    have hbefore : (Demo.second.pre.registry.relayers.lookup Demo.proof.relayer).map (·.holding) =
        some 40 := by
      decide +kernel
    have hafter : ((step Demo.host Demo.second.pre Demo.second.input).1.registry.relayers.lookup
        Demo.proof.relayer).map (·.holding) = some 0 := by
      decide +kernel
    rw [hread] at hbefore
    rw [hread'] at hafter
    have hheld : relayer.holding = 40 := Option.some.inj hbefore
    have hleft : relayer'.holding = 0 := Option.some.inj hafter
    rw [hheld, hleft] at hfell
    revert hfell
    decide
  · intro h
    refine h Demo.first ?_ _ _ hfirst
    rw [Demo.trace_again]
    exact List.mem_append_right _ List.mem_cons_self

end OpaqueStellar.Registry
