import OpaqueStellar.Pool.Contract

/-! # What a successful pool invocation did

`Effect` lists, one constructor per call, everything a successful invocation can have done: the
checks it passed and the world it left. `effect_of_exec` reads the executable entry points that
way once; results about runs go by cases on `Effect` and never unfold an entry point. -/

namespace OpaqueStellar.Pool

open OpaqueStellar.Lib OpaqueStellar.Soroban

variable {host : Host} {env : Env}

/-- `admin` signed the invocation and is the administrator of `config`, the stored one. -/
structure ByAdmin (host : Host) (env : Env) (s : PoolState) (admin : Address)
    (config : PoolConfig) : Prop where
  signed : admin ∈ env.auths
  foreign : admin ≠ host.self
  stored : s.config = some config
  isAdmin : config.admin = admin

/-- The root was published under `kind`, and not longer ago than the expiry of `config`. -/
def FreshRoot (env : Env) (s : PoolState) (config : PoolConfig) (kind : RootKind)
    (root : BytesN 32) : Prop :=
  ∃ entry, s.roots.lookup (kind, root) = some entry ∧
    env.sequence - entry.ledger ≤ config.rootExpiryLedgers

/-- The checks a withdrawal has to pass before anything is written. -/
structure Admitted (host : Host) (env : Env) (s : PoolState) (args : WithdrawArgs)
    (config : PoolConfig) : Prop where
  stored : s.config = some config
  unpaused : withdrawalsPauseActive env s = false
  positive : 0 < args.withdrawnValue.val
  feeNonneg : 0 ≤ args.fee.val
  feeLe : args.fee.val ≤ args.withdrawnValue.val
  aboveMinimum : Withdrawal.validateWithdrawalAmount s args.withdrawnValue.asU128 = true
  stateFresh : FreshRoot env s config .state args.stateRoot
  aspFresh : FreshRoot env s config .asp args.aspRoot
  unspent : s.nullifiers.lookup args.nullifierHash = none
  verified : host.verifyProofV3 config.groth16Verifier args.proofA args.proofB args.proofC
    (args.publicInputs host config.scope) = some true
  custody : s.totWd.val + args.withdrawnValue.val ≤ s.totDep.val

/-- The world after `root` was published under `kind`. -/
def published (env : Env) (w : World) (kind : RootKind) (root hash : BytesN 32) : World :=
  { w with
    pool := { w.pool with
      roots := w.pool.roots.insert (kind, root) ⟨env.sequence, hash⟩
      history := fun k =>
        if k = kind then pushHistory (w.pool.history k) root else w.pool.history k }
    events := w.events ++ [.RootPublished kind root env.sequence hash] }

/-- The effect of each call. -/
inductive Effect (host : Host) (env : Env) (w : World) : Call → World → Ret → Prop
  | initializePool {admin verifier sac : Address} {scope : UInt64}
      (signed : admin ∈ env.auths) (fresh : w.pool.config = none) :
      Effect host env w (.initializePool admin verifier sac scope)
        { w with
          pool := { w.pool with
            config := some ⟨admin, verifier, sac, scope, DEFAULT_ROOT_EXPIRY_LEDGERS⟩
            history := fun _ => []
            depCount := 0
            totDep := 0
            totWd := 0
            treeCapacity :=
              some ⟨Capacity.MAX_COMMITMENTS, 0, Capacity.TREE_DEPTH, env.timestamp⟩
            withdrawalConfig := some ⟨0, env.timestamp, admin⟩
            withdrawalAdmin := some admin }
          events := w.events ++ [.capInit Capacity.MAX_COMMITMENTS] ++ [.wdCfg 0] } .unit
  | deposit {depositor : Address} {value : I128} {commitment : BytesN 32} {config : PoolConfig}
      {tokens : TokenLedger} {totDep : I128} {alert : Option CapacityAlert}
      {alerts : List PoolEvent}
      (signed : depositor ∈ env.auths) (foreign : depositor ≠ host.self)
      (unpaused : w.pool.depositsPaused = false) (positive : 0 < value.val)
      (stored : w.pool.config = some config)
      (room : (Capacity.getTreeCapacity env w.pool).currentCount <
        (Capacity.getTreeCapacity env w.pool).maxCapacity)
      (transferred : (w.tokens.transfer env config.nativeSac depositor host.self value :
        Result PoolError TokenLedger) = .ok tokens)
      (total : totDep.val = w.pool.totDep.val + value.val)
      (alerting : ∀ e ∈ alerts, ∃ level bps count, e = .capAlert level bps count) :
      Effect host env w (.deposit depositor value commitment w.pool.depCount)
        { pool := { w.pool with
            commitments := w.pool.commitments.insert commitment w.pool.depCount
            depCount := w.pool.depCount + 1
            treeCapacity := some { Capacity.getTreeCapacity env w.pool with
              currentCount := (Capacity.getTreeCapacity env w.pool).currentCount + 1
              lastUpdated := env.timestamp }
            lastAlert := alert
            totDep := totDep }
          tokens := tokens
          events := w.events ++ alerts ++
            [.Deposit commitment w.pool.depCount value config.scope] }
        (.index w.pool.depCount)
  | updateStateRoot {admin : Address} {root hash : BytesN 32} {config : PoolConfig}
      (byAdmin : ByAdmin host env w.pool admin config) :
      Effect host env w (.updateStateRoot admin root hash) (published env w .state root hash) .unit
  | updateAspRoot {admin : Address} {root hash : BytesN 32} {config : PoolConfig}
      (byAdmin : ByAdmin host env w.pool admin config) :
      Effect host env w (.updateAspRoot admin root hash) (published env w .asp root hash) .unit
  | setRootExpiry {admin : Address} {expiry : ℕ} {config : PoolConfig}
      (byAdmin : ByAdmin host env w.pool admin config) :
      Effect host env w (.setRootExpiry admin expiry)
        { w with pool.config := some { config with rootExpiryLedgers := expiry } } .unit
  | transferAdmin {admin newAdmin : Address} {config : PoolConfig}
      (byAdmin : ByAdmin host env w.pool admin config) :
      Effect host env w (.transferAdmin admin newAdmin)
        { w with pool.config := some { config with admin := newAdmin } } .unit
  | pauseDeposits {admin : Address} {config : PoolConfig}
      (byAdmin : ByAdmin host env w.pool admin config) :
      Effect host env w (.pauseDeposits admin)
        { w with
          pool.depositsPaused := true
          events := w.events ++ [.DepositsPaused env.sequence] } .unit
  | unpauseDeposits {admin : Address} {config : PoolConfig}
      (byAdmin : ByAdmin host env w.pool admin config) :
      Effect host env w (.unpauseDeposits admin)
        { w with
          pool.depositsPaused := false
          events := w.events ++ [.DepositsUnpaused env.sequence] } .unit
  | requestPauseAgain {admin : Address} {config : PoolConfig}
      (byAdmin : ByAdmin host env w.pool admin config)
      (pending : w.pool.wdPauseRequest ≠ NO_PAUSE_REQUEST) :
      Effect host env w (.requestPauseWithdrawals admin) w .unit
  | requestPause {admin : Address} {config : PoolConfig}
      (byAdmin : ByAdmin host env w.pool admin config)
      (idle : w.pool.wdPauseRequest = NO_PAUSE_REQUEST) :
      Effect host env w (.requestPauseWithdrawals admin)
        { w with
          pool.wdPauseRequest := env.sequence
          events := w.events ++ [.WithdrawalPauseRequested env.sequence
            (env.sequence + WITHDRAWAL_PAUSE_TIMELOCK_LEDGERS)] } .unit
  | unpauseWithdrawals {admin : Address} {config : PoolConfig}
      (byAdmin : ByAdmin host env w.pool admin config)
      (pending : w.pool.wdPauseRequest ≠ NO_PAUSE_REQUEST) :
      Effect host env w (.unpauseWithdrawals admin)
        { w with
          pool.wdPauseRequest := NO_PAUSE_REQUEST
          events := w.events ++ [.WithdrawalsUnpaused env.sequence] } .unit
  | setWithdrawalMinimum {admin : Address} {minimum : ℕ} {config : PoolConfig}
      (byAdmin : ByAdmin host env w.pool admin config)
      (withdrawalAdmin : w.pool.withdrawalAdmin = some admin)
      (positive : 0 < minimum) (bounded : minimum ≤ 1000000000000000) :
      Effect host env w (.setWithdrawalMinimum admin minimum)
        { w with
          pool.withdrawalConfig := some ⟨minimum, env.timestamp, admin⟩
          events := w.events ++ [.minUpd minimum admin] } .unit
  | withdraw {args : WithdrawArgs} {config : PoolConfig} {totWd payout : I128}
      {paid tokens : TokenLedger}
      (admitted : Admitted host env w.pool args config)
      (total : totWd.val = w.pool.totWd.val + args.withdrawnValue.val)
      (net : payout.val = args.withdrawnValue.val - args.fee.val)
      (toRecipient : payPositive env w.tokens config.nativeSac host.self args.recipient payout =
        .ok paid)
      (toRelayer : payPositive env paid config.nativeSac host.self args.relayer args.fee =
        .ok tokens)
      (fits : w.pool.depCount + 1 < 2 ^ 64) :
      Effect host env w (.withdraw args)
        { pool := { w.pool with
            totWd := totWd
            nullifiers := w.pool.nullifiers.insert args.nullifierHash true
            commitments := w.pool.commitments.insert args.newCommitment w.pool.depCount
            depCount := w.pool.depCount + 1 }
          tokens := tokens
          events := w.events ++
            [.Withdraw args.nullifierHash args.newCommitment w.pool.depCount
              args.withdrawnValue] } .unit
  | tokenTransfer {token src dst : Address} {amount : I128} {tokens : TokenLedger}
      (signed : src ∈ env.auths) (foreign : src ≠ host.self)
      (transferred : (w.tokens.transfer env token src dst amount : Result PoolError TokenLedger) =
        .ok tokens) :
      Effect host env w (.tokenTransfer token src dst amount) { w with tokens := tokens } .unit

/-! ## Reading the entry points -/

theorem requireAdmin_eq_ok {s : PoolState} {admin : Address} {config : PoolConfig} :
    requireAdmin host env s admin = .ok config ↔ ByAdmin host env s admin config := by
  simp only [requireAdmin, cfg, bind_eq_ok, Env.requireAuth_eq_ok, exists_const, expect_eq_ok,
    ensure_eq_ok, pure_eq_ok]
  constructor
  · rintro ⟨⟨hsigned, hforeign⟩, config', hstored, hadmin, rfl⟩
    exact ⟨hsigned, hforeign, hstored, hadmin⟩
  · rintro ⟨hsigned, hforeign, hstored, hadmin⟩
    exact ⟨⟨hsigned, hforeign⟩, config, hstored, hadmin, rfl⟩

theorem requireFreshRoot_eq_ok {s : PoolState} {config : PoolConfig} {kind : RootKind}
    {root : BytesN 32} {unknown : PoolError} {u : Unit} :
    requireFreshRoot env s config kind root unknown = .ok u ↔
      FreshRoot env s config kind root := by
  simp only [requireFreshRoot, FreshRoot, bind_eq_ok, okOr_eq_ok, ensure_eq_ok]

/-- Counting a leaf moves the capacity record by one and may leave an alert behind. -/
theorem incrementCommitmentCount_eq_ok {w w' : World}
    (h : Capacity.incrementCommitmentCount env w = .ok w') :
    ∃ (alert : Option CapacityAlert) (alerts : List PoolEvent),
      (∀ e ∈ alerts, ∃ level bps count, e = .capAlert level bps count) ∧
      w' = { w with
        pool.treeCapacity := some { Capacity.getTreeCapacity env w.pool with
          currentCount := (Capacity.getTreeCapacity env w.pool).currentCount + 1
          lastUpdated := env.timestamp }
        pool.lastAlert := alert
        events := w.events ++ alerts } := by
  simp only [Capacity.incrementCommitmentCount, bind_eq_ok, addChecked_eq_ok, pure_eq_ok] at h
  obtain ⟨count, ⟨-, rfl⟩, rfl⟩ := h
  unfold Capacity.checkAndEmitCapacityAlert
  split
  · refine ⟨_, [_], ?_, rfl⟩
    intro e he
    exact ⟨_, _, _, List.mem_singleton.mp he⟩
  · exact ⟨w.pool.lastAlert, [], by simp, by simp⟩

theorem deposit_effect {w w' : World} {depositor : Address} {value : I128}
    {commitment : BytesN 32} {expectedIndex index : ℕ}
    (h : deposit host env w depositor value commitment expectedIndex = .ok (w', index)) :
    Effect host env w (.deposit depositor value commitment expectedIndex) w' (.index index) := by
  simp only [deposit, cfg, bind_eq_ok, Env.requireAuth_eq_ok, exists_const, expect_eq_ok,
    ensure_eq_ok, pure_eq_ok, I128.checked_eq_ok, addChecked_eq_ok, Prod.mk.injEq] at h
  obtain ⟨⟨hsigned, hforeign⟩, hunpaused, hpositive, config, hstored, rfl, hroom, tokens,
    htransfer, depCount, ⟨-, rfl⟩, w₁, hcount, totDep, htotal, rfl, rfl⟩ := h
  obtain ⟨alert, alerts, halerting, rfl⟩ := incrementCommitmentCount_eq_ok hcount
  have hroom' : (Capacity.getTreeCapacity env w.pool).currentCount <
      (Capacity.getTreeCapacity env w.pool).maxCapacity := by
    simpa [Capacity.isTreeAtCapacity] using hroom
  exact .deposit hsigned hforeign hunpaused hpositive hstored hroom' htransfer htotal halerting

theorem withdraw_effect {w w' : World} {args : WithdrawArgs}
    (h : withdraw host env w args = .ok w') :
    Effect host env w (.withdraw args) w' .unit := by
  simp only [withdraw, cfg, bind_eq_ok, exists_const, expect_eq_ok, ensure_eq_ok, pure_eq_ok,
    requireFreshRoot_eq_ok, hostCall_eq_ok, I128.checked_eq_ok, addChecked_eq_ok] at h
  obtain ⟨hunpaused, config, hstored, ⟨hpositive, hfee, hfeeLe⟩, hminimum, hstate, hasp, hunspent,
    valid, hverified, rfl, totWd, htotal, hcustody, depCount, ⟨hfits, rfl⟩, payout, hnet, paid,
    hpaid, tokens, htokens, rfl⟩ := h
  rw [Option.isSome_eq_false_iff, Option.isNone_iff_eq_none] at hunspent
  rw [htotal] at hcustody
  exact .withdraw ⟨hstored, hunpaused, hpositive, hfee, hfeeLe, hminimum, hstate, hasp, hunspent,
    hverified, hcustody⟩ htotal hnet hpaid htokens hfits

/-- A withdrawal goes through: it is admitted, the next index fits its type and the token accepts
both payouts. -/
structure Completes (host : Host) (env : Env) (w : World) (args : WithdrawArgs)
    (config : PoolConfig) : Prop where
  admitted : Admitted host env w.pool args config
  fits : w.pool.depCount + 1 < 2 ^ 64
  paid : ∃ (payout : I128) (paid tokens : TokenLedger),
    payout.val = args.withdrawnValue.val - args.fee.val ∧
    payPositive env w.tokens config.nativeSac host.self args.recipient payout = .ok paid ∧
    payPositive env paid config.nativeSac host.self args.relayer args.fee = .ok tokens

theorem Effect.completes {w w' : World} {args : WithdrawArgs} {r : Ret}
    (h : Effect host env w (.withdraw args) w' r) : ∃ config, Completes host env w args config := by
  cases h with
  | withdraw hadmitted _ hnet hpaid htokens hfits =>
      exact ⟨_, hadmitted, hfits, _, _, _, hnet, hpaid, htokens⟩

/-- The checks of a withdrawal, its index and its payouts are all that can stop it. -/
theorem withdraw_of_completes {w : World} {args : WithdrawArgs} {config : PoolConfig}
    (h : Completes host env w args config) : ∃ w', withdraw host env w args = .ok w' := by
  obtain ⟨⟨hstored, hunpaused, hpositive, hfee, hfeeLe, hminimum, hstate, hasp, hunspent, hverified,
    hcustody⟩, hfits, payout, paid, tokens, hnet, hpaid, htokens⟩ := h
  have hlower := w.pool.totWd.lower
  have hupper := w.pool.totDep.upper
  simp only [withdraw, cfg, bind_eq_ok, exists_const, expect_eq_ok, ensure_eq_ok, pure_eq_ok,
    requireFreshRoot_eq_ok, hostCall_eq_ok, I128.checked_eq_ok, addChecked_eq_ok]
  refine ⟨_, hunpaused, config, hstored, ⟨hpositive, hfee, hfeeLe⟩, hminimum, hstate, hasp, ?_, true,
    hverified, rfl, ⟨w.pool.totWd.val + args.withdrawnValue.val, by omega, by omega⟩, rfl, hcustody,
    _, ⟨hfits, rfl⟩, payout, hnet, paid, hpaid, tokens, htokens, rfl⟩
  rw [hunspent]
  rfl

/-- Failures of a withdrawal that come from its checks, other than the pause. -/
def CheckFailure : Failure PoolError → Prop
  | .err .WithdrawalsPaused => False
  | .trap .insufficientBalance => False
  | _ => True

/-- The other failures of a withdrawal come from the pause or from the payouts, and the payouts are
made with the amounts and the custody check already passed. -/
theorem avoids_withdraw {e : Failure PoolError} {w : World} {args : WithdrawArgs}
    (he : ¬ CheckFailure e)
    (hpause : e = .err .WithdrawalsPaused → withdrawalsPauseActive env w.pool = false)
    (hpay : ∀ (config : PoolConfig) (payout : I128), w.pool.config = some config →
      0 ≤ args.fee.val ∧ args.fee.val ≤ args.withdrawnValue.val →
      w.pool.totWd.val + args.withdrawnValue.val ≤ w.pool.totDep.val →
      payout.val = args.withdrawnValue.val - args.fee.val →
      Avoids e (payPositive env w.tokens config.nativeSac host.self args.recipient payout) ∧
      ∀ paid, payPositive env w.tokens config.nativeSac host.self args.recipient payout = .ok paid →
        Avoids e (payPositive env paid config.nativeSac host.self args.relayer args.fee)) :
    Avoids e (withdraw host env w args) := by
  have hne : ∀ {f : Failure PoolError}, CheckFailure f → f ≠ e := by
    rintro f hf rfl
    exact he hf
  have hfresh : ∀ {config : PoolConfig} {kind : RootKind} {root : BytesN 32} {unknown : PoolError},
      unknown ≠ .WithdrawalsPaused →
      Avoids e (requireFreshRoot env w.pool config kind root unknown) := by
    intro config kind root unknown hunknown
    refine Avoids.bind (avoids_okOr (hne ?_)) fun _ _ => avoids_ensure (hne trivial)
    cases unknown <;> trivial
  unfold withdraw
  refine Avoids.bind ?_ fun _ _ => ?_
  · by_cases h : e = .err .WithdrawalsPaused
    · exact avoids_ensure_of_pos (hpause h)
    · exact avoids_ensure (Ne.symm h)
  refine Avoids.bind (avoids_expect (hne trivial)) fun config hconfig => ?_
  refine Avoids.bind (avoids_ensure (hne trivial)) fun _ hamount => ?_
  refine Avoids.bind (avoids_ensure (hne trivial)) fun _ _ => ?_
  refine Avoids.bind (hfresh (by decide)) fun _ _ => ?_
  refine Avoids.bind (hfresh (by decide)) fun _ _ => ?_
  refine Avoids.bind (avoids_ensure (hne trivial)) fun _ _ => ?_
  refine Avoids.bind (avoids_hostCall (hne trivial)) fun _ _ => ?_
  refine Avoids.bind (avoids_ensure (hne trivial)) fun _ _ => ?_
  refine Avoids.bind (I128.avoids_checked (hne trivial)) fun totWd htotal => ?_
  refine Avoids.bind (avoids_ensure (hne trivial)) fun _ hcustody => ?_
  refine Avoids.bind (avoids_addChecked (hne trivial)) fun _ _ => ?_
  refine Avoids.bind (I128.avoids_checked (hne trivial)) fun payout hnet => ?_
  rw [cfg, expect_eq_ok] at hconfig
  rw [ensure_eq_ok] at hamount hcustody
  rw [I128.checked_eq_ok] at htotal hnet
  rw [htotal] at hcustody
  obtain ⟨hfirst, hsecond⟩ := hpay config payout hconfig hamount.2 hcustody hnet
  refine Avoids.bind hfirst fun paid hpaid => ?_
  exact Avoids.bind (hsecond paid hpaid) fun _ _ => avoids_pure

theorem publishRoot_eq_ok {w w' : World} {admin : Address} {root hash : BytesN 32}
    {kind : RootKind} (h : publishRoot host env w admin root hash kind = .ok w') :
    ∃ config, ByAdmin host env w.pool admin config ∧ w' = published env w kind root hash := by
  simp only [publishRoot, bind_eq_ok, requireAdmin_eq_ok, pure_eq_ok] at h
  obtain ⟨config, hadmin, rfl⟩ := h
  exact ⟨config, hadmin, rfl⟩

/-- **Every successful invocation has the effect of its call.** -/
theorem effect_of_exec {w w' : World} {call : Call} {r : Ret}
    (h : exec host env w call = .ok (w', r)) : Effect host env w call w' r := by
  cases call with
  | initializePool admin verifier sac scope =>
      simp only [exec, initializePool, bind_eq_ok, Env.requireAuth_eq_ok, exists_const,
        ensure_eq_ok, pure_eq_ok, Prod.mk.injEq] at h
      obtain ⟨w₁, ⟨⟨hsigned, -⟩, hfresh, rfl⟩, rfl, rfl⟩ := h
      rw [Option.isSome_eq_false_iff, Option.isNone_iff_eq_none] at hfresh
      exact .initializePool hsigned hfresh
  | deposit depositor value commitment expectedIndex =>
      simp only [exec, bind_eq_ok, pure_eq_ok, Prod.mk.injEq] at h
      obtain ⟨⟨w₁, index⟩, hdeposit, rfl, rfl⟩ := h
      exact deposit_effect hdeposit
  | updateStateRoot admin root hash =>
      simp only [exec, updateStateRoot, bind_eq_ok, pure_eq_ok, Prod.mk.injEq] at h
      obtain ⟨w₁, hpublish, rfl, rfl⟩ := h
      obtain ⟨config, hadmin, rfl⟩ := publishRoot_eq_ok hpublish
      exact .updateStateRoot hadmin
  | updateAspRoot admin root hash =>
      simp only [exec, updateAspRoot, bind_eq_ok, pure_eq_ok, Prod.mk.injEq] at h
      obtain ⟨w₁, hpublish, rfl, rfl⟩ := h
      obtain ⟨config, hadmin, rfl⟩ := publishRoot_eq_ok hpublish
      exact .updateAspRoot hadmin
  | setRootExpiry admin expiry =>
      simp only [exec, setRootExpiry, bind_eq_ok, requireAdmin_eq_ok, pure_eq_ok,
        Prod.mk.injEq] at h
      obtain ⟨w₁, ⟨config, hadmin, rfl⟩, rfl, rfl⟩ := h
      exact .setRootExpiry hadmin
  | transferAdmin admin newAdmin =>
      simp only [exec, transferAdmin, bind_eq_ok, requireAdmin_eq_ok, pure_eq_ok,
        Prod.mk.injEq] at h
      obtain ⟨w₁, ⟨config, hadmin, rfl⟩, rfl, rfl⟩ := h
      exact .transferAdmin hadmin
  | pauseDeposits admin =>
      simp only [exec, pauseDeposits, bind_eq_ok, requireAdmin_eq_ok, pure_eq_ok,
        Prod.mk.injEq] at h
      obtain ⟨w₁, ⟨config, hadmin, rfl⟩, rfl, rfl⟩ := h
      exact .pauseDeposits hadmin
  | unpauseDeposits admin =>
      simp only [exec, unpauseDeposits, bind_eq_ok, requireAdmin_eq_ok, pure_eq_ok,
        Prod.mk.injEq] at h
      obtain ⟨w₁, ⟨config, hadmin, rfl⟩, rfl, rfl⟩ := h
      exact .unpauseDeposits hadmin
  | requestPauseWithdrawals admin =>
      simp only [exec, requestPauseWithdrawals, bind_eq_ok, requireAdmin_eq_ok, pure_eq_ok,
        Prod.mk.injEq] at h
      obtain ⟨w₁, ⟨config, hadmin, hrequest⟩, rfl, rfl⟩ := h
      split at hrequest
      · next hpending =>
          rw [pure_eq_ok] at hrequest
          subst hrequest
          exact .requestPauseAgain hadmin hpending
      · next hidle =>
          simp only [bind_eq_ok, addChecked_eq_ok, pure_eq_ok] at hrequest
          obtain ⟨activatesAt, ⟨-, rfl⟩, rfl⟩ := hrequest
          exact .requestPause hadmin (not_not.mp hidle)
  | unpauseWithdrawals admin =>
      simp only [exec, unpauseWithdrawals, bind_eq_ok, requireAdmin_eq_ok, exists_const,
        ensure_eq_ok, pure_eq_ok, Prod.mk.injEq] at h
      obtain ⟨w₁, ⟨config, hadmin, hpending, rfl⟩, rfl, rfl⟩ := h
      exact .unpauseWithdrawals hadmin hpending
  | setWithdrawalMinimum admin minimum =>
      simp only [exec, setWithdrawalMinimum, Withdrawal.updateMinimumWithdrawalAmount, bind_eq_ok,
        requireAdmin_eq_ok, exists_const, expect_eq_ok, ensure_eq_ok, pure_eq_ok,
        Prod.mk.injEq] at h
      obtain ⟨w₁, ⟨config, hadmin, wdAdmin, hstored, rfl, hpositive, hbounded, rfl⟩, rfl, rfl⟩ := h
      exact .setWithdrawalMinimum hadmin hstored hpositive hbounded
  | withdraw args =>
      simp only [exec, bind_eq_ok, pure_eq_ok, Prod.mk.injEq] at h
      obtain ⟨w₁, hwithdraw, rfl, rfl⟩ := h
      exact withdraw_effect hwithdraw
  | tokenTransfer token src dst amount =>
      simp only [exec, bind_eq_ok, Env.requireAuth_eq_ok, exists_const, pure_eq_ok,
        Prod.mk.injEq] at h
      obtain ⟨⟨hsigned, hforeign⟩, tokens, htransfer, rfl, rfl⟩ := h
      exact .tokenTransfer hsigned hforeign htransfer

/-! ## The calls that leave the books alone

Only initialisation, deposits and withdrawals touch the counters, the leaves and the nullifiers;
`Frame` says what every other call keeps. -/

def Quiet : Call → Prop
  | .initializePool .. => False
  | .deposit .. => False
  | .withdraw .. => False
  | _ => True

/-- The part of the configuration that is fixed by the initialisation. -/
def PoolConfig.wiring (config : PoolConfig) : Address × Address × UInt64 :=
  (config.groth16Verifier, config.nativeSac, config.scope)

/-- An event that announces a new leaf of the state tree. -/
def leafOf : PoolEvent → Option (BytesN 32 × ℕ)
  | .Deposit commitment index _ _ => some (commitment, index)
  | .Withdraw _ newCommitment index _ => some (newCommitment, index)
  | _ => none

structure Frame (host : Host) (w w' : World) : Prop where
  depCount : w'.pool.depCount = w.pool.depCount
  totDep : w'.pool.totDep = w.pool.totDep
  totWd : w'.pool.totWd = w.pool.totWd
  nullifiers : w'.pool.nullifiers = w.pool.nullifiers
  commitments : w'.pool.commitments = w.pool.commitments
  treeCapacity : w'.pool.treeCapacity = w.pool.treeCapacity
  wiring : w'.pool.config.map PoolConfig.wiring = w.pool.config.map PoolConfig.wiring
  leaves : w'.events.filterMap leafOf = w.events.filterMap leafOf
  balance : ∀ token, w.tokens token host.self ≤ w'.tokens token host.self

theorem Frame.refl (host : Host) (w : World) : Frame host w w :=
  ⟨rfl, rfl, rfl, rfl, rfl, rfl, rfl, rfl, fun _ => le_refl _⟩

/-- **Frame rule** for the quiet calls. -/
theorem frame_of_effect {w w' : World} {call : Call} {r : Ret} (h : Effect host env w call w' r)
    (hq : Quiet call) : Frame host w w' := by
  have hpublished : ∀ e : PoolEvent, leafOf e = none →
      (w.events ++ [e]).filterMap leafOf = w.events.filterMap leafOf := by
    intro e he
    rw [List.filterMap_append, List.filterMap_cons_none he, List.filterMap_nil, List.append_nil]
  cases h with
  | initializePool => exact hq.elim
  | deposit => exact hq.elim
  | withdraw => exact hq.elim
  | setRootExpiry hadmin =>
      refine ⟨rfl, rfl, rfl, rfl, rfl, rfl, ?_, rfl, fun _ => le_refl _⟩
      rw [hadmin.stored]
      rfl
  | transferAdmin hadmin =>
      refine ⟨rfl, rfl, rfl, rfl, rfl, rfl, ?_, rfl, fun _ => le_refl _⟩
      rw [hadmin.stored]
      rfl
  | tokenTransfer hsigned hforeign htransfer =>
      refine ⟨rfl, rfl, rfl, rfl, rfl, rfl, rfl, rfl, ?_⟩
      intro token
      exact TokenLedger.le_of_transfer htransfer token hforeign.symm
  | requestPauseAgain => exact Frame.refl host w
  | _ => exact ⟨rfl, rfl, rfl, rfl, rfl, rfl, rfl, hpublished _ rfl, fun _ => le_refl _⟩

/-- A withdrawal takes tokens from the pool only. -/
theorem balance_of_withdraw {w w' : World} {args : WithdrawArgs} {r : Ret}
    (h : Effect host env w (.withdraw args) w' r) {holder : Address} (hother : holder ≠ host.self)
    (token : Address) : w.tokens token holder ≤ w'.tokens token holder := by
  cases h with
  | withdraw _ _ _ hpaid htokens =>
      exact le_trans (TokenLedger.le_of_transferPositive_of_ne hpaid token hother)
        (TokenLedger.le_of_transferPositive_of_ne htokens token hother)

/-- Whoever signs nothing, and is not the pool, loses nothing by a call to it. -/
theorem balance_of_effect {w w' : World} {call : Call} {r : Ret} (h : Effect host env w call w' r)
    {holder : Address} (hother : holder ≠ host.self) (hunsigned : holder ∉ env.auths)
    (token : Address) : w.tokens token holder ≤ w'.tokens token holder := by
  have hne : ∀ {src : Address}, src ∈ env.auths → holder ≠ src := by
    intro src hsigned heq
    exact hunsigned (heq ▸ hsigned)
  cases h with
  | deposit hsigned _ _ _ _ _ htransfer =>
      exact TokenLedger.le_of_transfer htransfer token (hne hsigned)
  | withdraw hadmitted htotal hnet hpaid htokens hfits =>
      exact balance_of_withdraw (.withdraw hadmitted htotal hnet hpaid htokens hfits) hother token
  | tokenTransfer hsigned _ htransfer =>
      exact TokenLedger.le_of_transfer htransfer token (hne hsigned)
  | _ => exact le_refl _

/-- A step either failed and changed nothing, or had the effect of its call. -/
theorem step_cases (host : Host) (w : World) (inv : Invocation) :
    (∃ e, step host w inv = (w, .error e)) ∨
      ∃ w' r, step host w inv = (w', .ok r) ∧ Effect host inv.env w inv.call w' r := by
  cases h : exec host inv.env w inv.call with
  | error e => exact .inl ⟨e, step_of_error host h⟩
  | ok p =>
      obtain ⟨w', r⟩ := p
      exact .inr ⟨w', r, step_of_ok host h, effect_of_exec h⟩

/-- A step of a run that succeeded is one in which the machine moved on with its effect. -/
theorem effect_of_mem_trace {w₀ : World} {invs : List Invocation} {e : PoolStep} {r : Ret}
    (he : e ∈ (machine host).trace w₀ invs) (hout : e.output = .ok r) :
    ∃ w', step host e.pre e.input = (w', .ok r) ∧
      Effect host e.input.env e.pre e.input.call w' r := by
  obtain ⟨before, later, -, hstep⟩ := Machine.mem_trace _ he
  rw [hstep] at hout ⊢
  rcases step_cases host ((machine host).final w₀ before) e.input with
    ⟨e', herror⟩ | ⟨w', r', hok, heffect⟩
  · have hbad : Except.error e' = Except.ok r := (congrArg Prod.snd herror).symm.trans hout
    cases hbad
  · have hret : (Except.ok r' : Outcome) = .ok r := (congrArg Prod.snd hok).symm.trans hout
    cases hret
    exact ⟨w', hok, heffect⟩

/-- A failed invocation of the pool is rolled back. -/
theorem machine_eq (host : Host) :
    machine host = .transactional fun w inv => exec host inv.env w inv.call := by
  refine congrArg Machine.mk ?_
  funext w inv
  cases h : exec host inv.env w inv.call with
  | error e => simp only [step, h]
  | ok p => simp only [step, h]

/-- **Invariants of the pool.** What holds at the start, survives a failed invocation and survives
the effect of a successful one holds after every run; with `P`, after every run whose steps all
satisfy `P`. -/
theorem run_invariant_of_steps {P : PoolStep → Prop} {I : List PoolStep → World → Prop} {w₀ : World}
    (h₀ : I [] w₀)
    (hfail : ∀ t w inv e, I t w → I (t ++ [⟨w, inv, .error e⟩]) w)
    (hok : ∀ t w inv w' r, I t w → P ⟨w, inv, .ok r⟩ → Effect host inv.env w inv.call w' r →
      I (t ++ [⟨w, inv, .ok r⟩]) w')
    (invs : List Invocation) (hP : ∀ e ∈ (machine host).trace w₀ invs, P e) :
    I ((machine host).trace w₀ invs) ((machine host).final w₀ invs) := by
  rw [machine_eq] at hP ⊢
  refine Machine.transactional_invariant_of_steps h₀ ?_ ?_ invs hP
  · intro t w inv e hI _
    exact hfail t w inv e hI
  · intro t w inv w' r hI hp hexec
    exact hok t w inv w' r hI hp (effect_of_exec hexec)

theorem run_invariant {I : List PoolStep → World → Prop} {w₀ : World} (h₀ : I [] w₀)
    (hfail : ∀ t w inv e, I t w → I (t ++ [⟨w, inv, .error e⟩]) w)
    (hok : ∀ t w inv w' r, I t w → Effect host inv.env w inv.call w' r →
      I (t ++ [⟨w, inv, .ok r⟩]) w')
    (invs : List Invocation) :
    I ((machine host).trace w₀ invs) ((machine host).final w₀ invs) :=
  run_invariant_of_steps (P := fun _ => True) h₀ hfail
    (fun t w inv w' r hI _ heffect => hok t w inv w' r hI heffect) invs (fun _ _ => trivial)

end OpaqueStellar.Pool
