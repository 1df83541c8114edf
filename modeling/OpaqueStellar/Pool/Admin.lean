import OpaqueStellar.Pool.Effect

/-! # The privacy pool: handing over the administration

Nine entry points are reserved to the administrator. After `transfer_admin(a, b)` a call by `b`
should do what the same call by `a` would have done before, with `b` written where `a` would have
been, and `a` should be refused. The second part always holds. The first rests on every check
reading `config.admin`, and one does not: the withdrawal minimum is guarded a second time, by an
administrator entry of its own that the transfer leaves behind. -/

namespace OpaqueStellar.Pool

open OpaqueStellar.Lib OpaqueStellar.Soroban

variable {host : Host} {env : Env}

/-- The administrator's entry points, without the caller. -/
inductive AdminCall where
  | updateStateRoot (root datasetHash : BytesN 32)
  | updateAspRoot (root datasetHash : BytesN 32)
  | setRootExpiry (expiryLedgers : ℕ)
  | transferAdmin (newAdmin : Address)
  | pauseDeposits
  | unpauseDeposits
  | requestPauseWithdrawals
  | unpauseWithdrawals
  | setWithdrawalMinimum (newMinimum : ℕ)

namespace AdminCall

/-- The call by `admin`. -/
def call (op : AdminCall) (admin : Address) : Call :=
  match op with
  | updateStateRoot root hash => .updateStateRoot admin root hash
  | updateAspRoot root hash => .updateAspRoot admin root hash
  | setRootExpiry expiry => .setRootExpiry admin expiry
  | transferAdmin newAdmin => .transferAdmin admin newAdmin
  | pauseDeposits => .pauseDeposits admin
  | unpauseDeposits => .unpauseDeposits admin
  | requestPauseWithdrawals => .requestPauseWithdrawals admin
  | unpauseWithdrawals => .unpauseWithdrawals admin
  | setWithdrawalMinimum minimum => .setWithdrawalMinimum admin minimum

/-- The world a call left, with `b` where the caller is recorded as the administrator. A transfer
records its new administrator, not its caller. -/
def recordedFor (op : AdminCall) (b : Address) (w : World) : World :=
  match op with
  | transferAdmin _ => w
  | setWithdrawalMinimum minimum =>
      { w with
        pool.config := w.pool.config.map fun config => { config with admin := b }
        pool.withdrawalConfig := w.pool.withdrawalConfig.map fun c => { c with updatedBy := b }
        events := w.events.dropLast ++ [.minUpd minimum b] }
  | _ => { w with pool.config := w.pool.config.map fun config => { config with admin := b } }

end AdminCall

/-- The environment of a call that `a` signed, besides whoever else did. -/
def signedBy (env : Env) (a : Address) : Env := { env with auths := a :: env.auths }

/-- Each call by `b` in `w'` does what it would have done by `a` in `w`, with `b` recorded for `a`,
and `a`, if it is another, is refused in `w'`. -/
def HandedOver (host : Host) (a b : Address) (w w' : World) : Prop :=
  (∀ (op : AdminCall) (env : Env),
    exec host (signedBy env b) w' (op.call b) =
      (exec host (signedBy env a) w (op.call a)).map fun p => (op.recordedFor b p.1, p.2)) ∧
  (a ≠ b → ∀ (op : AdminCall) (env : Env), ∃ e, exec host env w' (op.call a) = .error e)

/-! ## The old administrator -/

/-- A call of the administrator starts by checking who it is. -/
theorem exec_call_error {w : World} {op : AdminCall} {a : Address} {e : Failure PoolError}
    (h : requireAdmin host env w.pool a = .error e) :
    exec host env w (op.call a) = .error e := by
  cases op <;>
    simp only [AdminCall.call, exec, updateStateRoot, updateAspRoot, publishRoot, setRootExpiry,
      transferAdmin, pauseDeposits, unpauseDeposits, requestPauseWithdrawals, unpauseWithdrawals,
      setWithdrawalMinimum, h] <;> rfl

theorem requireAdmin_other {s : PoolState} {a : Address} {config : PoolConfig}
    (hstored : s.config = some config) (hother : config.admin ≠ a) :
    ∃ e, requireAdmin host env s a = .error e := by
  cases h : requireAdmin host env s a with
  | error e => exact ⟨e, rfl⟩
  | ok config' =>
      obtain ⟨-, -, hstored', hadmin⟩ := requireAdmin_eq_ok.mp h
      obtain rfl := Option.some.inj (hstored.symm.trans hstored')
      exact absurd hadmin hother

theorem requireAdmin_self {s : PoolState} :
    requireAdmin host env s host.self = .error (.trap .auth) :=
  ensure_bind_of_not fun h => h.2 rfl

/-! ## The new administrator -/

theorem requireAdmin_signedBy {s : PoolState} {a : Address} {config : PoolConfig}
    (hforeign : a ≠ host.self) (hstored : s.config = some config) (hadmin : config.admin = a) :
    requireAdmin host (signedBy env a) s a = .ok config :=
  requireAdmin_eq_ok.mpr ⟨List.mem_cons_self, hforeign, hstored, hadmin⟩

/-- The entry point behind the second administrator entry. -/
theorem setWithdrawalMinimum_handover {w : World} {config : PoolConfig} {a b : Address}
    {minimum : ℕ} (hstored : w.pool.config = some config)
    (hsame : w.pool.withdrawalAdmin = some a ↔ w.pool.withdrawalAdmin = some b) :
    Withdrawal.updateMinimumWithdrawalAmount (signedBy env b)
        { w with pool.config := some { config with admin := b } } b minimum =
      (Withdrawal.updateMinimumWithdrawalAmount (signedBy env a) w a minimum).map
        ((AdminCall.setWithdrawalMinimum minimum).recordedFor b) := by
  unfold Withdrawal.updateMinimumWithdrawalAmount
  cases hwd : w.pool.withdrawalAdmin with
  | none => rfl
  | some c =>
      rw [hwd, Option.some.injEq, Option.some.injEq] at hsame
      show (ensure (b = c) _ >>= _) = Except.map _ (ensure (a = c) _ >>= _)
      by_cases hc : c = a
      · obtain rfl := hsame.mp hc
        obtain rfl := hc
        rw [ensure_bind_of_pos rfl, ensure_bind_of_pos rfl]
        by_cases hpositive : 0 < minimum
        · rw [ensure_bind_of_pos hpositive, ensure_bind_of_pos hpositive]
          by_cases hbound : minimum ≤ 1000000000000000
          · rw [ensure_bind_of_pos hbound, ensure_bind_of_pos hbound]
            simp [AdminCall.recordedFor, World.publish, signedBy, hstored, Except.map, pure,
              Except.pure]
          · rw [ensure_bind_of_not hbound, ensure_bind_of_not hbound]
            rfl
        · rw [ensure_bind_of_not hpositive, ensure_bind_of_not hpositive]
          rfl
      · have hb : c ≠ b := fun h => hc (hsame.mpr h)
        rw [ensure_bind_of_not (Ne.symm hb), ensure_bind_of_not (Ne.symm hc)]
        rfl

/-- With the second entry agreeing on `a` and `b`, every call is handed over. -/
theorem exec_handover {w : World} {config : PoolConfig} {a b : Address}
    (ha : a ≠ host.self) (hb : b ≠ host.self) (hstored : w.pool.config = some config)
    (hadmin : config.admin = a)
    (hsame : w.pool.withdrawalAdmin = some a ↔ w.pool.withdrawalAdmin = some b)
    (op : AdminCall) (env : Env) :
    exec host (signedBy env b) { w with pool.config := some { config with admin := b } }
        (op.call b) =
      (exec host (signedBy env a) w (op.call a)).map fun p => (op.recordedFor b p.1, p.2) := by
  have hold : requireAdmin host (signedBy env a) w.pool a = .ok config :=
    requireAdmin_signedBy ha hstored hadmin
  have hnew : requireAdmin host (signedBy env b)
      ({ w with pool.config := some { config with admin := b } } : World).pool b =
        .ok { config with admin := b } := requireAdmin_signedBy hb rfl rfl
  cases op with
  | setWithdrawalMinimum minimum =>
      simp only [AdminCall.call, exec, setWithdrawalMinimum, hold, hnew]
      show (Withdrawal.updateMinimumWithdrawalAmount _ _ _ _ >>= _) = _
      rw [setWithdrawalMinimum_handover hstored hsame]
      show _ = Except.map _ (Withdrawal.updateMinimumWithdrawalAmount _ _ _ _ >>= _)
      cases Withdrawal.updateMinimumWithdrawalAmount (signedBy env a) w a minimum <;> rfl
  | requestPauseWithdrawals =>
      simp only [AdminCall.call, exec, requestPauseWithdrawals, hold, hnew]
      by_cases hpending : w.pool.wdPauseRequest ≠ NO_PAUSE_REQUEST
      · simp [AdminCall.recordedFor, hpending, hstored, Except.map, bind, Except.bind, pure,
          Except.pure]
      · simp only [hpending, if_false, signedBy]
        cases (addChecked 32 env.sequence WITHDRAWAL_PAUSE_TIMELOCK_LEDGERS : Result PoolError ℕ)
          with
        | error e => rfl
        | ok activatesAt =>
            simp [AdminCall.recordedFor, World.publish, hstored, Except.map, bind, Except.bind, pure,
              Except.pure]
  | unpauseWithdrawals =>
      simp only [AdminCall.call, exec, unpauseWithdrawals, hold, hnew]
      by_cases hpending : w.pool.wdPauseRequest ≠ NO_PAUSE_REQUEST
      · simp [AdminCall.recordedFor, World.publish, hpending, hstored, Except.map, bind,
          Except.bind, pure, Except.pure, ensure, signedBy]
      · simp [hpending, Except.map, bind, Except.bind, ensure]
  | _ =>
      simp only [AdminCall.call, exec, updateStateRoot, updateAspRoot, publishRoot, setRootExpiry,
        transferAdmin, pauseDeposits, unpauseDeposits, hold, hnew]
      simp [AdminCall.recordedFor, World.publish, hstored, Except.map, bind, Except.bind, pure,
        Except.pure, signedBy]

/-- Without that agreement the withdrawal minimum tells the two administrators apart. -/
theorem not_handover {w : World} {config : PoolConfig} {a b : Address}
    (ha : a ≠ host.self) (hb : b ≠ host.self) (hstored : w.pool.config = some config)
    (hadmin : config.admin = a)
    (h : ∀ (op : AdminCall) (env : Env),
      exec host (signedBy env b) { w with pool.config := some { config with admin := b } }
          (op.call b) =
        (exec host (signedBy env a) w (op.call a)).map fun p => (op.recordedFor b p.1, p.2)) :
    w.pool.withdrawalAdmin = some a ↔ w.pool.withdrawalAdmin = some b := by
  -- a valid minimum is set by whoever the second entry names, and by nobody else
  have hset : ∀ {w : World} {config : PoolConfig} {x : Address} (env : Env), x ≠ host.self →
      w.pool.config = some config → config.admin = x →
      ((∃ p, exec host (signedBy env x) w (.setWithdrawalMinimum x 1) = .ok p) ↔
        w.pool.withdrawalAdmin = some x) := by
    intro w config x env hx hconfig hcaller
    have hcheck : requireAdmin host (signedBy env x) w.pool x = .ok config :=
      requireAdmin_signedBy hx hconfig hcaller
    simp only [exec, setWithdrawalMinimum, Withdrawal.updateMinimumWithdrawalAmount, bind_eq_ok,
      hcheck, exists_const, expect_eq_ok, ensure_eq_ok, pure_eq_ok, Except.ok.injEq]
    constructor
    · rintro ⟨p, w₁, ⟨config', -, x', hentry, rfl, -, -, -⟩, -⟩
      exact hentry
    · intro hentry
      exact ⟨_, _, ⟨config, rfl, x, hentry, rfl, by decide, by decide, rfl⟩, rfl⟩
  have hold := hset ⟨0, 0, [], fun _ _ _ => false⟩ ha hstored hadmin
  have hnew := hset (w := { w with pool.config := some { config with admin := b } })
    ⟨0, 0, [], fun _ _ _ => false⟩ hb rfl rfl
  have heq := h (.setWithdrawalMinimum 1) ⟨0, 0, [], fun _ _ _ => false⟩
  simp only [AdminCall.call] at heq
  rw [← hold, ← hnew, heq]
  cases exec host (signedBy ⟨0, 0, [], fun _ _ _ => false⟩ a) w (.setWithdrawalMinimum a 1) with
  | error e =>
      constructor
      · rintro ⟨p, hp⟩
        cases hp
      · rintro ⟨p, hp⟩
        cases hp
  | ok p => exact ⟨fun _ => ⟨_, rfl⟩, fun _ => ⟨_, rfl⟩⟩

/-- **When the hand-over is complete.** After a successful `transfer_admin(a, b)`, from any state,
the new administrator takes over every entry point and the old one is refused if and only if `b` is
not the pool itself, which can call nothing, and the administrator entry of the withdrawal minimum
names both or neither of the two. -/
theorem admin_handover_iff {w w' : World} {a b : Address}
    (h : transferAdmin host env w a b = .ok w') :
    HandedOver host a b w w' ↔
      b ≠ host.self ∧
        (w.pool.withdrawalAdmin = some a ↔ w.pool.withdrawalAdmin = some b) := by
  simp only [transferAdmin, bind_eq_ok, requireAdmin_eq_ok, pure_eq_ok] at h
  obtain ⟨config, hadmin, rfl⟩ := h
  constructor
  · rintro ⟨hcalls, -⟩
    have hb : b ≠ host.self := by
      -- the pool cannot call itself, while `a` could pause the deposits
      rintro rfl
      have hcheck : requireAdmin host (signedBy env a) w.pool a = .ok config :=
        requireAdmin_signedBy hadmin.foreign hadmin.stored hadmin.isAdmin
      have hpause := hcalls .pauseDeposits env
      rw [exec_call_error requireAdmin_self] at hpause
      simp only [AdminCall.call, exec, pauseDeposits, hcheck] at hpause
      cases hpause
    exact ⟨hb, not_handover hadmin.foreign hb hadmin.stored hadmin.isAdmin hcalls⟩
  · rintro ⟨hb, hsame⟩
    refine ⟨exec_handover hadmin.foreign hb hadmin.stored hadmin.isAdmin hsame, ?_⟩
    intro hne op env'
    have hrefused : ∃ e, requireAdmin host env'
        { w.pool with config := some { config with admin := b } } a = .error e :=
      requireAdmin_other rfl (Ne.symm hne)
    obtain ⟨e, he⟩ := hrefused
    exact ⟨e, exec_call_error he⟩

/-- Between two addresses that never had the entry, and are not the pool, nothing is lost. -/
theorem admin_handover_second :
    let w := (machine Demo.host).final (.deployed Demo.tokens)
      [⟨Demo.env 10 Demo.admin, .initializePool Demo.admin (Demo.contract 1) (Demo.contract 2) 9⟩,
        ⟨Demo.env 11 Demo.admin, .transferAdmin Demo.admin (Demo.account 7)⟩]
    ∃ w', transferAdmin Demo.host (Demo.env 12 (Demo.account 7)) w (Demo.account 7)
        (Demo.account 8) = .ok w' ∧
      HandedOver Demo.host (Demo.account 7) (Demo.account 8) w w' := by
  intro w
  have hadmin : requireAdmin Demo.host (Demo.env 12 (Demo.account 7)) w.pool (Demo.account 7) =
      .ok ⟨Demo.account 7, Demo.contract 1, Demo.contract 2, 9, DEFAULT_ROOT_EXPIRY_LEDGERS⟩ := by
    decide
  have hok : ∃ w', transferAdmin Demo.host (Demo.env 12 (Demo.account 7)) w (Demo.account 7)
      (Demo.account 8) = .ok w' := by
    rw [transferAdmin, hadmin]
    exact ⟨_, rfl⟩
  obtain ⟨w', hw'⟩ := hok
  exact ⟨w', hw', (admin_handover_iff hw').mpr (by decide)⟩

/-- The first administrator hands over, and the second cannot set the withdrawal minimum that the
first could. -/
theorem admin_not_handed_over :
    let w := (machine Demo.host).final (.deployed Demo.tokens)
      [⟨Demo.env 10 Demo.admin, .initializePool Demo.admin (Demo.contract 1) (Demo.contract 2) 9⟩]
    let w' := (machine Demo.host).final w
      [⟨Demo.env 11 Demo.admin, .transferAdmin Demo.admin (Demo.account 7)⟩]
    (step Demo.host w ⟨Demo.env 11 Demo.admin, .transferAdmin Demo.admin (Demo.account 7)⟩).2 =
      .ok .unit ∧
    ¬ HandedOver Demo.host Demo.admin (Demo.account 7) w w' := by
  intro w w'
  refine ⟨by decide, ?_⟩
  intro h
  have hret := congrArg (Except.map Prod.snd) (h.1 (.setWithdrawalMinimum 1) (Demo.env 12 Demo.user))
  revert hret
  decide

end OpaqueStellar.Pool
