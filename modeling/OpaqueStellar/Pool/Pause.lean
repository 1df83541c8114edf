import OpaqueStellar.Lib.History
import OpaqueStellar.Pool.Effect

/-! # The privacy pool: the withdrawal pause

The pause is never latched. A request stores its ledger number, with zero for "no request", and
every withdrawal compares the stored number with the current ledger. Against the history of a run
the stored number is the ledger of the first request since the last unpause; ledger numbers are
positive, so a request is never mistaken for the absence of one. -/

namespace OpaqueStellar.Pool

open OpaqueStellar.Lib OpaqueStellar.Soroban

variable {host : Host} {env : Env}

/-- The step is a request to pause withdrawals that succeeded, a repeated one included. -/
def RequestsPause (e : PoolStep) : Prop :=
  ∃ admin r, e.input.call = .requestPauseWithdrawals admin ∧ e.output = .ok r

/-- The step is an unpause that succeeded. -/
def Unpauses (e : PoolStep) : Prop :=
  ∃ admin r, e.input.call = .unpauseWithdrawals admin ∧ e.output = .ok r

/-- The stored request is the first one since the last unpause, if there is one. -/
def PauseTraced (t : List PoolStep) (w : World) : Prop :=
  (w.pool.wdPauseRequest = NO_PAUSE_REQUEST ∧ Cancelled RequestsPause Unpauses t) ∨
    (w.pool.wdPauseRequest ≠ NO_PAUSE_REQUEST ∧
      ∃ e, FirstSince RequestsPause Unpauses t e ∧ e.input.env.sequence = w.pool.wdPauseRequest)

theorem pauseTraced_kept {t : List PoolStep} {w w' : World} {e : PoolStep} (h : PauseTraced t w)
    (hkept : w'.pool.wdPauseRequest = w.pool.wdPauseRequest) (hreq : ¬ RequestsPause e)
    (hunpause : ¬ Unpauses e) : PauseTraced (t ++ [e]) w' := by
  rw [PauseTraced, hkept]
  rcases h with ⟨hidle, hcancelled⟩ | ⟨hpending, first, hfirst, hledger⟩
  · exact .inl ⟨hidle, hcancelled.snoc hreq⟩
  · exact .inr ⟨hpending, first, hfirst.snoc hunpause, hledger⟩

theorem pauseTraced_error {t : List PoolStep} {w : World} {inv : Invocation}
    {e : Failure PoolError} (h : PauseTraced t w) :
    PauseTraced (t ++ [⟨w, inv, .error e⟩]) w := by
  refine pauseTraced_kept h rfl ?_ ?_
  · rintro ⟨admin, r, -, hout⟩
    cases hout
  · rintro ⟨admin, r, -, hout⟩
    cases hout

/-- What one successful call does to the request, given that ledgers are positive. -/
theorem pauseTraced_effect {t : List PoolStep} {w w' : World} {inv : Invocation} {r : Ret}
    (h : PauseTraced t w) (hpositive : 0 < inv.env.sequence)
    (heffect : Effect host inv.env w inv.call w' r) :
    PauseTraced (t ++ [⟨w, inv, .ok r⟩]) w' := by
  obtain ⟨env, call⟩ := inv
  cases heffect with
  | requestPauseAgain hadmin hpending =>
      rcases h with ⟨hidle, -⟩ | ⟨-, first, hfirst, hledger⟩
      · exact absurd hidle hpending
      · refine .inr ⟨hpending, first, hfirst.snoc ?_, hledger⟩
        rintro ⟨admin, r, hcall, -⟩
        cases hcall
  | requestPause hadmin hidle =>
      rcases h with ⟨-, hcancelled⟩ | ⟨hpending, -⟩
      · exact .inr ⟨Nat.ne_of_gt hpositive, _, hcancelled.firstSince ⟨_, _, rfl, rfl⟩, rfl⟩
      · exact absurd hidle hpending
  | unpauseWithdrawals hadmin hpending =>
      refine .inl ⟨rfl, cancelled_snoc_of_cancel ?_ ⟨_, _, rfl, rfl⟩⟩
      rintro ⟨admin, r, hcall, -⟩
      cases hcall
  | _ =>
      refine pauseTraced_kept h rfl ?_ ?_
      · rintro ⟨admin, r, hcall, -⟩
        cases hcall
      · rintro ⟨admin, r, hcall, -⟩
        cases hcall

theorem pauseTraced_run (host : Host) (tokens : TokenLedger) (invs : List Invocation)
    (hpositive : ∀ inv ∈ invs, 0 < inv.env.sequence) :
    PauseTraced ((machine host).trace (.deployed tokens) invs)
      ((machine host).final (.deployed tokens) invs) := by
  refine run_invariant_of_steps (P := fun e => 0 < e.input.env.sequence) ?_ ?_ ?_ invs ?_
  · exact .inl ⟨rfl, cancelled_nil⟩
  · intro t w inv e h
    exact pauseTraced_error h
  · intro t w inv w' r h hpos heffect
    exact pauseTraced_effect h hpos heffect
  · intro e he
    exact hpositive e.input (Machine.input_mem_of_mem_trace _ he)

/-! ## When a withdrawal is rejected -/

/-- A withdrawal is rejected as paused exactly when the pause is active. -/
theorem withdraw_paused_iff {w : World} {args : WithdrawArgs} :
    withdraw host env w args = .error (.err .WithdrawalsPaused) ↔
      withdrawalsPauseActive env w.pool = true := by
  constructor
  · intro h
    by_contra hinactive
    refine avoids_withdraw id (fun _ => Bool.not_eq_true _ ▸ hinactive) ?_ h
    intro config payout _ _ _ _
    exact ⟨TokenLedger.avoids_transferPositive_err, fun _ _ =>
      TokenLedger.avoids_transferPositive_err⟩
  · intro h
    exact ensure_bind_of_not (by rw [h]; decide)

/-- The pause is active exactly when the first request since the last unpause is a full timelock
old. -/
theorem pauseActive_iff {t : List PoolStep} {w : World} (h : PauseTraced t w) :
    withdrawalsPauseActive env w.pool = true ↔
      ∃ e, FirstSince RequestsPause Unpauses t e ∧
        e.input.env.sequence + WITHDRAWAL_PAUSE_TIMELOCK_LEDGERS ≤ env.sequence := by
  unfold withdrawalsPauseActive
  rcases h with ⟨hidle, hcancelled⟩ | ⟨hpending, first, hfirst, hledger⟩
  · rw [if_pos hidle]
    constructor
    · intro hfalse
      cases hfalse
    · rintro ⟨e, he, -⟩
      exact absurd hcancelled he.not_cancelled
  · rw [if_neg hpending, decide_eq_true_iff, ← hledger]
    have hlock : 0 < WITHDRAWAL_PAUSE_TIMELOCK_LEDGERS := by decide
    constructor
    · intro hold
      exact ⟨first, hfirst, by omega⟩
    · rintro ⟨e, he, hold⟩
      rw [hfirst.unique he]
      omega

/-- **The withdrawal-pause timelock.** After every run at positive ledgers, a withdrawal is rejected
as paused if and only if the first pause request since the last unpause is at least the timelock
old. -/
theorem pause_timelock (host : Host) (tokens : TokenLedger) (invs : List Invocation)
    (hpositive : ∀ inv ∈ invs, 0 < inv.env.sequence) (env : Env) (args : WithdrawArgs) :
    withdraw host env ((machine host).final (.deployed tokens) invs) args =
        .error (.err .WithdrawalsPaused) ↔
      ∃ e, FirstSince RequestsPause Unpauses ((machine host).trace (.deployed tokens) invs) e ∧
        e.input.env.sequence + WITHDRAWAL_PAUSE_TIMELOCK_LEDGERS ≤ env.sequence := by
  rw [withdraw_paused_iff]
  exact pauseActive_iff (pauseTraced_run host tokens invs hpositive)

/-- Requested at ledger 20 and again at 9000: paused from 17300 on, and not a ledger earlier. -/
theorem pause_timelock_demo :
    let invs := Demo.setup ++ [⟨Demo.env 20 Demo.admin, .requestPauseWithdrawals Demo.admin⟩,
      ⟨Demo.env 9000 Demo.admin, .requestPauseWithdrawals Demo.admin⟩]
    let t := (machine Demo.host).trace (.deployed Demo.tokens) invs
    (∃ e, FirstSince RequestsPause Unpauses t e ∧
      e.input.env.sequence + WITHDRAWAL_PAUSE_TIMELOCK_LEDGERS ≤ 17300) ∧
    ¬ ∃ e, FirstSince RequestsPause Unpauses t e ∧
      e.input.env.sequence + WITHDRAWAL_PAUSE_TIMELOCK_LEDGERS ≤ 17299 := by
  intro invs t
  have hpositive : ∀ inv ∈ invs, 0 < inv.env.sequence := by decide
  refine ⟨?_, ?_⟩
  · exact (pause_timelock Demo.host Demo.tokens invs hpositive (Demo.env 17300 Demo.user)
      Demo.args).mp (withdraw_paused_iff.mpr (by decide))
  · intro h
    have hpaused := (pause_timelock Demo.host Demo.tokens invs hpositive
      (Demo.env 17299 Demo.user) Demo.args).mpr h
    rw [withdraw_paused_iff] at hpaused
    revert hpaused
    decide

end OpaqueStellar.Pool
