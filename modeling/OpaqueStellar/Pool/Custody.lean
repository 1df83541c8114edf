import Mathlib.Algebra.BigOperators.Group.List.Basic
import OpaqueStellar.Pool.Effect

/-! # The privacy pool: custody

The two counters `tot_dep` and `tot_wd` against what the run so far really did, and both against
the pool's balance in its token. The balance is only bounded from below: anyone may send the pool
tokens, and a payout whose receiver is the pool itself leaves the balance where it was. -/

namespace OpaqueStellar.Pool

open OpaqueStellar.Lib OpaqueStellar.Soroban

variable {host : Host} {env : Env}

/-- What a step brought in: the value of a deposit that succeeded. -/
def depositedBy (e : PoolStep) : ℤ :=
  match e.input.call, e.output with
  | .deposit _ value _ _, .ok _ => value.val
  | _, _ => 0

/-- What a step paid out, fee included: the withdrawn value of a withdrawal that succeeded. -/
def withdrawnBy (e : PoolStep) : ℤ :=
  match e.input.call, e.output with
  | .withdraw args, .ok _ => args.withdrawnValue.val
  | _, _ => 0

def deposited (t : List PoolStep) : ℤ := (t.map depositedBy).sum

def withdrawn (t : List PoolStep) : ℤ := (t.map withdrawnBy).sum

theorem deposited_snoc (t : List PoolStep) (e : PoolStep) :
    deposited (t ++ [e]) = deposited t + depositedBy e := by
  rw [deposited, List.map_append, List.sum_append, List.map_singleton, List.sum_singleton,
    deposited]

theorem withdrawn_snoc (t : List PoolStep) (e : PoolStep) :
    withdrawn (t ++ [e]) = withdrawn t + withdrawnBy e := by
  rw [withdrawn, List.map_append, List.sum_append, List.map_singleton, List.sum_singleton,
    withdrawn]

theorem moved_error (w : World) (inv : Invocation) (e : Failure PoolError) :
    depositedBy ⟨w, inv, .error e⟩ = 0 ∧ withdrawnBy ⟨w, inv, .error e⟩ = 0 := by
  obtain ⟨env, call⟩ := inv
  cases call <;> exact ⟨rfl, rfl⟩

theorem moved_quiet (w : World) (inv : Invocation) (o : Outcome) (hq : Quiet inv.call) :
    depositedBy ⟨w, inv, o⟩ = 0 ∧ withdrawnBy ⟨w, inv, o⟩ = 0 := by
  obtain ⟨env, call⟩ := inv
  cases call with
  | initializePool => exact hq.elim
  | deposit => exact hq.elim
  | withdraw => exact hq.elim
  | _ => exact ⟨rfl, rfl⟩

/-- The custody of the pool at `host.self` after the steps `t`. -/
structure Custody (host : Host) (t : List PoolStep) (w : World) : Prop where
  nonneg : 0 ≤ w.pool.totWd.val
  withdrawn_le : w.pool.totWd.val ≤ w.pool.totDep.val
  deposited_eq : w.pool.totDep.val = deposited t
  withdrawn_eq : w.pool.totWd.val = withdrawn t
  covered : ∀ config, w.pool.config = some config →
    w.pool.totDep.val - w.pool.totWd.val ≤ w.tokens config.nativeSac host.self

/-- Before it is initialised the pool has counted nothing. -/
def Untouched (w : World) : Prop :=
  w.pool.config = none → w.pool.totDep.val = 0 ∧ w.pool.totWd.val = 0

/-! ## One step -/

/-- Both payouts of a withdrawal together take at most the withdrawn value. -/
theorem le_of_payouts {t paid t' : TokenLedger} {token src recipient relayer : Address}
    {payout fee : I128} {value : ℤ} (hnet : payout.val = value - fee.val)
    (hfee : 0 ≤ fee.val) (hle : fee.val ≤ value)
    (h₁ : payPositive env t token src recipient payout = .ok paid)
    (h₂ : payPositive env paid token src relayer fee = .ok t') :
    (t token src : ℤ) - value ≤ t' token src := by
  have hpayout : 0 ≤ payout.val := by omega
  have hfirst := TokenLedger.le_of_transferPositive hpayout h₁
  have hsecond := TokenLedger.le_of_transferPositive hfee h₂
  omega

/-- What moves no value and takes no tokens from the pool keeps its custody. -/
theorem custody_frame {t : List PoolStep} {w w' : World} {e : PoolStep} (hc : Custody host t w)
    (hu : Untouched w) (hmoved : depositedBy e = 0 ∧ withdrawnBy e = 0) (hf : Frame host w w') :
    Custody host (t ++ [e]) w' ∧ Untouched w' := by
  refine ⟨⟨?_, ?_, ?_, ?_, ?_⟩, ?_⟩
  · rw [hf.totWd]
    exact hc.nonneg
  · rw [hf.totWd, hf.totDep]
    exact hc.withdrawn_le
  · rw [hf.totDep, hc.deposited_eq, deposited_snoc, hmoved.1, add_zero]
  · rw [hf.totWd, hc.withdrawn_eq, withdrawn_snoc, hmoved.2, add_zero]
  · intro config' hconfig'
    have hwiring := hf.wiring
    rw [hconfig'] at hwiring
    obtain ⟨config, hconfig, heq⟩ := Option.map_eq_some_iff.mp hwiring.symm
    have hsac : config.nativeSac = config'.nativeSac := congrArg (·.2.1) heq
    have hcov := hc.covered config hconfig
    have hkept := hf.balance config.nativeSac
    rw [hf.totDep, hf.totWd, ← hsac]
    omega
  · intro hnone
    have hwiring := hf.wiring
    rw [hnone] at hwiring
    rw [hf.totDep, hf.totWd]
    exact hu (Option.map_eq_none_iff.mp hwiring.symm)

theorem custody_effect {t : List PoolStep} {w w' : World} {inv : Invocation} {r : Ret}
    (h : Effect host inv.env w inv.call w' r) (hc : Custody host t w) (hu : Untouched w) :
    Custody host (t ++ [⟨w, inv, .ok r⟩]) w' ∧ Untouched w' := by
  by_cases hq : Quiet inv.call
  · exact custody_frame hc hu (moved_quiet w inv _ hq) (frame_of_effect h hq)
  obtain ⟨env, call⟩ := inv
  obtain ⟨hnonneg, hle, hdep, hwd, hcov⟩ := hc
  cases h with
  | initializePool hsigned hfresh =>
      obtain ⟨hd0, hw0⟩ := hu hfresh
      refine ⟨⟨le_refl _, le_refl _, ?_, ?_, ?_⟩, ?_⟩
      · rw [deposited_snoc, ← hdep, hd0]
        rfl
      · rw [withdrawn_snoc, ← hwd, hw0]
        rfl
      · intro config _
        exact Int.natCast_nonneg _
      · intro _
        exact ⟨rfl, rfl⟩
  | deposit hsigned hforeign hunpaused hpositive hstored hroom htransfer htotal halerting =>
      obtain ⟨-, -, hall⟩ := TokenLedger.transfer_eq_ok htransfer
      refine ⟨⟨hnonneg, ?_, ?_, ?_, ?_⟩, ?_⟩
      · simp only [htotal]
        omega
      · rw [deposited_snoc, ← hdep]
        exact htotal
      · rw [withdrawn_snoc, ← hwd]
        exact (add_zero _).symm
      · intro config hconfig
        have heq := Option.some.inj (hstored.symm.trans hconfig)
        subst heq
        have hold := hcov _ hstored
        simp only [hall, TokenLedger.gain, htotal, hforeign.symm, and_self, and_false, if_true,
          if_false]
        omega
      · intro hnone
        cases hstored.symm.trans hnone
  | withdraw hadmitted htotal hnet hrecipient hrelayer =>
      refine ⟨⟨?_, ?_, ?_, ?_, ?_⟩, ?_⟩
      · have hpositive := hadmitted.positive
        simp only [htotal]
        omega
      · simp only [htotal]
        exact hadmitted.custody
      · rw [deposited_snoc, ← hdep]
        exact (add_zero _).symm
      · rw [withdrawn_snoc, ← hwd]
        exact htotal
      · intro config hconfig
        have heq := Option.some.inj (hadmitted.stored.symm.trans hconfig)
        subst heq
        have hold := hcov _ hadmitted.stored
        have hpaid := le_of_payouts hnet hadmitted.feeNonneg hadmitted.feeLe hrecipient hrelayer
        simp only [htotal]
        omega
      · intro hnone
        cases hadmitted.stored.symm.trans hnone
  | _ => exact absurd trivial hq

/-! ## Every run -/

theorem custody_run (host : Host) (tokens : TokenLedger) (invs : List Invocation) :
    Custody host ((machine host).trace (.deployed tokens) invs)
      ((machine host).final (.deployed tokens) invs) := by
  have hinit : Custody host [] (.deployed tokens) ∧ Untouched (.deployed tokens) := by
    refine ⟨⟨le_refl _, le_refl _, rfl, rfl, ?_⟩, ?_⟩
    · intro config hconfig
      cases hconfig
    · intro _
      exact ⟨rfl, rfl⟩
  refine (run_invariant (I := fun t w => Custody host t w ∧ Untouched w) hinit ?_ ?_ invs).1
  · intro t w inv e h
    exact custody_frame h.1 h.2 (moved_error w inv e) (Frame.refl host w)
  · intro t w inv w' r h heffect
    exact custody_effect heffect h.1 h.2

/-- With the pool's custody in place, a withdrawal does not fail for lack of balance: once the
custody check is passed, the balance covers both payouts. -/
theorem avoids_withdraw_insufficient {t : List PoolStep} {w : World} (hc : Custody host t w)
    (args : WithdrawArgs) : Avoids (.trap .insufficientBalance) (withdraw host env w args) := by
  refine avoids_withdraw id (fun h => by cases h) ?_
  intro config payout hconfig hamount hcustody hnet
  have hcov := hc.covered config hconfig
  have hbalance : args.withdrawnValue.val ≤ w.tokens config.nativeSac host.self := by omega
  refine ⟨TokenLedger.avoids_transferPositive_insufficient (by omega), ?_⟩
  intro paid hpaid
  have hpayout : 0 ≤ payout.val := by omega
  have hleft := TokenLedger.le_of_transferPositive hpayout hpaid
  exact TokenLedger.avoids_transferPositive_insufficient (by omega)

/-- **The pool's custody**, in every state any run reaches: the counters are in order, they are the
sums of what the run deposited and withdrew, the pool's balance covers their difference, and
therefore no withdrawal fails for lack of balance. -/
theorem pool_custody (host : Host) (tokens : TokenLedger) (invs : List Invocation) :
    let w := (machine host).final (.deployed tokens) invs
    let t := (machine host).trace (.deployed tokens) invs
    (0 ≤ w.pool.totWd.val ∧ w.pool.totWd.val ≤ w.pool.totDep.val) ∧
    w.pool.totDep.val = deposited t ∧
    w.pool.totWd.val = withdrawn t ∧
    (∀ config, w.pool.config = some config →
      w.pool.totDep.val - w.pool.totWd.val ≤ w.tokens config.nativeSac host.self) ∧
    ∀ env args, withdraw host env w args ≠ .error (.trap .insufficientBalance) := by
  intro w t
  have hc : Custody host t w := custody_run host tokens invs
  refine ⟨⟨hc.nonneg, hc.withdrawn_le⟩, hc.deposited_eq, hc.withdrawn_eq, hc.covered, ?_⟩
  intro env args
  exact avoids_withdraw_insufficient hc args

end OpaqueStellar.Pool
