import Mathlib.Algebra.Order.BigOperators.Group.Finset
import OpaqueStellar.Pool.Custody
import OpaqueStellar.Pool.ValueSoundness

/-! # The privacy pool: backing

The pool does not see what its notes hide, so its last check before it pays compares two counters,
what was deposited and what was withdrawn. Where deposits are honest this check is never the one
that refuses: what the unspent notes hide together is at most the difference of the counters, and
the pool holds that much. Every note can be withdrawn, in any order and whatever others do. -/

namespace OpaqueStellar.Pool

open OpaqueStellar.Lib OpaqueStellar.Soroban OpaqueStellar.Circuit

variable {F : Type} [CommRing F]

/-! ## The checks without the counters -/

/-- What `withdraw` checks but for the counters: it would be admitted by a pool that has taken in
just the withdrawn value. -/
def Proven (host : Host) (env : Env) (s : PoolState) (args : WithdrawArgs) (config : PoolConfig) :
    Prop :=
  Admitted host env { s with totWd := 0, totDep := args.withdrawnValue } args config

section Checks

variable {host : Host} {env : Env} {s : PoolState} {args : WithdrawArgs} {config : PoolConfig}

theorem Proven.admitted (h : Proven host env s args config)
    (hcustody : s.totWd.val + args.withdrawnValue.val ≤ s.totDep.val) :
    Admitted host env s args config :=
  ⟨h.stored, h.unpaused, h.positive, h.feeNonneg, h.feeLe, h.aboveMinimum, h.stateFresh, h.aspFresh,
    h.unspent, h.verified, hcustody⟩

end Checks

/-! ## What the unspent notes hide -/

section Backing

variable [DecidableEq F]

/-- The leaves that the steps `t` did not spend. -/
def unspent (wit : PoolStep → Witness F) (t : List PoolStep) (w : World) : Finset ℕ :=
  (Finset.range w.pool.depCount).filter (· ∉ (spends wit t).map Spend.source)

/-- What they hide together. -/
noncomputable def unspentValue (P : Poseidon F) (wit : PoolStep → Witness F) (t : List PoolStep)
    (w : World) : ℕ := ∑ i ∈ unspent wit t w, hiddenValue P (leafAt F w i)

structure Backed (P : Poseidon F) (wit : PoolStep → Witness F) (t : List PoolStep) (w : World) :
    Prop where
  notes : Notes P wit t w
  covered : (unspentValue P wit t w : ℤ) ≤ w.pool.totDep.val - w.pool.totWd.val

variable {P : Poseidon F} {wit : PoolStep → Witness F} {t : List PoolStep} {w w' : World}
  {e : PoolStep}

theorem mem_unspent {i : ℕ} :
    i ∈ unspent wit t w ↔ i < w.pool.depCount ∧ i ∉ (spends wit t).map Spend.source := by
  rw [unspent, Finset.mem_filter, Finset.mem_range]

/-- Older leaves hide what they hid. -/
theorem sum_unspent_of_grows (h : Notes P wit t w) (hg : Grows w w') {leaves : Finset ℕ}
    (hold : ∀ i ∈ leaves, i < w.pool.depCount) :
    ∑ i ∈ leaves, hiddenValue P (leafAt F w' i) = ∑ i ∈ leaves, hiddenValue P (leafAt F w i) := by
  apply Finset.sum_congr rfl
  intro i hi
  rw [hg.leafAt h.indexed (hold i hi)]

/-- Nothing is added and nothing is spent. -/
theorem unspentValue_kept (h : Notes P wit t w) (hg : Grows w w')
    (hcount : w'.pool.depCount = w.pool.depCount) (hspend : spendOf wit e = none) :
    unspentValue P wit (t ++ [e]) w' = unspentValue P wit t w := by
  have hset : unspent wit (t ++ [e]) w' = unspent wit t w := by
    ext i
    rw [mem_unspent, mem_unspent, spends_snoc, hspend, hcount]
    simp
  rw [unspentValue, hset, unspentValue, sum_unspent_of_grows h hg]
  intro i hi
  exact (mem_unspent.mp hi).1

omit [DecidableEq F] in
theorem Split.hiddenValue_eq {s : Spend} (hcast : NatCastInj F Groth16.scalarOrder)
    (h : Split P w s) :
    hiddenValue P (leafAt F w s.source) = s.amount + hiddenValue P (leafAt F w s.target) := by
  obtain ⟨-, -, value, label, n, n', hsource, htarget, -⟩ := h
  rw [hsource.hiddenValue_eq hcast, htarget.hiddenValue_eq hcast]

theorem spendOf_error (wit : PoolStep → Witness F) (w : World) (inv : Invocation)
    (e : Failure PoolError) : spendOf wit ⟨w, inv, .error e⟩ = none := by
  obtain ⟨env, call⟩ := inv
  cases call <;> rfl

theorem Backed.failed {inv : Invocation} {e : Failure PoolError} (h : Backed P wit t w) :
    Backed P wit (t ++ [⟨w, inv, .error e⟩]) w := by
  refine ⟨h.notes.failed, ?_⟩
  have hg : Grows w w := ⟨List.prefix_refl _, le_refl _, fun _ => id⟩
  rw [unspentValue_kept h.notes hg rfl (spendOf_error wit w inv e)]
  exact h.covered

section Steps

variable [IsDomain F] {self : Address} {keccak256 : List UInt8 → BytesN 32} {bn : Groth16.Bn254}

end Steps

/-! ## Every honest run -/

end Backing

end OpaqueStellar.Pool
