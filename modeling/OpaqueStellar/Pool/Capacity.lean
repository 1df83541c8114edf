import OpaqueStellar.Pool.State

/-! # The privacy pool: tree capacity and withdrawal minimum

The two helper modules of the contract. `capacity.rs` counts the leaves a deposit inserts and
raises alerts near the limit; `withdrawal.rs` keeps the smallest amount a withdrawal may have, under
an administrator entry of its own. -/

namespace OpaqueStellar.Pool

open OpaqueStellar.Lib OpaqueStellar.Soroban

/-! ## `capacity.rs` -/

namespace Capacity

def TREE_DEPTH : ℕ := 20

def MAX_COMMITMENTS : ℕ := 1000000

def CAPACITY_WARNING_THRESHOLD_BPS : ℕ := 8500

def CAPACITY_CRITICAL_THRESHOLD_BPS : ℕ := 9500

def initializeCapacityTracking (env : Env) (w : World) : World :=
  World.publish
    { w with pool.treeCapacity := some ⟨MAX_COMMITMENTS, 0, TREE_DEPTH, env.timestamp⟩ }
    (.capInit MAX_COMMITMENTS)

def getTreeCapacity (env : Env) (s : PoolState) : TreeCapacityInfo :=
  s.treeCapacity.getD ⟨MAX_COMMITMENTS, 0, TREE_DEPTH, env.timestamp⟩

def getCapacityPercentageBps (env : Env) (s : PoolState) : ℕ :=
  let capacity := getTreeCapacity env s
  if capacity.maxCapacity = 0 then 0
  else capacity.currentCount * 10000 / capacity.maxCapacity % 2 ^ 64

def getCapacityAlertLevel (env : Env) (s : PoolState) : AlertLevel :=
  let bps := getCapacityPercentageBps env s
  if CAPACITY_CRITICAL_THRESHOLD_BPS ≤ bps then .Critical
  else if CAPACITY_WARNING_THRESHOLD_BPS ≤ bps then .Warning
  else .Normal

def isTreeAtCapacity (env : Env) (s : PoolState) : Bool :=
  let capacity := getTreeCapacity env s
  decide (capacity.maxCapacity ≤ capacity.currentCount)

/-- Does reaching `current` raise a new alert after `prev`? -/
def shouldEmit : Option CapacityAlert → AlertLevel → Bool
  | none, .Warning => true
  | none, .Critical => true
  | some prev, .Critical => decide (prev.level ≠ .Critical)
  | some prev, .Warning => decide (prev.level = .Normal)
  | _, .Normal => false

def thresholdBps : AlertLevel → ℕ
  | .Critical => CAPACITY_CRITICAL_THRESHOLD_BPS
  | .Warning => CAPACITY_WARNING_THRESHOLD_BPS
  | .Normal => 0

def checkAndEmitCapacityAlert (env : Env) (w : World) (currentLevel : AlertLevel) : World :=
  if shouldEmit w.pool.lastAlert currentLevel then
    let count := (getTreeCapacity env w.pool).currentCount
    let bps := getCapacityPercentageBps env w.pool
    World.publish
      { w with
        pool.lastAlert := some ⟨currentLevel, env.timestamp, count, thresholdBps currentLevel⟩ }
      (.capAlert currentLevel bps count)
  else w

def incrementCommitmentCount (env : Env) (w : World) : Result PoolError World := do
  let capacity := getTreeCapacity env w.pool
  let count ← addChecked 64 capacity.currentCount 1
  let w := { w with
    pool.treeCapacity :=
      some { capacity with currentCount := count, lastUpdated := env.timestamp } }
  pure (checkAndEmitCapacityAlert env w (getCapacityAlertLevel env w.pool))

end Capacity

/-! ## `withdrawal.rs` -/

namespace Withdrawal

def DEFAULT_MINIMUM_WITHDRAWAL : ℕ := 1000000

def initializeWithdrawalConfig (env : Env) (w : World) (admin : Address) (minimumAmount : ℕ) :
    World :=
  World.publish
    { w with
      pool.withdrawalConfig := some ⟨minimumAmount, env.timestamp, admin⟩
      pool.withdrawalAdmin := some admin }
    (.wdCfg minimumAmount)

def getMinimumWithdrawalAmount (s : PoolState) : ℕ :=
  (s.withdrawalConfig.map (·.minimumAmount)).getD DEFAULT_MINIMUM_WITHDRAWAL

def updateMinimumWithdrawalAmount (env : Env) (w : World) (caller : Address) (newMinimum : ℕ) :
    Result PoolError World := do
  let admin ← expect w.pool.withdrawalAdmin "admin not configured"
  ensure (caller = admin) (.trap (.panic "only admin can update withdrawal config"))
  ensure (0 < newMinimum) (.trap (.panic "minimum withdrawal must be positive"))
  ensure (newMinimum ≤ 1000000000000000)
    (.trap (.panic "minimum withdrawal exceeds maximum allowed"))
  pure (World.publish
    { w with pool.withdrawalConfig := some ⟨newMinimum, env.timestamp, caller⟩ }
    (.minUpd newMinimum caller))

def validateWithdrawalAmount (s : PoolState) (amount : ℕ) : Bool :=
  decide (getMinimumWithdrawalAmount s ≤ amount)

end Withdrawal

end OpaqueStellar.Pool
