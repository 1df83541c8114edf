import OpaqueStellar.Pool.Leaves

/-! # The privacy pool: capacity alerts

`check_and_emit_capacity_alert` runs after every deposit and decides by the level of the last alert
it stored. What an operator sees of a run is therefore known from the number of deposits alone: one
warning at 85% of the leaves a deposit may insert, and one critical alert at 95%. -/

namespace OpaqueStellar.Pool

open OpaqueStellar.Lib OpaqueStellar.Soroban

variable {host : Host} {env : Env} {w w' : World}

def alertOf : PoolEvent → Option (AlertLevel × ℕ × ℕ)
  | .capAlert level bps currentCount => some (level, bps, currentCount)
  | _ => none

/-- The alerts published so far. -/
def capacityAlerts (w : World) : List (AlertLevel × ℕ × ℕ) := w.events.filterMap alertOf

/-- The alerts of a run with `n` deposits. -/
def alertsAfter (n : ℕ) : List (AlertLevel × ℕ × ℕ) :=
  if n < 850000 then []
  else if n < 950000 then [(.Warning, 8500, 850000)]
  else [(.Warning, 8500, 850000), (.Critical, 9500, 950000)]

def isDeposit (e : PoolStep) : Bool :=
  match e.input.call, e.output with
  | .deposit _ _ _ _, .ok _ => true
  | _, _ => false

structure Alerted (n : ℕ) (w : World) : Prop where
  count : ∀ env, (Capacity.getTreeCapacity env w.pool).currentCount = n
  limit : ∀ env, (Capacity.getTreeCapacity env w.pool).maxCapacity = Capacity.MAX_COMMITMENTS
  bounded : n ≤ Capacity.MAX_COMMITMENTS
  alerts : capacityAlerts w = alertsAfter n
  last : w.pool.lastAlert.map (·.level) = (alertsAfter n).getLast?.map (·.1)
  untouched : w.pool.config = none → n = 0

theorem alerted_deployed (tokens : TokenLedger) : Alerted 0 (.deployed tokens) :=
  ⟨fun _ => rfl, fun _ => rfl, Nat.zero_le _, rfl, rfl, fun _ => rfl⟩

/-! ## One deposit -/

/-- The level that `n` leaves have. -/
theorem alertLevel_of_count {s : PoolState} {n : ℕ}
    (hcount : (Capacity.getTreeCapacity env s).currentCount = n)
    (hlimit : (Capacity.getTreeCapacity env s).maxCapacity = Capacity.MAX_COMMITMENTS)
    (hn : n ≤ Capacity.MAX_COMMITMENTS) :
    Capacity.getCapacityPercentageBps env s = n / 100 ∧
    Capacity.getCapacityAlertLevel env s =
      if n < 850000 then .Normal else if n < 950000 then .Warning else .Critical := by
  have hmax : Capacity.MAX_COMMITMENTS = 1000000 := rfl
  have hbps : Capacity.getCapacityPercentageBps env s = n / 100 := by
    unfold Capacity.getCapacityPercentageBps
    simp only
    rw [if_neg (by omega), hcount, hlimit, hmax]
    omega
  refine ⟨hbps, ?_⟩
  unfold Capacity.getCapacityAlertLevel Capacity.CAPACITY_CRITICAL_THRESHOLD_BPS
    Capacity.CAPACITY_WARNING_THRESHOLD_BPS
  simp only
  rw [hbps]
  split_ifs <;> first | rfl | omega

/-- The stored level decides that an alert goes out at the two thresholds and nowhere else. -/
theorem shouldEmit_iff {last : Option CapacityAlert} {n : ℕ}
    (hlast : last.map (·.level) = (alertsAfter n).getLast?.map (·.1)) :
    Capacity.shouldEmit last
      (if n + 1 < 850000 then .Normal else if n + 1 < 950000 then .Warning else .Critical) = true ↔
      n + 1 = 850000 ∨ n + 1 = 950000 := by
  unfold alertsAfter at hlast
  cases last with
  | none =>
    have hsmall : n < 850000 := by
      by_contra hn
      rw [if_neg hn] at hlast
      split at hlast <;> cases hlast
    split_ifs <;> simp [Capacity.shouldEmit] <;> omega
  | some last =>
    obtain ⟨level, _, _, _⟩ := last
    split_ifs at hlast <;> cases hlast <;> split_ifs <;> simp [Capacity.shouldEmit] <;> omega

theorem alertsAfter_succ_of_ne {n : ℕ} (h : ¬ (n + 1 = 850000 ∨ n + 1 = 950000)) :
    alertsAfter (n + 1) = alertsAfter n := by
  unfold alertsAfter
  split_ifs <;> first | rfl | omega

theorem alerted_increment {n : ℕ} (h : Alerted n w) (hroom : n < Capacity.MAX_COMMITMENTS)
    (hconfig : w.pool.config ≠ none) (hcount : Capacity.incrementCommitmentCount env w = .ok w') :
    Alerted (n + 1) w' := by
  have hbefore := h.count env
  have hlimit := h.limit env
  simp only [Capacity.incrementCommitmentCount, bind_eq_ok, addChecked_eq_ok, pure_eq_ok] at hcount
  obtain ⟨count, ⟨-, rfl⟩, rfl⟩ := hcount
  rw [hbefore]
  let counted : World := { w with
    pool.treeCapacity := some { Capacity.getTreeCapacity env w.pool with
      currentCount := n + 1
      lastUpdated := env.timestamp } }
  show Alerted (n + 1) (Capacity.checkAndEmitCapacityAlert env counted
    (Capacity.getCapacityAlertLevel env counted.pool))
  obtain ⟨hbps, hlevel⟩ := alertLevel_of_count (s := counted.pool) (n := n + 1) rfl hlimit
    hroom
  have hemit := shouldEmit_iff h.last
  unfold Capacity.checkAndEmitCapacityAlert
  rw [hlevel]
  show Alerted (n + 1) (if Capacity.shouldEmit w.pool.lastAlert _ = true then _ else _)
  by_cases hn : n + 1 = 850000 ∨ n + 1 = 950000
  · rw [if_pos (hemit.mpr hn), hbps]
    refine ⟨fun _ => rfl, fun _ => hlimit, hroom, ?_, ?_, fun hnone => absurd hnone hconfig⟩
    · have halerts : w.events.filterMap alertOf = alertsAfter n := h.alerts
      show (w.events ++ [_]).filterMap alertOf = _
      rw [List.filterMap_append, halerts]
      rcases hn with hn | hn <;> obtain rfl := Nat.succ.inj hn <;> rfl
    · rcases hn with hn | hn <;> obtain rfl := Nat.succ.inj hn <;> rfl
  · rw [if_neg (fun hyes => hn (hemit.mp hyes))]
    refine ⟨fun _ => rfl, fun _ => hlimit, hroom, ?_, ?_, fun hnone => absurd hnone hconfig⟩
    · rw [alertsAfter_succ_of_ne hn]
      exact h.alerts
    · rw [alertsAfter_succ_of_ne hn]
      exact h.last

/-! ## A run -/

theorem alerted_deposit {n : ℕ} {depositor : Address} {value : I128} {commitment : BytesN 32}
    {expectedIndex index : ℕ} (h : Alerted n w)
    (hdeposit : deposit host env w depositor value commitment expectedIndex = .ok (w', index)) :
    Alerted (n + 1) w' := by
  simp only [deposit, cfg, bind_eq_ok, Env.requireAuth_eq_ok, exists_const, expect_eq_ok,
    ensure_eq_ok, pure_eq_ok, I128.checked_eq_ok, addChecked_eq_ok, Prod.mk.injEq] at hdeposit
  obtain ⟨-, -, -, config, hstored, -, hroom, tokens, -, depCount, -, w₁, hcount, totDep, -, rfl, -⟩ :=
    hdeposit
  have hroom' : n < Capacity.MAX_COMMITMENTS := by
    rw [← h.count env, ← h.limit env]
    simpa [Capacity.isTreeAtCapacity] using hroom
  have hconfig : w.pool.config ≠ none := by
    rw [hstored]
    exact Option.some_ne_none config
  have h₁ : Alerted (n + 1) w₁ := by
    refine alerted_increment ?_ hroom' ?_ hcount
    · exact ⟨h.count, h.limit, h.bounded, h.alerts, h.last, h.untouched⟩
    · exact hconfig
  refine ⟨h₁.count, h₁.limit, h₁.bounded, ?_, h₁.last, h₁.untouched⟩
  rw [← h₁.alerts]
  simp [capacityAlerts, World.publish, alertOf]

/-- Every other call leaves record, alerts and last alert alone, or makes a new record. -/
theorem alerted_other {n : ℕ} {call : Call} {r : Ret} (h : Alerted n w)
    (heffect : Effect host env w call w' r)
    (hno : ∀ depositor value commitment index, call ≠ .deposit depositor value commitment index) :
    Alerted n w' := by
  have hevents : ∀ {e : PoolEvent}, alertOf e = none →
      (w.events ++ [e]).filterMap alertOf = alertsAfter n := by
    intro e he
    rw [List.filterMap_append, List.filterMap_cons_none he, List.filterMap_nil, List.append_nil]
    exact h.alerts
  have hkept : ∀ {s : PoolState} {tokens : TokenLedger} {events : List PoolEvent},
      s.treeCapacity = w.pool.treeCapacity → s.lastAlert = w.pool.lastAlert →
      (s.config = none → w.pool.config = none) → events.filterMap alertOf = alertsAfter n →
      Alerted n ⟨s, tokens, events⟩ := by
    intro s tokens events hcapacity hlast hconfig halerts
    refine ⟨?_, ?_, h.bounded, halerts, ?_, fun hnone => h.untouched (hconfig hnone)⟩
    · intro env
      have hcount := h.count env
      unfold Capacity.getTreeCapacity at hcount ⊢
      rw [hcapacity]
      exact hcount
    · intro env
      have hlimit := h.limit env
      unfold Capacity.getTreeCapacity at hlimit ⊢
      rw [hcapacity]
      exact hlimit
    · rw [hlast]
      exact h.last
  cases heffect with
  | initializePool hsigned hfresh =>
    obtain rfl := h.untouched hfresh
    refine ⟨fun _ => rfl, fun _ => rfl, Nat.zero_le _, ?_, h.last, fun _ => rfl⟩
    rw [← h.alerts]
    simp [capacityAlerts, alertOf]
  | deposit => exact absurd rfl (hno _ _ _ _)
  | setRootExpiry => exact hkept rfl rfl (fun hnone => by cases hnone) h.alerts
  | transferAdmin => exact hkept rfl rfl (fun hnone => by cases hnone) h.alerts
  | requestPauseAgain => exact h
  | tokenTransfer => exact hkept rfl rfl id h.alerts
  | _ => exact hkept rfl rfl id (hevents rfl)

theorem countP_snoc_error (t : List PoolStep) (w : World) (inv : Invocation) (e : Failure PoolError) :
    List.countP isDeposit (t ++ [⟨w, inv, .error e⟩]) = t.countP isDeposit := by
  obtain ⟨env, call⟩ := inv
  rw [List.countP_append]
  cases call <;> rfl

/-- **The capacity alerts of a run.** In every state a run reaches, the capacity record counts the
deposits that went through, at most `MAX_COMMITMENTS`, and the alerts published are the warning if
there were 850000 of them and the critical alert if there were 950000, each once, at that deposit. -/
theorem capacity_alerts (host : Host) (tokens : TokenLedger) (invs : List Invocation) (env : Env) :
    let w := (machine host).final (.deployed tokens) invs
    let n := ((machine host).trace (.deployed tokens) invs).countP isDeposit
    (Capacity.getTreeCapacity env w.pool).currentCount = n ∧ n ≤ Capacity.MAX_COMMITMENTS ∧
    capacityAlerts w = alertsAfter n := by
  have h : Alerted (((machine host).trace (.deployed tokens) invs).countP isDeposit)
      ((machine host).final (.deployed tokens) invs) := by
    rw [machine_eq]
    refine Machine.transactional_invariant (I := fun t w => Alerted (t.countP isDeposit) w)
      (alerted_deployed tokens) ?_ ?_ invs
    · intro t w inv e h
      rw [countP_snoc_error]
      exact h
    · intro t w inv w' r h hexec
      obtain ⟨env, call⟩ := inv
      rw [List.countP_append]
      cases call with
      | deposit depositor value commitment index =>
        simp only [exec, bind_eq_ok, pure_eq_ok, Prod.mk.injEq] at hexec
        obtain ⟨⟨w₁, i⟩, hdeposit, rfl, rfl⟩ := hexec
        exact alerted_deposit h hdeposit
      | _ =>
        apply alerted_other h (effect_of_exec hexec)
        intro _ _ _ _ hcall
        cases hcall
  exact ⟨h.count env, h.bounded, h.alerts⟩

end OpaqueStellar.Pool
