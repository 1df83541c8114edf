import OpaqueStellar.Pool.Effect

/-! # The privacy pool: leaves and tree capacity

Two operations insert leaves into the state tree, a deposit its commitment and a withdrawal its
change commitment, and both take the next index from one counter. The first half is about that
counter against the emitted events: an indexer that merges the two event streams gets an unbroken
sequence.

The second half is about the capacity record, which only a deposit advances: it follows the counter
exactly as long as no withdrawal goes through. -/

namespace OpaqueStellar.Pool

open OpaqueStellar.Lib OpaqueStellar.Soroban

variable {host : Host} {env : Env}

/-- The leaves an indexer reads off the events, in the order they were emitted. -/
def leaves (w : World) : List (BytesN 32 × ℕ) := w.events.filterMap leafOf

/-- The commitment `c` became the next leaf. -/
structure Appended (w w' : World) (c : BytesN 32) : Prop where
  depCount : w'.pool.depCount = w.pool.depCount + 1
  commitments : w'.pool.commitments = w.pool.commitments.insert c w.pool.depCount
  leaves : leaves w' = leaves w ++ [(c, w.pool.depCount)]
  initialised : w'.pool.config ≠ none

theorem filterMap_alerts {alerts : List PoolEvent}
    (h : ∀ e ∈ alerts, ∃ level bps count, e = .capAlert level bps count) :
    alerts.filterMap leafOf = [] := by
  rw [List.filterMap_eq_nil_iff]
  intro e he
  obtain ⟨level, bps, count, rfl⟩ := h e he
  rfl

/-- **The calls and the leaves.** A successful call initialises the pool, or appends one leaf, or
leaves the counter and all leaves alone. -/
theorem appended_or_frame {w w' : World} {call : Call} {r : Ret}
    (h : Effect host env w call w' r) :
    (∃ admin verifier sac scope, call = .initializePool admin verifier sac scope ∧
      w.pool.config = none ∧ w'.pool.depCount = 0 ∧ w'.pool.commitments = w.pool.commitments ∧
      leaves w' = leaves w ∧ w'.pool.config ≠ none) ∨
    (∃ depositor value c, call = .deposit depositor value c w.pool.depCount ∧
      r = .index w.pool.depCount ∧ Appended w w' c) ∨
    (∃ args, call = .withdraw args ∧ Appended w w' args.newCommitment) ∨
    (Quiet call ∧ Frame host w w') := by
  by_cases hq : Quiet call
  · exact .inr (.inr (.inr ⟨hq, frame_of_effect h hq⟩))
  cases h with
  | @initializePool admin verifier sac scope hsigned hfresh =>
      refine .inl ⟨admin, verifier, sac, scope, rfl, hfresh, rfl, rfl, ?_, ?_⟩
      · simp [leaves, leafOf]
      · intro hnone
        cases hnone
  | @deposit depositor value c _ _ _ _ _ _ _ _ _ hstored _ _ _ halerting =>
      refine .inr (.inl ⟨depositor, value, c, rfl, rfl, rfl, rfl, ?_, ?_⟩)
      · simp [leaves, leafOf, filterMap_alerts halerting]
      · intro hnone
        cases hstored.symm.trans hnone
  | @withdraw args _ _ _ _ _ hadmitted =>
      refine .inr (.inr (.inl ⟨args, rfl, rfl, rfl, ?_, ?_⟩))
      · simp [leaves, leafOf]
      · intro hnone
        cases hadmitted.stored.symm.trans hnone
  | _ => exact absurd trivial hq

theorem appended_of_withdraw {w w' : World} {args : WithdrawArgs} {r : Ret}
    (h : Effect host env w (.withdraw args) w' r) : Appended w w' args.newCommitment := by
  rcases appended_or_frame h with ⟨_, _, _, _, hcall, -⟩ | ⟨_, _, _, hcall, -⟩ |
    ⟨_, hcall, ha⟩ | ⟨hq, -⟩
  · cases hcall
  · cases hcall
  · cases hcall
    exact ha
  · exact hq.elim

/-! ## Index assignment -/

/-- `c` is stored under the index of the latest leaf that carries it. -/
def StoredLatest (w : World) (c : BytesN 32) : Prop :=
  ∃ j, w.pool.commitments.lookup c = some j ∧ (c, j) ∈ leaves w ∧ ∀ i, (c, i) ∈ leaves w → i ≤ j

structure Indexed (w : World) : Prop where
  indices : (leaves w).map Prod.snd = List.range w.pool.depCount
  stored : ∀ leaf ∈ leaves w, StoredLatest w leaf.1
  untouched : w.pool.config = none → w.pool.depCount = 0

theorem Indexed.lt_depCount {w : World} (h : Indexed w) {leaf : BytesN 32 × ℕ}
    (hleaf : leaf ∈ leaves w) : leaf.2 < w.pool.depCount := by
  have hmem : leaf.2 ∈ (leaves w).map Prod.snd := List.mem_map_of_mem hleaf
  rw [h.indices, List.mem_range] at hmem
  exact hmem

/-- Appending a leaf at the counter keeps the sequence unbroken and the stored indices latest. -/
theorem indexed_appended {w w' : World} {c : BytesN 32} (h : Indexed w) (ha : Appended w w' c) :
    Indexed w' := by
  refine ⟨?_, ?_, fun hnone => absurd hnone ha.initialised⟩
  · rw [ha.leaves, ha.depCount, List.map_append, h.indices, List.range_succ]
    rfl
  · intro leaf hleaf
    by_cases hc : leaf.1 = c
    · -- the new leaf itself, or an older leaf that carries the same commitment
      refine ⟨w.pool.depCount, ?_, ?_, ?_⟩
      · rw [ha.commitments, hc, Finmap.lookup_insert]
      · rw [ha.leaves, hc]
        exact List.mem_append_right _ (List.mem_singleton.mpr rfl)
      · intro i hi
        rw [ha.leaves, List.mem_append] at hi
        rcases hi with hold | hnew
        · exact le_of_lt (h.lt_depCount hold)
        · exact le_of_eq (congrArg Prod.snd (List.mem_singleton.mp hnew))
    · have holder : ∀ i, (leaf.1, i) ∈ leaves w' → (leaf.1, i) ∈ leaves w := by
        intro i hi
        rw [ha.leaves, List.mem_append] at hi
        rcases hi with hold | hnew
        · exact hold
        · exact absurd (congrArg Prod.fst (List.mem_singleton.mp hnew)) hc
      obtain ⟨j, hlookup, hmem, hmax⟩ := h.stored (leaf.1, leaf.2) (holder leaf.2 hleaf)
      refine ⟨j, ?_, ?_, ?_⟩
      · rw [ha.commitments, Finmap.lookup_insert_of_ne _ hc]
        exact hlookup
      · rw [ha.leaves]
        exact List.mem_append_left _ hmem
      · intro i hi
        exact hmax i (holder i hi)

/-- Keeping counter, commitments and leaves keeps the indices. -/
theorem indexed_kept {w w' : World} (h : Indexed w) (hcount : w'.pool.depCount = w.pool.depCount)
    (hcommit : w'.pool.commitments = w.pool.commitments) (hleaves : leaves w' = leaves w)
    (hconfig : w'.pool.config = none → w.pool.config = none) : Indexed w' := by
  refine ⟨?_, ?_, ?_⟩
  · rw [hleaves, hcount]
    exact h.indices
  · rw [hleaves]
    intro leaf hleaf
    rw [StoredLatest, hleaves, hcommit]
    exact h.stored leaf hleaf
  · intro hnone
    rw [hcount]
    exact h.untouched (hconfig hnone)

theorem indexed_effect {w w' : World} {call : Call} {r : Ret} (h : Indexed w)
    (heffect : Effect host env w call w' r) : Indexed w' := by
  rcases appended_or_frame heffect with
    ⟨_, _, _, _, -, hfresh, hcount, hcommit, hleaves, hconfig⟩ | ⟨_, _, _, -, -, ha⟩ |
    ⟨_, -, ha⟩ | ⟨-, hf⟩
  · have hzero := h.untouched hfresh
    exact indexed_kept h (hcount.trans hzero.symm) hcommit hleaves (fun hnone => absurd hnone hconfig)
  · exact indexed_appended h ha
  · exact indexed_appended h ha
  · refine indexed_kept h hf.depCount hf.commitments hf.leaves ?_
    intro hnone
    have hwiring := hf.wiring
    rw [hnone] at hwiring
    exact Option.map_eq_none_iff.mp hwiring.symm

theorem indexed_run (host : Host) (tokens : TokenLedger) (invs : List Invocation) :
    Indexed ((machine host).final (.deployed tokens) invs) := by
  refine run_invariant (I := fun _ w => Indexed w) ⟨rfl, ?_, fun _ => rfl⟩ ?_ ?_ invs
  · intro leaf hleaf
    cases hleaf
  · intro t w inv e h
    exact h
  · intro t w inv w' r h heffect
    exact indexed_effect h heffect

/-- A deposit that succeeds was called with the current counter and returns it. -/
theorem deposit_returns {w w' : World} {depositor : Address} {value : I128} {c : BytesN 32}
    {expectedIndex : ℕ} {r : Ret}
    (h : Effect host env w (.deposit depositor value c expectedIndex) w' r) :
    r = .index expectedIndex := by
  cases h with
  | deposit => rfl

/-- **Index assignment.** After every run the leaf events carry the indices `0, 1, …` up to the
counter, every deposit that succeeded returned the index it expected, and every commitment that
became a leaf is stored under the index of its latest leaf. -/
theorem leaf_indices (host : Host) (tokens : TokenLedger) (invs : List Invocation) :
    let w := (machine host).final (.deployed tokens) invs
    (leaves w).map Prod.snd = List.range w.pool.depCount ∧
    (∀ e ∈ (machine host).trace (.deployed tokens) invs, ∀ depositor value c expectedIndex r,
      e.input.call = .deposit depositor value c expectedIndex → e.output = .ok r →
      r = .index expectedIndex) ∧
    ∀ leaf ∈ leaves w, ∃ j, w.pool.commitments.lookup leaf.1 = some j ∧ (leaf.1, j) ∈ leaves w ∧
      ∀ i, (leaf.1, i) ∈ leaves w → i ≤ j := by
  intro w
  have h : Indexed w := indexed_run host tokens invs
  refine ⟨h.indices, ?_, h.stored⟩
  intro e he depositor value c expectedIndex r hcall hout
  obtain ⟨w', -, heffect⟩ := effect_of_mem_trace he hout
  rw [hcall] at heffect
  exact deposit_returns heffect

/-! ## Tree capacity -/

/-- The capacity record counts the leaves, and they fit the tree. -/
def CapacityTracked (w : World) : Prop :=
  ∀ env, (Capacity.getTreeCapacity env w.pool).currentCount = w.pool.depCount ∧
    w.pool.depCount ≤ Capacity.MAX_COMMITMENTS

/-- The step is a withdrawal that goes through, and so inserts its change commitment. -/
def InsertsChange (host : Host) (e : PoolStep) : Prop :=
  ∃ args config, e.input.call = .withdraw args ∧ Completes host e.input.env e.pre args config

/-- What the guard of a deposit rests on besides: the record holds the tree's real limit. -/
def CapacityRecord (w : World) : Prop :=
  CapacityTracked w ∧
    ∀ env, (Capacity.getTreeCapacity env w.pool).maxCapacity = Capacity.MAX_COMMITMENTS

theorem capacityRecord_deployed (tokens : TokenLedger) : CapacityRecord (.deployed tokens) :=
  ⟨fun _ => ⟨rfl, Nat.zero_le _⟩, fun _ => rfl⟩

theorem capacityRecord_effect {w w' : World} {inv : Invocation} {r : Ret} (h : CapacityRecord w)
    (hno : ¬ InsertsChange host ⟨w, inv, .ok r⟩) (heffect : Effect host inv.env w inv.call w' r) :
    CapacityRecord w' := by
  by_cases hq : Quiet inv.call
  · have hf := frame_of_effect heffect hq
    simp only [CapacityRecord, CapacityTracked, Capacity.getTreeCapacity, hf.treeCapacity,
      hf.depCount]
    exact h
  obtain ⟨env, call⟩ := inv
  cases heffect with
  | initializePool => exact ⟨fun _ => ⟨rfl, Nat.zero_le _⟩, fun _ => rfl⟩
  | deposit hsigned hforeign hunpaused hpositive hstored hroom =>
      obtain ⟨hcount, hbound⟩ := h.1 env
      have hmax := h.2 env
      refine ⟨?_, fun _ => hmax⟩
      intro _
      refine ⟨congrArg (· + 1) hcount, ?_⟩
      rw [hcount, hmax] at hroom
      exact hroom
  | withdraw hadmitted htotal hnet hpaid htokens hfits =>
      exact absurd ⟨_, _, rfl, hadmitted, hfits, _, _, _, hnet, hpaid, htokens⟩ hno
  | _ => exact absurd trivial hq

/-- After a withdrawal the record and the counter are apart if they were together before. -/
theorem not_tracked_of_insertsChange {w : World} {inv : Invocation} {o : Outcome}
    (h : InsertsChange host ⟨w, inv, o⟩) (hw : CapacityTracked w) :
    ¬ CapacityTracked ((machine host).step w inv).1 := by
  intro hw'
  obtain ⟨env, call⟩ := inv
  obtain ⟨args, config, hcall, hcompletes⟩ := h
  obtain rfl : call = .withdraw args := hcall
  obtain ⟨w', hok⟩ := withdraw_of_completes hcompletes
  have hexec : exec host env w (.withdraw args) = .ok (w', .unit) := by
    simp only [exec, hok]
    rfl
  have hstep : (machine host).step w ⟨env, .withdraw args⟩ = (w', .ok .unit) :=
    step_of_ok host hexec
  rw [hstep] at hw'
  have hbefore := (hw env).1
  have hafter := (hw' env).1
  cases withdraw_effect hok with
  | withdraw =>
      simp only [Capacity.getTreeCapacity] at hbefore hafter
      omega

/-- **When the capacity record is right.** In every state a run passes through, the record counts
the leaves and they are at most `MAX_COMMITMENTS`, if and only if no withdrawal goes through. -/
theorem capacity_tracked_iff (host : Host) (tokens : TokenLedger) (invs : List Invocation) :
    (∀ before later, invs = before ++ later →
      CapacityTracked ((machine host).final (.deployed tokens) before)) ↔
    ∀ e ∈ (machine host).trace (.deployed tokens) invs, ¬ InsertsChange host e := by
  constructor
  · intro h e he hinserts
    obtain ⟨before, later, hinvs, hstep⟩ := Machine.mem_trace _ he
    rw [hstep] at hinserts
    refine not_tracked_of_insertsChange hinserts (h before _ hinvs) ?_
    have hnext := h (before ++ [e.input]) later (by rw [hinvs, List.append_assoc]; rfl)
    rw [Machine.final_snoc] at hnext
    exact hnext
  · intro h before later hinvs
    refine (run_invariant_of_steps (P := fun e => ¬ InsertsChange host e)
      (I := fun _ w => CapacityRecord w) (capacityRecord_deployed tokens) ?_ ?_ before ?_).1
    · intro t w inv e hw
      exact hw
    · intro t w inv w' r hw hno heffect
      exact capacityRecord_effect hw hno heffect
    · intro e he
      apply h e
      rw [hinvs]
      exact Machine.mem_trace_append _ _ he

/-- One deposit and one withdrawal: two leaves, and a record of one. -/
theorem capacity_not_tracked :
    ¬ CapacityTracked ((machine Demo.host).final (.deployed Demo.tokens)
      (Demo.setup ++ [Demo.spend])) := by
  intro h
  have hcount := (h (Demo.env 15 Demo.user)).1
  revert hcount
  decide +kernel

end OpaqueStellar.Pool
