import OpaqueStellar.Asp.Screening

/-! # The reorg guard

The guard is told the last ledger of each batch and expects the next batch after it, but what it
compares is the ledger cursor of the saved state, which moves with the deposits that were not decided
before. On a chain from which nothing is ever removed it therefore halts a tick whose batch brings
nothing new beyond the last one. -/

namespace OpaqueStellar.Asp

open OpaqueStellar.Lib OpaqueStellar.Soroban OpaqueStellar.Pool

section Guard

variable {i : TickInput} {guard : ReorgGuard} {state : PoolState} {deposits : List Deposit}

theorem le_maxLedger {d : Deposit} (h : d ∈ deposits) : d.ledger ≤ maxLedger deposits := by
  rw [maxLedger]
  exact List.le_max_of_le' 0 (List.mem_map_of_mem h) (le_refl _)

/-- The guard halts a batch when the cursor has not reached the ledger it expects. -/
theorem checkContinuity_halts :
    (checkContinuity i guard state deposits).2 = true ↔
      i.guarded = true ∧ deposits ≠ [] ∧ guard.expectedNextLedger ≠ 0 ∧
        state.lastLedger < guard.expectedNextLedger := by
  unfold checkContinuity ReorgGuard.validate
  split
  · next hchecked =>
      by_cases hzero : guard.expectedNextLedger = 0
      · simp [hzero]
      · by_cases hle : guard.expectedNextLedger ≤ state.lastLedger
        · simp [hzero, hle]
        · simp [hzero, hle, hchecked.1, hchecked.2, not_le.mp hle]
  · next hskipped =>
      constructor
      · intro h
        cases h
      · rintro ⟨hguarded, hsome, -⟩
        exact absurd ⟨hguarded, hsome⟩ hskipped

/-- A batch that passes is committed. -/
theorem checkContinuity_passes {guard' : ReorgGuard} (hguarded : i.guarded = true)
    (h : checkContinuity i guard state deposits = (guard', false)) :
    guard' = if deposits = [] then guard else ⟨maxLedger deposits + 1⟩ := by
  unfold checkContinuity ReorgGuard.validate at h
  by_cases hnone : deposits = []
  · rw [if_neg (fun hand => hand.2 hnone)] at h
    rw [if_pos hnone]
    exact (congrArg Prod.fst h).symm
  · rw [if_pos ⟨hguarded, hnone⟩] at h
    rw [if_neg hnone]
    split_ifs at h <;> simp_all [ReorgGuard.commit]

end Guard

section Run

variable {F : Type} (S : Setting F)

/-- The guard halts this tick. -/
def Halts [NatCast F] (s : System) (i : TickInput) : Prop :=
  ∃ screened set, screenBatch S i s.state (batch S s i) = .ok (screened, set) ∧
    (checkContinuity i s.guard screened.state (batch S s i)).2 = true

/-- Where the guard expects a ledger already, a batch brings a deposit that is not decided from that
ledger or a later one. -/
def Advances [NatCast F] (s : System) (i : TickInput) : Prop :=
  (∃ screened, screenBatch S i s.state (batch S s i) = .ok screened) → batch S s i ≠ [] →
    s.guard.expectedNextLedger ≠ 0 →
    ∃ d ∈ batch S s i, ¬ s.state.Decided d.index ∧ s.guard.expectedNextLedger ≤ d.ledger

/-- The guard is ahead of the saved cursor, once it was told anything. -/
def Ahead (s : System) : Prop :=
  s.guard.expectedNextLedger ≠ 0 → s.state.lastLedger < s.guard.expectedNextLedger

variable {S}

/-- Only a tick that could read its deposits has a batch. -/
theorem readConfirmed_of_batch {s : System} {i : TickInput} (h : batch S s i ≠ []) :
    ∃ c, readConfirmed S i s.state s.chain = (.ok (batch S s i), c) := by
  unfold batch at h ⊢
  split at h
  · next deposits c hread => exact ⟨c, by rw [hread]⟩
  · exact absurd rfl h

/-- Neither the old cursor nor the new one gets beyond the batch. -/
theorem lastLedger_le_maxLedger {s : System} {i : TickInput} {deposits : List Deposit} {c : Chain}
    {state' : PoolState} (hread : readConfirmed S i s.state s.chain = (.ok deposits, c))
    (hsome : deposits ≠ []) (hdecides : Decides i.policy deposits s.state state') :
    s.state.lastLedger ≤ maxLedger deposits ∧ state'.lastLedger ≤ maxLedger deposits := by
  obtain ⟨-, hfrom, -⟩ := readConfirmed_spec hread
  obtain ⟨d, hd⟩ := List.exists_mem_of_ne_nil deposits hsome
  have hold : s.state.lastLedger ≤ maxLedger deposits := le_trans (hfrom d hd) (le_maxLedger hd)
  refine ⟨hold, ?_⟩
  rcases (hdecides.lastLedger _).mp (le_refl _) with hle | ⟨d', hd', -, hle⟩
  · exact le_trans hle hold
  · exact le_trans hle (le_maxLedger hd')

variable [NatCast F]

/-- **When the guard halts.** -/
theorem halts_iff {s : System} {i : TickInput} (hahead : Ahead s) (hguarded : i.guarded = true) :
    Halts S s i ↔ ¬ Advances S s i := by
  constructor
  · rintro ⟨screened, set, hscreens, hhalts⟩ hadvances
    obtain ⟨-, hsome, hexpects, hlt⟩ := checkContinuity_halts.mp hhalts
    obtain ⟨c, hread⟩ := readConfirmed_of_batch hsome
    obtain ⟨hdecides, -⟩ := screenBatch_spec (readConfirmed_spec hread).1 hscreens
    have hreached := (hdecides.lastLedger _).mpr
      (.inr (hadvances ⟨_, hscreens⟩ hsome hexpects))
    exact absurd hlt (not_lt_of_ge hreached)
  · intro hstuck
    unfold Advances at hstuck
    push Not at hstuck
    obtain ⟨⟨⟨screened, set⟩, hscreens⟩, hsome, hexpects, hbehind⟩ := hstuck
    obtain ⟨c, hread⟩ := readConfirmed_of_batch hsome
    obtain ⟨hdecides, -⟩ := screenBatch_spec (readConfirmed_spec hread).1 hscreens
    refine ⟨screened, set, hscreens, checkContinuity_halts.mpr ⟨hguarded, hsome, hexpects, ?_⟩⟩
    by_contra hreached
    rcases (hdecides.lastLedger _).mp (not_lt.mp hreached) with hcursor | ⟨d, hd, hopen, hle⟩
    · exact absurd (hahead hexpects) (not_lt_of_ge hcursor)
    · exact absurd hle (not_le_of_gt (hbehind d hd hopen))

variable [Zero F]

/-- A tick that is not halted leaves the guard ahead. -/
theorem ahead_tick {s : System} {i : TickInput} (hahead : Ahead s) (hguarded : i.guarded = true)
    (hno : ¬ Halts S s i) : Ahead (runPoolTick S s i).1 := by
  have hrun := tickRun S s i
  revert hrun
  generalize (runPoolTick S s i).1 = s'
  generalize (runPoolTick S s i).2 = result
  intro hrun
  -- a batch that passed is committed, whether the tick completes or not
  have hpassed : ∀ {deposits c screened set guard' c' store'},
      readConfirmed S i s.state s.chain = (.ok deposits, c) →
      screenBatch S i s.state deposits = .ok (screened, set) →
      checkContinuity i s.guard screened.state deposits = (guard', false) →
      (store' = s.store ∨ ∃ state', store' = some state' ∧
        state'.decisions = screened.state.decisions) →
      Ahead ⟨c', store', guard'⟩ := by
    intro deposits c screened set guard' c' store' hread hscreens hpasses hstore
    obtain ⟨hdecides, -⟩ := screenBatch_spec (readConfirmed_spec hread).1 hscreens
    rw [checkContinuity_passes hguarded hpasses]
    by_cases hnone : deposits = []
    · rw [if_pos hnone]
      rcases hstore with rfl | ⟨state', rfl, hsame⟩
      · exact hahead
      · intro hexpects
        have hledger := (hdecides.congr hsame).lastLedger
        simp only [hnone, List.not_mem_nil, false_and, exists_false, or_false] at hledger
        exact lt_of_le_of_lt ((hledger _).mp (le_refl _)) (hahead hexpects)
    · rw [if_neg hnone]
      intro _
      rcases hstore with rfl | ⟨state', rfl, hsame⟩
      · exact Nat.lt_succ_of_le (lastLedger_le_maxLedger hread hnone hdecides).1
      · exact Nat.lt_succ_of_le (lastLedger_le_maxLedger hread hnone (hdecides.congr hsame)).2
  cases hrun with
  | unread => exact hahead
  | unscreened => exact hahead
  | halted hread hscreens hhalts =>
      rw [← batch_eq hread] at hscreens hhalts
      exact absurd ⟨_, _, hscreens, congrArg Prod.snd hhalts⟩ hno
  | unpublished hread hscreens hpasses => exact hpassed hread hscreens hpasses (.inl rfl)
  | completed hread hscreens hpasses hpublish =>
      exact hpassed hread hscreens hpasses (.inr ⟨_, rfl, decisions_publish hpublish⟩)

/-- What a tick reports is what the guard did. -/
theorem TickRun.haltedForReorg_iff {s s' : System} {i : TickInput} {r : Except Thrown TickResult}
    {result : TickResult} (h : TickRun S s i s' r) (hr : r = .ok result) :
    result.haltedForReorg = true ↔ Halts S s i := by
  cases h with
  | unread => cases hr
  | unscreened => cases hr
  | unpublished => cases hr
  | @halted c c' deposits screened set guard onChainRoot hread hscreens hhalts =>
      rw [← batch_eq hread] at hscreens hhalts
      have hhalt : Halts S s i := ⟨_, _, hscreens, congrArg Prod.snd hhalts⟩
      refine ⟨fun _ => hhalt, fun _ => ?_⟩
      cases onChainRoot with
      | error e => cases hr
      | ok root =>
          cases hr
          rfl
  | completed hread hscreens hpasses hpublish =>
      cases hr
      obtain ⟨-, -, c₁, leaves, stateRoot, c₂, -, -, hresult, -⟩ := publish_eq_ok hpublish
      rw [hresult]
      refine ⟨fun hfalse => absurd hfalse Bool.false_ne_true, ?_⟩
      rintro ⟨screened', set', hscreens', hhalts⟩
      rw [batch_eq hread] at hscreens' hhalts
      cases hscreens.symm.trans hscreens'
      rw [hpasses] at hhalts
      cases hhalts

theorem ahead_run {tokens : TokenLedger} {ledger : ℕ} {inputs : List Input}
    (hguarded : ∀ i, .tick i ∈ inputs → i.guarded = true)
    (hno : ∀ before i later, inputs = before ++ .tick i :: later →
      ¬ Halts S ((machine S).final (.initial tokens ledger) before) i)
    {before later : List Input} (hsplit : inputs = before ++ later) :
    Ahead ((machine S).final (.initial tokens ledger) before) := by
  induction before using List.reverseRecOn generalizing later with
  | nil =>
      intro hexpects
      exact absurd rfl hexpects
  | append_singleton before input ih =>
      have hinitial : inputs = before ++ input :: later := by
        rw [hsplit, List.append_assoc]
        rfl
      have hahead := ih hinitial
      rw [Machine.final_snoc]
      cases input with
      | tick i =>
          have hmem : .tick i ∈ inputs := by
            rw [hinitial]
            exact List.mem_append_right _ List.mem_cons_self
          exact ahead_tick hahead (hguarded i hmem) (hno before i later hinitial)
      | close l => exact hahead
      | restart =>
          intro hexpects
          exact absurd rfl hexpects

/-- **The guard halts nothing exactly when every batch brings something new.** For every run on an
append-only chain, with the guard in every tick: no tick is halted if and only if each batch that
comes after another brings a deposit that is not decided from beyond it; and a tick reports that it
was halted exactly when it was. -/
theorem no_halt_iff (S : Setting F) (tokens : TokenLedger) (ledger : ℕ) (inputs : List Input)
    (hguarded : ∀ i, .tick i ∈ inputs → i.guarded = true) :
    let final := (machine S).final (.initial tokens ledger)
    ((∀ before i later, inputs = before ++ .tick i :: later → ¬ Halts S (final before) i) ↔
      ∀ before i later, inputs = before ++ .tick i :: later → Advances S (final before) i) ∧
    ∀ before i later result, inputs = before ++ .tick i :: later →
      (runPoolTick S (final before) i).2 = .ok result →
      (result.haltedForReorg = true ↔ Halts S (final before) i) := by
  intro final
  have hmem : ∀ {before i later}, inputs = before ++ .tick i :: later → i.guarded = true := by
    intro before i later hinputs
    apply hguarded i
    rw [hinputs]
    exact List.mem_append_right _ List.mem_cons_self
  refine ⟨⟨?_, ?_⟩, ?_⟩
  · intro hno before i later hinputs
    have hahead := ahead_run hguarded hno hinputs
    have := hno before i later hinputs
    rw [halts_iff hahead (hmem hinputs), not_not] at this
    exact this
  · -- the first tick that is halted would come after ticks that were not
    intro hadvances before
    induction hn : before.length using Nat.strong_induction_on generalizing before with
    | _ n ih =>
        intro i later hinputs
        have hearlier : ∀ before' i' later', before = before' ++ .tick i' :: later' →
            ¬ Halts S (final before') i' := by
          intro before' i' later' hbefore
          refine ih before'.length ?_ before' rfl i' (later' ++ .tick i :: later) ?_
          · rw [← hn, hbefore, List.length_append, List.length_cons]
            omega
          · rw [hinputs, hbefore, List.append_assoc]
            rfl
        have hbefore : ∀ i', .tick i' ∈ before → i'.guarded = true := by
          intro i' hi'
          apply hguarded i'
          rw [hinputs]
          exact List.mem_append_left _ hi'
        have hahead : Ahead (final before) :=
          ahead_run hbefore hearlier (List.append_nil before).symm
        rw [halts_iff hahead (hmem hinputs), not_not]
        exact hadvances before i later hinputs
  · intro before i later result _ hresult
    exact (tickRun S (final before) i).haltedForReorg_iff hresult

end Run

/-! ## A halt without a reorg -/

/-- Two deposits in two ledgers and the tick twice: the first tick defers one of them, so the second
is handed the other one again. -/
def Demo.deferring : List Input :=
  Demo.twoDeposits ++ [.tick Demo.deferFirst, .tick Demo.deferFirst]

theorem Demo.deferring_eq : Demo.deferring =
    (Demo.twoDeposits ++ [.tick Demo.deferFirst]) ++ [.tick Demo.deferFirst] := by
  rw [Demo.deferring, List.append_assoc, List.singleton_append]

/-- The second tick reports a halt. -/
theorem Demo.second_tick :
    ∃ result, (runPoolTick Demo.setting ((machine Demo.setting).final Demo.start
      (Demo.twoDeposits ++ [.tick Demo.deferFirst])) Demo.deferFirst).2 = .ok result ∧
      result.haltedForReorg = true := by
  have hreport : (runPoolTick Demo.setting ((machine Demo.setting).final Demo.start
      (Demo.twoDeposits ++ [.tick Demo.deferFirst])) Demo.deferFirst).2.toOption.map
      (·.haltedForReorg) = some true := by decide
  cases h : (runPoolTick Demo.setting ((machine Demo.setting).final Demo.start
      (Demo.twoDeposits ++ [.tick Demo.deferFirst])) Demo.deferFirst).2 with
  | error e =>
      rw [h] at hreport
      cases hreport
  | ok result =>
      rw [h] at hreport
      exact ⟨result, rfl, Option.some.inj hreport⟩

/-- A tick is halted although the chain stood still since the tick before. -/
theorem halted_without_reorg :
    ¬ ∀ before i later result, Demo.deferring = before ++ .tick i :: later →
      (runPoolTick Demo.setting ((machine Demo.setting).final Demo.start before) i).2 = .ok result →
      result.haltedForReorg = false := by
  intro h
  obtain ⟨result, hresult, hhalted⟩ := Demo.second_tick
  have := h _ _ [] result Demo.deferring_eq hresult
  rw [hhalted] at this
  cases this

theorem no_halt_iff_deferring :
    Halts Demo.setting ((machine Demo.setting).final Demo.start
      (Demo.twoDeposits ++ [.tick Demo.deferFirst])) Demo.deferFirst := by
  have hguarded : ∀ i, Input.tick i ∈ Demo.deferring → i.guarded = true := by
    intro i hi
    simp only [Demo.deferring, Demo.twoDeposits, List.cons_append, List.nil_append, List.mem_cons,
      reduceCtorEq, Input.tick.injEq, List.not_mem_nil, or_false, false_or, or_self] at hi
    rw [hi]
    rfl
  obtain ⟨result, hresult, hhalted⟩ := Demo.second_tick
  exact ((no_halt_iff Demo.setting Pool.Demo.tokens 9 Demo.deferring hguarded).2
    _ _ [] result Demo.deferring_eq hresult).mp hhalted

end OpaqueStellar.Asp
