import OpaqueStellar.Asp.Engine

/-! # Screening over many ticks

What the loop of one tick does to the lists of decisions, and what follows for a run of ticks against
a chain that goes on. -/

namespace OpaqueStellar.Asp

open OpaqueStellar.Lib OpaqueStellar.Soroban OpaqueStellar.Pool

/-! ## One batch -/

/-- The verdict that the loop asks for: none about a deposit that is decided. -/
def verdictOf (policy : Deposit → Option PolicyVerdict) (state : PoolState) (d : Deposit) :
    Option PolicyVerdict :=
  if state.Decided d.index then none else policy d

/-- The indices of the deposits of a batch with a given verdict. -/
def withVerdict (policy : Deposit → Option PolicyVerdict) (state : PoolState)
    (deposits : List Deposit) (v : PolicyVerdict) : List ℕ :=
  (deposits.filter fun d => verdictOf policy state d = some v).map (·.index)

section Batch

variable {policy : Deposit → Option PolicyVerdict} {state : PoolState} {deposits : List Deposit}

theorem mem_withVerdict {v : PolicyVerdict} {index : ℕ} :
    index ∈ withVerdict policy state deposits v ↔
      ∃ d ∈ deposits, d.index = index ∧ ¬ state.Decided index ∧ policy d = some v := by
  simp only [withVerdict, List.mem_map, List.mem_filter, decide_eq_true_eq]
  constructor
  · rintro ⟨d, ⟨hd, hv⟩, rfl⟩
    unfold verdictOf at hv
    split at hv
    · cases hv
    · next hopen => exact ⟨d, hd, rfl, hopen, hv⟩
  · rintro ⟨d, hd, rfl, hopen, hv⟩
    exact ⟨d, ⟨hd, by rw [verdictOf, if_neg hopen, hv]⟩, rfl⟩

/-- A batch was screened from `s` to `s'`. -/
structure Screens (policy : Deposit → Option PolicyVerdict) (deposits : List Deposit)
    (s s' : Screening) : Prop where
  answered : ∀ d ∈ deposits, ¬ s.state.Decided d.index → (policy d).isSome
  approved : s'.state.approvedIndices =
    s.state.approvedIndices ++ withVerdict policy s.state deposits .approve
  rejected : s'.state.rejectedIndices =
    s.state.rejectedIndices ++ withVerdict policy s.state deposits .reject
  deferred : ∀ index, index ∈ s'.nextDeferred ↔
    index ∈ s.nextDeferred ∨ index ∈ withVerdict policy s.state deposits .defer
  lastLedger : ∀ n, n ≤ s'.state.lastLedger ↔
    n ≤ s.state.lastLedger ∨ ∃ d ∈ deposits, ¬ s.state.Decided d.index ∧ n ≤ d.ledger
  leaves : s'.state.stateLeaves = s.state.stateLeaves
  cursor : s'.state.stateEventCursor = s.state.stateEventCursor

/-- What one verdict does. -/
theorem screens_record {s : Screening} {d : Deposit} {v : PolicyVerdict}
    (hopen : ¬ s.state.Decided d.index) (hv : policy d = some v) :
    Screens policy [d] s (s.record d v) := by
  have hverdict : verdictOf policy s.state d = some v := by rw [verdictOf, if_neg hopen, hv]
  have hlast : ∀ n, n ≤ max s.state.lastLedger d.ledger ↔
      n ≤ s.state.lastLedger ∨ ∃ d' ∈ [d], ¬ s.state.Decided d'.index ∧ n ≤ d'.ledger := by
    intro n
    simp [hopen]
  have hanswered : ∀ d' ∈ [d], ¬ s.state.Decided d'.index → (policy d').isSome := by
    intro d' hd' _
    rw [List.mem_singleton.mp hd', hv]
    rfl
  cases v with
  | approve => constructor <;> simp [withVerdict, hverdict, Screening.record, hlast, hv, hopen]
  | reject => constructor <;> simp [withVerdict, hverdict, Screening.record, hlast, hv, hopen]
  | defer =>
      constructor <;> simp [withVerdict, hverdict, Screening.record, hlast, hv, hopen, or_comm]

/-- A decision about another deposit does not change what is decided. -/
theorem Screens.decided {s s' : Screening} (h : Screens policy deposits s s') {index : ℕ}
    (hother : index ∉ deposits.map (·.index)) :
    s'.state.Decided index ↔ s.state.Decided index := by
  have hnone : ∀ v, index ∉ withVerdict policy s.state deposits v := by
    intro v hmem
    obtain ⟨d, hd, rfl, -⟩ := mem_withVerdict.mp hmem
    exact hother (List.mem_map_of_mem hd)
  simp only [PoolState.Decided, h.approved, h.rejected, List.mem_append, hnone, or_false]

theorem Screens.append {s s' s'' : Screening} {later : List Deposit}
    (h : Screens policy deposits s s') (h' : Screens policy later s' s'')
    (hdisjoint : ∀ d ∈ later, d.index ∉ deposits.map (·.index)) :
    Screens policy (deposits ++ later) s s'' := by
  have hverdict : ∀ v, withVerdict policy s'.state later v = withVerdict policy s.state later v := by
    intro v
    unfold withVerdict
    congr 1
    apply List.filter_congr
    intro d hd
    have heq : verdictOf policy s'.state d = verdictOf policy s.state d := by
      simp only [verdictOf, h.decided (hdisjoint d hd)]
    rw [heq]
  have hsplit : ∀ v, withVerdict policy s.state (deposits ++ later) v =
      withVerdict policy s.state deposits v ++ withVerdict policy s.state later v := by
    intro v
    simp only [withVerdict, List.filter_append, List.map_append]
  refine ⟨?_, ?_, ?_, ?_, ?_, h'.leaves.trans h.leaves, h'.cursor.trans h.cursor⟩
  · intro d hd hopen
    rcases List.mem_append.mp hd with hd | hd
    · exact h.answered d hd hopen
    · exact h'.answered d hd (fun hdec => hopen ((h.decided (hdisjoint d hd)).mp hdec))
  · rw [h'.approved, h.approved, hverdict, hsplit, List.append_assoc]
  · rw [h'.rejected, h.rejected, hverdict, hsplit, List.append_assoc]
  · intro index
    rw [h'.deferred, h.deferred, hverdict, hsplit, List.mem_append, or_assoc]
  · intro n
    rw [h'.lastLedger, h.lastLedger, or_assoc]
    apply or_congr_right
    simp only [List.mem_append]
    constructor
    · rintro (⟨d, hd, hrest⟩ | ⟨d, hd, hopen, hle⟩)
      · exact ⟨d, .inl hd, hrest⟩
      · exact ⟨d, .inr hd, fun hdec => hopen ((h.decided (hdisjoint d hd)).mpr hdec), hle⟩
    · rintro ⟨d, hd | hd, hopen, hle⟩
      · exact .inl ⟨d, hd, hopen, hle⟩
      · exact .inr ⟨d, hd, fun hdec => hopen ((h.decided (hdisjoint d hd)).mp hdec), hle⟩

/-- A decided deposit is passed over. -/
theorem screens_decided {s : Screening} {d : Deposit} (h : s.state.Decided d.index) :
    Screens policy [d] s s := by
  have hverdict : verdictOf policy s.state d = none := by rw [verdictOf, if_pos h]
  constructor <;> simp [withVerdict, hverdict, h]

/-- **The screening loop.** -/
theorem screens_foldlM {s s' : Screening} (hnodup : (deposits.map (·.index)).Nodup)
    (h : deposits.foldlM (screenOne policy) s = .ok s') : Screens policy deposits s s' := by
  induction deposits generalizing s with
  | nil =>
      cases h
      constructor <;> simp [withVerdict]
  | cons d deposits ih =>
      rw [List.foldlM_cons, bind_eq_ok] at h
      obtain ⟨s₁, hone, hrest⟩ := h
      rw [List.map_cons, List.nodup_cons] at hnodup
      have hfirst : Screens policy [d] s s₁ := by
        unfold screenOne at hone
        split at hone
        · next hdec =>
            cases hone
            exact screens_decided hdec
        · next hopen =>
            split at hone
            · cases hone
            · next v hv =>
                cases hone
                exact screens_record hopen hv
      refine hfirst.append (ih hnodup.2 hrest) ?_
      intro d' hd'
      rw [List.map_singleton, List.mem_singleton]
      intro heq
      exact hnodup.1 (heq ▸ List.mem_map_of_mem hd')

end Batch

/-! ## What is handed to a tick -/

section Reads

variable {F : Type} (S : Setting F)

/-- The deposits handed to a tick; none where reading them fails. -/
def batch (s : System) (i : TickInput) : List Deposit :=
  match readConfirmed S i s.state s.chain with
  | (.ok deposits, _) => deposits
  | (.error _, _) => []

/-- Deep enough for this tick when the last closed ledger is `latest`. -/
def Confirmed (i : TickInput) (latest ledger : ℕ) : Prop :=
  i.confirmations ≤ 1 ∨ (ledger : ℤ) ≤ latest - i.confirmations + 1

/-- The reads of a tick get to the deposit with this index: it lies in the part of the log that they
cover, above the index after which the tick reads, and is deep enough. -/
def InReach (s : System) (i : TickInput) (index : ℕ) : Prop :=
  ∃ r c e d, readDepositEvents S i.net s.state.lastLedger s.chain = (.ok r, c) ∧
    c.log[index]? = some e ∧ e.deposit = some d ∧
    r.2.startLedger ≤ e.ledger ∧ index < r.2.stop ∧ readAfterIndex s.state < index ∧
    Confirmed i (c.closeAll S.host i.net.finality.closes).ledger e.ledger

variable {S}

theorem leaf_of_deposit {e : Emitted} {d : Deposit} (h : e.deposit = some d) :
    e.leaf = some (d.commitment, d.index) ∧ e.topic = some .Deposit ∧ d.ledger = e.ledger := by
  unfold Emitted.deposit at h
  unfold Emitted.leaf Emitted.topic
  split at h
  · next heq =>
      cases h
      rw [heq]
      exact ⟨rfl, rfl, rfl⟩
  · cases h

theorem mem_selectDeposits {afterIndex : ℤ} {events : List Emitted} {d : Deposit} :
    d ∈ selectDeposits afterIndex events ↔
      (∃ e ∈ events, e.deposit = some d) ∧ afterIndex < d.index := by
  rw [selectDeposits, List.mem_insertionSort, List.mem_filter, List.mem_filterMap,
    decide_eq_true_eq]

/-- No deposit of a log is in it twice. -/
theorem nodup_deposit_index {c : Chain} {events : List Emitted} (h : events.Sublist c.log) :
    ((events.filterMap Emitted.deposit).map (·.index)).Nodup := by
  have hindex : ∀ l : List Emitted, ((l.filterMap Emitted.deposit).map (·.index)).Sublist
      ((l.filterMap Emitted.leaf).map Prod.snd) := by
    intro l
    induction l with
    | nil => exact List.Sublist.refl _
    | cons e l ih =>
        cases hd : e.deposit with
        | none =>
            rw [List.filterMap_cons_none hd]
            cases hleaf : e.leaf with
            | none =>
                rw [List.filterMap_cons_none hleaf]
                exact ih
            | some x =>
                rw [List.filterMap_cons_some hleaf]
                exact ih.cons _
        | some d =>
            rw [List.filterMap_cons_some hd, List.filterMap_cons_some (leaf_of_deposit hd).1]
            exact ih.cons_cons _
  refine ((hindex events).trans ((h.filterMap Emitted.leaf).map Prod.snd)).nodup ?_
  rw [c.filterMap_leaf, c.indexed.indices]
  exact List.nodup_range

/-- No deposit is read twice. -/
theorem nodup_selectDeposits {c : Chain} {afterIndex : ℤ} {events : List Emitted}
    (h : events.Sublist c.log) : ((selectDeposits afterIndex events).map (·.index)).Nodup := by
  have hfiltered : (((events.filterMap Emitted.deposit).filter
      fun d => decide (afterIndex < d.index)).map (·.index)).Nodup :=
    (List.filter_sublist.map _).nodup (nodup_deposit_index h)
  exact ((List.perm_insertionSort _ _).map _).nodup_iff.mpr hfiltered

/-- Of the deposits that were read, those that are deep enough are handed on. -/
theorem confirmedDeposits_spec {i : TickInput} {selected deposits : List Deposit} {c c' : Chain}
    (h : confirmedDeposits S i selected c = (.ok deposits, c')) :
    deposits.Sublist selected ∧ ∀ d ∈ selected, d ∈ deposits ↔
      Confirmed i (c.closeAll S.host i.net.finality.closes).ledger d.ledger := by
  unfold confirmedDeposits at h
  split at h
  · next hall =>
      obtain ⟨rfl, rfl⟩ := Session.pure_eq_ok.mp h
      refine ⟨List.Sublist.refl _, ?_⟩
      intro d hd
      rcases hall with hfew | hnone
      · exact ⟨fun _ => .inl hfew, fun _ => hd⟩
      · rw [hnone] at hd
        cases hd
  · next hsome =>
      obtain ⟨latest, c₁, hlatest, hpure⟩ := Session.bind_eq_ok.mp h
      obtain ⟨rfl, rfl⟩ := Session.pure_eq_ok.mp hpure
      obtain ⟨-, rfl, hledger⟩ := call_eq_ok.mp hlatest
      refine ⟨List.filter_sublist, ?_⟩
      intro d hd
      rw [List.mem_filter, decide_eq_true_eq, ← Except.ok.inj hledger]
      constructor
      · rintro ⟨-, hle⟩
        exact .inr hle
      · rintro (hfew | hle)
        · exact absurd (.inl hfew) hsome
        · exact ⟨hd, hle⟩

/-- **The batch of a tick** holds the deposits in its reach, each once. -/
theorem readConfirmed_spec {s : System} {i : TickInput} {deposits : List Deposit} {c : Chain}
    (h : readConfirmed S i s.state s.chain = (.ok deposits, c)) :
    (deposits.map (·.index)).Nodup ∧ (∀ d ∈ deposits, s.state.lastLedger ≤ d.ledger) ∧
      ∀ index, InReach S s i index ↔ ∃ d ∈ deposits, d.index = index := by
  obtain ⟨selected, c₁, hread, hconfirmed⟩ := Session.bind_eq_ok.mp h
  obtain ⟨r, c₂, hevents, hselected⟩ := Session.bind_eq_ok.mp hread
  obtain ⟨rfl, rfl⟩ := Session.pure_eq_ok.mp hselected
  obtain ⟨hcovers, hfrom⟩ := readDepositEvents_spec hevents
  obtain ⟨hsublist, hdeep⟩ := confirmedDeposits_spec hconfirmed
  -- where a deposit of the batch stands in the log
  have hsource : ∀ d ∈ deposits, ∃ e, c₂.log[d.index]? = some e ∧ e.deposit = some d ∧
      r.2.startLedger ≤ e.ledger ∧ d.index < r.2.stop ∧ readAfterIndex s.state < d.index ∧
      d.ledger = e.ledger := by
    intro d hd
    obtain ⟨⟨e, he, hde⟩, hafter⟩ := mem_selectDeposits.mp (hsublist.subset hd)
    obtain ⟨p, hlog, hstart, hstop, -⟩ := (hcovers.mem_iff e).mp he
    obtain ⟨hleaf, -, hledger⟩ := leaf_of_deposit hde
    obtain ⟨x, hx⟩ := c₂.leaf_of_getElem? hlog
    have hindex : p = d.index := by
      rw [hx] at hleaf
      exact congrArg Prod.snd (Option.some.inj hleaf)
    subst hindex
    exact ⟨e, hlog, hde, hstart, hstop, hafter, hledger⟩
  refine ⟨(hsublist.map _).nodup (nodup_selectDeposits hcovers.sublist), ?_, ?_⟩
  · intro d hd
    obtain ⟨e, -, -, hstart, -, -, hledger⟩ := hsource d hd
    rw [hledger]
    exact le_trans hfrom hstart
  intro index
  constructor
  · rintro ⟨r', c', e, d, hread', hlog, hd, hstart, hstop, hafter, hconf⟩
    rw [hevents] at hread'
    cases hread'
    obtain ⟨hleaf, htopic, hledger⟩ := leaf_of_deposit hd
    obtain ⟨x, hx⟩ := c₂.leaf_of_getElem? hlog
    have hindex : d.index = index := by
      rw [hx] at hleaf
      exact (congrArg Prod.snd (Option.some.inj hleaf)).symm
    have hmem : d ∈ selectDeposits (readAfterIndex s.state) r.1 := by
      rw [mem_selectDeposits, hindex]
      exact ⟨⟨e, (hcovers.mem_iff e).mpr ⟨index, hlog, hstart, hstop, htopic⟩, hd⟩, hafter⟩
    exact ⟨d, (hdeep d hmem).mpr (hledger ▸ hconf), hindex⟩
  · rintro ⟨d, hd, rfl⟩
    obtain ⟨e, hlog, hde, hstart, hstop, hafter, hledger⟩ := hsource d hd
    exact ⟨r, c₂, e, d, hevents, hlog, hde, hstart, hstop, hafter,
      hledger ▸ (hdeep d (hsublist.subset hd)).mp hd⟩

theorem batch_eq {s : System} {i : TickInput} {deposits : List Deposit} {c : Chain}
    (h : readConfirmed S i s.state s.chain = (.ok deposits, c)) : batch S s i = deposits := by
  rw [batch, h]

end Reads

/-! ## What a tick saves -/

/-- The lists of `state'` are those of `state` after a batch was screened. -/
structure Decides (policy : Deposit → Option PolicyVerdict) (deposits : List Deposit)
    (state state' : PoolState) : Prop where
  answered : ∀ d ∈ deposits, ¬ state.Decided d.index → (policy d).isSome
  approved : state'.approvedIndices =
    state.approvedIndices ++ withVerdict policy state deposits .approve
  rejected : ∀ index, index ∈ state'.rejectedIndices ↔
    index ∈ state.rejectedIndices ∨ index ∈ withVerdict policy state deposits .reject
  deferred : ∀ index, index ∈ state'.deferredIndices ↔
    index ∈ withVerdict policy state deposits .defer
  lastLedger : ∀ n, n ≤ state'.lastLedger ↔
    n ≤ state.lastLedger ∨ ∃ d ∈ deposits, ¬ state.Decided d.index ∧ n ≤ d.ledger

/-- The part of the state that screening is about. -/
def PoolState.decisions (p : PoolState) : List ℕ × List ℕ × List ℕ × ℤ × ℕ :=
  (p.approvedIndices, p.rejectedIndices, p.deferredIndices, p.lastIndex, p.lastLedger)

theorem Decides.congr {policy : Deposit → Option PolicyVerdict} {deposits : List Deposit}
    {state state' state'' : PoolState} (h : Decides policy deposits state state')
    (heq : state''.decisions = state'.decisions) : Decides policy deposits state state'' := by
  simp only [PoolState.decisions, Prod.mk.injEq] at heq
  obtain ⟨happroved, hrejected, hdeferred, -, hledger⟩ := heq
  refine ⟨h.answered, happroved.trans h.approved, ?_, ?_, ?_⟩
  · rw [hrejected]
    exact h.rejected
  · rw [hdeferred]
    exact h.deferred
  · rw [hledger]
    exact h.lastLedger

theorem decisions_mergeSnapshot (state : PoolState) (snapshot : StateTreeSnapshot) :
    (mergeSnapshot state snapshot).decisions = state.decisions := by
  unfold mergeSnapshot
  cases snapshot.events <;> cases snapshot.cursor <;> dsimp only <;> try split_ifs
  all_goals rfl

section Saved

variable {F : Type} [NatCast F] [Zero F] {S : Setting F}

omit [Zero F] in
theorem screenBatch_spec {i : TickInput} {state : PoolState} {deposits : List Deposit}
    {screened : Screening} {set : AssociationSet F} (hnodup : (deposits.map (·.index)).Nodup)
    (h : screenBatch S i state deposits = .ok (screened, set)) :
    Decides i.policy deposits state screened.state ∧
      associationSet S screened.state.approvedIndices = .ok set ∧
      screened.state.stateLeaves = state.stateLeaves ∧
      screened.state.stateEventCursor = state.stateEventCursor := by
  simp only [screenBatch, screenDeposits, bind_eq_ok, pure_eq_ok, Prod.mk.injEq] at h
  obtain ⟨screened, ⟨s', hfold, rfl⟩, set, hset, rfl, rfl⟩ := h
  have hscreens := screens_foldlM hnodup hfold
  refine ⟨⟨hscreens.answered, hscreens.approved, ?_, ?_, hscreens.lastLedger⟩, hset,
    hscreens.leaves, hscreens.cursor⟩
  · intro index
    simp only [sortIndices, List.mem_insertionSort, hscreens.rejected, List.mem_append]
  · intro index
    simp only [sortIndices, List.mem_insertionSort, hscreens.deferred, List.not_mem_nil, false_or]

theorem decisions_publish {net : Network} {screened : Screening} {set : AssociationSet F}
    {c c' : Chain} {state : PoolState} {result : TickResult}
    (h : publish S net screened set c = (.ok (state, result), c')) :
    state.decisions = screened.state.decisions := by
  obtain ⟨-, -, c₁, leaves, stateRoot, c₂, -, hread, -⟩ := publish_eq_ok h
  obtain ⟨r, -, rfl, -⟩ := readState_eq_ok hread
  exact decisions_mergeSnapshot _ _

/-- The state that a tick saves, if it saves one. -/
def savedState (S : Setting F) (s : System) (i : TickInput) : Option PoolState :=
  match readConfirmed S i s.state s.chain with
  | (.error _, _) => none
  | (.ok deposits, c) =>
      match screenBatch S i s.state deposits with
      | .error _ => none
      | .ok (screened, set) =>
          if (checkContinuity i s.guard screened.state deposits).2 then some screened.state
          else
            match publish S i.net screened set c with
            | (.error _, _) => none
            | (.ok (state, _), _) => some state

/-- **One tick**, as far as the lists are concerned: it saves them after screening its batch, or
leaves them as they were. -/
theorem tick_cases (S : Setting F) (s : System) (i : TickInput) :
    (savedState S s i = none ∧ (runPoolTick S s i).1.state = s.state) ∨
    ∃ state', savedState S s i = some state' ∧ (runPoolTick S s i).1.state = state' ∧
      ((batch S s i).map (·.index)).Nodup ∧
      (∀ index, InReach S s i index ↔ ∃ d ∈ batch S s i, d.index = index) ∧
      Decides i.policy (batch S s i) s.state state' := by
  have hrun := tickRun S s i
  revert hrun
  generalize (runPoolTick S s i).1 = s'
  generalize (runPoolTick S s i).2 = result
  intro hrun
  cases hrun with
  | unread hread =>
      left
      simp only [savedState, hread]
      exact ⟨trivial, rfl⟩
  | unscreened hread hscreens =>
      left
      simp only [savedState, hread, hscreens]
      exact ⟨trivial, rfl⟩
  | unpublished hread hscreens hpasses hpublish =>
      left
      simp only [savedState, hread, hscreens, hpasses, hpublish]
      exact ⟨rfl, rfl⟩
  | @halted c c' deposits screened set guard onChainRoot hread hscreens hhalts hroot =>
      right
      obtain ⟨hnodup, -, hreach⟩ := readConfirmed_spec hread
      rw [batch_eq hread]
      refine ⟨screened.state, ?_, rfl, hnodup, hreach, (screenBatch_spec hnodup hscreens).1⟩
      simp only [savedState, hread, hscreens, hhalts, if_true]
  | @completed c c' deposits screened set guard state result hread hscreens hpasses hpublish =>
      right
      obtain ⟨hnodup, -, hreach⟩ := readConfirmed_spec hread
      rw [batch_eq hread]
      refine ⟨state, ?_, rfl, hnodup, hreach,
        (screenBatch_spec hnodup hscreens).1.congr (decisions_publish hpublish)⟩
      simp only [savedState, hread, hscreens, hpasses, hpublish, Bool.false_eq_true, if_false]

end Saved

/-! ## Runs -/

/-- The list that a verdict puts a deposit on. -/
def PoolState.list (state : PoolState) : PolicyVerdict → List ℕ
  | .approve => state.approvedIndices
  | .reject => state.rejectedIndices
  | .defer => state.deferredIndices

theorem PoolState.decided_iff {state : PoolState} {index : ℕ} :
    state.Decided index ↔ ∃ v, v ≠ .defer ∧ index ∈ state.list v := by
  constructor
  · rintro (h | h)
    · exact ⟨.approve, by decide, h⟩
    · exact ⟨.reject, by decide, h⟩
  · rintro ⟨v, hv, h⟩
    cases v with
    | approve => exact .inl h
    | reject => exact .inr h
    | defer => exact absurd rfl hv

/-- The deposit is on exactly one of the three lists. -/
def OnOneList (state : PoolState) (index : ℕ) : Prop := ∃! v, index ∈ state.list v

/-- A list afterwards: what was on it, unless it is the list of the deferred, and what the batch put
there. -/
theorem Decides.mem_list {policy : Deposit → Option PolicyVerdict} {deposits : List Deposit}
    {state state' : PoolState} (h : Decides policy deposits state state') {v : PolicyVerdict}
    {index : ℕ} :
    index ∈ state'.list v ↔
      (v ≠ .defer ∧ index ∈ state.list v) ∨ index ∈ withVerdict policy state deposits v := by
  cases v with
  | approve => simp [PoolState.list, h.approved]
  | reject => simp [PoolState.list, h.rejected]
  | defer => simp [PoolState.list, h.deferred]

section Run

variable {F : Type} (S : Setting F)

/-- The deposit with this index was handed to a tick. -/
def Seen (t : List AspStep) (index : ℕ) : Prop :=
  ∃ e ∈ t, ∃ i, e.input = .tick i ∧ ∃ d ∈ batch S e.pre i, d.index = index

/-- The lists hold deposits that were seen, each on one list at most. -/
structure Listed (t : List AspStep) (state : PoolState) : Prop where
  seen : ∀ v index, index ∈ state.list v → Seen S t index
  disjoint : ∀ v w index, index ∈ state.list v → index ∈ state.list w → v = w

variable {S}

theorem Seen.append {t : List AspStep} {index : ℕ} (h : Seen S t index) (t' : List AspStep) :
    Seen S (t ++ t') index := by
  obtain ⟨e, he, hrest⟩ := h
  exact ⟨e, List.mem_append_left _ he, hrest⟩

theorem seen_batch {t : List AspStep} {s : System} {i : TickInput}
    {o : Option (Except Thrown TickResult)} {index : ℕ} (h : ∃ d ∈ batch S s i, d.index = index) :
    Seen S (t ++ [⟨s, .tick i, o⟩]) index :=
  ⟨_, List.mem_append_right _ (List.mem_singleton.mpr rfl), i, rfl, h⟩

theorem Listed.later {t : List AspStep} {state : PoolState} (h : Listed S t state)
    (t' : List AspStep) : Listed S (t ++ t') state :=
  ⟨fun v index hmem => (h.seen v index hmem).append t', h.disjoint⟩

/-- Screening keeps the lists disjoint. -/
theorem Listed.decides {t : List AspStep} {s : System} {i : TickInput} {state' : PoolState}
    {o : Option (Except Thrown TickResult)} (h : Listed S t s.state)
    (hnodup : ((batch S s i).map (·.index)).Nodup)
    (hdecides : Decides i.policy (batch S s i) s.state state') :
    Listed S (t ++ [⟨s, .tick i, o⟩]) state' := by
  refine ⟨?_, ?_⟩
  · intro v index hmem
    rcases hdecides.mem_list.mp hmem with ⟨-, hold⟩ | hnew
    · exact (h.seen v index hold).append _
    · obtain ⟨d, hd, hindex, -⟩ := mem_withVerdict.mp hnew
      exact seen_batch ⟨d, hd, hindex⟩
  · intro v w index hv hw
    rcases hdecides.mem_list.mp hv with ⟨hv', hv⟩ | hv <;>
      rcases hdecides.mem_list.mp hw with ⟨hw', hw⟩ | hw
    · exact h.disjoint v w index hv hw
    · obtain ⟨d, -, -, hopen, -⟩ := mem_withVerdict.mp hw
      exact absurd (PoolState.decided_iff.mpr ⟨v, hv', hv⟩) hopen
    · obtain ⟨d, -, -, hopen, -⟩ := mem_withVerdict.mp hv
      exact absurd (PoolState.decided_iff.mpr ⟨w, hw', hw⟩) hopen
    · obtain ⟨d, hd, hindex, -, hpolicy⟩ := mem_withVerdict.mp hv
      obtain ⟨d', hd', hindex', -, hpolicy'⟩ := mem_withVerdict.mp hw
      obtain rfl := List.inj_on_of_nodup_map hnodup hd hd' (hindex.trans hindex'.symm)
      exact Option.some.inj (hpolicy.symm.trans hpolicy')

/-- Every deposit that was handed to an earlier tick and is not decided is in the reach of this
one. -/
def KeepsReach (S : Setting F) (t : List AspStep) (s : System) (i : TickInput) : Prop :=
  ∀ index, Seen S t index → ¬ s.state.Decided index → InReach S s i index

/-- After a tick that keeps everything in reach, every deposit seen so far is on one list. -/
theorem onOneList_of_keepsReach {t : List AspStep} {s : System} {i : TickInput}
    {state' : PoolState} {o : Option (Except Thrown TickResult)} {index : ℕ}
    (hlisted : Listed S t s.state) (hnodup : ((batch S s i).map (·.index)).Nodup)
    (hreach : ∀ index, InReach S s i index ↔ ∃ d ∈ batch S s i, d.index = index)
    (hdecides : Decides i.policy (batch S s i) s.state state') (hkeeps : KeepsReach S t s i)
    (hseen : Seen S (t ++ [⟨s, .tick i, o⟩]) index) : OnOneList state' index := by
  have hdisjoint := (hlisted.decides (o := o) hnodup hdecides).disjoint
  suffices hsome : ∃ v, index ∈ state'.list v by
    obtain ⟨v, hv⟩ := hsome
    exact ⟨v, hv, fun w hw => hdisjoint w v index hw hv⟩
  by_cases hdec : s.state.Decided index
  · obtain ⟨v, hv, hmem⟩ := PoolState.decided_iff.mp hdec
    exact ⟨v, hdecides.mem_list.mpr (.inl ⟨hv, hmem⟩)⟩
  · have hbatch : ∃ d ∈ batch S s i, d.index = index := by
      obtain ⟨e, he, i', hinput, hd⟩ := hseen
      rcases List.mem_append.mp he with he | he
      · exact (hreach index).mp (hkeeps index ⟨e, he, i', hinput, hd⟩ hdec)
      · obtain rfl := List.mem_singleton.mp he
        cases hinput
        exact hd
    obtain ⟨d, hd, rfl⟩ := hbatch
    obtain ⟨v, hv⟩ := Option.isSome_iff_exists.mp (hdecides.answered d hd hdec)
    exact ⟨v, hdecides.mem_list.mpr (.inr (mem_withVerdict.mpr ⟨d, hd, rfl, hdec, hv⟩))⟩

/-- A deposit that was not decided and is on a list afterwards was handed to the tick. -/
theorem inReach_of_onOneList {s : System} {i : TickInput} {state' : PoolState} {index : ℕ}
    (hreach : ∀ index, InReach S s i index ↔ ∃ d ∈ batch S s i, d.index = index)
    (hdecides : Decides i.policy (batch S s i) s.state state') (hopen : ¬ s.state.Decided index)
    (h : OnOneList state' index) : InReach S s i index := by
  obtain ⟨v, hv, -⟩ := h
  rcases hdecides.mem_list.mp hv with ⟨hdefer, hold⟩ | hnew
  · exact absurd (PoolState.decided_iff.mpr ⟨v, hdefer, hold⟩) hopen
  · obtain ⟨d, hd, hindex, -⟩ := mem_withVerdict.mp hnew
    exact (hreach index).mpr ⟨d, hd, hindex⟩

variable [NatCast F] [Zero F]

/-- A step that saves nothing leaves the lists as they are. -/
theorem state_of_not_saved {s : System} {input : Input}
    (h : ∀ i, input = .tick i → savedState S s i = none) :
    (step S s input).1.state = s.state := by
  cases input with
  | close l => rfl
  | restart => rfl
  | tick i =>
      rcases tick_cases S s i with ⟨-, hstate⟩ | ⟨state', hsaved, -⟩
      · exact hstate
      · rw [h i rfl] at hsaved
        cases hsaved

theorem listed_step {t : List AspStep} {s : System} (input : Input) (h : Listed S t s.state) :
    Listed S (t ++ [(machine S).stepAt s input]) ((machine S).step s input).1.state := by
  by_cases hsaved : ∀ i, input = .tick i → savedState S s i = none
  · have hsame : ((machine S).step s input).1.state = s.state := state_of_not_saved hsaved
    rw [hsame]
    exact h.later _
  · push Not at hsaved
    obtain ⟨i, rfl, hsome⟩ := hsaved
    rcases tick_cases S s i with ⟨hnone, -⟩ | ⟨state', -, hstate, hnodup, -, hdecides⟩
    · exact absurd hnone hsome
    · have hsame : ((machine S).step s (.tick i)).1.state = state' := hstate
      rw [hsame]
      exact h.decides hnodup hdecides

theorem listed_run (S : Setting F) (tokens : TokenLedger) (ledger : ℕ) (inputs : List Input) :
    Listed S ((machine S).trace (.initial tokens ledger) inputs)
      ((machine S).final (.initial tokens ledger) inputs).state := by
  refine (machine S).invariant (I := fun t s => Listed S t s.state) ⟨?_, ?_⟩ ?_ inputs
  · intro v index hmem
    cases v <;> cases hmem
  · intro v w index hmem
    cases v <;> cases hmem
  · intro t s input h
    exact listed_step input h

/-- The deposit was handed to a tick that saved its state, or to a tick before one that did. -/
def Handled (S : Setting F) (t : List AspStep) (index : ℕ) : Prop :=
  ∃ before e later i, t = before ++ e :: later ∧ e.input = .tick i ∧
    (savedState S e.pre i).isSome ∧ Seen S (before ++ [e]) index

theorem handled_saved {t : List AspStep} {s : System} {i : TickInput}
    {o : Option (Except Thrown TickResult)} {index : ℕ} (hsaved : (savedState S s i).isSome)
    (h : Seen S (t ++ [⟨s, .tick i, o⟩]) index) : Handled S (t ++ [⟨s, .tick i, o⟩]) index :=
  ⟨t, _, [], i, rfl, rfl, hsaved, h⟩

/-- A step that saves nothing is not one that something was handed to for good. -/
theorem handled_of_not_saved {t : List AspStep} {s : System} {input : Input}
    {o : Option (Except Thrown TickResult)} {index : ℕ}
    (hsaved : ∀ i, input = .tick i → savedState S s i = none)
    (h : Handled S (t ++ [⟨s, input, o⟩]) index) : Handled S t index := by
  obtain ⟨before, e, later, i, ht, hinput, hsome, hseen⟩ := h
  rcases List.eq_nil_or_concat later with rfl | ⟨later', e', rfl⟩
  · obtain ⟨rfl, he⟩ := List.append_inj' ht rfl
    obtain rfl := List.singleton_inj.mp he
    rw [hsaved i hinput] at hsome
    cases hsome
  · rw [List.concat_eq_append, ← List.cons_append, ← List.append_assoc] at ht
    obtain ⟨rfl, -⟩ := List.append_inj' ht rfl
    exact ⟨before, e, later', i, rfl, hinput, hsome, hseen⟩

/-- A tick that saves screens each deferred deposit again, and puts it on the list of its verdict. -/
def ScreensAgain (S : Setting F) (s : System) (i : TickInput) : Prop :=
  ∀ index ∈ s.state.deferredIndices, ∃ d ∈ batch S s i, d.index = index ∧
    ∃ v, i.policy d = some v ∧ index ∈ (runPoolTick S s i).1.state.list v

theorem screensAgain_of_keepsReach {t : List AspStep} {s : System} {i : TickInput}
    (hlisted : Listed S t s.state) (hsaved : (savedState S s i).isSome)
    (hkeeps : KeepsReach S t s i) : ScreensAgain S s i := by
  rcases tick_cases S s i with ⟨hnone, -⟩ | ⟨state', -, hstate, -, hreach, hdecides⟩
  · rw [hnone] at hsaved
    cases hsaved
  · intro index hdeferred
    have hopen : ¬ s.state.Decided index := by
      intro hdec
      obtain ⟨v, hv, hmem⟩ := PoolState.decided_iff.mp hdec
      exact hv (hlisted.disjoint v .defer index hmem hdeferred)
    have hin := hkeeps index (hlisted.seen .defer index hdeferred) hopen
    obtain ⟨d, hd, rfl⟩ := (hreach index).mp hin
    obtain ⟨v, hv⟩ := Option.isSome_iff_exists.mp (hdecides.answered d hd hopen)
    refine ⟨d, hd, rfl, v, hv, ?_⟩
    rw [hstate]
    exact hdecides.mem_list.mpr (.inr (mem_withVerdict.mpr ⟨d, hd, rfl, hopen, hv⟩))

/-- **Screening is complete exactly when nothing gets out of reach.** For every run: in each state
it passes through, every deposit handed to a tick up to the last one that saved is on exactly one
list, and every tick that saves has screened the deferred deposits again, if and only if each tick
that saves still reaches all deposits seen before and not decided. -/
theorem screening_complete_iff (S : Setting F) (tokens : TokenLedger) (ledger : ℕ)
    (inputs : List Input) :
    let trace := (machine S).trace (.initial tokens ledger)
    let final := (machine S).final (.initial tokens ledger)
    ((∀ before later, inputs = before ++ later →
        ∀ index, Handled S (trace before) index → OnOneList (final before).state index) ∧
      ∀ before i later, inputs = before ++ .tick i :: later →
        (savedState S (final before) i).isSome → ScreensAgain S (final before) i) ↔
    ∀ before i later, inputs = before ++ .tick i :: later →
      (savedState S (final before) i).isSome → KeepsReach S (trace before) (final before) i := by
  intro trace final
  constructor
  · rintro ⟨hlists, -⟩ before i later hinputs hsaved index hseen hopen
    rcases tick_cases S (final before) i with ⟨hnone, -⟩ | ⟨state', -, hstate, -, hreach, hdecides⟩
    · rw [hnone] at hsaved
      cases hsaved
    · refine inReach_of_onOneList hreach hdecides hopen ?_
      have hafter := hlists (before ++ [.tick i]) later (by rw [hinputs, List.append_assoc]; rfl)
        index
      simp only [trace, final, Machine.trace_snoc, Machine.final_snoc] at hafter
      rw [← hstate]
      exact hafter (handled_saved hsaved (hseen.append _))
  · intro hkeeps
    refine ⟨?_, ?_⟩
    · intro before later hinputs
      induction before using List.reverseRecOn generalizing later with
      | nil =>
          rintro index ⟨before, e, rest, i, hnil, -⟩
          cases before <;> cases hnil
      | append_singleton before input ih =>
          have hinitial : inputs = before ++ input :: later := by
            rw [hinputs, List.append_assoc]
            rfl
          intro index hhandled
          simp only [trace, final, Machine.trace_snoc, Machine.final_snoc] at hhandled ⊢
          by_cases hsaved : ∀ i, input = .tick i → savedState S (final before) i = none
          · have hsame : ((machine S).step (final before) input).1.state = (final before).state :=
              state_of_not_saved hsaved
            rw [hsame]
            exact ih _ hinitial index (handled_of_not_saved hsaved hhandled)
          · push Not at hsaved
            obtain ⟨i, rfl, hsome⟩ := hsaved
            have hisSome := Option.isSome_iff_ne_none.mpr hsome
            rcases tick_cases S (final before) i with
              ⟨hnone, -⟩ | ⟨state', -, hstate, hnodup, hreach, hdecides⟩
            · exact absurd hnone hsome
            · have hseen : Seen S (trace before ++ [(machine S).stepAt (final before) (.tick i)])
                  index := by
                obtain ⟨before', e, rest, i', ht, -, -, hseen⟩ := hhandled
                rw [ht, ← List.singleton_append, ← List.append_assoc]
                exact hseen.append _
              have hafter : ((machine S).step (final before) (.tick i)).1.state = state' := hstate
              rw [hafter]
              exact onOneList_of_keepsReach (listed_run S tokens ledger before) hnodup hreach
                hdecides (hkeeps before i later hinitial hisSome) hseen
    · intro before i later hinputs hsaved
      exact screensAgain_of_keepsReach (listed_run S tokens ledger before) hsaved
        (hkeeps before i later hinputs hsaved)

end Run

/-! ## A deposit that is lost -/

/-- A tick that defers the first deposit and approves the others. -/
def Demo.deferFirst : TickInput where
  policy := fun d => if d.index = 0 then some .defer else some .approve
  net := Demo.net

/-- Two deposits in two ledgers, and the tick twice. The first tick defers the one and approves the
other; the second reads from the ledger of the other on. -/
theorem screening_not_complete :
    let inputs := Demo.twoDeposits ++ [.tick Demo.deferFirst, .tick Demo.deferFirst]
    ¬ ∀ before later, inputs = before ++ later →
      ∀ index, Handled Demo.setting ((machine Demo.setting).trace Demo.start before) index →
        OnOneList ((machine Demo.setting).final Demo.start before).state index := by
  intro inputs h
  have hhandled : Handled Demo.setting ((machine Demo.setting).trace Demo.start inputs) 0 := by
    have hsplit : inputs =
        (Demo.twoDeposits ++ [.tick Demo.deferFirst]) ++ [.tick Demo.deferFirst] := rfl
    rw [hsplit, Machine.trace_snoc]
    refine handled_saved (by decide) (Seen.append ?_ _)
    rw [Machine.trace_snoc]
    apply seen_batch
    have hmem : 0 ∈ (batch Demo.setting ((machine Demo.setting).final Demo.start Demo.twoDeposits)
        Demo.deferFirst).map (·.index) := by decide
    exact List.mem_map.mp hmem
  obtain ⟨v, hv, -⟩ := h inputs [] (List.append_nil _).symm 0 hhandled
  have hlists : ∀ v, 0 ∉ ((machine Demo.setting).final Demo.start inputs).state.list v := by
    intro v
    cases v <;> decide
  exact hlists v hv

end OpaqueStellar.Asp
