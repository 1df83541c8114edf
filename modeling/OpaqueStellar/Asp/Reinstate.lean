import OpaqueStellar.Asp.StateTree

/-! # Reinstating while ticks run

`asp/scripts/reinstate.ts` takes a rejected deposit back into the set: it loads the saved state, moves the
index and saves. A tick loads when it starts and saves when it is done. The two processes share a file and
no lock, so whoever saves last writes over what the other has saved since.

`Shared` is the file with everyone who has loaded it and has not saved yet. Loads and saves are steps of
their own; what a tick does in between, its calls and its policy, is the step `work`. -/

namespace OpaqueStellar.Asp

open OpaqueStellar.Lib OpaqueStellar.Soroban OpaqueStellar.Pool

inductive ReinstateError where
  -- "no state found for pool ..."
  | noState
  -- "deposit ... is not a persisted rejection"
  | notRejected
  deriving DecidableEq

/-- The script between its load and its save. -/
def reinstate (store : Option PoolState) (index : ℕ) : Except ReinstateError PoolState :=
  match store with
  | none => .error .noState
  | some state =>
      if index ∈ state.rejectedIndices then
        .ok { state with
          rejectedIndices := state.rejectedIndices.filter (· ≠ index)
          deferredIndices := state.deferredIndices.filter (· ≠ index)
          approvedIndices := sortIndices
            (if index ∈ state.approvedIndices then state.approvedIndices
            else state.approvedIndices ++ [index]) }
      else .error .notRejected

/-- Someone who has loaded the state. -/
inductive Running where
  | loaded (copy : Option PoolState) (i : TickInput)
  -- a tick that is done, or the script for an index
  | saving (copy : Option PoolState) (reinstated : Option ℕ) (state : PoolState)

def Running.isScript : Running → Bool
  | saving _ (some _) _ => true
  | _ => false

structure Shared where
  chain : Chain
  store : Option PoolState := none
  guard : ReorgGuard := {}
  running : List Running := []

inductive Event where
  -- a tick starts
  | load (i : TickInput)
  | work (n : ℕ)
  -- the script starts
  | reinstate (index : ℕ)
  | save (n : ℕ)
  | close (l : Ledger)
  -- the process of the ticks starts anew
  | restart

namespace Shared

def initial (tokens : TokenLedger) (ledger : ℕ) : Shared where
  chain := .deployed tokens ledger

def state (s : Shared) : PoolState := s.store.getD {}

/-- What was loaded by someone who is about to save. -/
def copyOf (s : Shared) (n : ℕ) : Option (Option PoolState) :=
  match s.running[n]? with
  | some (.saving copy _ _) => some copy
  | _ => none

/-- The system as a tick sees it that has loaded `copy`. -/
def seenBy (s : Shared) (copy : Option PoolState) : System := ⟨s.chain, copy, s.guard⟩

end Shared

section Processes

variable {F : Type} [NatCast F] [Zero F] (S : Setting F)

/-- Everything that a tick does between its load and its save. A tick that throws is gone. -/
def work (s : Shared) (n : ℕ) : Shared :=
  match s.running[n]? with
  | some (.loaded copy i) =>
      let s' := (runPoolTick S (s.seenBy copy) i).1
      { s with
        chain := s'.chain
        guard := s'.guard
        running := match savedState S (s.seenBy copy) i with
          | some state => s.running.set n (.saving copy none state)
          | none => s.running.eraseIdx n }
  | _ => s

/-- The answer is the index that was reinstated. -/
def sharedStep (s : Shared) : Event → Shared × Option ℕ
  | .load i => ({ s with running := s.running ++ [.loaded s.store i] }, none)
  | .work n => (work S s n, none)
  | .reinstate index =>
      match reinstate s.store index with
      | .ok state => ({ s with running := s.running ++ [.saving s.store (some index) state] }, none)
      | .error _ => (s, none)
  | .save n =>
      match s.running[n]? with
      | some (.saving _ reinstated state) =>
          ({ s with store := some state, running := s.running.eraseIdx n }, reinstated)
      | _ => (s, none)
  | .close l => ({ s with chain := s.chain.close S.host l }, none)
  | .restart => ({ s with guard := {}, running := s.running.filter (·.isScript) }, none)

def shared : Machine Shared Event (Option ℕ) := ⟨sharedStep S⟩

end Processes

/-! ## What ticks and the script keep -/

/-- `state'` has the decisions of `state` and the leaves, and maybe more. -/
structure Grows (state state' : PoolState) : Prop where
  approved : ∀ index ∈ state.approvedIndices, index ∈ state'.approvedIndices
  rejected : ∀ index ∈ state.rejectedIndices, index ∈ state'.rejectedIndices
  settled : ∀ index ∈ state.approvedIndices, index ∉ state.rejectedIndices →
    index ∉ state'.rejectedIndices
  leaves : ∀ j x, Sparse.value state.leaves j = some x → Sparse.value state'.leaves j = some x

/-- The leaves that are held are the pool's. -/
def Agrees (state : PoolState) (c : Chain) : Prop :=
  ∀ j x, Sparse.value state.leaves j = some x → c.leaves[j]? = some x

theorem Agrees.later {state : PoolState} {c c' : Chain} (h : Agrees state c) (hext : c.Extends c') :
    Agrees state c' := by
  intro j x hx
  have hj := h j x hx
  have hlt : j < c.log.length := c.length_leaves ▸ (List.getElem?_eq_some_iff.mp hj).1
  rw [← hj, ← List.getElem?_take_of_lt hlt, hext.take_leaves le_rfl, List.getElem?_take_of_lt hlt]

theorem agrees_of_leaves {state state' : PoolState} {c : Chain} (h : Agrees state c)
    (hleaves : state'.stateLeaves = state.stateLeaves) : Agrees state' c := by
  unfold Agrees PoolState.leaves at *
  rw [hleaves]
  exact h

section Ticks

variable {F : Type} [NatCast F] [Zero F] {S : Setting F}

omit [NatCast F] [Zero F] in
/-- The events that were read put the pool's leaves where they belong. -/
theorem merge_leaves {net : Network} {state : PoolState} {c c' : Chain} {r : StateRead}
    (h : Agrees state c) (hext : c.Extends c')
    (hread : readStateEvents S net state.stateEventCursor c = (.ok r, c')) :
    (∀ j x, Sparse.value state.leaves j = some x →
      Sparse.value (mergeSnapshot state (snapshotOf r)).leaves j = some x) ∧
      Agrees (mergeSnapshot state (snapshotOf r)) c' := by
  obtain ⟨hdeposits, hwithdraws, -⟩ := readStateEvents_spec hread
  have htrue : ∀ u ∈ leafUpdates (r.deposits.1 ++ r.withdraws.1), c'.leaves[u.1]? = some u.2 := by
    intro u hu
    obtain ⟨e, hp, hleaf, -⟩ := (mem_leafUpdates hdeposits hwithdraws).mp hu
    exact (c'.getElem?_leaves hp hleaf).2
  have hlater := h.later hext
  rw [leaves_mergeSnapshot]
  constructor
  · intro j x hx
    rcases Sparse.value_foldl_assign state.leaves htrue j with hj | hj
    · rw [hj, hx]
    · rw [hj, hlater j x hx]
  · intro j x hx
    rw [leaves_mergeSnapshot] at hx
    rcases Sparse.value_foldl_assign state.leaves htrue j with hj | hj
    · exact hlater j x (hj.symm.trans hx)
    · exact hj.symm.trans hx

theorem leaves_tick {s : System} {i : TickInput} (h : Agrees s.state s.chain) :
    (∀ j x, Sparse.value s.state.leaves j = some x →
      Sparse.value (runPoolTick S s i).1.state.leaves j = some x) ∧
      Agrees (runPoolTick S s i).1.state (runPoolTick S s i).1.chain := by
  have hrun := tickRun S s i
  have hext := hrun.extends_chain
  revert hrun hext
  generalize (runPoolTick S s i).1 = s'
  generalize (runPoolTick S s i).2 = result
  intro hrun hext
  cases hrun with
  | unread => exact ⟨fun _ _ hx => hx, h.later hext⟩
  | unscreened => exact ⟨fun _ _ hx => hx, h.later hext⟩
  | unpublished => exact ⟨fun _ _ hx => hx, h.later hext⟩
  | @halted c c' deposits screened set guard onChainRoot hread hscreens =>
    obtain ⟨-, -, hleaves, -⟩ := screenBatch_spec (readConfirmed_spec hread).1 hscreens
    have hsame : screened.state.leaves = s.state.leaves := by
      rw [PoolState.leaves, hleaves]
      rfl
    refine ⟨fun j x hx => ?_, agrees_of_leaves (h.later hext) hleaves⟩
    show Sparse.value screened.state.leaves j = some x
    rw [hsame, hx]
  | @completed c c' deposits screened set guard state result hread hscreens hpasses hpublish =>
    obtain ⟨_, _, c₁, leaves, stateRoot, c₂, hasp, hstate, -, hrest⟩ := publish_eq_ok hpublish
    obtain ⟨r, hevents, rfl, -⟩ := readState_eq_ok hstate
    obtain ⟨hext₁, hleaves, -⟩ := beforeState_spec (beforeState_eq hread hscreens hpasses hasp)
    have hext₂ := (keeps_readStateEvents (i.net.keepsReading_extends _) _).of_eq hevents
    obtain ⟨hkept, hagrees⟩ := merge_leaves (agrees_of_leaves (h.later hext₁) hleaves) hext₂ hevents
    have hext₃ : c₂.Extends c' := by
      rcases hrest with ⟨-, rfl⟩ | ⟨root, _, _, -, hpost⟩
      · exact Chain.Extends.refl _
      · exact (keeps_publishStateRoot _ _ _).of_eq hpost
    have hsame : screened.state.leaves = s.state.leaves := by
      rw [PoolState.leaves, hleaves]
      rfl
    exact ⟨fun j x hx => hkept j x (hsame ▸ hx), hagrees.later hext₃⟩

/-- What a tick saves has everything that it loaded. -/
theorem grows_savedState {s : System} {i : TickInput} {state : PoolState} (h : Agrees s.state s.chain)
    (hsaved : savedState S s i = some state) :
    Grows s.state state ∧ Agrees state (runPoolTick S s i).1.chain := by
  obtain ⟨hkept, hagrees⟩ := leaves_tick (S := S) (i := i) h
  rcases tick_cases S s i with ⟨hnone, -⟩ | ⟨state', hstate', hfinal, -, -, hdecides⟩
  · rw [hnone] at hsaved
    cases hsaved
  · obtain rfl := Option.some.inj (hsaved.symm.trans hstate')
    rw [hfinal] at hkept hagrees
    refine ⟨⟨?_, ?_, ?_, hkept⟩, hagrees⟩
    · intro index hindex
      rw [hdecides.approved]
      exact List.mem_append_left _ hindex
    · intro index hindex
      exact (hdecides.rejected index).mpr (.inl hindex)
    · intro index happroved hnot hrejected
      rcases (hdecides.rejected index).mp hrejected with hold | hnew
      · exact hnot hold
      · -- a decided deposit is not screened again
        obtain ⟨d, -, -, hopen, -⟩ := mem_withVerdict.mp hnew
        exact hopen (.inl happroved)

end Ticks

/-! ## Steps -/

/-- From one saved state to the next, where `reinstated` was taken back in. -/
structure Keeps (state state' : PoolState) (reinstated : Option ℕ) : Prop where
  approved : ∀ index ∈ state.approvedIndices, index ∈ state'.approvedIndices
  rejected : ∀ index ∈ state.rejectedIndices,
    index ∈ state'.rejectedIndices ∨ reinstated = some index
  settled : ∀ index ∈ state.approvedIndices, index ∉ state.rejectedIndices →
    index ∉ state'.rejectedIndices
  leaves : ∀ j x, Sparse.value state.leaves j = some x → Sparse.value state'.leaves j = some x
  reinstated : ∀ index, reinstated = some index →
    index ∈ state'.approvedIndices ∧ index ∉ state'.rejectedIndices

theorem keeps_refl (state : PoolState) : Keeps state state none :=
  ⟨fun _ h => h, fun _ h => .inl h, fun _ _ h => h, fun _ _ h => h, by simp⟩

theorem Grows.keeps {state state' : PoolState} (h : Grows state state') : Keeps state state' none :=
  ⟨h.approved, fun index hindex => .inl (h.rejected index hindex), h.settled, h.leaves, by simp⟩

theorem reinstate_eq_ok {store : Option PoolState} {index : ℕ} {state' : PoolState}
    (h : reinstate store index = .ok state') :
    Keeps (store.getD {}) state' (some index) ∧ state'.stateLeaves = (store.getD {}).stateLeaves := by
  cases store with
  | none => cases h
  | some state =>
    simp only [reinstate] at h
    split at h
    next hrejected =>
      cases h
      refine ⟨⟨?_, ?_, ?_, fun _ _ hx => hx, ?_⟩, rfl⟩
      · intro other hother
        simp only [sortIndices, List.mem_insertionSort]
        split
        · exact hother
        · exact List.mem_append_left _ hother
      · intro other hother
        by_cases hother' : other = index
        · exact .inr (by rw [hother'])
        · left
          simpa [hother'] using hother
      · intro other _ hnot hmem
        exact hnot (List.mem_of_mem_filter hmem)
      · intro other hother
        cases hother
        constructor
        · simp only [sortIndices, List.mem_insertionSort]
          split
          next hthere => exact hthere
          next => simp
        · simp
    next => cases h

/-- Nobody has saved since this one loaded. -/
def Unchanged (s : Shared) : Event → Prop
  | .save n => ∀ copy ∈ s.copyOf n, s.store = copy
  | _ => True

instance (s : Shared) : (event : Event) → Decidable (Unchanged s event)
  | .load _ => inferInstanceAs (Decidable True)
  | .work _ => inferInstanceAs (Decidable True)
  | .reinstate _ => inferInstanceAs (Decidable True)
  | .save n => inferInstanceAs (Decidable (∀ copy ∈ s.copyOf n, s.store = copy))
  | .close _ => inferInstanceAs (Decidable True)
  | .restart => inferInstanceAs (Decidable True)

/-- What someone who has loaded holds. -/
def Running.Sound (c : Chain) : Running → Prop
  | loaded copy _ => Agrees (copy.getD {}) c
  | saving copy reinstated state => Keeps (copy.getD {}) state reinstated ∧ Agrees state c

theorem Running.Sound.later {c c' : Chain} {r : Running} (h : r.Sound c) (hext : c.Extends c') :
    r.Sound c' := by
  cases r with
  | loaded copy i => exact Agrees.later h hext
  | saving copy reinstated state => exact ⟨h.1, h.2.later hext⟩

structure Shared.Sound (s : Shared) : Prop where
  store : Agrees s.state s.chain
  running : ∀ r ∈ s.running, r.Sound s.chain

section Steps

variable {F : Type} [NatCast F] [Zero F] {S : Setting F} {s : Shared}

theorem sound_work (h : s.Sound) (n : ℕ) : (work S s n).Sound := by
  unfold work
  split
  next copy i hrunning =>
    have hagrees : Agrees (s.seenBy copy).state (s.seenBy copy).chain :=
      h.running _ (List.mem_of_getElem? hrunning)
    have hext : s.chain.Extends (runPoolTick S (s.seenBy copy) i).1.chain :=
      (tickRun S (s.seenBy copy) i).extends_chain
    refine ⟨h.store.later hext, ?_⟩
    intro r hr
    dsimp only at hr
    split at hr
    next state hsaved =>
      rcases List.mem_or_eq_of_mem_set hr with hr | rfl
      · exact (h.running r hr).later hext
      · obtain ⟨hgrows, hstate⟩ := grows_savedState hagrees hsaved
        exact ⟨hgrows.keeps, hstate⟩
    next => exact (h.running r (List.mem_of_mem_eraseIdx hr)).later hext
  next => exact h

theorem sound_step (h : s.Sound) (event : Event) : ((shared S).step s event).1.Sound := by
  cases event with
  | load i =>
    refine ⟨h.store, ?_⟩
    intro r hr
    rcases List.mem_append.mp hr with hr | hr
    · exact h.running r hr
    · rw [List.mem_singleton] at hr
      subst hr
      exact h.store
  | work n => exact sound_work h n
  | reinstate index =>
    simp only [shared, sharedStep]
    split
    next state hstate =>
      obtain ⟨hkeeps, hleaves⟩ := reinstate_eq_ok hstate
      refine ⟨h.store, ?_⟩
      intro r hr
      rcases List.mem_append.mp hr with hr | hr
      · exact h.running r hr
      · rw [List.mem_singleton] at hr
        subst hr
        exact ⟨hkeeps, agrees_of_leaves h.store hleaves⟩
    next => exact h
  | save n =>
    simp only [shared, sharedStep]
    split
    next copy reinstated state hrunning =>
      exact ⟨(h.running _ (List.mem_of_getElem? hrunning)).2,
        fun r hr => h.running r (List.mem_of_mem_eraseIdx hr)⟩
    next => exact h
  | close l =>
    have hext : s.chain.Extends (s.chain.close S.host l) := Chain.Extends.close _ _ _
    exact ⟨h.store.later hext, fun r hr => (h.running r hr).later hext⟩
  | restart => exact ⟨h.store, fun r hr => h.running r (List.mem_of_mem_filter hr)⟩

/-- Each step keeps what is saved if nobody saves over another's. -/
theorem keeps_step (h : s.Sound) {event : Event} (hunchanged : Unchanged s event) :
    Keeps s.state ((shared S).step s event).1.state ((shared S).step s event).2 := by
  cases event with
  | load i => exact keeps_refl _
  | work n =>
    have hstore : (work S s n).store = s.store := by
      unfold work
      split <;> rfl
    show Keeps s.state (work S s n).state none
    rw [Shared.state, Shared.state, hstore]
    exact keeps_refl _
  | reinstate index =>
    simp only [shared, sharedStep]
    split <;> exact keeps_refl _
  | save n =>
    simp only [shared, sharedStep]
    split
    next copy reinstated state hrunning =>
      have hkeeps := (h.running _ (List.mem_of_getElem? hrunning)).1
      have hcopy : s.store = copy := hunchanged copy (by simp [Shared.copyOf, hrunning])
      rw [← hcopy] at hkeeps
      exact hkeeps
    next => exact keeps_refl _
  | close l => exact keeps_refl _
  | restart => exact keeps_refl _

end Steps

/-! ## Runs -/

section Runs

variable {F : Type} [NatCast F] [Zero F] {S : Setting F} {s : Shared}

abbrev SharedStep := Machine.Step Shared Event (Option ℕ)

/-- What is saved, in terms of what was saved before and reinstated. -/
structure Survives (t : List SharedStep) (state : PoolState) : Prop where
  reinstated : ∀ e ∈ t, ∀ index, e.output = some index →
    index ∈ state.approvedIndices ∧ index ∉ state.rejectedIndices
  approved : ∀ e ∈ t, ∀ index ∈ e.pre.state.approvedIndices, index ∈ state.approvedIndices
  rejected : ∀ e ∈ t, ∀ index ∈ e.pre.state.rejectedIndices,
    index ∈ state.rejectedIndices ∨ ∃ e' ∈ t, e'.output = some index
  leaves : ∀ e ∈ t, ∀ j x, Sparse.value e.pre.state.leaves j = some x →
    Sparse.value state.leaves j = some x

theorem survives_step {t : List SharedStep} {e : SharedStep} {state' : PoolState}
    (h : Survives t e.pre.state) (hkeeps : Keeps e.pre.state state' e.output) :
    Survives (t ++ [e]) state' := by
  constructor
  · intro e' he' index hindex
    rcases List.mem_append.mp he' with he' | he'
    · obtain ⟨happroved, hnot⟩ := h.reinstated e' he' index hindex
      exact ⟨hkeeps.approved index happroved, hkeeps.settled index happroved hnot⟩
    · rw [List.mem_singleton] at he'
      subst he'
      exact hkeeps.reinstated index hindex
  · intro e' he' index hindex
    rcases List.mem_append.mp he' with he' | he'
    · exact hkeeps.approved index (h.approved e' he' index hindex)
    · rw [List.mem_singleton] at he'
      subst he'
      exact hkeeps.approved index hindex
  · intro e' he' index hindex
    have hnow : index ∈ e.pre.state.rejectedIndices ∨ ∃ e' ∈ t, e'.output = some index := by
      rcases List.mem_append.mp he' with he' | he'
      · exact h.rejected e' he' index hindex
      · rw [List.mem_singleton] at he'
        subst he'
        exact .inl hindex
    rcases hnow with hnow | ⟨e'', he'', houtput⟩
    · rcases hkeeps.rejected index hnow with hlater | houtput
      · exact .inl hlater
      · exact .inr ⟨e, List.mem_append_right _ List.mem_cons_self, houtput⟩
    · exact .inr ⟨e'', List.mem_append_left _ he'', houtput⟩
  · intro e' he' j x hx
    rcases List.mem_append.mp he' with he' | he'
    · exact hkeeps.leaves j x (h.leaves e' he' j x hx)
    · rw [List.mem_singleton] at he'
      subst he'
      exact hkeeps.leaves j x hx

end Runs

/-- **Reinstatement survives** as long as nobody saves over another's save: an index that was reinstated
is approved and not rejected in every state saved later, and no approval, rejection or leaf that was saved
is lost, rejections that were reinstated apart. -/
theorem reinstatement_survives {F : Type} [NatCast F] [Zero F] (S : Setting F) (tokens : TokenLedger)
    (ledger : ℕ) (events : List Event)
    (h : ∀ e ∈ (shared S).trace (.initial tokens ledger) events, Unchanged e.pre e.input) :
    Survives ((shared S).trace (.initial tokens ledger) events)
      ((shared S).final (.initial tokens ledger) events).state := by
  have hinitial : (Shared.initial tokens ledger).Sound := by
    refine ⟨?_, by simp [Shared.initial]⟩
    intro j x hx
    cases hx
  have hrun : ((shared S).final (.initial tokens ledger) events).Sound ∧
      Survives ((shared S).trace (.initial tokens ledger) events)
        ((shared S).final (.initial tokens ledger) events).state := by
    refine (shared S).invariant_of_steps (P := fun e => Unchanged e.pre e.input)
      (I := fun t s => s.Sound ∧ Survives t s.state)
      ⟨hinitial, ⟨by simp, by simp, by simp, by simp⟩⟩ ?_ events h
    intro t s event hinv hunchanged
    exact ⟨sound_step hinv.1 event, survives_step hinv.2 (keeps_step hinv.1 hunchanged)⟩
  exact hrun.2

/-- A tick that rejects the first deposit and approves the others. -/
def Demo.rejectFirst : TickInput where
  policy := fun d => if d.index = 0 then some .reject else some .approve
  net := Demo.net

/-- The first of two deposits is rejected. -/
def Demo.rejected : List Event :=
  [.close Demo.deploy, .close (Demo.deposits 0), .close (Demo.deposits 1), .load Demo.rejectFirst,
    .work 0, .save 0]

theorem reinstatement_survives_quietly :
    (∀ e ∈ (shared Demo.setting).trace (.initial Pool.Demo.tokens 9)
        (Demo.rejected ++ [.reinstate 0, .save 0]), Unchanged e.pre e.input) ∧
      Survives ((shared Demo.setting).trace (.initial Pool.Demo.tokens 9)
          (Demo.rejected ++ [.reinstate 0, .save 0]))
        ((shared Demo.setting).final (.initial Pool.Demo.tokens 9)
          (Demo.rejected ++ [.reinstate 0, .save 0])).state ∧
      ((shared Demo.setting).final (.initial Pool.Demo.tokens 9)
        (Demo.rejected ++ [.reinstate 0, .save 0])).state.approvedIndices = [0, 1] := by
  have hunchanged : ∀ e ∈ (shared Demo.setting).trace (.initial Pool.Demo.tokens 9)
      (Demo.rejected ++ [.reinstate 0, .save 0]), Unchanged e.pre e.input := by
    decide
  exact ⟨hunchanged, reinstatement_survives Demo.setting Pool.Demo.tokens 9 _ hunchanged,
    by decide⟩

/-- A tick loads before the script has saved and saves after it: the index is rejected again. And the
other way round: the script saves over what a tick approved since it loaded. -/
theorem reinstatement_lost :
    (((shared Demo.setting).trace (.initial Pool.Demo.tokens 9)
        (Demo.rejected ++ [.load Demo.rejectFirst, .reinstate 0, .save 1])).getLast?.map (·.output) =
          some (some 0) ∧
      ((shared Demo.setting).final (.initial Pool.Demo.tokens 9)
        (Demo.rejected ++ [.load Demo.rejectFirst, .reinstate 0, .save 1, .work 0,
          .save 0])).state.rejectedIndices = [0]) ∧
    ((shared Demo.setting).final (.initial Pool.Demo.tokens 9)
        (Demo.rejected ++ [.close (Demo.deposits 2), .load Demo.rejectFirst, .reinstate 0, .work 0,
          .save 0])).state.approvedIndices = [1, 2] ∧
      ((shared Demo.setting).final (.initial Pool.Demo.tokens 9)
        (Demo.rejected ++ [.close (Demo.deposits 2), .load Demo.rejectFirst, .reinstate 0, .work 0,
          .save 0, .save 0])).state.approvedIndices = [0, 1] := by
  decide

end OpaqueStellar.Asp
