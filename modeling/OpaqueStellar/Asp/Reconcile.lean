import OpaqueStellar.Asp.Freshness
import OpaqueStellar.Asp.Reinstate

/-! # Ticks that reconcile

The set of approved labels is rebuilt in every tick from the list that was saved, and a root is posted
only where the chain has another one. So a tick can be repeated: after one that completed, a tick that
decides about no deposit and reads no new leaf leaves things as they are, and after one that crashed, a
tick that is handed the same deposits saves what the first would have saved.

The saved state may come from a tick or from `reinstate.ts`, in any order of the two. -/

namespace OpaqueStellar.Asp

open OpaqueStellar.Lib OpaqueStellar.Soroban OpaqueStellar.Pool

/-! ## Well-formed lists -/

/-- No deposit is approved twice, and none is both approved and rejected. -/
structure PoolState.WellFormed (state : PoolState) : Prop where
  nodup : state.approvedIndices.Nodup
  disjoint : ∀ index ∈ state.approvedIndices, index ∉ state.rejectedIndices

theorem wellFormed_initial : PoolState.WellFormed {} := by
  constructor <;> simp

section Batch

variable {policy : Deposit → Option PolicyVerdict} {deposits : List Deposit}
  {state state' : PoolState}

theorem nodup_withVerdict (h : (deposits.map (·.index)).Nodup) (v : PolicyVerdict) :
    (withVerdict policy state deposits v).Nodup :=
  (List.filter_sublist.map _).nodup h

/-- Screening a batch keeps the lists well formed. -/
theorem Decides.wellFormed (h : Decides policy deposits state state') (hstate : state.WellFormed)
    (hnodup : (deposits.map (·.index)).Nodup) : state'.WellFormed := by
  constructor
  · rw [h.approved]
    apply hstate.nodup.append (nodup_withVerdict hnodup _)
    intro index hold hnew
    obtain ⟨d, -, rfl, hopen, -⟩ := mem_withVerdict.mp hnew
    exact hopen (.inl hold)
  · intro index happroved hrejected
    rw [h.approved, List.mem_append] at happroved
    rcases happroved with happroved | happroved
    · rcases (h.rejected index).mp hrejected with hold | hnew
      · exact hstate.disjoint index happroved hold
      · obtain ⟨d, -, rfl, hopen, -⟩ := mem_withVerdict.mp hnew
        exact hopen (.inl happroved)
    · obtain ⟨d, hd, rfl, hopen, hv⟩ := mem_withVerdict.mp happroved
      rcases (h.rejected _).mp hrejected with hold | hnew
      · exact hopen (.inr hold)
      · obtain ⟨d', hd', hindex, -, hv'⟩ := mem_withVerdict.mp hnew
        obtain rfl := List.inj_on_of_nodup_map hnodup hd' hd hindex
        rw [hv] at hv'
        cases hv'

/-- A batch about which nothing is decided leaves the two lists as they were. -/
theorem Decides.idle (h : Decides policy deposits state state')
    (hidle : ∀ d ∈ deposits, state.Decided d.index ∨ policy d = some .defer) :
    state'.approvedIndices = state.approvedIndices ∧
      ∀ index, index ∈ state'.rejectedIndices ↔ index ∈ state.rejectedIndices := by
  have hnone : ∀ v, v ≠ .defer → ∀ index, index ∉ withVerdict policy state deposits v := by
    intro v hv index hmem
    obtain ⟨d, hd, rfl, hopen, hpolicy⟩ := mem_withVerdict.mp hmem
    rcases hidle d hd with hdec | hdefer
    · exact hopen hdec
    · rw [hpolicy] at hdefer
      exact hv (Option.some.inj hdefer)
  constructor
  · rw [h.approved, List.eq_nil_iff_forall_not_mem.mpr (hnone .approve (by simp)), List.append_nil]
  · intro index
    rw [h.rejected, or_iff_left (hnone .reject (by simp) index)]

end Batch

theorem wellFormed_reinstate {store : Option PoolState} {index : ℕ} {state : PoolState}
    (hstore : (store.getD {}).WellFormed) (h : reinstate store index = .ok state) :
    state.WellFormed := by
  cases store with
  | none => cases h
  | some before =>
      have hbefore : before.WellFormed := hstore
      simp only [reinstate] at h
      split at h
      · next hrejected =>
          cases h
          have hnot : index ∉ before.approvedIndices :=
            fun happroved => hbefore.disjoint index happroved hrejected
          constructor
          · simp only [sortIndices, if_neg hnot]
            refine (List.perm_insertionSort _ _).nodup_iff.mpr ?_
            exact List.nodup_append.mpr ⟨hbefore.nodup, List.nodup_singleton _, by
              intro a ha b hb
              rintro rfl
              exact hnot (List.mem_singleton.mp hb ▸ ha)⟩
          · intro other hother
            simp only [sortIndices, if_neg hnot, List.mem_insertionSort, List.mem_append,
              List.mem_singleton] at hother
            rw [List.mem_filter, decide_eq_true_eq]
            rintro ⟨hin, hne⟩
            rcases hother with hother | rfl
            · exact hbefore.disjoint other hother hin
            · exact hne rfl
      · cases h

/-- The lists of someone who has loaded. -/
def Running.WellFormed : Running → Prop
  | loaded copy _ => (copy.getD {}).WellFormed
  | saving _ _ state => state.WellFormed

structure Shared.WellFormed (s : Shared) : Prop where
  store : s.state.WellFormed
  running : ∀ r ∈ s.running, r.WellFormed

section Run

variable {F : Type} [NatCast F] [Zero F] {S : Setting F}

theorem wellFormed_savedState {s : System} {i : TickInput} {state : PoolState}
    (h : s.state.WellFormed) (hsaved : savedState S s i = some state) : state.WellFormed := by
  rcases tick_cases S s i with ⟨hnone, -⟩ | ⟨state', hsaved', -, hnodup, -, hdecides⟩
  · rw [hnone] at hsaved
    cases hsaved
  · obtain rfl := Option.some.inj (hsaved.symm.trans hsaved')
    exact hdecides.wellFormed h hnodup

theorem wellFormed_step {s : Shared} (h : s.WellFormed) (event : Event) :
    ((shared S).step s event).1.WellFormed := by
  have hadd : ∀ (new : Running), new.WellFormed → ∀ r ∈ s.running ++ [new], r.WellFormed := by
    intro new hnew r hr
    rcases List.mem_append.mp hr with hr | hr
    · exact h.running r hr
    · exact List.mem_singleton.mp hr ▸ hnew
  cases event with
  | load i => exact ⟨h.store, hadd _ h.store⟩
  | work n =>
      simp only [shared, sharedStep, work]
      split
      · next copy i hrunning =>
          have hcopy : (s.seenBy copy).state.WellFormed :=
            h.running _ (List.mem_of_getElem? hrunning)
          refine ⟨h.store, ?_⟩
          intro r hr
          dsimp only at hr
          split at hr
          · next state hsaved =>
              rcases List.mem_or_eq_of_mem_set hr with hr | rfl
              · exact h.running r hr
              · exact wellFormed_savedState hcopy hsaved
          · exact h.running r (List.mem_of_mem_eraseIdx hr)
      · exact h
  | reinstate index =>
      simp only [shared, sharedStep]
      split
      · next state hstate => exact ⟨h.store, hadd _ (wellFormed_reinstate h.store hstate)⟩
      · exact h
  | save n =>
      simp only [shared, sharedStep]
      split
      · next copy reinstated state hrunning =>
          exact ⟨h.running _ (List.mem_of_getElem? hrunning),
            fun r hr => h.running r (List.mem_of_mem_eraseIdx hr)⟩
      · exact h
  | close l => exact ⟨h.store, h.running⟩
  | restart => exact ⟨h.store, fun r hr => h.running r (List.mem_of_mem_filter hr)⟩

theorem wellFormed_run (S : Setting F) (tokens : TokenLedger) (ledger : ℕ) (events : List Event) :
    ((shared S).final (.initial tokens ledger) events).WellFormed := by
  refine (shared S).invariant (I := fun _ s => s.WellFormed) ?_ ?_ events
  · refine ⟨wellFormed_initial, ?_⟩
    intro r hr
    cases hr
  · intro t s event h
    exact wellFormed_step h event

end Run

/-! ## Roots on the chain -/

/-- The association root on the chain that a tick leaves behind: the one it posted, or the one it
found. -/
def TickResult.rootAfter (r : TickResult) : Option (BytesN 32) :=
  if r.published then some r.localRoot else r.onChainRoot

/-- The state root on the chain that a tick leaves behind, if it looked for one. -/
def TickResult.stateRootAfter (r : TickResult) : Option (Option (BytesN 32)) :=
  if r.statePublished = some true then some r.stateRoot else r.onChainStateRoot

section Roots

variable {F : Type} (S : Setting F)

/-- What `currentRoot` returned, where it returned. -/
def found (x : Except Thrown (Option (BytesN 32)) × Chain) : Option (Option (BytesN 32)) :=
  x.1.toOption

variable [NatCast F] [Zero F]

/-- The association root that a tick finds on the chain, if it gets to compare its own. -/
def foundRoot (s : System) (i : TickInput) : Option (Option (BytesN 32)) :=
  match readConfirmed S i s.state s.chain with
  | (.error _, _) => none
  | (.ok deposits, c) =>
      match screenBatch S i s.state deposits with
      | .error _ => none
      | .ok (screened, _) =>
          if (checkContinuity i s.guard screened.state deposits).2 then none
          else found (currentRoot S i.net.aspRoot .asp c)

/-- The state root that a tick finds on the chain, if it gets to compare its own. -/
def foundStateRoot (s : System) (i : TickInput) : Option (Option (BytesN 32)) :=
  match beforeState S s i with
  | none => none
  | some (state, c) =>
      match readState S i.net state c with
      | (.ok (_, _, some _), c) => found (currentRoot S i.net.stateRoot .state c)
      | _ => none

/-- The roots that a tick finds are those that an earlier tick left behind. -/
structure RootsUnchanged (r : TickResult) (s : System) (i : TickInput) : Prop where
  asp : ∀ root ∈ foundRoot S s i, root = r.rootAfter
  state : ∀ root ∈ foundStateRoot S s i, r.stateRootAfter = some root

/-- A tick decides about no deposit: each one it is handed is decided, or is deferred again. -/
def DecidesNothing (s : System) (i : TickInput) : Prop :=
  ∀ d ∈ batch S s i, s.state.Decided d.index ∨ i.policy d = some .defer

/-- The leaves of the events that a tick reads, if it gets there. -/
def leavesRead (s : System) (i : TickInput) : List (ℕ × BytesN 32) :=
  match beforeState S s i with
  | none => []
  | some (state, c) =>
      match readStateEvents S i.net state.stateEventCursor c with
      | (.error _, _) => []
      | (.ok r, _) => leafUpdates (r.deposits.1 ++ r.withdraws.1)

/-- The leaves of the events that a tick reads are all held. -/
def ReadsNothingNew (s : System) (i : TickInput) : Prop :=
  ∀ u ∈ leavesRead S s i, Sparse.value s.state.leaves u.1 = some u.2

/-- The tick, with other outcomes of what it posts. -/
def TickInput.posting (i : TickInput) (asp state : Posting) : TickInput :=
  { i with net := { i.net with aspPost := asp, statePost := state } }

/-- The tick posts nothing: it goes the same way whatever would become of a posting, and reports
none. -/
structure PostsNothing (s : System) (i : TickInput) : Prop where
  same : ∀ asp state, runPoolTick S s (i.posting asp state) = runPoolTick S s i
  reports : ∀ r, (runPoolTick S s i).2 = .ok r → r.published = false ∧ r.statePublished ≠ some true

end Roots

section Ticks

variable {F : Type} [NatCast F] [Zero F] {S : Setting F}

/-- The root that is compared, for the approved deposits of a screening. -/
theorem rootHex_of_screenBatch {s : System} {i : TickInput} {deposits : List Deposit} {c : Chain}
    {screened : Screening} {set : AssociationSet F}
    (hread : readConfirmed S i s.state s.chain = (.ok deposits, c))
    (hscreens : screenBatch S i s.state deposits = .ok (screened, set)) :
    set.rootHex S = labelRoot S screened.state.approvedIndices ∧
      set.size = screened.state.approvedIndices.length := by
  obtain ⟨-, hset, -⟩ := screenBatch_spec (readConfirmed_spec hread).1 hscreens
  obtain ⟨-, rfl⟩ := associationSet_eq_ok.mp hset
  exact ⟨rfl, List.length_map _⟩

/-- The local root that a tick reports. -/
theorem localRoot_tick {s : System} {i : TickInput} {r : TickResult}
    (h : (runPoolTick S s i).2 = .ok r) :
    r.localRoot = labelRoot S (runPoolTick S s i).1.state.approvedIndices := by
  have hrun := tickRun S s i
  revert hrun h
  generalize (runPoolTick S s i).1 = s'
  generalize (runPoolTick S s i).2 = outcome
  intro h hrun
  cases hrun with
  | unread | unscreened | unpublished => cases h
  | @halted c c' deposits screened set guard onChainRoot hread hscreens =>
      cases onChainRoot with
      | error e => cases h
      | ok root =>
          cases h
          exact (rootHex_of_screenBatch hread hscreens).1
  | @completed c c' deposits screened set guard state result hread hscreens hpasses hpublish =>
      cases h
      obtain ⟨_, _, _, _, -, -, hlocal, -⟩ := publish_reports hpublish
      have hdecisions := decisions_publish hpublish
      simp only [PoolState.decisions, Prod.mk.injEq] at hdecisions
      show r.localRoot = labelRoot S state.approvedIndices
      rw [hlocal, hdecisions.1]
      exact (rootHex_of_screenBatch hread hscreens).1

omit [NatCast F] in
/-- After the comparison, the root on the chain is the one of the set. -/
theorem rootAfter_publishAspRoot {net : Network} {set : AssociationSet F} {c c' : Chain}
    {onChainRoot : Option (BytesN 32)} {published : Bool}
    (h : publishAspRoot S net set c = (.ok (onChainRoot, published), c')) (hsome : 0 < set.size) :
    (if published then some (set.rootHex S) else onChainRoot) = some (set.rootHex S) := by
  obtain ⟨root, c₁, -, h⟩ := Session.bind_eq_ok.mp h
  split at h
  · obtain ⟨u, c₂, -, h⟩ := Session.bind_eq_ok.mp h
    obtain ⟨heq, -⟩ := Session.pure_eq_ok.mp h
    cases heq
    rfl
  · next hsame =>
      obtain ⟨heq, -⟩ := Session.pure_eq_ok.mp h
      cases heq
      exact (not_not.mp fun hdiffers => hsame ⟨hsome, hdiffers⟩).symm

omit [NatCast F] [Zero F] in
theorem rootAfter_publishStateRoot {net : Network} {leaves : List (Option (BytesN 32))}
    {root : BytesN 32} {c c' : Chain} {onChainRoot : Option (BytesN 32)} {published : Bool}
    (h : publishStateRoot S net leaves root c = (.ok (onChainRoot, published), c')) :
    (if published then some root else onChainRoot) = some root := by
  obtain ⟨latest, c₁, -, h⟩ := Session.bind_eq_ok.mp h
  split at h
  · obtain ⟨u, c₂, -, h⟩ := Session.bind_eq_ok.mp h
    obtain ⟨heq, -⟩ := Session.pure_eq_ok.mp h
    cases heq
    rfl
  · next hsame =>
      obtain ⟨heq, -⟩ := Session.pure_eq_ok.mp h
      cases heq
      exact (not_not.mp hsame).symm

/-- The state root is the one of the leaves, and there is none where there are no leaves. -/
theorem stateRoot_eq {net : Network} {state state' : PoolState}
    {leaves : List (Option (BytesN 32))} {stateRoot : Option (BytesN 32)} {c c' : Chain}
    (h : readState S net state c = (.ok (state', leaves, stateRoot), c')) :
    leaves = state'.leaves ∧
      ∀ root, stateRoot = some root → root = leafRoot S state'.leaves := by
  obtain ⟨r, -, rfl, rfl, hroot⟩ := readState_eq_ok h
  refine ⟨rfl, ?_⟩
  rintro root rfl
  rcases hroot with ⟨hnone, -⟩ | ⟨tree, htree, heq⟩
  · cases hnone
  · rw [Option.some.inj heq, stateTree_eq_ok htree]
    rfl

/-- The roots that a completed tick leaves on the chain are those of the state it saves. -/
theorem roots_after {s : System} {i : TickInput} {r : TickResult}
    (h : (runPoolTick S s i).2 = .ok r) (hpassed : r.haltedForReorg = false) :
    ((runPoolTick S s i).1.state.approvedIndices ≠ [] →
      r.rootAfter = some (labelRoot S (runPoolTick S s i).1.state.approvedIndices)) ∧
    ∀ root, r.stateRootAfter = some root → root = some (leafRoot S (runPoolTick S s i).1.state.leaves) := by
  have hlocal := localRoot_tick h
  have hrun := tickRun S s i
  revert hrun h hlocal
  generalize (runPoolTick S s i).1 = s'
  generalize (runPoolTick S s i).2 = outcome
  intro h hlocal hrun
  cases hrun with
  | unread | unscreened | unpublished => cases h
  | @halted c c' deposits screened set guard onChainRoot =>
      cases onChainRoot with
      | error e => cases h
      | ok root =>
          cases h
          cases hpassed
  | @completed c c' deposits screened set guard state result hread hscreens hpasses hpublish =>
      cases h
      obtain ⟨c₁, leaves, stateRoot, c₂, hasp, hstate, hset, hroot, -, hrest⟩ :=
        publish_reports hpublish
      have hdecisions := decisions_publish hpublish
      simp only [PoolState.decisions, Prod.mk.injEq] at hdecisions
      constructor
      · intro happroved
        have hsize : 0 < set.size := by
          rw [(rootHex_of_screenBatch hread hscreens).2, ← hdecisions.1]
          exact List.length_pos_iff.mpr happroved
        have hafter := rootAfter_publishAspRoot hasp hsize
        rw [← hset] at hafter
        rw [TickResult.rootAfter, hafter, hlocal]
      · intro root hafter
        obtain ⟨-, hleaves⟩ := stateRoot_eq hstate
        unfold TickResult.stateRootAfter at hafter
        rcases hrest with
          ⟨rfl, -, hnone, hnot⟩ | ⟨own, onChain, published, rfl, hpost, honChain, hpublished⟩
        · rw [hnone, hnot] at hafter
          cases hafter
        · have hsame := rootAfter_publishStateRoot hpost
          rw [hleaves own rfl] at hsame hroot
          rw [hpublished, honChain, hroot] at hafter
          cases published with
          | true => exact (Option.some.inj hafter).symm
          | false => exact (Option.some.inj hafter).symm.trans hsame

omit [NatCast F] in
/-- A comparison that finds its own root posts nothing. -/
theorem publishAspRoot_eq_read {net : Network} {set : AssociationSet F} {c : Chain}
    (hsame : ∀ root, found (currentRoot S net.aspRoot .asp c) = some root → 0 < set.size →
      root = some (set.rootHex S)) :
    publishAspRoot S net set c =
      (currentRoot S net.aspRoot .asp >>= fun root => pure (root, false)) c := by
  apply Session.bind_congr rfl
  intro root c₁ hroot
  rw [if_neg]
  rintro ⟨hsome, hdiffers⟩
  have hfound : found (currentRoot S net.aspRoot .asp c) = some root := by
    rw [hroot]
    rfl
  exact hdiffers (hsame root hfound hsome).symm

omit [NatCast F] [Zero F] in
theorem publishStateRoot_eq_read {net : Network} {leaves : List (Option (BytesN 32))}
    {root : BytesN 32} {c : Chain}
    (hsame : ∀ latest, found (currentRoot S net.stateRoot .state c) = some latest →
      latest = some root) :
    publishStateRoot S net leaves root c =
      (currentRoot S net.stateRoot .state >>= fun latest => pure (latest, false)) c := by
  apply Session.bind_congr rfl
  intro latest c₁ hlatest
  rw [if_neg]
  intro hdiffers
  have hfound : found (currentRoot S net.stateRoot .state c) = some latest := by
    rw [hlatest]
    rfl
  exact hdiffers (hsame latest hfound).symm

/-! The reads do not look at the postings. -/

omit [NatCast F] [Zero F] in
theorem readDeposits_posting (net : Network) (asp state : Posting) (afterIndex : ℤ)
    (fromLedger : ℕ) :
    readDeposits S { net with aspPost := asp, statePost := state } afterIndex fromLedger =
      readDeposits S net afterIndex fromLedger := by
  simp only [readDeposits, readDepositEvents, resolveEventStartLedger, getEventsFrom]

omit [NatCast F] [Zero F] in
theorem readConfirmed_posting (i : TickInput) (asp state : Posting) (saved : PoolState) :
    readConfirmed S (i.posting asp state) saved = readConfirmed S i saved := by
  have hdeposits := readDeposits_posting (S := S) i.net asp state (readAfterIndex saved)
    saved.lastLedger
  unfold readConfirmed
  simp only [TickInput.posting, hdeposits, confirmedDeposits]
  rfl

omit [Zero F] in
theorem screenBatch_posting (i : TickInput) (asp state : Posting) (saved : PoolState)
    (deposits : List Deposit) :
    screenBatch S (i.posting asp state) saved deposits = screenBatch S i saved deposits := rfl

theorem checkContinuity_posting (i : TickInput) (asp state : Posting) (guard : ReorgGuard)
    (saved : PoolState) (deposits : List Deposit) :
    checkContinuity (i.posting asp state) guard saved deposits =
      checkContinuity i guard saved deposits := rfl

omit [NatCast F] [Zero F] in
theorem readStateEvents_posting (net : Network) (asp state : Posting) (fromLedger : ℕ) :
    readStateEvents S { net with aspPost := asp, statePost := state } fromLedger =
      readStateEvents S net fromLedger := by
  have hstart : stateStart S { net with aspPost := asp, statePost := state } fromLedger =
      stateStart S net fromLedger := by
    rw [stateStart, stateStart]
  -- one call at a time: the streams are not to be unfolded
  refine congrArg₂ (· >>= ·) hstart (funext fun start => ?_)
  refine congrArg₂ (· >>= ·) rfl (funext fun deposits => ?_)
  refine congrArg₂ (· >>= ·) rfl (funext fun withdraws => ?_)
  rfl

theorem readState_posting (net : Network) (asp state : Posting) (saved : PoolState) :
    readState S { net with aspPost := asp, statePost := state } saved = readState S net saved :=
  congrArg₂ (· >>= ·) (congrArg₂ (· >>= ·) (readStateEvents_posting net asp state _) rfl) rfl

/-- `publish`, where both comparisons find their own root. -/
structure FindsOwn (S : Setting F) (net : Network) (screened : Screening) (set : AssociationSet F)
    (c : Chain) : Prop where
  asp : ∀ root, found (currentRoot S net.aspRoot .asp c) = some root → 0 < set.size →
    root = some (set.rootHex S)
  state : ∀ x c₁ state leaves root c₂, publishAspRoot S net set c = (.ok x, c₁) →
    readState S net screened.state c₁ = (.ok (state, leaves, some root), c₂) →
    ∀ latest, found (currentRoot S net.stateRoot .state c₂) = some latest → latest = some root

/-- Such a `publish` goes the same way whatever would become of a posting. -/
theorem FindsOwn.publish_posting {net : Network} {screened : Screening} {set : AssociationSet F}
    {c : Chain} (h : FindsOwn S net screened set c) (asp state : Posting) :
    publish S { net with aspPost := asp, statePost := state } screened set c =
      publish S net screened set c := by
  have hasp : publishAspRoot S { net with aspPost := asp, statePost := state } set c =
      publishAspRoot S net set c := by
    rw [publishAspRoot_eq_read h.asp]
    exact publishAspRoot_eq_read h.asp
  apply Session.bind_congr hasp
  intro x c₁ hx
  apply Session.bind_congr (by rw [readState_posting])
  rintro ⟨state', leaves, stateRoot⟩ c₂ hread
  cases stateRoot with
  | none => rfl
  | some root =>
      have hroot := h.state x c₁ state' leaves root c₂ hx hread
      refine Session.bind_congr ?_ fun _ _ _ => rfl
      rw [publishStateRoot_eq_read hroot]
      exact publishStateRoot_eq_read hroot

theorem FindsOwn.reports {net : Network} {screened : Screening} {set : AssociationSet F}
    {c c' : Chain} {state : PoolState} {r : TickResult} (h : FindsOwn S net screened set c)
    (hpublish : publish S net screened set c = (.ok (state, r), c')) :
    r.published = false ∧ r.statePublished ≠ some true := by
  obtain ⟨c₁, leaves, stateRoot, c₂, hasp, hread, -, -, -, hrest⟩ := publish_reports hpublish
  constructor
  · rw [publishAspRoot_eq_read h.asp] at hasp
    obtain ⟨root, c₃, -, hpure⟩ := Session.bind_eq_ok.mp hasp
    exact (congrArg Prod.snd (Session.pure_eq_ok.mp hpure).1).symm
  · rcases hrest with ⟨-, -, -, hnot⟩ | ⟨root, onChain, published, rfl, hpost, -, hpublished⟩
    · rw [hnot]
      simp
    · rw [publishStateRoot_eq_read (h.state _ c₁ _ _ _ _ hasp hread)] at hpost
      obtain ⟨latest, c₃, -, hpure⟩ := Session.bind_eq_ok.mp hpost
      have hfalse : published = false := (congrArg Prod.snd (Session.pure_eq_ok.mp hpure).1).symm
      simp [hpublished, hfalse]

/-- A tick posts nothing if its comparisons, where it gets to them, find its own roots. -/
theorem postsNothing_of_findsOwn {s : System} {i : TickInput}
    (h : ∀ deposits c screened set, readConfirmed S i s.state s.chain = (.ok deposits, c) →
      screenBatch S i s.state deposits = .ok (screened, set) →
      (checkContinuity i s.guard screened.state deposits).2 = false →
      FindsOwn S i.net screened set c) : PostsNothing S s i := by
  constructor
  · intro asp state
    unfold runPoolTick
    rw [readConfirmed_posting]
    cases hread : readConfirmed S i s.state s.chain with
    | mk read c =>
        cases read with
        | error e => rfl
        | ok deposits =>
            simp only [screenBatch_posting, checkContinuity_posting]
            cases hscreens : screenBatch S i s.state deposits with
            | error e => rfl
            | ok screens =>
                obtain ⟨screened, set⟩ := screens
                cases hhalts : (checkContinuity i s.guard screened.state deposits).2 with
                | true =>
                    simp only [hhalts, if_true]
                    rfl
                | false =>
                    have hown := h deposits c screened set hread hscreens hhalts
                    have hpublish : publish S (i.posting asp state).net screened set c =
                      publish S i.net screened set c := hown.publish_posting asp state
                    simp only [hhalts, Bool.false_eq_true, if_false, hpublish]
  · intro r hr
    have hrun := tickRun S s i
    revert hrun hr
    generalize (runPoolTick S s i).1 = s'
    generalize (runPoolTick S s i).2 = outcome
    intro hr hrun
    cases hrun with
    | unread | unscreened | unpublished => cases hr
    | @halted c c' deposits screened set guard onChainRoot =>
        cases onChainRoot with
        | error e => cases hr
        | ok root =>
            cases hr
            exact ⟨rfl, by simp [haltedResult]⟩
    | @completed c c' deposits screened set guard state result hread hscreens hpasses hpublish =>
        cases hr
        exact (h deposits c screened set hread hscreens (by rw [hpasses])).reports hpublish

/-- Reading no new leaf leaves the leaves as they were. -/
theorem leaves_of_readsNothingNew {s : System} {i : TickInput} (h : ReadsNothingNew S s i)
    {state state' : PoolState} {leaves : List (Option (BytesN 32))} {root : Option (BytesN 32)}
    {c c' : Chain} (hbefore : beforeState S s i = some (state, c))
    (hread : readState S i.net state c = (.ok (state', leaves, root), c')) :
    state'.leaves = s.state.leaves := by
  obtain ⟨-, hleaves, -⟩ := beforeState_spec hbefore
  have hsame : state.leaves = s.state.leaves := by
    rw [PoolState.leaves, hleaves]
    rfl
  obtain ⟨r, hevents, rfl, -⟩ := readState_eq_ok hread
  have hread' : leavesRead S s i = leafUpdates (r.deposits.1 ++ r.withdraws.1) := by
    simp only [leavesRead, hbefore, hevents]
  rw [leaves_mergeSnapshot, hsame, ← hread']
  exact Sparse.foldl_assign_eq_self h

omit [Zero F] in
theorem foundRoot_eq {s : System} {i : TickInput} {deposits : List Deposit} {c : Chain}
    {screened : Screening} {set : AssociationSet F}
    (hread : readConfirmed S i s.state s.chain = (.ok deposits, c))
    (hscreens : screenBatch S i s.state deposits = .ok (screened, set))
    (hpasses : (checkContinuity i s.guard screened.state deposits).2 = false) :
    foundRoot S s i = found (currentRoot S i.net.aspRoot .asp c) := by
  simp only [foundRoot, hread, hscreens, hpasses, Bool.false_eq_true, if_false]

theorem foundStateRoot_eq {s : System} {i : TickInput} {state state' : PoolState} {c c' : Chain}
    {leaves : List (Option (BytesN 32))} {root : BytesN 32}
    (hbefore : beforeState S s i = some (state, c))
    (hread : readState S i.net state c = (.ok (state', leaves, some root), c')) :
    foundStateRoot S s i = found (currentRoot S i.net.stateRoot .state c') := by
  simp only [foundStateRoot, hbefore, hread]

/-- **A tick after a completed one**, which decides about nothing, reads nothing new and finds the
roots as they were left, posts nothing. -/
theorem postsNothing_after {s t : System} {i i' : TickInput} {r : TickResult}
    (hcompleted : (runPoolTick S s i).2 = .ok r) (hpassed : r.haltedForReorg = false)
    (hstate : t.state = (runPoolTick S s i).1.state) (hdecides : DecidesNothing S t i')
    (hreads : ReadsNothingNew S t i') (hroots : RootsUnchanged S r t i') : PostsNothing S t i' := by
  obtain ⟨hasp, hleaves⟩ := roots_after hcompleted hpassed
  rw [← hstate] at hasp hleaves
  apply postsNothing_of_findsOwn
  intro deposits c screened set hread hscreens hpasses
  obtain ⟨hroot, hsize⟩ := rootHex_of_screenBatch hread hscreens
  have hbatch := batch_eq hread
  obtain ⟨hscreened, -⟩ := screenBatch_spec (readConfirmed_spec hread).1 hscreens
  obtain ⟨happroved, -⟩ := hscreened.idle (hbatch ▸ hdecides)
  rw [happroved] at hroot hsize
  constructor
  · intro root hfound hsome
    have hposted := hroots.asp root ((foundRoot_eq hread hscreens hpasses).trans hfound)
    rw [hposted, hroot]
    exact hasp (List.length_pos_iff.mp (hsize ▸ hsome))
  · intro x c₁ state leaves root c₂ hx hreadState latest hfound
    have hbefore := beforeState_eq hread hscreens (Prod.ext rfl hpasses) hx
    have hposted := hroots.state latest ((foundStateRoot_eq hbefore hreadState).trans hfound)
    rw [hleaves latest hposted, (stateRoot_eq hreadState).2 root rfl,
      leaves_of_readsNothingNew hreads hbefore hreadState]

/-- The two lists after a tick that decides about nothing, however it ends. -/
theorem lists_of_decidesNothing {s : System} {i : TickInput} (h : DecidesNothing S s i) :
    (runPoolTick S s i).1.state.approvedIndices = s.state.approvedIndices ∧
      ∀ index, index ∈ (runPoolTick S s i).1.state.rejectedIndices ↔
        index ∈ s.state.rejectedIndices := by
  rcases tick_cases S s i with ⟨-, hsame⟩ | ⟨state', -, hsame, -, -, hdecides⟩
  · rw [hsame]
    exact ⟨rfl, fun _ => Iff.rfl⟩
  · rw [hsame]
    exact hdecides.idle h

end Ticks

/-! ## Runs -/

section Reconciles

variable {F : Type} [NatCast F] [Zero F] (S : Setting F)

/-- What a tick that returns leaves behind. -/
structure Reconciled (s s' : System) (r : TickResult) : Prop where
  wellFormed : s'.state.WellFormed
  appended : s.state.approvedIndices <+: s'.state.approvedIndices
  localRoot : r.localRoot = labelRoot S s'.state.approvedIndices

/-- What may follow on a completed tick: a tick from the state it saved, on whatever chain and with
whatever guard, that is handed no deposit to decide about. -/
structure Settled (s' : System) (r : TickResult) : Prop where
  lists : ∀ t i, t.state = s'.state → DecidesNothing S t i →
    (runPoolTick S t i).1.state.approvedIndices = s'.state.approvedIndices ∧
      ∀ index, index ∈ (runPoolTick S t i).1.state.rejectedIndices ↔
        index ∈ s'.state.rejectedIndices
  posts : ∀ t i, t.state = s'.state → DecidesNothing S t i → ReadsNothingNew S t i →
    RootsUnchanged S r t i → PostsNothing S t i

/-- The list of approved deposits once a tick has screened its batch. -/
def approvedBy (s : System) (i : TickInput) : List ℕ :=
  s.state.approvedIndices ++ withVerdict i.policy s.state (batch S s i) .approve

/-- A tick that does not get to save leaves the saved state alone; and every tick from that state
which is handed the same deposits, under a policy that answers the same about them, saves the approved
list that the first would have saved. -/
structure Repeatable (s : System) (i : TickInput) : Prop where
  crash : savedState S s i = none → (runPoolTick S s i).1.state = s.state
  rerun : ∀ t i' state, t.state = s.state → batch S t i' = batch S s i →
    (∀ d ∈ batch S s i, i'.policy d = i.policy d) → savedState S t i' = some state →
    state.approvedIndices = approvedBy S s i

variable {S}

omit [NatCast F] [Zero F] in
/-- What is approved does not depend on the policy about other deposits. -/
theorem withVerdict_congr {policy policy' : Deposit → Option PolicyVerdict} {state : PoolState}
    {deposits : List Deposit} (h : ∀ d ∈ deposits, policy' d = policy d) (v : PolicyVerdict) :
    withVerdict policy' state deposits v = withVerdict policy state deposits v := by
  unfold withVerdict verdictOf
  congr 1
  apply List.filter_congr
  intro d hd
  rw [h d hd]

theorem repeatable (s : System) (i : TickInput) : Repeatable S s i := by
  constructor
  · intro hnone
    rcases tick_cases S s i with ⟨-, hsame⟩ | ⟨state', hsome, -⟩
    · exact hsame
    · rw [hnone] at hsome
      cases hsome
  · intro t i' state hstate hbatch hpolicy hsaved
    rcases tick_cases S t i' with ⟨hnone, -⟩ | ⟨state', hsaved', -, -, -, hdecides⟩
    · rw [hnone] at hsaved
      cases hsaved
    · obtain rfl := Option.some.inj (hsaved.symm.trans hsaved')
      rw [hdecides.approved, hstate, hbatch, withVerdict_congr hpolicy, approvedBy]

/-- **Ticks reconcile.** From every state that ticks and reinstatements can have saved, in whatever
order, on every chain: a tick that returns leaves well-formed lists, of which that of the approved
extends the one before, and reports the root of its labels; if it was not halted, a further tick that
decides about nothing leaves the lists as they are, and posts nothing if it reads nothing new and finds
the roots as they were left; and a tick that crashed can be run again. -/
theorem tick_reconciles (S : Setting F) (tokens : TokenLedger) (ledger : ℕ) (events : List Event)
    (i : TickInput) :
    let shared := (shared S).final (.initial tokens ledger) events
    let s := shared.seenBy shared.store
    (∀ r, (runPoolTick S s i).2 = .ok r → Reconciled S s (runPoolTick S s i).1 r ∧
      (r.haltedForReorg = false → Settled S (runPoolTick S s i).1 r)) ∧
    Repeatable S s i := by
  intro shared s
  have hs : s.state.WellFormed := (wellFormed_run S tokens ledger events).store
  refine ⟨?_, repeatable s i⟩
  intro r hr
  refine ⟨?_, ?_⟩
  · rcases tick_cases S s i with ⟨-, hsame⟩ | ⟨state', -, hsame, hnodup, -, hdecides⟩
    · refine ⟨?_, ?_, localRoot_tick hr⟩
      · rw [hsame]
        exact hs
      · rw [hsame]
    · refine ⟨?_, ?_, localRoot_tick hr⟩
      · rw [hsame]
        exact hdecides.wellFormed hs hnodup
      · rw [hsame, hdecides.approved]
        exact List.prefix_append _ _
  · intro hpassed
    constructor
    · intro t i' hstate hdecides
      rw [← hstate]
      exact lists_of_decidesNothing hdecides
    · intro t i' hstate hdecides hreads hroots
      exact postsNothing_after hr hpassed hstate hdecides hreads hroots

end Reconciles

/-! ## A tick that has more to do -/

/-- A deposit, with no tick yet. -/
abbrev Demo.deposited : System :=
  let s := (shared Demo.setting).final (.initial Pool.Demo.tokens 9)
    [.close Demo.deploy, .close (Demo.deposits 0)]
  s.seenBy s.store

/-- A tick without the guard that has one answer. -/
def Demo.answering (verdict : PolicyVerdict) : TickInput where
  policy := fun _ => some verdict
  guarded := false
  net := Demo.net

/-- The first tick defers the deposit and the second approves it: with no deposit that the first was
not handed, and with the roots as the first left them, the second posts a root. -/
theorem tick_posts_again :
    let s := Demo.deposited
    let first := runPoolTick Demo.setting s (Demo.answering .defer)
    ¬ ∀ r, first.2 = .ok r → r.haltedForReorg = false → ∀ i,
      batch Demo.setting first.1 i = batch Demo.setting s (Demo.answering .defer) →
      ReadsNothingNew Demo.setting first.1 i → RootsUnchanged Demo.setting r first.1 i →
      (runPoolTick Demo.setting first.1 i).1.state.approvedIndices =
        first.1.state.approvedIndices ∧ PostsNothing Demo.setting first.1 i := by
  intro s first h
  have hreport : first.2.toOption.map (fun r =>
      (r.haltedForReorg, r.rootAfter, r.stateRootAfter)) =
      some (false, some (BytesN.ofNat 32 2),
        foundStateRoot Demo.setting first.1 (Demo.answering .approve)) := by decide
  cases hfirst : first.2 with
  | error e =>
      rw [hfirst] at hreport
      cases hreport
  | ok r =>
      rw [hfirst] at hreport
      obtain ⟨hpassed, hroot, hstateRoot⟩ : r.haltedForReorg = false ∧
          r.rootAfter = some (BytesN.ofNat 32 2) ∧
          r.stateRootAfter = foundStateRoot Demo.setting first.1 (Demo.answering .approve) := by
        simpa only [Except.toOption, Option.map_some, Option.some.injEq, Prod.mk.injEq] using hreport
      have hfound : foundRoot Demo.setting first.1 (Demo.answering .approve) =
          some (some (BytesN.ofNat 32 2)) := by decide
      have hbatch : batch Demo.setting first.1 (Demo.answering .approve) =
          batch Demo.setting s (Demo.answering .defer) := by decide
      have hreads : ReadsNothingNew Demo.setting first.1 (Demo.answering .approve) := by
        unfold ReadsNothingNew
        decide
      have hroots : RootsUnchanged Demo.setting r first.1 (Demo.answering .approve) := by
        constructor
        · rw [hroot, hfound]
          rintro root hmem
          exact (Option.some.inj hmem).symm
        · rw [hstateRoot]
          exact fun root hmem => hmem
      have hsame := (h r hfirst hpassed (Demo.answering .approve) hbatch hreads hroots).1
      revert hsame
      decide

/-- A deposit is approved, and the tick is repeated. -/
theorem tick_reconciles_one :
    let first := runPoolTick Demo.setting Demo.deposited Demo.undisturbed
    first.1.state.approvedIndices = [0] ∧ first.1.state.WellFormed ∧
      PostsNothing Demo.setting first.1 Demo.undisturbed := by
  intro first
  have happroved : first.1.state.approvedIndices = [0] := by decide
  have htick := (tick_reconciles Demo.setting Pool.Demo.tokens 9
    [.close Demo.deploy, .close (Demo.deposits 0)] Demo.undisturbed).1
  have hreport : first.2.toOption.map (fun r =>
      (r.haltedForReorg, r.rootAfter, r.stateRootAfter)) =
      some (false, (foundRoot Demo.setting first.1 Demo.undisturbed).join,
        foundStateRoot Demo.setting first.1 Demo.undisturbed) := by decide
  cases hfirst : first.2 with
  | error e =>
      rw [hfirst] at hreport
      cases hreport
  | ok r =>
      rw [hfirst] at hreport
      obtain ⟨hpassed, hroot, hstateRoot⟩ : r.haltedForReorg = false ∧
          r.rootAfter = (foundRoot Demo.setting first.1 Demo.undisturbed).join ∧
          r.stateRootAfter = foundStateRoot Demo.setting first.1 Demo.undisturbed := by
        simpa only [Except.toOption, Option.map_some, Option.some.injEq, Prod.mk.injEq] using hreport
      obtain ⟨hreconciled, hsettled⟩ := htick r hfirst
      refine ⟨happroved, hreconciled.wellFormed, ?_⟩
      refine (hsettled hpassed).posts first.1 Demo.undisturbed rfl ?_ ?_ ?_
      · unfold DecidesNothing
        decide
      · unfold ReadsNothingNew
        decide
      · constructor
        · rw [hroot]
          rintro root hmem
          rw [Option.mem_def.mp hmem]
          rfl
        · rw [hstateRoot]
          exact fun root hmem => hmem

end OpaqueStellar.Asp
