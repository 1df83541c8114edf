import OpaqueStellar.Asp.Screening

/-! # The tree of state leaves

A tick reads the deposit events, then the withdrawal events, and takes the ledger up to which it has
read from a third call. Ledgers may close between the calls. What the saved leaves are worth then
depends on which events the two streams missed: `NoGap` and `NothingBehind` are the two conditions
under which the saved leaves stay an initial part of the pool's leaves with nothing missing behind
the saved cursor. -/

namespace OpaqueStellar.Asp

open OpaqueStellar.Lib OpaqueStellar.Soroban OpaqueStellar.Pool

/-! ## One reading of the events -/

/-- The event at a position of the log was returned by the reads. -/
def StateRead.Reads (r : StateRead) (p : ℕ) (e : Emitted) : Prop :=
  (e.topic = some .Deposit ∧ r.deposits.2.startLedger ≤ e.ledger ∧ p < r.deposits.2.stop) ∨
    (e.topic = some .Withdraw ∧ r.withdraws.2.startLedger ≤ e.ledger ∧ p < r.withdraws.2.stop)

instance (r : StateRead) (p : ℕ) (e : Emitted) : Decidable (r.Reads p e) :=
  inferInstanceAs (Decidable (_ ∨ _))

/-- Among the events from position `held` on, none that the reads returned comes after one that they
missed. -/
def NoGap (held : ℕ) (c : Chain) (r : StateRead) : Prop :=
  ∀ p q e f, c.log[p]? = some e → c.log[q]? = some f → held ≤ p → p ≤ q → r.Reads q f → r.Reads p e

/-- Every event from position `held` on that the reads missed is in the ledger of the new cursor or a
later one. -/
def NothingBehind (held : ℕ) (c : Chain) (r : StateRead) : Prop :=
  ∀ p e, c.log[p]? = some e → held ≤ p → ¬ r.Reads p e → r.cursor ≤ e.ledger

def PoolState.leaves (state : PoolState) : List (Option (BytesN 32)) := state.stateLeaves.getD []

@[simp] theorem leaves_mergeSnapshot (state : PoolState) (r : StateRead) :
    (mergeSnapshot state (snapshotOf r)).leaves =
      (leafUpdates (r.deposits.1 ++ r.withdraws.1)).foldl Sparse.assign state.leaves := rfl

@[simp] theorem cursor_mergeSnapshot (state : PoolState) (r : StateRead) :
    (mergeSnapshot state (snapshotOf r)).stateEventCursor = r.cursor := rfl

/-- The saved leaves are the first leaves of the pool, and none of a ledger before the cursor is
missing. -/
structure Holds (state : PoolState) (c : Chain) : Prop where
  le : state.leaves.length ≤ c.log.length
  eq : state.leaves = (c.leaves.take state.leaves.length).map some
  complete : ∀ p e, c.log[p]? = some e → e.ledger < state.stateEventCursor →
    p < state.leaves.length
  cursor : state.stateEventCursor ≤ c.ledger

section Reading

variable {F : Type} {S : Setting F} {net : Network} {state : PoolState} {c c' : Chain}
  {r : StateRead}

/-- What is held stays right while the chain goes on. -/
theorem Holds.later (h : Holds state c) (hext : c.Extends c') : Holds state c' := by
  refine ⟨le_trans h.le hext.length, ?_, ?_, le_trans h.cursor hext.ledger⟩
  · rw [hext.take_leaves h.le]
    exact h.eq
  · intro p e hp hledger
    exact h.complete p e (hext.getElem?_of_le hp (le_trans (le_of_lt hledger) h.cursor)) hledger

/-- An update comes from an event that was read. -/
theorem mem_leafUpdates (hdeposits : Covers c .Deposit r.deposits)
    (hwithdraws : Covers c .Withdraw r.withdraws) {u : ℕ × BytesN 32} :
    u ∈ leafUpdates (r.deposits.1 ++ r.withdraws.1) ↔
      ∃ e, c.log[u.1]? = some e ∧ e.leaf = some (u.2, u.1) ∧ r.Reads u.1 e := by
  simp only [leafUpdates, List.mem_filterMap, List.mem_append, hdeposits.mem_iff,
    hwithdraws.mem_iff]
  constructor
  · rintro ⟨e, hread, hu⟩
    obtain ⟨⟨x, i⟩, hleaf, rfl⟩ := Option.map_eq_some_iff.mp hu
    rcases hread with ⟨p, hp, hstart, hstop, htopic⟩ | ⟨p, hp, hstart, hstop, htopic⟩
    · obtain ⟨rfl, -⟩ := c.getElem?_leaves hp hleaf
      exact ⟨e, hp, hleaf, .inl ⟨htopic, hstart, hstop⟩⟩
    · obtain ⟨rfl, -⟩ := c.getElem?_leaves hp hleaf
      exact ⟨e, hp, hleaf, .inr ⟨htopic, hstart, hstop⟩⟩
  · rintro ⟨e, hp, hleaf, hreads⟩
    refine ⟨e, ?_, by rw [hleaf]; rfl⟩
    rcases hreads with ⟨htopic, hstart, hstop⟩ | ⟨htopic, hstart, hstop⟩
    · exact .inl ⟨u.1, hp, hstart, hstop, htopic⟩
    · exact .inr ⟨u.1, hp, hstart, hstop, htopic⟩

theorem filled_iff (hdeposits : Covers c .Deposit r.deposits)
    (hwithdraws : Covers c .Withdraw r.withdraws) {n i : ℕ} :
    Sparse.Filled n (leafUpdates (r.deposits.1 ++ r.withdraws.1)) i ↔
      i < n ∨ ∃ e, c.log[i]? = some e ∧ r.Reads i e := by
  unfold Sparse.Filled
  apply or_congr_right
  constructor
  · rintro ⟨u, hu, rfl⟩
    obtain ⟨e, hp, -, hreads⟩ := (mem_leafUpdates hdeposits hwithdraws).mp hu
    exact ⟨e, hp, hreads⟩
  · rintro ⟨e, hp, hreads⟩
    obtain ⟨x, hleaf⟩ := c.leaf_of_getElem? hp
    exact ⟨(i, x), (mem_leafUpdates hdeposits hwithdraws).mpr ⟨e, hp, hleaf, hreads⟩, rfl⟩

/-- **Reading without a gap** leaves an initial part of the leaves, with every event that was read. -/
theorem leaves_of_noGap (hholds : Holds state c)
    (hread : readStateEvents S net state.stateEventCursor c = (.ok r, c'))
    (hgap : NoGap state.leaves.length c' r) :
    ∃ m, m ≤ c'.log.length ∧
      (mergeSnapshot state (snapshotOf r)).leaves = (c'.leaves.take m).map some ∧
      ∀ p, p < m ↔ p < state.leaves.length ∨ ∃ e, c'.log[p]? = some e ∧ r.Reads p e := by
  obtain ⟨hdeposits, hwithdraws, -⟩ := readStateEvents_spec hread
  have hlater := hholds.later ((keeps_readStateEvents (net.keepsReading_extends _) _).of_eq hread)
  have hfilled : ∀ {i}, Sparse.Filled state.leaves.length
      (leafUpdates (r.deposits.1 ++ r.withdraws.1)) i ↔ _ := filled_iff hdeposits hwithdraws
  have htrue : ∀ u ∈ leafUpdates (r.deposits.1 ++ r.withdraws.1), c'.leaves[u.1]? = some u.2 := by
    intro u hu
    obtain ⟨e, hp, hleaf, -⟩ := (mem_leafUpdates hdeposits hwithdraws).mp hu
    exact (c'.getElem?_leaves hp hleaf).2
  have hclosed : ∀ j k, j ≤ k →
      Sparse.Filled state.leaves.length (leafUpdates (r.deposits.1 ++ r.withdraws.1)) k →
      Sparse.Filled state.leaves.length (leafUpdates (r.deposits.1 ++ r.withdraws.1)) j := by
    intro j k hle hk
    rw [hfilled] at hk ⊢
    rcases lt_or_ge j state.leaves.length with hj | hj
    · exact .inl hj
    · rcases hk with hk | ⟨f, hf, hreads⟩
      · omega
      · have hjlen : j < c'.log.length := lt_of_le_of_lt hle (List.getElem?_eq_some_iff.mp hf).1
        have he := List.getElem?_eq_getElem hjlen
        exact .inr ⟨_, he, hgap j k _ f he hf hj hle hreads⟩
  obtain ⟨m, -, hm, hleaves, hmem⟩ :=
    Sparse.foldl_assign_eq_map_take (c'.length_leaves ▸ hlater.le) htrue hclosed
  refine ⟨m, c'.length_leaves ▸ hm, ?_, ?_⟩
  · rw [leaves_mergeSnapshot, hlater.eq, hleaves]
  · intro p
    rw [hmem p, hfilled]

/-- If moreover nothing is left behind the new cursor, the state that results holds the leaves. -/
theorem holds_mergeSnapshot (hholds : Holds state c)
    (hread : readStateEvents S net state.stateEventCursor c = (.ok r, c'))
    (hgap : NoGap state.leaves.length c' r) (hbehind : NothingBehind state.leaves.length c' r) :
    Holds (mergeSnapshot state (snapshotOf r)) c' := by
  obtain ⟨m, hm, hleaves, hmem⟩ := leaves_of_noGap hholds hread hgap
  have hlen : (mergeSnapshot state (snapshotOf r)).leaves.length = m := by
    rw [hleaves, List.length_map, List.length_take_of_le (c'.length_leaves ▸ hm)]
  refine ⟨hlen ▸ hm, hlen.symm ▸ hleaves, ?_, ?_⟩
  · intro p e hp hledger
    rw [hlen, hmem]
    by_contra hmissed
    push Not at hmissed
    have := hbehind p e hp hmissed.1 (hmissed.2 e hp)
    rw [cursor_mergeSnapshot] at hledger
    omega
  · rw [cursor_mergeSnapshot]
    exact le_of_eq (readStateEvents_spec hread).2.2

end Reading

/-! ## Where a hole can come from -/

section Avoids

variable {F : Type} {S : Setting F}

theorem avoids_call {α : Type} {a : Answer} {read : Chain → Except Thrown α}
    (h : ∀ c, read c ≠ .error .hole) : Session.Avoids .hole (call S a read) := by
  intro c c' heq
  have hfst := congrArg Prod.fst heq
  unfold call at hfst
  dsimp only at hfst
  split at hfst
  · cases hfst
  · exact h _ hfst

theorem avoids_read {α : Type} {a : Answer} {read : Chain → α} :
    Session.Avoids .hole (call S a fun c => .ok (read c)) :=
  avoids_call fun _ h => nomatch h

theorem avoids_currentRoot {a : Answer} {kind : RootKind} :
    Session.Avoids .hole (currentRoot S a kind) := by
  refine avoids_call fun c => ?_
  cases getLatestRoot c.world.pool kind with
  | ok root => simp
  | error failure =>
      dsimp only
      split <;> simp

theorem avoids_getEvents {topic : Topic} {a : Answer} {startLedger : ℕ} :
    Session.Avoids .hole (getEvents S topic a startLedger) := by
  refine avoids_call fun c => ?_
  split
  · intro h
    cases h
  · intro h
    cases h

theorem avoids_readStream {topic : Topic} {first : Rpc (ℕ × Page)} {answers : ℕ → Answer}
    (hfirst : Session.Avoids .hole first) :
    Session.Avoids .hole (readStream S topic first answers) := by
  have hfollow : ∀ remaining n page prevCursor,
      Session.Avoids .hole (follow S topic answers remaining n page prevCursor) := by
    intro remaining
    induction remaining with
    | zero =>
        intro n page prevCursor
        exact Session.avoids_pure _
    | succ remaining ih =>
        intro n page prevCursor
        unfold follow
        split
        · exact Session.avoids_pure _
        · exact avoids_read.bind fun _ => (ih _ _ _).bind fun _ => Session.avoids_pure _
  exact hfirst.bind fun _ => (hfollow _ _ _ _).bind fun _ => Session.avoids_pure _

theorem avoids_readConfirmed {i : TickInput} {state : PoolState} :
    Session.Avoids .hole (readConfirmed S i state) := by
  have hresolve : Session.Avoids .hole (resolveEventStartLedger S i.net state.lastLedger) := by
    unfold resolveEventStartLedger
    split
    · exact Session.avoids_pure _
    · refine avoids_read.bind fun _ => Session.Avoids.tryCatch ?_ fun _ _ => Session.avoids_pure _
      exact avoids_read.bind fun _ => Session.avoids_pure _
  have hfirst : ∀ start, Session.Avoids .hole (getEventsFrom S i.net start) := by
    intro start
    refine avoids_getEvents.tryCatch fun e he => ?_
    split
    · split
      · exact avoids_getEvents
      · exact Session.avoids_throw he
    · exact Session.avoids_throw he
  refine Session.Avoids.bind ?_ fun deposits => ?_
  · refine Session.Avoids.bind ?_ fun _ => Session.avoids_pure _
    exact hresolve.bind fun start => avoids_readStream (hfirst start)
  · unfold confirmedDeposits
    split
    · exact Session.avoids_pure _
    · exact avoids_read.bind fun _ => Session.avoids_pure _

theorem avoids_postRoot {p : Posting} {kind : RootKind} {root datasetHash : BytesN 32} :
    Session.Avoids .hole (postRoot S p kind root datasetHash) := by
  intro c c' h
  unfold postRoot at h
  dsimp only at h
  split at h
  · cases h
  · split at h
    · cases h
    · split at h
      · cases h
      · split at h <;> cases h

theorem avoids_readStateEvents {net : Network} {fromLedger : ℕ} :
    Session.Avoids .hole (readStateEvents S net fromLedger) := by
  have hstart : Session.Avoids .hole (stateStart S net fromLedger) := by
    refine avoids_read.bind fun oldest => ?_
    split
    · exact Session.avoids_throw (by simp)
    · split
      · refine avoids_read.bind fun latest => ?_
        dsimp only
        split
        · exact Session.avoids_throw (by simp)
        · exact Session.avoids_pure _
      · exact Session.avoids_pure _
  exact hstart.bind fun _ => (avoids_readStream avoids_getEvents).bind fun _ =>
    (avoids_readStream avoids_getEvents).bind fun _ =>
      avoids_read.bind fun _ => Session.avoids_pure _

theorem avoids_publishAspRoot [Zero F] {net : Network} {set : AssociationSet F} :
    Session.Avoids .hole (publishAspRoot S net set) := by
  refine avoids_currentRoot.bind fun _ => ?_
  split
  · exact avoids_postRoot.bind fun _ => Session.avoids_pure _
  · exact Session.avoids_pure _

theorem avoids_publishStateRoot {net : Network} {leaves : List (Option (BytesN 32))}
    {root : BytesN 32} : Session.Avoids .hole (publishStateRoot S net leaves root) := by
  refine avoids_currentRoot.bind fun _ => ?_
  split
  · exact avoids_postRoot.bind fun _ => Session.avoids_pure _
  · exact Session.avoids_pure _

theorem insertLeaf_ne_hole {t : MerkleTree F} {leaf : F} : insertLeaf t leaf ≠ .error .hole := by
  unfold insertLeaf
  split
  · intro h
    cases h
  · intro h
    cases h

theorem screenBatch_ne_hole [NatCast F] {i : TickInput} {state : PoolState}
    {deposits : List Deposit} : screenBatch S i state deposits ≠ .error .hole := by
  have hscreen : ∀ s d, screenOne i.policy s d ≠ .error .hole := by
    intro s d
    unfold screenOne
    split
    · intro h
      cases h
    · split <;> · intro h; cases h
  refine bind_ne_error (bind_ne_error (foldlM_ne_error hscreen _ _) ?_) fun screened =>
    bind_ne_error (foldlM_ne_error ?_ _ _) ?_
  · intro s h
    cases h
  · intro set index
    refine bind_ne_error insertLeaf_ne_hole ?_
    intro tree h
    cases h
  · intro set h
    cases h

theorem stateTree_ne_hole [NatCast F] {xs : List (BytesN 32)} :
    (stateTree (xs.map some) : Except Thrown (MerkleTree F)) ≠ .error .hole := by
  rw [stateTree, List.foldlM_map]
  exact foldlM_ne_error (fun _ _ => insertLeaf_ne_hole) _ _

end Avoids

/-! ## Ticks -/

section Run

variable {F : Type} [NatCast F] [Zero F] (S : Setting F)

/-- The state and the chain with which a tick starts to read the leaf events, if it gets there. -/
def beforeState (s : System) (i : TickInput) : Option (PoolState × Chain) :=
  match readConfirmed S i s.state s.chain with
  | (.error _, _) => none
  | (.ok deposits, c) =>
      match screenBatch S i s.state deposits with
      | .error _ => none
      | .ok (screened, set) =>
          if (checkContinuity i s.guard screened.state deposits).2 then none
          else
            match publishAspRoot S i.net set c with
            | (.error _, _) => none
            | (.ok _, c) => some (screened.state, c)

/-- The reads of a tick miss no leaf event before one that they return; and if the tick saves its
state, every event that they miss is in the ledger of the new cursor or a later one. -/
def ReadsInOrder (s : System) (i : TickInput) : Prop :=
  ∀ state c r c', beforeState S s i = some (state, c) →
    readStateEvents S i.net state.stateEventCursor c = (.ok r, c') →
    NoGap s.state.leaves.length c' r ∧
      ((savedState S s i).isSome → NothingBehind s.state.leaves.length c' r)

/-- The reads of a tick return every event that the chain has when they are done. -/
def readsAll (s : System) (i : TickInput) : Bool :=
  match beforeState S s i with
  | none => true
  | some (state, c) =>
      match readStateEvents S i.net state.stateEventCursor c with
      | (.error _, _) => true
      | (.ok r, c') => c'.log.zipIdx.all fun e => decide (r.Reads e.2 e.1)

variable {S}

theorem readsInOrder_of_readsAll {s : System} {i : TickInput} (h : readsAll S s i = true) :
    ReadsInOrder S s i := by
  intro state c r c' hbefore hevents
  simp only [readsAll, hbefore, hevents, List.all_eq_true, decide_eq_true_eq] at h
  have hreads : ∀ p e, c'.log[p]? = some e → r.Reads p e := by
    intro p e hp
    exact h (e, p) (List.mem_zipIdx_iff_getElem?.mpr hp)
  refine ⟨?_, ?_⟩
  · intro p q e f hp hq hheld hle hf
    exact hreads p e hp
  · intro hsaved p e hp hheld hmissed
    exact absurd (hreads p e hp) hmissed

/-- Up to the reading of the leaf events nothing happens to the leaves that are held. -/
theorem beforeState_spec {s : System} {i : TickInput} {state : PoolState} {c : Chain}
    (h : beforeState S s i = some (state, c)) :
    s.chain.Extends c ∧ state.stateLeaves = s.state.stateLeaves ∧
      state.stateEventCursor = s.state.stateEventCursor := by
  unfold beforeState at h
  split at h
  · cases h
  · next deposits c₁ hread =>
      split at h
      · cases h
      · next screened set hscreens =>
          split at h
          · cases h
          · split at h
            · cases h
            · next x c₂ hasp =>
                cases h
                obtain ⟨-, -, hleaves, hcursor⟩ :=
                  screenBatch_spec (readConfirmed_spec hread).1 hscreens
                exact ⟨((keeps_readConfirmed _ _).of_eq hread).trans
                  ((keeps_publishAspRoot _ _).of_eq hasp), hleaves, hcursor⟩

theorem beforeState_eq {s : System} {i : TickInput} {deposits : List Deposit} {c c₁ : Chain}
    {screened : Screening} {set : AssociationSet F} {guard : ReorgGuard}
    {x : Option (BytesN 32) × Bool}
    (hread : readConfirmed S i s.state s.chain = (.ok deposits, c))
    (hscreens : screenBatch S i s.state deposits = .ok (screened, set))
    (hpasses : checkContinuity i s.guard screened.state deposits = (guard, false))
    (hasp : publishAspRoot S i.net set c = (.ok x, c₁)) :
    beforeState S s i = some (screened.state, c₁) := by
  simp only [beforeState, hread, hscreens, hpasses, hasp, Bool.false_eq_true, if_false]

theorem Holds.congr {state state' : PoolState} {c : Chain} (h : Holds state c)
    (hleaves : state'.stateLeaves = state.stateLeaves)
    (hcursor : state'.stateEventCursor = state.stateEventCursor) : Holds state' c := by
  have hsame : state'.leaves = state.leaves := by rw [PoolState.leaves, hleaves]; rfl
  refine ⟨?_, ?_, ?_, ?_⟩
  · rw [hsame]
    exact h.le
  · rw [hsame]
    exact h.eq
  · rw [hsame, hcursor]
    exact h.complete
  · rw [hcursor]
    exact h.cursor

/-- **One tick** that reads in order keeps the leaves right. -/
theorem holds_tick {s : System} {i : TickInput} (h : Holds s.state s.chain)
    (horder : ReadsInOrder S s i) :
    Holds (runPoolTick S s i).1.state (runPoolTick S s i).1.chain := by
  have hrun := tickRun S s i
  have hext := hrun.extends_chain
  revert hrun hext
  generalize (runPoolTick S s i).1 = s'
  generalize (runPoolTick S s i).2 = result
  intro hrun hext
  cases hrun with
  | unread => exact h.later hext
  | unscreened => exact h.later hext
  | unpublished => exact h.later hext
  | halted hread hscreens =>
      obtain ⟨-, -, hleaves, hcursor⟩ := screenBatch_spec (readConfirmed_spec hread).1 hscreens
      exact (h.later hext).congr hleaves hcursor
  | @completed c c' deposits screened set guard state result hread hscreens hpasses hpublish =>
      obtain ⟨_, _, c₁, leaves, stateRoot, c₂, hasp, hstate, -, hrest⟩ := publish_eq_ok hpublish
      obtain ⟨r, hevents, rfl, -⟩ := readState_eq_ok hstate
      have hbefore := beforeState_eq hread hscreens hpasses hasp
      obtain ⟨hext₁, hleaves, hcursor⟩ := beforeState_spec hbefore
      have hsaved : (savedState S s i).isSome := by
        simp only [savedState, hread, hscreens, hpasses, hpublish, Bool.false_eq_true, if_false,
          Option.isSome_some]
      obtain ⟨hgap, hbehind⟩ := horder _ _ r c₂ hbefore hevents
      have hsame : screened.state.leaves = s.state.leaves := by
        rw [PoolState.leaves, hleaves]
        rfl
      rw [← hsame] at hgap hbehind
      have hmerged := holds_mergeSnapshot ((h.later hext₁).congr hleaves hcursor) hevents hgap
        (hbehind hsaved)
      refine hmerged.later ?_
      rcases hrest with ⟨-, rfl⟩ | ⟨root, _, _, -, hpost⟩
      · exact Chain.Extends.refl _
      · exact (keeps_publishStateRoot _ _ _).of_eq hpost

/-- The leaves of which a tick builds the state tree. -/
theorem leaves_before {s : System} {i : TickInput} (h : Holds s.state s.chain)
    (horder : ReadsInOrder S s i) {state : PoolState} {c : Chain} {r : StateRead} {c' : Chain}
    (hbefore : beforeState S s i = some (state, c))
    (hevents : readStateEvents S i.net state.stateEventCursor c = (.ok r, c')) :
    ∃ n, n ≤ c'.leaves.length ∧
      (mergeSnapshot state (snapshotOf r)).leaves = (c'.leaves.take n).map some := by
  obtain ⟨hext, hleaves, hcursor⟩ := beforeState_spec hbefore
  obtain ⟨hgap, -⟩ := horder state c r c' hbefore hevents
  have hsame : state.leaves = s.state.leaves := by
    rw [PoolState.leaves, hleaves]
    rfl
  rw [← hsame] at hgap
  obtain ⟨n, hn, heq, -⟩ := leaves_of_noGap ((h.later hext).congr hleaves hcursor) hevents hgap
  exact ⟨n, c'.length_leaves ▸ hn, heq⟩

/-- A tick that throws because of a hole found it in the leaves it had merged. -/
theorem exists_hole {s : System} {i : TickInput} (h : (runPoolTick S s i).2 = .error .hole) :
    ∃ state c r c', beforeState S s i = some (state, c) ∧
      readStateEvents S i.net state.stateEventCursor c = (.ok r, c') ∧
      (stateTree (mergeSnapshot state (snapshotOf r)).leaves : Except Thrown (MerkleTree F)) =
        .error .hole := by
  have hrun := tickRun S s i
  revert hrun h
  generalize (runPoolTick S s i).1 = s'
  generalize (runPoolTick S s i).2 = result
  intro h hrun
  cases hrun with
  | unread hread =>
      cases h
      exact absurd hread (avoids_readConfirmed _ _)
  | unscreened hread hscreens =>
      cases h
      exact absurd hscreens screenBatch_ne_hole
  | @halted c c' deposits screened set guard onChainRoot hread hscreens hhalts hroot =>
      cases onChainRoot with
      | ok root => cases h
      | error e =>
          cases h
          exact absurd hroot (avoids_currentRoot _ _)
  | completed => cases h
  | unpublished hread hscreens hpasses hpublish =>
      cases h
      rcases Session.bind_eq_error.mp hpublish with hasp | ⟨x, c₁, hasp, hpublish⟩
      · exact absurd hasp (avoids_publishAspRoot _ _)
      rcases Session.bind_eq_error.mp hpublish with hstate | ⟨⟨state, leaves, root⟩, c₂, -, hpost⟩
      · rcases Session.bind_eq_error.mp hstate with hevents | ⟨snapshot, c₂, hevents, htree⟩
        · rcases Session.bind_eq_error.mp hevents with hevents | ⟨r, c₃, -, hpure⟩
          · exact absurd hevents (avoids_readStateEvents _ _)
          · exact absurd hpure Session.pure_ne_error
        · obtain ⟨r, c₃, hreads, hpure⟩ := Session.bind_eq_ok.mp hevents
          obtain ⟨rfl, rfl⟩ := Session.pure_eq_ok.mp hpure
          refine ⟨_, c₁, r, c₃, beforeState_eq hread hscreens hpasses hasp, hreads, ?_⟩
          split at htree
          · rcases Session.bind_eq_error.mp htree with htree | ⟨tree, c₄, -, hpure⟩
            · exact (Session.ofExcept_eq.mp htree).1
            · exact absurd hpure Session.pure_ne_error
          · exact absurd htree Session.pure_ne_error
      · cases root with
        | none => exact absurd hpost Session.pure_ne_error
        | some root =>
            rcases Session.bind_eq_error.mp hpost with hpost | ⟨y, c₃, -, hpure⟩
            · exact absurd hpost (avoids_publishStateRoot _ _)
            · exact absurd hpure Session.pure_ne_error

/-- The root of the first `n` leaves of the pool. -/
def prefixRoot (S : Setting F) (c : Chain) (n : ℕ) : BytesN 32 :=
  S.toHex32 (MerkleTree.root S.hash2 { leaves := (c.leaves.take n).map (fieldOf F) })

/-- **The state tree is complete while the reads are in order.** In every run all of whose ticks read
in order: in each state it passes through, the saved leaves are the first leaves of the pool and no
leaf of a ledger before the saved cursor is missing; no tick throws because of a hole; and every
state root that a tick computes, and so every one it posts, is the root of the first leaves of the
pool. -/
theorem state_tree_complete (S : Setting F) (tokens : TokenLedger) (ledger : ℕ)
    (inputs : List Input)
    (horder : ∀ before i later, inputs = before ++ .tick i :: later →
      ReadsInOrder S ((machine S).final (.initial tokens ledger) before) i) :
    let final := (machine S).final (.initial tokens ledger)
    (∀ before later, inputs = before ++ later →
      Holds (final before).state (final before).chain) ∧
    ∀ before i later, inputs = before ++ .tick i :: later →
      (runPoolTick S (final before) i).2 ≠ .error .hole ∧
      ∀ state c state' leaves root c', beforeState S (final before) i = some (state, c) →
        readState S i.net state c = (.ok (state', leaves, some root), c') →
        ∃ n, n ≤ c'.leaves.length ∧ root = prefixRoot S c' n := by
  intro final
  have hholds : ∀ before later, inputs = before ++ later →
      Holds (final before).state (final before).chain := by
    intro before
    induction before using List.reverseRecOn with
    | nil =>
        intro later _
        refine ⟨Nat.zero_le _, rfl, ?_, Nat.zero_le _⟩
        intro p e hp
        cases hp
    | append_singleton before input ih =>
        intro later hinputs
        have hinitial : inputs = before ++ input :: later := by
          rw [hinputs, List.append_assoc]
          rfl
        have hbefore := ih _ hinitial
        simp only [final, Machine.final_snoc]
        cases input with
        | tick i => exact holds_tick hbefore (horder before i later hinitial)
        | close l => exact hbefore.later (Chain.Extends.close _ _ _)
        | restart => exact hbefore
  refine ⟨hholds, ?_⟩
  intro before i later hinputs
  have hbefore := hholds before _ hinputs
  have htick := horder before i later hinputs
  refine ⟨?_, ?_⟩
  · intro hhole
    obtain ⟨state, c, r, c', hstate, hevents, htree⟩ := exists_hole hhole
    obtain ⟨n, -, hleaves⟩ := leaves_before hbefore htick hstate hevents
    rw [hleaves] at htree
    exact stateTree_ne_hole htree
  · intro state c state' leaves root c' hstate hread
    obtain ⟨r, hevents, rfl, rfl, hroot⟩ := readState_eq_ok hread
    obtain ⟨n, hn, hleaves⟩ := leaves_before hbefore htick hstate hevents
    rcases hroot with ⟨hnone, -⟩ | ⟨tree, htree, hroot⟩
    · cases hnone
    · have hmerged : (mergeSnapshot state (snapshotOf r)).stateLeaves.getD [] =
          (c'.leaves.take n).map some := hleaves
      rw [hmerged, stateTree_map_some] at htree
      refine ⟨n, hn, ?_⟩
      rw [Option.some.inj hroot, htree.2]
      rfl

end Run

/-! ## A hole, and a run without one -/

/-- A deposit closes after the deposit events were read, and one more ledger before the cursor is
taken. -/
def Demo.between : TickInput where
  policy := fun _ => some .approve
  net := { Demo.net with
    stateWithdraws := fun _ => { Demo.page with closes := [Demo.deposits 0] }
    stateCursor := { closes := [{}] } }

def Demo.undisturbed : TickInput where
  policy := fun _ => some .approve
  net := Demo.net

/-- The first tick misses the first leaf, and the next one finds the second without the first. -/
def Demo.missing : List Input :=
  [.close Demo.deploy, .tick Demo.between, .close (Demo.deposits 1)]

/-- After the first tick a leaf of a ledger before the saved cursor is missing, and the second tick
throws because of the hole. -/
theorem state_tree_has_hole :
    ¬ Holds ((machine Demo.setting).final Demo.start (Demo.missing.take 2)).state
      ((machine Demo.setting).final Demo.start (Demo.missing.take 2)).chain ∧
    (runPoolTick Demo.setting ((machine Demo.setting).final Demo.start Demo.missing)
      Demo.undisturbed).2 = .error .hole := by
  refine ⟨?_, by decide⟩
  intro hholds
  have hnone : ((machine Demo.setting).final Demo.start (Demo.missing.take 2)).state.leaves.length =
      0 := by decide
  have hbehind : (((machine Demo.setting).final Demo.start (Demo.missing.take 2)).chain.log[0]?.map
      fun e => decide (e.ledger < ((machine Demo.setting).final Demo.start
        (Demo.missing.take 2)).state.stateEventCursor)) = some true := by decide
  obtain ⟨e, he, hlt⟩ := Option.map_eq_some_iff.mp hbehind
  have := hholds.complete 0 e he (of_decide_eq_true hlt)
  omega

/-- The only tick of the run is the last input. -/
theorem Demo.eq_of_tick {a i : TickInput} {before later : List Input}
    (h : Demo.twoDeposits ++ [.tick a] = before ++ .tick i :: later) :
    before = Demo.twoDeposits ∧ i = a := by
  rcases before with _ | ⟨x, _ | ⟨y, _ | ⟨z, _ | ⟨w, rest⟩⟩⟩⟩
  all_goals simp_all [Demo.twoDeposits]

theorem state_tree_complete_undisturbed :
    Holds ((machine Demo.setting).final Demo.start
      (Demo.twoDeposits ++ [.tick Demo.undisturbed])).state
      ((machine Demo.setting).final Demo.start
        (Demo.twoDeposits ++ [.tick Demo.undisturbed])).chain ∧
    ((machine Demo.setting).final Demo.start
      (Demo.twoDeposits ++ [.tick Demo.undisturbed])).state.leaves.length = 2 := by
  have horder : ∀ before i later,
      Demo.twoDeposits ++ [.tick Demo.undisturbed] = before ++ .tick i :: later →
      ReadsInOrder Demo.setting ((machine Demo.setting).final Demo.start before) i := by
    intro before i later hinputs
    obtain ⟨rfl, rfl⟩ := Demo.eq_of_tick hinputs
    exact readsInOrder_of_readsAll (by decide)
  refine ⟨?_, by decide⟩
  exact (state_tree_complete Demo.setting Pool.Demo.tokens 9 _ horder).1 _ []
    (List.append_nil _).symm

end OpaqueStellar.Asp
