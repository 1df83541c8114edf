import OpaqueStellar.Publisher.Dedup

/-! # Reconciling the tree with the chain

What a tick leaves behind when it does not throw: the leaves in order, none of them twice, and their root on the
chain, but for leaves too few to publish. A tick after it that finds the same chain changes nothing. -/

namespace OpaqueStellar.Publisher

open OpaqueStellar.Lib OpaqueStellar.Schemas OpaqueStellar.Soroban

/-! ## The chain -/

structure Chain where
  ledger : ℕ
  attestations : BytesN 32 → Option OnChainAttestation
  root : Option (BytesN 32)

/-- Calls that do not throw answer what is on the chain. -/
structure Answers (chain : Chain) (adapter : Adapter) : Prop where
  ledger : ∀ ledger ∈ adapter.currentLedger, ledger = chain.ledger
  attestation : ∀ call uid, ∀ a ∈ adapter.getAttestation call uid, a = chain.attestations uid
  root : ∀ root ∈ adapter.currentRoot, root = chain.root

/-- The chain after a tick that did not throw: a root that was posted is the current one. -/
def Chain.after (chain : Chain) (t : Tick) : Chain :=
  { chain with root := match t.posted with
      | some p => some p.root
      | none => chain.root }

/-- The leaf may be published on this chain. -/
def Chain.valid (crypto : Crypto) (chain : Chain) (leaf : LeafCommitment) : Bool :=
  match chain.attestations leaf.attestationUid with
  | none => false
  | some attestation => acceptable crypto chain.ledger leaf attestation

section Tick

variable {F : Type} [Zero F] {crypto : Crypto} {fieldOf : BytesN 32 → F} {tree : TreeHash F} {minLeaves : ℕ}
  {chain : Chain} {adapter : Adapter} {st : Store}

/-- The states that ticks save. -/
inductive Saved (crypto : Crypto) (fieldOf : BytesN 32 → F) (tree : TreeHash F) : Option PublisherState → Prop
  | init : Saved crypto fieldOf tree none
  | tick {st : Store} (minLeaves : ℕ) (adapter : Adapter) : Saved crypto fieldOf tree st.state →
      Saved crypto fieldOf tree (runPublisherTick crypto fieldOf tree minLeaves adapter st).store.state

/-! ## Screening on a chain -/

omit [Zero F] in
theorem isValidLeaf_of_answers (hchain : Answers chain adapter) {call : ℕ} {leaf : LeafCommitment} {valid : Bool}
    (h : isValidLeaf crypto adapter chain.ledger call leaf = .ok valid) : valid = chain.valid crypto leaf := by
  unfold isValidLeaf at h
  split at h
  next => cases h
  next hread =>
    have hsame := hchain.attestation call leaf.attestationUid _ hread
    rw [Chain.valid, ← hsame, ← Except.ok.inj h]
  next attestation hread =>
    have hsame := hchain.attestation call leaf.attestationUid _ hread
    rw [Chain.valid, ← hsame, ← Except.ok.inj h]

omit [Zero F] in
theorem screen_eq_filter (hchain : Answers chain adapter) {call : ℕ} {leaves kept : List LeafCommitment}
    (h : screen crypto adapter chain.ledger call leaves = .ok kept) : kept = leaves.filter (chain.valid crypto) := by
  induction leaves generalizing call kept with
  | nil =>
    cases h
    rfl
  | cons leaf rest ih =>
    simp only [screen, bind_eq_ok, pure_eq_ok] at h
    obtain ⟨valid, hvalid, tail, htail, rfl⟩ := h
    rw [isValidLeaf_of_answers hchain hvalid, List.filter_cons, ih htail]

omit [Zero F] in
/-- Whether leaves were pruned is told by their number. -/
theorem pruned_eq {s : Screened} (h : screenAll crypto adapter st = .ok s) {ledger : ℕ}
    {active : List LeafCommitment} (hledger : adapter.currentLedger = some ledger)
    (hactive : screen crypto adapter ledger 0 st.leaves = .ok active) :
    s.pruned = decide (active.length < st.leaves.length) := by
  simp only [screenAll, hledger, bind_eq_ok, pure_eq_ok] at h
  obtain ⟨active', hactive', eligible, -, rfl⟩ := h
  rw [Except.ok.inj (hactive.symm.trans hactive')]

/-- The leaves of a tick, from those before it and the inbox. -/
theorem screenAll_on_chain (hchain : Answers chain adapter) {s : Screened} (h : screenAll crypto adapter st = .ok s) :
    s.leaves = st.leaves.filter (chain.valid crypto) ++ (mergeLeaves (st.leaves.filter (chain.valid crypto))
        (st.inbox.filter (chain.valid crypto))).accepted ∧
      s.pruned = decide ((st.leaves.filter (chain.valid crypto)).length < st.leaves.length) := by
  unfold screenAll at h
  split at h
  next => cases h
  next ledger hledger =>
    obtain rfl := hchain.ledger ledger hledger
    simp only [bind_eq_ok, pure_eq_ok] at h
    obtain ⟨active, hactive, eligible, heligible, rfl⟩ := h
    rw [screen_eq_filter hchain hactive, screen_eq_filter hchain heligible]
    exact ⟨rfl, rfl⟩

omit [Zero F] in
/-- New leaves come in the order of the inbox. -/
theorem mergeLeaves_sublist (existing incoming : List LeafCommitment) :
    (mergeLeaves existing incoming).accepted.Sublist incoming := by
  have hfold : ∀ m : Merged, (incoming.foldl (mergeLeaf existing) m).accepted.Sublist (m.accepted ++ incoming) := by
    induction incoming with
    | nil =>
      intro m
      rw [List.append_nil]
      exact List.Sublist.refl _
    | cons leaf rest ih =>
      intro m
      have hrest := ih (mergeLeaf existing m leaf)
      rw [mergeLeaf_accepted] at hrest
      split at hrest
      next => exact hrest.trans (List.sublist_append_right [leaf] rest |>.append_left m.accepted)
      next => rwa [List.append_assoc] at hrest
  exact hfold {}

/-! ## A tick that does not throw -/

/-- The leaves are too few to publish, and none was pruned. -/
def Few (minLeaves : ℕ) (s : Screened) : Prop := s.leaves.length < minLeaves ∧ s.pruned = false

/-- What a tick that did not throw has saved, and that the root it read or posted is that of the leaves. -/
theorem tick_ok {r : PublisherTickResult}
    (h : (runPublisherTick crypto fieldOf tree minLeaves adapter st).result = .ok r) :
    ∃ s, screenAll crypto adapter st = .ok s ∧
      (runPublisherTick crypto fieldOf tree minLeaves adapter st).store.leaves = s.leaves ∧
      (runPublisherTick crypto fieldOf tree minLeaves adapter st).store.inbox = [] ∧
      (runPublisherTick crypto fieldOf tree minLeaves adapter st).store.state.isSome = true ∧
      (Few minLeaves s ∧ (runPublisherTick crypto fieldOf tree minLeaves adapter st).posted = none ∨
        ∃ root onChain, buildRoot fieldOf tree (s.leaves.map (·.leaf)) = .ok root ∧
          r.onChainRoot = onChain ∧ adapter.currentRoot = some onChain ∧
          (onChain = some root ∧ (runPublisherTick crypto fieldOf tree minLeaves adapter st).posted = none ∨
            ∃ p, (runPublisherTick crypto fieldOf tree minLeaves adapter st).posted = some p ∧ p.root = root)) := by
  unfold runPublisherTick at h ⊢
  split at h
  next => cases h
  next s hscreened =>
    dsimp only at h ⊢
    simp only [hscreened]
    split at h
    next hfew =>
      rw [if_pos hfew]
      exact ⟨s, rfl, rfl, inbox_finish _ _, rfl, .inl ⟨hfew, rfl⟩⟩
    next hfew =>
      rw [if_neg hfew]
      split at h
      next => cases h
      next => cases h
      next localRoot onChain hroot hcurrent =>
        simp only [hcurrent]
        split at h
        next hsame =>
          rw [if_pos hsame]
          cases h
          exact ⟨s, rfl, rfl, inbox_finish _ _, rfl,
            .inr ⟨localRoot, onChain, hroot, rfl, rfl, .inl ⟨hsame.symm, rfl⟩⟩⟩
        next hother =>
          rw [if_neg hother]
          split at h
          next => cases h
          next ledger hpost =>
            cases h
            exact ⟨s, rfl, rfl, inbox_finish _ _, rfl,
              .inr ⟨localRoot, onChain, hroot, rfl, rfl, .inr ⟨_, rfl, rfl⟩⟩⟩

theorem distinct_tick (h : Distinct st.leaves) :
    Distinct (runPublisherTick crypto fieldOf tree minLeaves adapter st).store.leaves := by
  rcases tick_cases crypto fieldOf tree minLeaves adapter st with ⟨hsame, -⟩ | ⟨s, hsaves⟩
  · rwa [hsame]
  · obtain ⟨ledger, active, eligible, -, hactive, -, hleaves⟩ := screenAll_eq_ok hsaves.screened
    rw [hsaves.leaves_eq, hleaves]
    exact distinct_mergeLeaves (h.sublist (screen_sublist hactive)) eligible

/-- No saved state has an identifier or a leaf twice. -/
theorem Saved.distinct {state : Option PublisherState} (h : Saved crypto fieldOf tree state) :
    Distinct (state.getD {}).leaves := by
  induction h with
  | init => exact ⟨List.nodup_nil, List.nodup_nil⟩
  | tick minLeaves adapter _ ih => exact distinct_tick ih

/-! ## The tick after it -/

/-- The state with the leaves that it has. -/
theorem finish_self {state : PublisherState} (hstate : st.state = some state) (hinbox : st.inbox = []) :
    st.finish state = st := by
  obtain ⟨_, inbox, archived⟩ := st
  simp only at hstate hinbox
  subst hstate hinbox
  simp [Store.finish]

/-- A tick on leaves that are all valid, with an empty inbox, whose root is on the chain or which are too few. -/
theorem tick_unchanged (hchain : Answers chain adapter) (hstate : st.state.isSome = true) (hinbox : st.inbox = [])
    (hvalid : ∀ c ∈ st.leaves, chain.valid crypto c = true)
    (hroot : st.leaves.length < minLeaves ∨
      ∀ root, buildRoot fieldOf tree (st.leaves.map (·.leaf)) = .ok root → chain.root = some root) :
    (runPublisherTick crypto fieldOf tree minLeaves adapter st).posted = none ∧
      (runPublisherTick crypto fieldOf tree minLeaves adapter st).store = st := by
  obtain ⟨state, hstate⟩ := Option.isSome_iff_exists.mp hstate
  unfold runPublisherTick
  split
  next => exact ⟨rfl, rfl⟩
  next s hscreened =>
    obtain ⟨hleaves, hpruned⟩ := screenAll_on_chain hchain hscreened
    have hsame : s.leaves = st.leaves := by
      rw [hleaves, hinbox, List.filter_eq_self.mpr hvalid]
      exact List.append_nil _
    have hnone : s.pruned = false := by
      rw [hpruned, List.filter_eq_self.mpr hvalid, decide_eq_false (Nat.lt_irrefl _)]
    have hfinish : st.finish { st.state.getD {} with leaves := s.leaves } = st := by
      rw [hsame]
      apply finish_self _ hinbox
      rw [Store.leaves, hstate]
      rfl
    dsimp only
    rw [hfinish, hsame, hnone]
    split
    next => exact ⟨rfl, rfl⟩
    next hmany =>
      split
      next => exact ⟨rfl, rfl⟩
      next => exact ⟨rfl, rfl⟩
      next localRoot onChain hbuilt hcurrent =>
        have hheld := hroot.resolve_left (fun hfew => hmany ⟨hfew, rfl⟩) localRoot hbuilt
        have hread : some localRoot = onChain := by
          rw [hchain.root onChain hcurrent, hheld]
        rw [if_pos hread]
        exact ⟨rfl, rfl⟩

/-- The root on the chain after a tick: the one that it posted, or the one that it read. -/
def rootAfter (t : Tick) (r : PublisherTickResult) : Option (BytesN 32) :=
  match t.posted with
  | some p => some p.root
  | none => r.onChainRoot

/-- What a tick leaves behind: `active` are the leaves that survived, `accepted` the new ones. -/
structure Reconciled (crypto : Crypto) (fieldOf : BytesN 32 → F) (tree : TreeHash F) (minLeaves : ℕ)
    (adapter : Adapter) (st : Store) (t : Tick) (r : PublisherTickResult)
    (active accepted : List LeafCommitment) : Prop where
  survived : ∃ ledger, adapter.currentLedger = some ledger ∧ screen crypto adapter ledger 0 st.leaves = .ok active
  prior : active.Sublist st.leaves
  incoming : accepted.Sublist st.inbox
  leaves : t.store.leaves = active ++ accepted
  distinct : Distinct t.store.leaves
  root : minLeaves ≤ t.store.leaves.length ∨ active ≠ st.leaves →
    ∃ root, buildRoot fieldOf tree (t.store.leaves.map (·.leaf)) = .ok root ∧ rootAfter t r = some root
  inbox : t.store.inbox = []
  -- another tick on the chain that this one left behind
  again : ∀ chain, Answers chain adapter → ∀ adapter', Answers (chain.after t) adapter' →
    (runPublisherTick crypto fieldOf tree minLeaves adapter' t.store).posted = none ∧
      (runPublisherTick crypto fieldOf tree minLeaves adapter' t.store).store = t.store

/-- **A tick reconciles the tree with the chain**, whatever was saved before and whatever is in the inbox: nothing
is in the tree twice, what survives keeps its order, the root is on the chain unless the leaves are too few and
none was pruned, and another tick on the same chain posts and changes nothing. -/
theorem publisher_tick_reconciles {r : PublisherTickResult} (hsaved : Saved crypto fieldOf tree st.state)
    (hok : (runPublisherTick crypto fieldOf tree minLeaves adapter st).result = .ok r) :
    ∃ active accepted, Reconciled crypto fieldOf tree minLeaves adapter st
      (runPublisherTick crypto fieldOf tree minLeaves adapter st) r active accepted := by
  obtain ⟨s, hscreened, hstore, hinbox, hstate, hposted⟩ := tick_ok hok
  obtain ⟨ledger, active, eligible, hledger, hactive, heligible, hleaves⟩ := screenAll_eq_ok hscreened
  have hpruned := pruned_eq hscreened hledger hactive
  have hprior := screen_sublist hactive
  have hincoming := (mergeLeaves_sublist active eligible).trans (screen_sublist heligible)
  have hdistinct := @distinct_tick _ _ crypto fieldOf tree minLeaves adapter st hsaved.distinct
  generalize runPublisherTick crypto fieldOf tree minLeaves adapter st = t at *
  refine ⟨active, (mergeLeaves active eligible).accepted, ⟨ledger, hledger, hactive⟩, hprior, hincoming,
    hstore.trans hleaves, hdistinct, ?_, hinbox, ?_⟩
  · intro hmany
    rw [hstore] at hmany ⊢
    rcases hposted with ⟨⟨hfew, hkept⟩, -⟩ | ⟨root, onChain, hbuilt, hread, hcurrent, hheld⟩
    · exfalso
      rw [hpruned] at hkept
      have hlength := of_decide_eq_false hkept
      rcases hmany with hmany | hmany
      · omega
      · exact hmany (hprior.eq_of_length_le (Nat.le_of_not_lt hlength))
    · refine ⟨root, hbuilt, ?_⟩
      rcases hheld with ⟨hsame, hnone⟩ | ⟨p, hp, rfl⟩
      · rw [rootAfter, hnone, hread, hsame]
      · rw [rootAfter, hp]
  · intro chain hchain adapter' hchain'
    obtain ⟨hscreenedLeaves, -⟩ := screenAll_on_chain hchain hscreened
    have hvalid : ∀ c ∈ t.store.leaves, chain.valid crypto c = true := by
      rw [hstore, hscreenedLeaves]
      intro c hc
      rcases List.mem_append.mp hc with hc | hc
      · exact (List.mem_filter.mp hc).2
      · exact (List.mem_filter.mp ((mergeLeaves_sublist _ _).subset hc)).2
    apply tick_unchanged hchain' hstate hinbox hvalid
    rw [hstore]
    rcases hposted with ⟨hfew, -⟩ | ⟨root, onChain, hbuilt, hread, hcurrent, hheld⟩
    · exact .inl hfew.1
    · refine .inr ?_
      intro root' hbuilt'
      obtain rfl := Except.ok.inj (hbuilt.symm.trans hbuilt')
      -- the root on the chain is the one that was read or the one that was posted
      rcases hheld with ⟨hsame, hnone⟩ | ⟨p, hp, rfl⟩
      · rw [Chain.after, hnone, ← hsame]
        exact (hchain.root onChain hcurrent).symm
      · rw [Chain.after, hp]

end Tick

namespace Demo

/-- The chain that the adapter reads. -/
def chain : Chain := ⟨10, fun _ => some attestation, none⟩

theorem answers : Answers chain adapter where
  ledger ledger h := by
    cases h
    rfl
  attestation call uid a h := by
    cases h
    rfl
  root root h := by
    cases h
    rfl

/-- One leaf is in the inbox. -/
def oneLeaf : Store := { inbox := [commitment "a" 1 100] }

end Demo

theorem publisher_tick_reconciles_one :
    ∃ r active accepted, Reconciled Demo.crypto toScalar (treeHash Demo.add) 1 Demo.adapter Demo.oneLeaf
      (runPublisherTick Demo.crypto toScalar (treeHash Demo.add) 1 Demo.adapter Demo.oneLeaf) r active accepted := by
  have hok : (runPublisherTick Demo.crypto toScalar (treeHash Demo.add) 1 Demo.adapter Demo.oneLeaf).result.isOk =
      true := by decide
  cases hr : (runPublisherTick Demo.crypto toScalar (treeHash Demo.add) 1 Demo.adapter Demo.oneLeaf).result with
  | error e =>
    rw [hr] at hok
    cases hok
  | ok r => exact ⟨r, publisher_tick_reconciles .init hr⟩

/-- With a larger number of leaves to publish the tick saves a leaf and leaves the chain without a root. -/
theorem tick_not_published :
    ∃ r, (runPublisherTick Demo.crypto toScalar (treeHash Demo.add) 2 Demo.adapter Demo.oneLeaf).result = .ok r ∧
      (runPublisherTick Demo.crypto toScalar (treeHash Demo.add) 2 Demo.adapter Demo.oneLeaf).store.leaves ≠ [] ∧
      (Demo.chain.after
        (runPublisherTick Demo.crypto toScalar (treeHash Demo.add) 2 Demo.adapter Demo.oneLeaf)).root = none := by
  refine ⟨⟨1, 1, none, none, none, false⟩, ?_, ?_, ?_⟩
  · decide
  · decide
  · decide

end OpaqueStellar.Publisher
