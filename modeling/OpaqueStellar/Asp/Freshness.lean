import OpaqueStellar.Asp.StateTree

/-! # Whether the published roots can be used

A tick compares the root it computes with the latest root of the pool and posts it when the two
differ. The pool judges a root by the ledger of its publication. A root that does not change is
therefore never published again, and expires while the ticks go on: `publishedAt` is the ledger of
the publication that a tick relies on, and `InTime` says that it is not too old when the tick ends. -/

namespace OpaqueStellar.Asp

open OpaqueStellar.Lib OpaqueStellar.Soroban OpaqueStellar.Pool

/-! ## The latest root of the pool -/

/-- The latest root of this kind, and the ledger it was published in. -/
structure Serves (kind : RootKind) (root : BytesN 32) (ledger : ℕ) (c : Chain) : Prop where
  latest : getLatestRoot c.world.pool kind = .ok root
  entry : ∃ hash, c.world.pool.roots.lookup (kind, root) = some ⟨ledger, hash⟩

/-- The root is the latest of its kind, and not expired in the last ledger that closed. -/
def Usable (kind : RootKind) (root : BytesN 32) (c : Chain) : Prop :=
  getLatestRoot c.world.pool kind = .ok root ∧
    ∃ config, c.world.pool.config = some config ∧ ∀ env : Env, env.sequence = c.ledger →
      ∀ unknown, requireFreshRoot env c.world.pool config kind root unknown = .ok ()

/-- `root_expiry_ledgers` as it is now. -/
def rootExpiry (c : Chain) : ℕ := (c.world.pool.config.map (·.rootExpiryLedgers)).getD 0

section Serves

variable {kind : RootKind} {root : BytesN 32} {ledger : ℕ} {c : Chain}

theorem getLatestRoot_eq_ok {s : Pool.PoolState} :
    getLatestRoot s kind = .ok root ↔ (s.history kind).getLast? = some root := by
  rw [getLatestRoot, okOr_eq_ok]

/-- A root that is the latest of its kind has an entry. -/
theorem serves_of_latest (h : getLatestRoot c.world.pool kind = .ok root) :
    Serves kind root ((c.world.pool.roots.lookup (kind, root)).elim 0 (·.ledger)) c := by
  obtain ⟨-, entry, hentry⟩ := c.latest kind root (getLatestRoot_eq_ok.mp h)
  refine ⟨h, entry.datasetHash, ?_⟩
  rw [hentry]
  rfl

/-- **When the latest root can be used**: as long as its publication is within the expiry. -/
theorem Serves.usable_iff (h : Serves kind root ledger c) :
    Usable kind root c ↔ c.ledger ≤ ledger + rootExpiry c := by
  obtain ⟨hash, hentry⟩ := h.entry
  obtain ⟨hsome, -⟩ := c.latest kind root (getLatestRoot_eq_ok.mp h.latest)
  obtain ⟨config, hconfig⟩ := Option.isSome_iff_exists.mp hsome
  have hexpiry : rootExpiry c = config.rootExpiryLedgers := by
    rw [rootExpiry, hconfig]
    rfl
  constructor
  · rintro ⟨-, config', hconfig', hfresh⟩
    obtain rfl := Option.some.inj (hconfig.symm.trans hconfig')
    obtain ⟨entry, hlookup, hage⟩ :=
      requireFreshRoot_eq_ok.mp (hfresh ⟨c.ledger, 0, [], fun _ _ _ => false⟩ rfl .RootExpired)
    obtain rfl := Option.some.inj (hentry.symm.trans hlookup)
    dsimp only at hage
    omega
  · intro hle
    refine ⟨h.latest, config, hconfig, ?_⟩
    intro env henv unknown
    refine requireFreshRoot_eq_ok.mpr ⟨_, hentry, ?_⟩
    rw [henv]
    dsimp only
    omega

/-! ## What leaves the latest root alone -/

/-- The invocation publishes no root of this kind in the name of somebody who signed it. -/
def Silent (kind : RootKind) (inv : Invocation) : Prop :=
  ∀ admin root hash, inv.call = publishCall kind admin root hash → admin ∉ inv.env.auths

def Ledger.Silent (kind : RootKind) (l : Ledger) : Prop :=
  ∀ inv ∈ l.invocations, Asp.Silent kind inv

/-- What is served stays served. -/
def Undisturbed (kind : RootKind) (c c' : Chain) : Prop :=
  ∀ root ledger, Serves kind root ledger c → Serves kind root ledger c'

instance : Std.Refl (Undisturbed kind) := ⟨fun _ _ _ h => h⟩

instance : IsTrans Chain (Undisturbed kind) := ⟨fun _ _ _ h h' _ _ hs => h' _ _ (h _ _ hs)⟩

/-- Publishing a root of another kind leaves the latest root of this one alone. -/
theorem Serves.published_other {kind' : RootKind} {root' hash' : BytesN 32} {env : Env}
    {c' : Chain} (h : Serves kind root ledger c) (hne : kind' ≠ kind)
    (hworld : c'.world = published env c.world kind' root' hash') : Serves kind root ledger c' := by
  have hkey : (kind, root) ≠ (kind', root') := fun heq => hne (congrArg Prod.fst heq).symm
  obtain ⟨hash, hentry⟩ := h.entry
  refine ⟨?_, hash, ?_⟩
  · rw [getLatestRoot_eq_ok, hworld]
    simp only [published, if_neg hne.symm]
    exact getLatestRoot_eq_ok.mp h.latest
  · rw [hworld]
    simp only [published, Finmap.lookup_insert_of_ne _ hkey]
    exact hentry

theorem Serves.of_roots {c' : Chain} (h : Serves kind root ledger c)
    (hroots : c'.world.pool.roots = c.world.pool.roots)
    (hhistory : c'.world.pool.history kind = c.world.pool.history kind) :
    Serves kind root ledger c' := by
  refine ⟨?_, ?_⟩
  · rw [getLatestRoot_eq_ok, hhistory]
    exact getLatestRoot_eq_ok.mp h.latest
  · rw [hroots]
    exact h.entry

theorem undisturbed_invoke (host : Host) {inv : Invocation} (hsilent : Silent kind inv) (c : Chain) :
    Undisturbed kind c (c.invoke host inv) := by
  intro root ledger h
  have hworld : (c.invoke host inv).world = (Pool.step host c.world (stamp c.ledger inv)).1 := rfl
  obtain ⟨hsome, -⟩ := c.latest kind root (getLatestRoot_eq_ok.mp h.latest)
  rcases step_cases host c.world (stamp c.ledger inv) with ⟨e, hstep⟩ | ⟨w', r, hstep, heffect⟩
  · rw [hstep] at hworld
    exact h.of_roots (by rw [hworld]) (by rw [hworld])
  · rw [hstep] at hworld
    revert hworld heffect
    generalize hcall : (stamp c.ledger inv).call = call
    intro hworld heffect
    cases heffect with
    | updateStateRoot hadmin =>
        refine h.published_other ?_ hworld
        rintro rfl
        exact hsilent _ _ _ hcall hadmin.signed
    | updateAspRoot hadmin =>
        refine h.published_other ?_ hworld
        rintro rfl
        exact hsilent _ _ _ hcall hadmin.signed
    | initializePool _ hfresh =>
        rw [hfresh] at hsome
        cases hsome
    | _ => exact h.of_roots (by rw [hworld]) (by rw [hworld])

theorem undisturbed_invokeAll (host : Host) {invs : List Invocation}
    (hsilent : ∀ inv ∈ invs, Silent kind inv) (c : Chain) :
    Undisturbed kind c (c.invokeAll host invs) := by
  induction invs generalizing c with
  | nil => exact refl_of (Undisturbed kind) c
  | cons inv invs ih =>
      obtain ⟨hfirst, hrest⟩ := List.forall_mem_cons.mp hsilent
      exact trans_of (Undisturbed kind) (undisturbed_invoke host hfirst c) (ih hrest _)

theorem undisturbed_close (host : Host) {l : Ledger} (hsilent : l.Silent kind) (c : Chain) :
    Undisturbed kind c (c.close host l) := by
  have hadvance : Undisturbed kind c (c.advance (l.idle + 1)) :=
    fun _ _ h => h.of_roots rfl rfl
  exact trans_of (Undisturbed kind) hadvance (undisturbed_invokeAll host hsilent _)

theorem undisturbed_closeAll (host : Host) {ls : List Ledger} (hsilent : ∀ l ∈ ls, l.Silent kind)
    (c : Chain) : Undisturbed kind c (c.closeAll host ls) := by
  induction ls generalizing c with
  | nil => exact refl_of (Undisturbed kind) c
  | cons l ls ih =>
      obtain ⟨hfirst, hrest⟩ := List.forall_mem_cons.mp hsilent
      exact trans_of (Undisturbed kind) (undisturbed_close host hfirst c) (ih hrest _)

end Serves

/-! ## Posting a root -/

/-- What comes after the transaction, in its ledger and up to the adapter's answer, publishes no root
of this kind. -/
structure Posting.SilentAfter (kind : RootKind) (p : Posting) : Prop where
  rest : ∀ inv ∈ p.rest, Silent kind inv
  later : ∀ l ∈ p.later, l.Silent kind

/-- Neither does what comes before it. -/
structure Posting.Silent (kind : RootKind) (p : Posting) : Prop extends p.SilentAfter kind where
  closes : ∀ l ∈ p.closes, l.Silent kind
  included : ∀ l, p.included = some l → l.Silent kind

def Answer.Silent (kind : RootKind) (a : Answer) : Prop := ∀ l ∈ a.closes, l.Silent kind

theorem Answer.Silent.keeps {kind : RootKind} {a : Answer} (h : a.Silent kind) (host : Host) :
    a.Keeps host (Undisturbed kind) := fun c => undisturbed_closeAll host h c

section Posting

variable {F : Type} {S : Setting F} {p : Posting} {kind : RootKind} {root hash : BytesN 32}
  {c c' : Chain}

/-- The chain of the ledger that includes a transaction, up to it. -/
def including (S : Setting F) (p : Posting) (c : Chain) : Chain :=
  (c.closeAll S.host p.closes).close S.host (p.included.getD {})

/-- A root whose posting was confirmed is the latest of its kind, published in the ledger that
includes the transaction. -/
theorem serves_postRoot (h : postRoot S p kind root hash c = (.ok (), c'))
    (hsilent : p.SilentAfter kind) : Serves kind root (including S p c).ledger c' := by
  unfold postRoot at h
  dsimp only at h
  split at h
  · cases h
  · split at h
    · cases h
    · next l hincluded =>
        have hincluding : (c.closeAll S.host p.closes).close S.host l = including S p c := by
          rw [including, hincluded]
          rfl
        rw [hincluding] at h
        set c₁ := including S p c
        split at h
        · cases h
        · next r houtcome =>
            obtain rfl := congrArg Prod.snd h
            refine undisturbed_closeAll S.host hsilent.later _ _ _
              (undisturbed_invokeAll S.host hsilent.rest _ _ _ ?_)
            have hworld : (c₁.invoke S.host (postCall S kind root hash)).world =
              (Pool.step S.host c₁.world (stamp c₁.ledger (postCall S kind root hash))).1 := rfl
            rcases step_cases S.host c₁.world (stamp c₁.ledger (postCall S kind root hash)) with
              ⟨e, hstep⟩ | ⟨w', r, hstep, heffect⟩
            · rw [hstep] at houtcome
              cases houtcome
            · rw [hstep] at hworld
              rcases roots_of_effect heffect with
                ⟨kind', admin, root', hash', config, hcall, -, rfl⟩ | ⟨hother, -⟩
              · obtain ⟨rfl, rfl⟩ := Prod.mk.inj (publishCall_inj hcall)
                refine ⟨?_, hash', ?_⟩
                · rw [getLatestRoot_eq_ok, hworld]
                  simp only [published, if_true, getLast?_pushHistory]
                · rw [hworld]
                  exact Finmap.lookup_insert _
              · exact absurd rfl (hother kind _ root hash)

/-- Posting a root of another kind disturbs nothing. -/
theorem undisturbed_postRoot {kind' : RootKind} (hne : kind ≠ kind') (hsilent : p.Silent kind') :
    Session.Keeps (Undisturbed kind') (postRoot S p kind root hash) := by
  intro c
  have hfirst : Undisturbed kind' c (c.closeAll S.host p.closes) :=
    undisturbed_closeAll S.host hsilent.closes c
  have hown : Silent kind' (postCall S kind root hash) := by
    intro admin root' hash' hcall
    exact absurd (congrArg Prod.fst (publishCall_inj hcall)) hne
  unfold postRoot
  dsimp only
  split
  · exact hfirst
  · split
    · exact trans_of (Undisturbed kind') hfirst (undisturbed_closeAll S.host hsilent.later _)
    · next l hincluded =>
        have hall := trans_of (Undisturbed kind') hfirst <|
          trans_of (Undisturbed kind') (undisturbed_close S.host (hsilent.included l hincluded) _) <|
          trans_of (Undisturbed kind') (undisturbed_invoke S.host hown _) <|
          trans_of (Undisturbed kind') (undisturbed_invokeAll S.host hsilent.rest _)
            (undisturbed_closeAll S.host hsilent.later _)
        split
        · exact hall
        · exact hall

/-- The publication that a comparison with the pool's latest root leads to: the one it finds, or
its own. -/
def publishedAt (S : Setting F) (kind : RootKind) (root : BytesN 32) (a : Answer) (p : Posting)
    (c : Chain) : ℕ :=
  let c := c.closeAll S.host a.closes
  if getLatestRoot c.world.pool kind = .ok root then
    (c.world.pool.roots.lookup (kind, root)).elim 0 (·.ledger)
  else (including S p c).ledger

theorem currentRoot_eq_ok (root : BytesN 32) {a : Answer} {onChainRoot : Option (BytesN 32)}
    (h : currentRoot S a kind c = (.ok onChainRoot, c')) :
    c' = c.closeAll S.host a.closes ∧
      (some root = onChainRoot ↔ getLatestRoot c'.world.pool kind = .ok root) := by
  obtain ⟨-, hclosed, hread⟩ := call_eq_ok.mp h
  refine ⟨hclosed, ?_⟩
  cases hlatest : getLatestRoot c'.world.pool kind with
  | ok latest =>
      rw [hlatest] at hread
      rw [← Except.ok.inj hread]
      simp [eq_comm]
  | error failure =>
      rw [hlatest] at hread
      dsimp only at hread
      split at hread
      · rw [← Except.ok.inj hread]
        simp
      · cases hread

variable [NatCast F] [Zero F]

omit [NatCast F] in
theorem serves_publishAspRoot {net : Network} {set : AssociationSet F}
    {x : Option (BytesN 32) × Bool} (hsome : 0 < set.size)
    (h : publishAspRoot S net set c = (.ok x, c')) (hsilent : net.aspPost.SilentAfter .asp) :
    Serves .asp (set.rootHex S)
      (publishedAt S .asp (set.rootHex S) net.aspRoot net.aspPost c) c' := by
  obtain ⟨onChainRoot, c₁, hroot, h⟩ := Session.bind_eq_ok.mp h
  obtain ⟨rfl, hsame⟩ := currentRoot_eq_ok (set.rootHex S) hroot
  unfold publishedAt
  dsimp only
  split at h
  · next hdiffers =>
      obtain ⟨u, c₂, hpost, h⟩ := Session.bind_eq_ok.mp h
      obtain ⟨-, rfl⟩ := Session.pure_eq_ok.mp h
      rw [if_neg (fun hlatest => hdiffers.2 (hsame.mpr hlatest))]
      exact serves_postRoot hpost hsilent
  · next hsame' =>
      obtain ⟨-, rfl⟩ := Session.pure_eq_ok.mp h
      have hlatest := hsame.mp (not_not.mp fun hdiffers => hsame' ⟨hsome, hdiffers⟩)
      rw [if_pos hlatest]
      exact serves_of_latest hlatest

omit [NatCast F] [Zero F] in
theorem serves_publishStateRoot {net : Network} {leaves : List (Option (BytesN 32))}
    {x : Option (BytesN 32) × Bool} (h : publishStateRoot S net leaves root c = (.ok x, c'))
    (hsilent : net.statePost.SilentAfter .state) :
    Serves .state root (publishedAt S .state root net.stateRoot net.statePost c) c' := by
  obtain ⟨onChainRoot, c₁, hroot, h⟩ := Session.bind_eq_ok.mp h
  obtain ⟨rfl, hsame⟩ := currentRoot_eq_ok root hroot
  unfold publishedAt
  dsimp only
  split at h
  · next hdiffers =>
      obtain ⟨u, c₂, hpost, h⟩ := Session.bind_eq_ok.mp h
      obtain ⟨-, rfl⟩ := Session.pure_eq_ok.mp h
      rw [if_neg (fun hlatest => hdiffers (hsame.mpr hlatest))]
      exact serves_postRoot hpost hsilent
  · next hsame' =>
      obtain ⟨-, rfl⟩ := Session.pure_eq_ok.mp h
      have hlatest := hsame.mp (not_not.mp hsame')
      rw [if_pos hlatest]
      exact serves_of_latest hlatest

end Posting

/-! ## Ticks -/

/-- Nobody else publishes a root while the tick is at work: no association root after it looked at
the pool's, and no state root after it posted its own. -/
structure Network.Quiet (net : Network) : Prop where
  aspPost : net.aspPost.SilentAfter .asp
  stateHealth : net.stateHealth.Silent .asp
  stateLatest : net.stateLatest.Silent .asp
  stateDeposits : ∀ n, (net.stateDeposits n).Silent .asp
  stateWithdraws : ∀ n, (net.stateWithdraws n).Silent .asp
  stateCursor : net.stateCursor.Silent .asp
  stateRoot : net.stateRoot.Silent .asp
  statePost : net.statePost.Silent .asp
  statePostAfter : net.statePost.SilentAfter .state

theorem Network.Quiet.keepsReading {net : Network} (h : net.Quiet) (host : Host) :
    net.KeepsReading host (Undisturbed .asp) :=
  ⟨h.stateHealth.keeps host, h.stateLatest.keeps host, fun n => (h.stateDeposits n).keeps host,
    fun n => (h.stateWithdraws n).keeps host, h.stateCursor.keeps host⟩

section Tick

variable {F : Type} [NatCast F] [Zero F] (S : Setting F)

/-- The root of the labels of some deposits. -/
def labelRoot (indices : List ℕ) : BytesN 32 :=
  S.toHex32 (MerkleTree.root S.hash2 { leaves := labels S indices })

/-- The root of some leaves. -/
def leafRoot (leaves : List (Option (BytesN 32))) : BytesN 32 :=
  S.toHex32 (MerkleTree.root S.hash2 { leaves := (leaves.filterMap id).map (fieldOf F) })

/-- The pool's latest roots are those of the saved state. -/
def RootsCurrent (s : System) : Prop :=
  getLatestRoot s.chain.world.pool .asp = .ok (labelRoot S s.state.approvedIndices) ∧
    getLatestRoot s.chain.world.pool .state = .ok (leafRoot S s.state.leaves)

/-- Moreover neither has expired. -/
def RootsUsable (s : System) : Prop :=
  Usable .asp (labelRoot S s.state.approvedIndices) s.chain ∧
    Usable .state (leafRoot S s.state.leaves) s.chain

/-- The ledger of the publication on which the association root rests after the tick. -/
def aspPublication (s : System) (i : TickInput) : Option ℕ :=
  match readConfirmed S i s.state s.chain with
  | (.error _, _) => none
  | (.ok deposits, c) =>
      match screenBatch S i s.state deposits with
      | .error _ => none
      | .ok (_, set) => some (publishedAt S .asp (set.rootHex S) i.net.aspRoot i.net.aspPost c)

/-- The ledger of the publication on which the state root rests after the tick. -/
def statePublication (s : System) (i : TickInput) : Option ℕ :=
  match beforeState S s i with
  | none => none
  | some (state, c) =>
      match readState S i.net state c with
      | (.ok (_, _, some root), c) =>
          some (publishedAt S .state root i.net.stateRoot i.net.statePost c)
      | _ => none

/-- The publications on which the roots rest are within the expiry when the tick ends. -/
def InTime (s : System) (i : TickInput) : Prop :=
  ∀ ledger, aspPublication S s i = some ledger ∨ statePublication S s i = some ledger →
    (runPoolTick S s i).1.chain.ledger ≤ ledger + rootExpiry (runPoolTick S s i).1.chain

variable {S}

omit [Zero F] in
/-- A tree was built of an array only if it has no holes. -/
theorem stateTree_eq_ok {leaves : List (Option (BytesN 32))} {tree : MerkleTree F}
    (h : stateTree leaves = .ok tree) :
    tree = { leaves := (leaves.filterMap id).map (fieldOf F) } := by
  have hmap : leaves = (leaves.filterMap id).map some := by
    unfold stateTree at h
    revert h
    generalize ({} : MerkleTree F) = t
    intro h
    induction leaves generalizing t with
    | nil => rfl
    | cons x xs ih =>
        rw [List.foldlM_cons, bind_eq_ok] at h
        obtain ⟨t', hx, hrest⟩ := h
        cases x with
        | none => cases hx
        | some x => exact congrArg (some x :: ·) (ih t' hrest)
  rw [hmap] at h
  exact (stateTree_map_some.mp h).2

omit [NatCast F] [Zero F] in
/-- Comparing and posting the state root leaves the association root alone. -/
theorem undisturbed_publishStateRoot {net : Network} (hquiet : net.Quiet)
    (leaves : List (Option (BytesN 32))) (root : BytesN 32) :
    Session.Keeps (Undisturbed .asp) (publishStateRoot S net leaves root) := by
  refine ((hquiet.stateRoot.keeps S.host).call _).bind fun onChainRoot => ?_
  split
  · refine (undisturbed_postRoot ?_ hquiet.statePost).bind fun _ => Session.keeps_pure _
    intro h
    cases h
  · exact Session.keeps_pure _

/-- **One completed tick** of a provider that is not disturbed: afterwards the pool's latest roots
are those of the state it saved, and they can be used exactly if the publications they rest on are in
time. -/
theorem rootsCurrent_tick {s : System} {i : TickInput} {result : TickResult}
    (hcompleted : (runPoolTick S s i).2 = .ok result) (hpassed : result.haltedForReorg = false)
    (happroved : (runPoolTick S s i).1.state.approvedIndices ≠ [])
    (hleaves : (runPoolTick S s i).1.state.leaves ≠ []) (hquiet : i.net.Quiet) :
    RootsCurrent S (runPoolTick S s i).1 ∧
      (RootsUsable S (runPoolTick S s i).1 ↔ InTime S s i) := by
  unfold InTime
  have hrun := tickRun S s i
  revert hrun hcompleted happroved hleaves
  generalize (runPoolTick S s i).1 = s'
  generalize (runPoolTick S s i).2 = outcome
  intro hcompleted happroved hleaves hrun
  cases hrun with
  | unread | unscreened | unpublished => cases hcompleted
  | @halted c c' deposits screened set guard onChainRoot =>
      cases onChainRoot with
      | error e => cases hcompleted
      | ok root =>
          cases hcompleted
          cases hpassed
  | @completed c c' deposits screened set guard state result hread hscreens hpasses hpublish =>
      obtain ⟨_, _, c₁, leaves, stateRoot, c₂, hasp, hstate, -, hrest⟩ := publish_eq_ok hpublish
      obtain ⟨r, -, rfl, rfl, hroot⟩ := readState_eq_ok hstate
      have hbefore := beforeState_eq hread hscreens hpasses hasp
      obtain ⟨-, hset, -⟩ := screenBatch_spec (readConfirmed_spec hread).1 hscreens
      obtain ⟨-, rfl⟩ := associationSet_eq_ok.mp hset
      obtain ⟨rfl, rfl⟩ | ⟨root, _, _, rfl, hpost⟩ := hrest
      · rcases hroot with ⟨-, hempty⟩ | ⟨tree, -, hnone⟩
        · exact absurd hempty hleaves
        · cases hnone
      have haspPublication : aspPublication S s i = some (publishedAt S .asp
          (labelRoot S screened.state.approvedIndices) i.net.aspRoot i.net.aspPost c) := by
        simp only [aspPublication, hread, hscreens]
        rfl
      have hstatePublication : statePublication S s i = some (publishedAt S .state root
          i.net.stateRoot i.net.statePost c₂) := by
        simp only [statePublication, hbefore, hstate]
      obtain rfl : root = leafRoot S (mergeSnapshot screened.state (snapshotOf r)).leaves := by
        rcases hroot with ⟨hnone, -⟩ | ⟨tree, htree, heq⟩
        · cases hnone
        · rw [Option.some.inj heq, stateTree_eq_ok htree]
          rfl
      have hsize : 0 < AssociationSet.size ⟨screened.state.approvedIndices,
          labels S screened.state.approvedIndices,
          { leaves := labels S screened.state.approvedIndices }⟩ := by
        rw [AssociationSet.size, labels, List.length_map]
        exact List.length_pos_iff.mpr happroved
      have hundisturbed : Undisturbed .asp c₁ c' :=
        trans_of (Undisturbed .asp)
          ((keeps_readState (hquiet.keepsReading S.host) _).of_eq hstate)
          ((undisturbed_publishStateRoot hquiet _ _).of_eq hpost)
      have haspServes := hundisturbed _ _ (serves_publishAspRoot hsize hasp hquiet.aspPost)
      have hstateServes := serves_publishStateRoot hpost hquiet.statePostAfter
      have hiff : RootsUsable S ⟨c', some (mergeSnapshot screened.state (snapshotOf r)), guard⟩ ↔ _ :=
        and_congr haspServes.usable_iff hstateServes.usable_iff
      refine ⟨⟨haspServes.latest, hstateServes.latest⟩, ?_⟩
      rw [hiff, haspPublication, hstatePublication]
      constructor
      · rintro ⟨hasp, hstate⟩ ledger (heq | heq)
        · cases heq
          exact hasp
        · cases heq
          exact hstate
      · intro h
        exact ⟨h _ (.inl rfl), h _ (.inr rfl)⟩

/-- **Published roots can be used exactly while their publication is in time.** In every run, after
every tick that completes with something approved and some leaf read, while nobody else publishes:
the pool's latest roots are those of the saved state; and they are unexpired if and only if the
publications on which they rest are within the expiry when the tick ends. -/
theorem roots_current (S : Setting F) (tokens : TokenLedger) (ledger : ℕ) (inputs : List Input) :
    let final := (machine S).final (.initial tokens ledger)
    ∀ before i later result, inputs = before ++ .tick i :: later →
      (runPoolTick S (final before) i).2 = .ok result → result.haltedForReorg = false →
      (final (before ++ [.tick i])).state.approvedIndices ≠ [] →
      (final (before ++ [.tick i])).state.leaves ≠ [] → i.net.Quiet →
      RootsCurrent S (final (before ++ [.tick i])) ∧
        (RootsUsable S (final (before ++ [.tick i])) ↔ InTime S (final before) i) := by
  intro final before i later result _ hcompleted hpassed
  simp only [final, final_tick]
  intro happroved hleaves hquiet
  exact rootsCurrent_tick hcompleted hpassed happroved hleaves hquiet

end Tick

/-! ## A root that expires -/

/-- Two deposits and a tick, then a day without any, and the tick again. -/
def Demo.quietDay : List Input :=
  Demo.twoDeposits ++ [.tick Demo.undisturbed, .close { idle := DEFAULT_ROOT_EXPIRY_LEDGERS }]

/-- The second tick completes, and leaves behind an association root that no withdrawal can use. -/
theorem roots_expire :
    (runPoolTick Demo.setting ((machine Demo.setting).final Demo.start Demo.quietDay)
      Demo.undisturbed).2.toOption.map (·.haltedForReorg) = some false ∧
    ((machine Demo.setting).final Demo.start
      (Demo.quietDay ++ [.tick Demo.undisturbed])).state.approvedIndices = [0, 1] ∧
    ¬ RootsUsable Demo.setting ((machine Demo.setting).final Demo.start
      (Demo.quietDay ++ [.tick Demo.undisturbed])) := by
  refine ⟨by decide, by decide, ?_⟩
  rintro ⟨husable, -⟩
  have hage := (serves_of_latest husable.1).usable_iff.mp husable
  revert hage
  decide

theorem Demo.net_quiet : Demo.net.Quiet := by
  have hanswer : ∀ a : Answer, a.closes = [] → a.Silent .asp := by
    intro a hnone l hl
    rw [hnone] at hl
    cases hl
  have hpost : ∀ kind, Posting.Silent kind {} := by
    intro kind
    refine ⟨⟨fun _ h => absurd h List.not_mem_nil, fun _ h => absurd h List.not_mem_nil⟩,
      fun _ h => absurd h List.not_mem_nil, ?_⟩
    rintro l hl inv hinv
    cases hl
    cases hinv
  exact ⟨(hpost _).toSilentAfter, hanswer _ rfl, hanswer _ rfl, fun _ => hanswer _ rfl,
    fun _ => hanswer _ rfl, hanswer _ rfl, hanswer _ rfl, hpost _, (hpost _).toSilentAfter⟩

/-- Right after the first tick both roots can be used. -/
theorem roots_current_first_tick :
    RootsUsable Demo.setting ((machine Demo.setting).final Demo.start
      (Demo.twoDeposits ++ [.tick Demo.undisturbed])) := by
  have hreport : (runPoolTick Demo.setting ((machine Demo.setting).final Demo.start
      Demo.twoDeposits) Demo.undisturbed).2.toOption.map (·.haltedForReorg) = some false := by
    decide
  cases hresult : (runPoolTick Demo.setting ((machine Demo.setting).final Demo.start
      Demo.twoDeposits) Demo.undisturbed).2 with
  | error e =>
      rw [hresult] at hreport
      cases hreport
  | ok result =>
      rw [hresult] at hreport
      refine (roots_current Demo.setting Pool.Demo.tokens 9 _ Demo.twoDeposits Demo.undisturbed []
        result rfl hresult (Option.some.inj hreport) (by decide) (by decide)
        Demo.net_quiet).2.mpr ?_
      have hasp : aspPublication Demo.setting ((machine Demo.setting).final Demo.start
          Demo.twoDeposits) Demo.undisturbed = some 13 := by decide
      have hstate : statePublication Demo.setting ((machine Demo.setting).final Demo.start
          Demo.twoDeposits) Demo.undisturbed = some 14 := by decide
      rintro ledger (h | h)
      · rw [hasp] at h
        cases h
        decide
      · rw [hstate] at h
        cases h
        decide

end OpaqueStellar.Asp
