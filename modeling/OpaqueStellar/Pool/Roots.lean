import OpaqueStellar.Lib.History
import OpaqueStellar.Pool.Effect

/-! # The privacy pool: published roots

A withdrawal names a state root and an association root. The entry it finds for each is the latest
publication of that root in that namespace, made by whoever was the administrator then. The bounded
history list is only a view: an entry leaves the store through no call at all, so a published root
that has not expired can always be used. -/

namespace OpaqueStellar.Pool

open OpaqueStellar.Lib OpaqueStellar.Soroban

variable {host : Host} {env : Env}

/-- The call that publishes a root of the given kind. -/
def publishCall : RootKind → Address → BytesN 32 → BytesN 32 → Call
  | .state => .updateStateRoot
  | .asp => .updateAspRoot

/-- The step published `root` in the namespace of `kind`. -/
def Publishes (kind : RootKind) (root : BytesN 32) (e : PoolStep) : Prop :=
  ∃ admin hash r, e.input.call = publishCall kind admin root hash ∧ e.output = .ok r

/-- The step's call was signed by its `admin` argument, the administrator at that time. -/
def ByCurrentAdmin (admin : Address) (e : PoolStep) : Prop :=
  admin ∈ e.input.env.auths ∧ ∃ config, e.pre.pool.config = some config ∧ config.admin = admin

/-- The entries of the store are the latest publications. -/
def RootsTraced (t : List PoolStep) (w : World) : Prop :=
  ∀ kind root ledger, (∃ hash, w.pool.roots.lookup (kind, root) = some ⟨ledger, hash⟩) ↔
    ∃ e, Latest (Publishes kind root) t e ∧ e.input.env.sequence = ledger

theorem not_publishes_error {kind : RootKind} {root : BytesN 32} {w : World} {inv : Invocation}
    {e : Failure PoolError} : ¬ Publishes kind root ⟨w, inv, .error e⟩ := by
  rintro ⟨admin, hash, r, -, hout⟩
  cases hout

/-- A call that is not a publication leaves every entry as it is. -/
theorem roots_of_effect {w w' : World} {call : Call} {r : Ret} (h : Effect host env w call w' r) :
    (∃ kind admin root hash config, call = publishCall kind admin root hash ∧
      ByAdmin host env w.pool admin config ∧ w' = published env w kind root hash) ∨
    ((∀ kind admin root hash, call ≠ publishCall kind admin root hash) ∧
      w'.pool.roots = w.pool.roots) := by
  cases h with
  | updateStateRoot hadmin => exact .inl ⟨.state, _, _, _, _, rfl, hadmin, rfl⟩
  | updateAspRoot hadmin => exact .inl ⟨.asp, _, _, _, _, rfl, hadmin, rfl⟩
  | _ =>
      refine .inr ⟨?_, rfl⟩
      intro kind admin root hash hcall
      cases kind <;> cases hcall

theorem publishCall_inj {kind kind' : RootKind} {admin admin' : Address}
    {root root' hash hash' : BytesN 32}
    (h : publishCall kind admin root hash = publishCall kind' admin' root' hash') :
    (kind, root) = (kind', root') := by
  cases kind <;> cases kind' <;> cases h <;> rfl

/-- Publishing sets one entry, and becomes the latest publication of that root. -/
theorem rootsTraced_published {t : List PoolStep} {w : World} {kind : RootKind} {admin : Address}
    {root hash : BytesN 32} {inv : Invocation} {r : Ret} (h : RootsTraced t w)
    (hcall : inv.call = publishCall kind admin root hash) :
    RootsTraced (t ++ [⟨w, inv, .ok r⟩]) (published inv.env w kind root hash) := by
  intro kind' root' ledger
  by_cases hkey : (kind', root') = (kind, root)
  · obtain ⟨rfl, rfl⟩ := Prod.mk.inj hkey
    have hpub : Publishes kind' root' ⟨w, inv, .ok r⟩ := ⟨admin, hash, r, hcall, rfl⟩
    simp only [published, Finmap.lookup_insert, latest_snoc_of_pos hpub]
    constructor
    · rintro ⟨hash', heq⟩
      exact ⟨_, rfl, congrArg RootEntry.ledger (Option.some.inj heq)⟩
    · rintro ⟨e, rfl, rfl⟩
      exact ⟨hash, rfl⟩
  · have hpub : ¬ Publishes kind' root' ⟨w, inv, .ok r⟩ := by
      rintro ⟨admin', hash', r', hcall', -⟩
      exact hkey (publishCall_inj (hcall'.symm.trans hcall))
    simp only [published, Finmap.lookup_insert_of_ne _ hkey, latest_snoc_of_neg hpub]
    exact h kind' root' ledger

theorem rootsTraced_kept {t : List PoolStep} {w w' : World} {e : PoolStep} (h : RootsTraced t w)
    (hroots : w'.pool.roots = w.pool.roots) (hno : ∀ kind root, ¬ Publishes kind root e) :
    RootsTraced (t ++ [e]) w' := by
  intro kind root ledger
  rw [hroots, h kind root ledger]
  simp only [latest_snoc_of_neg (hno kind root)]

theorem rootsTraced_run (host : Host) (tokens : TokenLedger) (invs : List Invocation) :
    RootsTraced ((machine host).trace (.deployed tokens) invs)
      ((machine host).final (.deployed tokens) invs) := by
  refine run_invariant ?_ ?_ ?_ invs
  · intro kind root ledger
    constructor
    · rintro ⟨hash, hlookup⟩
      cases hlookup
    · rintro ⟨e, hlatest, -⟩
      exact absurd hlatest not_latest_nil
  · intro t w inv e h
    exact rootsTraced_kept h rfl fun _ _ => not_publishes_error
  · intro t w inv w' r h heffect
    rcases roots_of_effect heffect with ⟨kind, admin, root, hash, config, hcall, -, rfl⟩ |
      ⟨hother, hroots⟩
    · exact rootsTraced_published h hcall
    · refine rootsTraced_kept h hroots ?_
      rintro kind root ⟨admin, hash, r', hcall, -⟩
      exact hother kind admin root hash hcall

/-- A pool that has a latest root of some kind is set up, and has the entry of that root. -/
def LatestRecorded (w : World) : Prop :=
  ∀ kind root, (w.pool.history kind).getLast? = some root →
    w.pool.config.isSome = true ∧ ∃ entry, w.pool.roots.lookup (kind, root) = some entry

theorem getLast?_pushHistory (hist : List (BytesN 32)) (root : BytesN 32) :
    (pushHistory hist root).getLast? = some root := List.getLast?_concat

theorem latestRecorded_published {w : World} {kind : RootKind} {root hash : BytesN 32}
    (hconfig : w.pool.config.isSome = true) (h : LatestRecorded w) :
    LatestRecorded (published env w kind root hash) := by
  intro kind' root' hlast
  refine ⟨hconfig, ?_⟩
  by_cases hkey : (kind', root') = (kind, root)
  · exact ⟨_, by rw [hkey]; exact Finmap.lookup_insert _⟩
  · have hkind : kind' ≠ kind := by
      rintro rfl
      simp only [published, if_true, getLast?_pushHistory, Option.some.injEq] at hlast
      exact hkey (by rw [hlast])
    simp only [published, if_neg hkind] at hlast
    simp only [published, Finmap.lookup_insert_of_ne _ hkey]
    exact (h kind' root' hlast).2

theorem latestRecorded_effect {w w' : World} {call : Call} {r : Ret} (h : LatestRecorded w)
    (heffect : Effect host env w call w' r) : LatestRecorded w' := by
  cases heffect with
  | updateStateRoot hadmin | updateAspRoot hadmin =>
      exact latestRecorded_published (by rw [hadmin.stored]; rfl) h
  | initializePool =>
      intro kind root hlast
      cases hlast
  | setRootExpiry | transferAdmin =>
      intro kind root hlast
      exact ⟨rfl, (h kind root hlast).2⟩
  | _ => exact h

/-- Every publication of a run was made by the administrator of that moment. -/
theorem byCurrentAdmin_of_publishes {w₀ : World} {invs : List Invocation} {e : PoolStep}
    {kind : RootKind} {root : BytesN 32} (he : e ∈ (machine host).trace w₀ invs)
    (h : Publishes kind root e) :
    ∃ admin hash, e.input.call = publishCall kind admin root hash ∧ ByCurrentAdmin admin e := by
  obtain ⟨admin, hash, r, hcall, hout⟩ := h
  obtain ⟨w', -, heffect⟩ := effect_of_mem_trace he hout
  refine ⟨admin, hash, hcall, ?_⟩
  rw [hcall] at heffect
  cases kind with
  | state =>
      cases heffect with
      | updateStateRoot hadmin => exact ⟨hadmin.signed, _, hadmin.stored, hadmin.isAdmin⟩
  | asp =>
      cases heffect with
      | updateAspRoot hadmin => exact ⟨hadmin.signed, _, hadmin.stored, hadmin.isAdmin⟩

/-- A root is fresh exactly when its latest publication is within the expiry. -/
theorem freshRoot_iff {t : List PoolStep} {w : World} (h : RootsTraced t w) {config : PoolConfig}
    {kind : RootKind} {root : BytesN 32} :
    FreshRoot env w.pool config kind root ↔
      ∃ e, Latest (Publishes kind root) t e ∧
        env.sequence - config.rootExpiryLedgers ≤ e.input.env.sequence := by
  constructor
  · rintro ⟨⟨ledger, hash⟩, hlookup, hfresh⟩
    obtain ⟨e, hlatest, hledger⟩ := (h kind root ledger).mp ⟨hash, hlookup⟩
    refine ⟨e, hlatest, ?_⟩
    rw [hledger]
    simp only at hfresh
    omega
  · rintro ⟨e, hlatest, hfresh⟩
    obtain ⟨hash, hlookup⟩ := (h kind root _).mpr ⟨e, hlatest, rfl⟩
    refine ⟨_, hlookup, ?_⟩
    simp only
    omega

/-- **Root provenance and freshness.** After every run: a withdrawal that succeeds found, for each
of its two roots, a publication in the right namespace by the administrator of that moment, the
latest of that root, and not older than the expiry now in force; and conversely a root whose latest
publication is not older than the expiry is known and passes the check, whatever happened since. -/
theorem root_provenance (host : Host) (tokens : TokenLedger) (invs : List Invocation) :
    let w := (machine host).final (.deployed tokens) invs
    let t := (machine host).trace (.deployed tokens) invs
    (∀ env args w', withdraw host env w args = .ok w' →
      ∃ config, w.pool.config = some config ∧
        ∀ kind root, (kind, root) ∈ [(RootKind.state, args.stateRoot), (.asp, args.aspRoot)] →
          ∃ e admin hash, Latest (Publishes kind root) t e ∧
            e.input.call = publishCall kind admin root hash ∧ ByCurrentAdmin admin e ∧
            env.sequence - config.rootExpiryLedgers ≤ e.input.env.sequence) ∧
    ∀ kind root e, Latest (Publishes kind root) t e →
      isKnownRoot w.pool kind root = true ∧
      ∀ env config unknown, w.pool.config = some config →
        env.sequence - config.rootExpiryLedgers ≤ e.input.env.sequence →
        requireFreshRoot env w.pool config kind root unknown = .ok () := by
  intro w t
  have htraced : RootsTraced t w := rootsTraced_run host tokens invs
  refine ⟨?_, ?_⟩
  · intro env args w' hok
    have hfresh : ∃ config, Admitted host env w.pool args config := by
      obtain ⟨config, hcompletes⟩ := (withdraw_effect hok).completes
      exact ⟨config, hcompletes.admitted⟩
    obtain ⟨config, hadmitted⟩ := hfresh
    refine ⟨config, hadmitted.stored, ?_⟩
    intro kind root hmem
    have hroot : FreshRoot env w.pool config kind root := by
      simp only [List.mem_cons, Prod.mk.injEq, List.not_mem_nil, or_false] at hmem
      rcases hmem with ⟨rfl, rfl⟩ | ⟨rfl, rfl⟩
      · exact hadmitted.stateFresh
      · exact hadmitted.aspFresh
    obtain ⟨e, hlatest, hage⟩ := (freshRoot_iff htraced).mp hroot
    obtain ⟨admin, hash, hcall, hadmin⟩ := byCurrentAdmin_of_publishes hlatest.mem hlatest.holds
    exact ⟨e, admin, hash, hlatest, hcall, hadmin, hage⟩
  · intro kind root e hlatest
    refine ⟨?_, ?_⟩
    · obtain ⟨hash, hlookup⟩ := (htraced kind root _).mpr ⟨e, hlatest, rfl⟩
      rw [isKnownRoot, hlookup]
      rfl
    · intro env config unknown _ hage
      exact requireFreshRoot_eq_ok.mpr ((freshRoot_iff htraced).mpr ⟨e, hlatest, hage⟩)

/-- The demonstration withdrawal goes through after its setup, so both of its roots have a latest
publication. -/
theorem root_provenance_demo :
    let t := (machine Demo.host).trace (.deployed Demo.tokens) Demo.setup
    (∃ e, Latest (Publishes .state Demo.args.stateRoot) t e) ∧
    ∃ e, Latest (Publishes .asp Demo.args.aspRoot) t e := by
  intro t
  have hok : ∃ w', withdraw Demo.host Demo.spend.env
      ((machine Demo.host).final (.deployed Demo.tokens) Demo.setup) Demo.args = .ok w' := by
    have hsome : (withdraw Demo.host Demo.spend.env
        ((machine Demo.host).final (.deployed Demo.tokens) Demo.setup) Demo.args).isOk = true := by
      decide +kernel
    cases h : withdraw Demo.host Demo.spend.env
        ((machine Demo.host).final (.deployed Demo.tokens) Demo.setup) Demo.args with
    | ok w' => exact ⟨w', rfl⟩
    | error e =>
        rw [h] at hsome
        cases hsome
  obtain ⟨w', hw'⟩ := hok
  obtain ⟨config, -, hroots⟩ :=
    (root_provenance Demo.host Demo.tokens Demo.setup).1 Demo.spend.env Demo.args w' hw'
  obtain ⟨e, -, -, hstate, -⟩ := hroots .state Demo.args.stateRoot (by simp)
  obtain ⟨e', -, -, hasp, -⟩ := hroots .asp Demo.args.aspRoot (by simp)
  exact ⟨⟨e, hstate⟩, e', hasp⟩

end OpaqueStellar.Pool
