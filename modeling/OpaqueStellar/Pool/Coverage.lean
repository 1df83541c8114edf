import OpaqueStellar.Pool.Pause
import OpaqueStellar.Pool.Roots
import OpaqueStellar.Schemas.Core

/-! # Can a withdrawal be proven now?

`isDepositCovered` of `sdk/src/services/pool.ts` reads seven views of the pool and answers whether a withdrawal
against the published roots could go through. The views are those of the contract, each read at the same ledger.
They tell whether a root is known, not whether it is still fresh, and the answer also asks for room in the tree,
which a withdrawal does not need. -/

namespace OpaqueStellar.Pool.Coverage

open OpaqueStellar.Lib OpaqueStellar.Schemas OpaqueStellar.Soroban

/-! ## Reads -/

inductive ReadError where
  -- `SimulationError`, with what the RPC says about it
  | simulation (diagnostics : Str)
  | other
  deriving DecidableEq

inductive View where
  | getLatestRoot (kind : RootKind)
  | isDepositsPaused
  | isWithdrawalsPaused
  | getTreeCapacityInfo
  | isKnownRoot (kind : RootKind) (root : BytesN 32)
  deriving DecidableEq

/-- What the client is given: the text of a failed simulation, the reads that fail for another reason, and
whether there is an account to read for. -/
structure Rpc where
  describe : Failure PoolError → Str
  fails : View → Bool
  source : Except ReadError Unit

/-- Empty unless the error is a `SimulationError`. -/
def ReadError.diagnostics : ReadError → Str
  | .simulation diagnostics => diagnostics
  | .other => []

/-- The error that says that no root of the kind is published. -/
def unpublished : RootKind → Str
  | .state => "UnknownStateRoot".toList
  | .asp => "UnknownAspRoot".toList

/-- A regular expression without special characters, and without regard to case. -/
def mentions (name text : Str) : Bool := decide (name.map Char.toUpper <:+: text.map Char.toUpper)

inductive DepositCoverageReason where
  | «no-state-root»
  | «unknown-state-root»
  | «no-asp-root»
  | «unknown-asp-root»
  | «withdrawals-paused»
  | «tree-at-capacity»
  deriving DecidableEq

structure DepositCoverage where
  covered : Bool
  stateRoot : Option (BytesN 32)
  aspRoot : Option (BytesN 32)
  stateRootKnown : Bool
  aspRootKnown : Bool
  reasons : List DepositCoverageReason
  capacity : TreeCapacityInfo
  depositsPaused : Bool
  withdrawalsPaused : Bool
  deriving DecidableEq

structure DepositCoverageOptions where
  stateRoot : Option (BytesN 32)
  aspRoot : Option (BytesN 32)

section Reads

variable (R : Rpc) (env : Env) (s : PoolState)

def readNative {α : Type} (view : View) (result : Result PoolError α) : Except ReadError α :=
  if R.fails view then .error .other
  else match result with
    | .ok value => .ok value
    | .error failure => .error (.simulation (R.describe failure))

/-- Nothing has been published yet is `none`; every other failure is passed on. -/
def getLatestRoot (kind : RootKind) : Except ReadError (Option (BytesN 32)) :=
  match readNative R (.getLatestRoot kind) (Pool.getLatestRoot s kind) with
  | .ok root => .ok (some root)
  | .error err => if mentions (unpublished kind) err.diagnostics then .ok none else .error err

def isKnownRoot (kind : RootKind) (root : Option (BytesN 32)) : Except ReadError Bool :=
  match root with
  | none => .ok false
  | some root => readNative R (.isKnownRoot kind root) (.ok (Pool.isKnownRoot s kind root))

/-- The reasons about a root of one kind. -/
def rootReasons (root : Option (BytesN 32)) (known : Bool) (missing unknown : DepositCoverageReason) :
    List DepositCoverageReason :=
  if root = none then [missing] else if known = false then [unknown] else []

def isDepositCovered (opts : DepositCoverageOptions) : Except ReadError DepositCoverage := do
  let _ ← R.source
  let latestState ← getLatestRoot R s .state
  let latestAsp ← getLatestRoot R s .asp
  let depositsPaused ← readNative R .isDepositsPaused (.ok (Pool.isDepositsPaused s))
  let withdrawalsPaused ← readNative R .isWithdrawalsPaused (.ok (Pool.isWithdrawalsPaused env s))
  let capacity ← readNative R .getTreeCapacityInfo (.ok (Pool.getTreeCapacityInfo env s))
  let stateRoot := opts.stateRoot.or latestState
  let aspRoot := opts.aspRoot.or latestAsp
  let stateRootKnown ← isKnownRoot R s .state stateRoot
  let aspRootKnown ← isKnownRoot R s .asp aspRoot
  let reasons := rootReasons stateRoot stateRootKnown .«no-state-root» .«unknown-state-root» ++
    rootReasons aspRoot aspRootKnown .«no-asp-root» .«unknown-asp-root» ++
    (if withdrawalsPaused then [.«withdrawals-paused»] else []) ++
    (if capacity.maxCapacity > 0 ∧ capacity.currentCount ≥ capacity.maxCapacity then [.«tree-at-capacity»] else [])
  return ⟨reasons.length = 0, stateRoot, aspRoot, stateRootKnown, aspRootKnown, reasons, capacity, depositsPaused,
    withdrawalsPaused⟩

end Reads

/-! ## What an answer says about the pool -/

section Answers

variable {R : Rpc} {env : Env} {s : PoolState} {opts : DepositCoverageOptions} {coverage : DepositCoverage}
  {kind : RootKind} {root : Option (BytesN 32)}

theorem readNative_eq_ok {α : Type} {view : View} {result : Result PoolError α} {value : α}
    (h : readNative R view result = .ok value) : result = .ok value := by
  unfold readNative at h
  split at h
  · cases h
  · cases result with
    | ok value' => exact congrArg Except.ok (Except.ok.inj h)
    | error failure => cases h

/-- The latest root that is read is the one the pool has, if it has one. -/
theorem getLatestRoot_eq_ok (h : getLatestRoot R s kind = .ok root) : (s.history kind).getLast? = root := by
  unfold getLatestRoot at h
  cases hread : readNative R (.getLatestRoot kind) (Pool.getLatestRoot s kind) with
  | ok latest =>
    rw [hread] at h
    have hview := readNative_eq_ok hread
    rw [Pool.getLatestRoot, okOr_eq_ok] at hview
    exact hview.trans (Except.ok.inj h)
  | error err =>
    rw [hread] at h
    replace h : (if mentions (unpublished kind) err.diagnostics then Except.ok none else Except.error err) =
      Except.ok root := h
    split at h
    · next hmentions =>
      obtain rfl := Except.ok.inj h
      -- no other failure is read as an empty history
      have hview : ∃ failure, Pool.getLatestRoot s kind = .error failure := by
        cases hview : Pool.getLatestRoot s kind with
        | error failure => exact ⟨failure, rfl⟩
        | ok latest =>
          unfold readNative at hread
          rw [hview] at hread
          split at hread
          · obtain rfl := Except.error.inj hread
            cases kind <;> cases hmentions
          · cases hread
      obtain ⟨failure, hview⟩ := hview
      unfold Pool.getLatestRoot okOr at hview
      split at hview
      · cases hview
      · next hnone => exact hnone
    · cases h

theorem isKnownRoot_eq_ok {known : Bool} (h : isKnownRoot R s kind root = .ok known) :
    known = (root.map (Pool.isKnownRoot s kind)).getD false := by
  cases root with
  | none => exact (Except.ok.inj h).symm
  | some root => exact (Except.ok.inj (readNative_eq_ok h)).symm

/-- What an answer is made of. -/
theorem isDepositCovered_eq_ok (h : isDepositCovered R env s opts = .ok coverage) :
    coverage.stateRoot = opts.stateRoot.or (s.history .state).getLast? ∧
      coverage.aspRoot = opts.aspRoot.or (s.history .asp).getLast? ∧
      coverage.capacity = Pool.getTreeCapacityInfo env s ∧
      coverage.covered = decide (coverage.reasons.length = 0) ∧
      coverage.reasons =
        rootReasons coverage.stateRoot ((coverage.stateRoot.map (Pool.isKnownRoot s .state)).getD false)
          .«no-state-root» .«unknown-state-root» ++
        rootReasons coverage.aspRoot ((coverage.aspRoot.map (Pool.isKnownRoot s .asp)).getD false)
          .«no-asp-root» .«unknown-asp-root» ++
        (if withdrawalsPauseActive env s then [.«withdrawals-paused»] else []) ++
        (if coverage.capacity.maxCapacity > 0 ∧ coverage.capacity.currentCount ≥ coverage.capacity.maxCapacity then
          [.«tree-at-capacity»] else []) := by
  unfold isDepositCovered at h
  obtain ⟨-, -, h⟩ := bind_eq_ok.mp h
  obtain ⟨latestState, hstate, h⟩ := bind_eq_ok.mp h
  obtain ⟨latestAsp, hasp, h⟩ := bind_eq_ok.mp h
  obtain ⟨depositsPaused, -, h⟩ := bind_eq_ok.mp h
  obtain ⟨withdrawalsPaused, hpaused, h⟩ := bind_eq_ok.mp h
  obtain ⟨capacity, hcapacity, h⟩ := bind_eq_ok.mp h
  obtain ⟨stateRootKnown, hstateKnown, h⟩ := bind_eq_ok.mp h
  obtain ⟨aspRootKnown, haspKnown, h⟩ := bind_eq_ok.mp h
  obtain rfl := pure_eq_ok.mp h
  obtain rfl := getLatestRoot_eq_ok hstate
  obtain rfl := getLatestRoot_eq_ok hasp
  obtain rfl := isKnownRoot_eq_ok hstateKnown
  obtain rfl := isKnownRoot_eq_ok haspKnown
  obtain rfl := Except.ok.inj (readNative_eq_ok hpaused)
  obtain rfl := Except.ok.inj (readNative_eq_ok hcapacity)
  exact ⟨rfl, rfl, rfl, rfl, rfl⟩

end Answers

/-! ## What it says about a withdrawal -/

section Withdrawals

variable {host : Host} {env env' : Env} {w w' : World}

/-- As long as no root of a kind is listed, none of that kind is known. -/
def RootsListed (w : World) : Prop :=
  (w.pool.config = none → ∀ kind, w.pool.history kind = []) ∧
    ∀ kind, w.pool.history kind = [] → ∀ root, w.pool.roots.lookup (kind, root) = none

theorem rootsListed_published {kind : RootKind} {root hash : BytesN 32} {config : PoolConfig}
    (hconfig : w.pool.config = some config) (h : RootsListed w) : RootsListed (published env w kind root hash) := by
  refine ⟨fun hnone => ?_, fun kind' hempty root' => ?_⟩
  · have : w.pool.config = none := hnone
    rw [hconfig] at this
    cases this
  · have hkind : kind' ≠ kind := by
      rintro rfl
      simp [published, pushHistory] at hempty
    have hkey : (kind', root') ≠ (kind, root) := fun heq => hkind (Prod.mk.inj heq).1
    simp only [published, if_neg hkind] at hempty
    simp only [published, Finmap.lookup_insert_of_ne _ hkey]
    exact h.2 kind' hempty root'

theorem rootsListed_effect {call : Call} {r : Ret} (h : RootsListed w) (heffect : Effect host env w call w' r) :
    RootsListed w' := by
  cases heffect with
  | updateStateRoot hadmin | updateAspRoot hadmin => exact rootsListed_published hadmin.stored h
  | initializePool hsigned hfresh =>
    exact ⟨fun _ _ => rfl, fun kind _ root => h.2 kind (h.1 hfresh kind) root⟩
  | setRootExpiry hadmin | transferAdmin hadmin =>
    refine ⟨fun hnone => ?_, h.2⟩
    cases hnone
  | _ => exact h

theorem rootsListed_run (host : Host) (tokens : TokenLedger) (invs : List Invocation) :
    RootsListed ((machine host).final (.deployed tokens) invs) := by
  refine run_invariant (I := fun _ w => RootsListed w) ?_ ?_ ?_ invs
  · exact ⟨fun _ _ => rfl, fun _ _ _ => rfl⟩
  · exact fun _ _ _ _ h => h
  · exact fun _ _ _ _ _ h heffect => rootsListed_effect h heffect

variable {args : WithdrawArgs} {e : PoolError}

/-- The errors about roots come from the checks of the two roots. -/
theorem avoids_withdraw_root (he : e ∈ [PoolError.UnknownStateRoot, .UnknownAspRoot, .RootExpired])
    (hstate : ∀ config, w.pool.config = some config →
      Avoids (.err e) (requireFreshRoot env w.pool config .state args.stateRoot .UnknownStateRoot))
    (hasp : ∀ config, w.pool.config = some config →
      Avoids (.err e) (requireFreshRoot env w.pool config .asp args.aspRoot .UnknownAspRoot)) :
    Avoids (.err e) (withdraw host env w args) := by
  have hne : ∀ {f : PoolError}, f ∉ [PoolError.UnknownStateRoot, .UnknownAspRoot, .RootExpired] →
      (Failure.err f : Failure PoolError) ≠ .err e := by
    rintro f hf ⟨⟩
    exact hf he
  have htrap : ∀ {t : Trap}, (Failure.trap t : Failure PoolError) ≠ .err e := by
    intro t ht
    cases ht
  unfold withdraw
  refine Avoids.bind (avoids_ensure (hne (by decide))) fun _ _ => ?_
  refine Avoids.bind (avoids_expect htrap) fun config hconfig => ?_
  rw [cfg, expect_eq_ok] at hconfig
  refine Avoids.bind (avoids_ensure (hne (by decide))) fun _ _ => ?_
  refine Avoids.bind (avoids_ensure (hne (by decide))) fun _ _ => ?_
  refine Avoids.bind (hstate config hconfig) fun _ _ => ?_
  refine Avoids.bind (hasp config hconfig) fun _ _ => ?_
  refine Avoids.bind (avoids_ensure (hne (by decide))) fun _ _ => ?_
  refine Avoids.bind (avoids_hostCall htrap) fun _ _ => ?_
  refine Avoids.bind (avoids_ensure (hne (by decide))) fun _ _ => ?_
  refine Avoids.bind (I128.avoids_checked htrap) fun _ _ => ?_
  refine Avoids.bind (avoids_ensure (hne (by decide))) fun _ _ => ?_
  refine Avoids.bind (avoids_addChecked htrap) fun _ _ => ?_
  refine Avoids.bind (I128.avoids_checked htrap) fun _ _ => ?_
  refine Avoids.bind TokenLedger.avoids_transferPositive_err fun _ _ => ?_
  exact Avoids.bind TokenLedger.avoids_transferPositive_err fun _ _ => avoids_pure

variable {config : PoolConfig} {kind : RootKind} {root : BytesN 32} {unknown : PoolError}

/-- A root that is known is refused only as expired. -/
theorem avoids_requireFreshRoot_of_known {s : PoolState} (hknown : Pool.isKnownRoot s kind root = true)
    (he : e ≠ .RootExpired) : Avoids (.err e) (requireFreshRoot env s config kind root unknown) := by
  obtain ⟨entry, hentry⟩ := Option.isSome_iff_exists.mp hknown
  unfold requireFreshRoot
  rw [hentry]
  refine Avoids.bind avoids_pure fun _ _ => avoids_ensure ?_
  rintro ⟨⟩
  exact he rfl

theorem avoids_requireFreshRoot_of_fresh {s : PoolState} (hfresh : FreshRoot env s config kind root) :
    Avoids (.err e) (requireFreshRoot env s config kind root unknown) := by
  rw [(requireFreshRoot_eq_ok (u := ())).mpr hfresh]
  exact avoids_pure

/-- A reason about a root of one kind: the root that a withdrawal names is not fresh. -/
theorem not_fresh_of_reason {reason missing unknown : DepositCoverageReason} {given used : Option (BytesN 32)}
    (hlisted : RootsListed w) (hused : used = given.or (w.pool.history kind).getLast?)
    (hreason : reason ∈ rootReasons used ((used.map (Pool.isKnownRoot w.pool kind)).getD false) missing unknown)
    (hroot : ∀ r ∈ used, root = r) : ¬ FreshRoot env w.pool config kind root := by
  rintro ⟨entry, hentry, -⟩
  cases hcase : used with
  | none =>
    rw [hcase, eq_comm, Option.or_eq_none_iff, List.getLast?_eq_none_iff] at hused
    rw [hlisted.2 kind hused.2 root] at hentry
    cases hentry
  | some r =>
    have hknown : Pool.isKnownRoot w.pool kind r = true := by
      rw [← hroot r (by rw [hcase]; rfl), Pool.isKnownRoot, hentry]
      rfl
    simp [rootReasons, hcase, hknown] at hreason

theorem pauseActive_congr {s : PoolState} (h : env'.sequence = env.sequence) :
    withdrawalsPauseActive env' s = withdrawalsPauseActive env s := by
  rw [withdrawalsPauseActive, withdrawalsPauseActive, h]

variable {R : Rpc} {opts : DepositCoverageOptions} {coverage : DepositCoverage}

/-- **A withdrawal that is covered** is not refused as paused or for a root that is unknown, and as expired only
if one of the roots is. -/
theorem covered_withdraw (h : isDepositCovered R env w.pool opts = .ok coverage) (hcovered : coverage.covered = true) :
    ∃ stateRoot aspRoot, coverage.stateRoot = some stateRoot ∧ coverage.aspRoot = some aspRoot ∧
      Pool.isKnownRoot w.pool .state stateRoot = true ∧ Pool.isKnownRoot w.pool .asp aspRoot = true ∧
      ∀ env' args, env'.sequence = env.sequence → args.stateRoot = stateRoot → args.aspRoot = aspRoot →
        Avoids (.err .WithdrawalsPaused) (withdraw host env' w args) ∧
        Avoids (.err .UnknownStateRoot) (withdraw host env' w args) ∧
        Avoids (.err .UnknownAspRoot) (withdraw host env' w args) ∧
        ((∀ config, w.pool.config = some config → FreshRoot env' w.pool config .state stateRoot ∧
          FreshRoot env' w.pool config .asp aspRoot) → Avoids (.err .RootExpired) (withdraw host env' w args)) := by
  obtain ⟨-, -, -, hcov, hreasons⟩ := isDepositCovered_eq_ok h
  rw [hcovered, eq_comm, decide_eq_true_eq, List.length_eq_zero_iff] at hcov
  rw [hcov, eq_comm, List.append_eq_nil_iff, List.append_eq_nil_iff, List.append_eq_nil_iff] at hreasons
  obtain ⟨⟨⟨hstate, hasp⟩, hpause⟩, -⟩ := hreasons
  have hknown : ∀ {kind : RootKind} {used : Option (BytesN 32)} {missing unknown : DepositCoverageReason},
      rootReasons used ((used.map (Pool.isKnownRoot w.pool kind)).getD false) missing unknown = [] →
      ∃ root, used = some root ∧ Pool.isKnownRoot w.pool kind root = true := by
    intro kind used missing unknown hnil
    cases used with
    | none => cases hnil
    | some root => exact ⟨root, rfl, by simpa [rootReasons] using hnil⟩
  obtain ⟨stateRoot, hstateRoot, hstateKnown⟩ := hknown hstate
  obtain ⟨aspRoot, haspRoot, haspKnown⟩ := hknown hasp
  refine ⟨stateRoot, aspRoot, hstateRoot, haspRoot, hstateKnown, haspKnown, ?_⟩
  rintro env' args hledger rfl rfl
  have hinactive : withdrawalsPauseActive env' w.pool = false := by
    rw [pauseActive_congr hledger]
    simpa using hpause
  refine ⟨fun hrefused => ?_, ?_, ?_, fun hfresh => ?_⟩
  · rw [withdraw_paused_iff, hinactive] at hrefused
    cases hrefused
  · exact avoids_withdraw_root (by simp)
      (fun _ _ => avoids_requireFreshRoot_of_known hstateKnown (by decide))
      (fun _ _ => avoids_requireFreshRoot_of_known haspKnown (by decide))
  · exact avoids_withdraw_root (by simp)
      (fun _ _ => avoids_requireFreshRoot_of_known hstateKnown (by decide))
      (fun _ _ => avoids_requireFreshRoot_of_known haspKnown (by decide))
  · exact avoids_withdraw_root (by simp)
      (fun config hconfig => avoids_requireFreshRoot_of_fresh (hfresh config hconfig).1)
      (fun config hconfig => avoids_requireFreshRoot_of_fresh (hfresh config hconfig).2)

/-- **A reason is real**: the tree is full, or every withdrawal with these roots fails. -/
theorem reason_withdraw (hlisted : RootsListed w) (h : isDepositCovered R env w.pool opts = .ok coverage)
    {reason : DepositCoverageReason} (hreason : reason ∈ coverage.reasons) :
    (reason = .«tree-at-capacity» ∧ Capacity.isTreeAtCapacity env w.pool = true) ∨
      ∀ env' args, env'.sequence = env.sequence → (∀ root ∈ coverage.stateRoot, args.stateRoot = root) →
        (∀ root ∈ coverage.aspRoot, args.aspRoot = root) → ∃ failure, withdraw host env' w args = .error failure := by
  obtain ⟨hstate, hasp, hcapacity, -, hreasons⟩ := isDepositCovered_eq_ok h
  have hfails : ∀ env' args, (¬ ∃ config, Admitted host env' w.pool args config) →
      ∃ failure, withdraw host env' w args = .error failure := by
    intro env' args hno
    cases hresult : withdraw host env' w args with
    | error failure => exact ⟨failure, rfl⟩
    | ok w' =>
      obtain ⟨config, hcompletes⟩ := (withdraw_effect hresult).completes
      exact absurd ⟨config, hcompletes.admitted⟩ hno
  rw [hreasons, List.mem_append, List.mem_append, List.mem_append] at hreason
  rcases hreason with ((hreason | hreason) | hreason) | hreason
  · right
    intro env' args _ hroot _
    refine hfails env' args ?_
    rintro ⟨config, hadmitted⟩
    exact not_fresh_of_reason hlisted hstate hreason hroot hadmitted.stateFresh
  · right
    intro env' args _ _ hroot
    refine hfails env' args ?_
    rintro ⟨config, hadmitted⟩
    exact not_fresh_of_reason hlisted hasp hreason hroot hadmitted.aspFresh
  · right
    intro env' args hledger _ _
    refine hfails env' args ?_
    rintro ⟨config, hadmitted⟩
    have hunpaused := hadmitted.unpaused
    rw [pauseActive_congr hledger] at hunpaused
    simp [hunpaused] at hreason
  · left
    split at hreason
    · next hfull =>
      refine ⟨List.mem_singleton.mp hreason, ?_⟩
      rw [hcapacity] at hfull
      exact decide_eq_true hfull.2
    · cases hreason

end Withdrawals

/-- **The answer about a deposit**, in every state that a pool can get into. -/
theorem deposit_coverage (host : Host) (tokens : TokenLedger) (invs : List Invocation) (R : Rpc) (env : Env)
    (opts : DepositCoverageOptions) (coverage : DepositCoverage) :
    let w := (machine host).final (.deployed tokens) invs
    isDepositCovered R env w.pool opts = .ok coverage →
    (coverage.covered = true → ∃ stateRoot aspRoot, coverage.stateRoot = some stateRoot ∧
      coverage.aspRoot = some aspRoot ∧ Pool.isKnownRoot w.pool .state stateRoot = true ∧
      Pool.isKnownRoot w.pool .asp aspRoot = true ∧
      ∀ env' args, env'.sequence = env.sequence → args.stateRoot = stateRoot → args.aspRoot = aspRoot →
        Avoids (.err .WithdrawalsPaused) (withdraw host env' w args) ∧
        Avoids (.err .UnknownStateRoot) (withdraw host env' w args) ∧
        Avoids (.err .UnknownAspRoot) (withdraw host env' w args) ∧
        ((∀ config, w.pool.config = some config → FreshRoot env' w.pool config .state stateRoot ∧
          FreshRoot env' w.pool config .asp aspRoot) → Avoids (.err .RootExpired) (withdraw host env' w args))) ∧
    (coverage.covered = false → coverage.reasons ≠ []) ∧
    ∀ reason ∈ coverage.reasons,
      (reason = .«tree-at-capacity» ∧ Capacity.isTreeAtCapacity env w.pool = true) ∨
        ∀ env' args, env'.sequence = env.sequence → (∀ root ∈ coverage.stateRoot, args.stateRoot = root) →
          (∀ root ∈ coverage.aspRoot, args.aspRoot = root) →
          ∃ failure, withdraw host env' w args = .error failure := by
  intro w h
  refine ⟨covered_withdraw h, fun hcovered hnil => ?_,
    fun reason hreason => reason_withdraw (rootsListed_run host tokens invs) h hreason⟩
  obtain ⟨-, -, -, hcov, -⟩ := isDepositCovered_eq_ok h
  rw [hcovered, hnil] at hcov
  cases hcov

namespace Demo

def rpc : Rpc where
  describe _ := []
  fails _ := false
  source := .ok ()

def opts : DepositCoverageOptions := ⟨none, none⟩

/-- Both roots are published, the second at ledger 13. -/
def world : World := (machine Pool.Demo.host).final (.deployed Pool.Demo.tokens) Pool.Demo.setup

/-- When both roots have expired. -/
def later : Env := Pool.Demo.env 20000 Pool.Demo.user

def coverage : DepositCoverage where
  covered := true
  stateRoot := some Pool.Demo.args.stateRoot
  aspRoot := some Pool.Demo.args.aspRoot
  stateRootKnown := true
  aspRootKnown := true
  reasons := []
  capacity := ⟨1000000, 1, 20, 11⟩
  depositsPaused := false
  withdrawalsPaused := false

end Demo

/-- The demonstration withdrawal is covered, and passes the checks. -/
theorem deposit_coverage_demo : Demo.coverage.covered = true ∧
    Avoids (.err .WithdrawalsPaused) (withdraw Pool.Demo.host Pool.Demo.spend.env Demo.world Pool.Demo.args) ∧
    Avoids (.err .UnknownAspRoot) (withdraw Pool.Demo.host Pool.Demo.spend.env Demo.world Pool.Demo.args) := by
  have hanswer : isDepositCovered Demo.rpc Pool.Demo.spend.env Demo.world.pool Demo.opts = .ok Demo.coverage := by
    decide
  obtain ⟨stateRoot, aspRoot, hstate, hasp, -, -, hpasses⟩ := (deposit_coverage Pool.Demo.host Pool.Demo.tokens
    Pool.Demo.setup Demo.rpc Pool.Demo.spend.env Demo.opts Demo.coverage hanswer).1 rfl
  obtain ⟨hpaused, -, hunknown, -⟩ := hpasses Pool.Demo.spend.env Pool.Demo.args rfl (Option.some.inj hstate)
    (Option.some.inj hasp)
  exact ⟨rfl, hpaused, hunknown⟩

/-! ## A full tree -/

/-- The checks of a deposit, its index and its counters are all that can stop it. -/
theorem deposit_of_ready {host : Host} {env : Env} {w : World} {depositor : Address} {value : I128}
    {commitment : BytesN 32} {config : PoolConfig} {paid : TokenLedger} (hsigned : depositor ∈ env.auths)
    (hforeign : depositor ≠ host.self) (hunpaused : w.pool.depositsPaused = false) (hpositive : 0 < value.val)
    (hstored : w.pool.config = some config) (hroom : Capacity.isTreeAtCapacity env w.pool = false)
    (hpaid : (w.tokens.transfer env config.nativeSac depositor host.self value : Result PoolError TokenLedger) =
      .ok paid)
    (hindex : w.pool.depCount + 1 < 2 ^ 64)
    (hcount : (Capacity.getTreeCapacity env w.pool).currentCount + 1 < 2 ^ 64)
    (htotal : 0 ≤ w.pool.totDep.val ∧ w.pool.totDep.val + value.val < 2 ^ 127) :
    ∃ w', deposit host env w depositor value commitment w.pool.depCount = .ok (w', w.pool.depCount) := by
  obtain ⟨counted, hcounted⟩ : ∃ counted, Capacity.incrementCommitmentCount env { w with
      tokens := paid
      pool.commitments := w.pool.commitments.insert commitment w.pool.depCount
      pool.depCount := w.pool.depCount + 1 } = .ok counted := by
    simp only [Capacity.incrementCommitmentCount, bind_eq_ok, addChecked_eq_ok, pure_eq_ok]
    exact ⟨_, _, ⟨hcount, rfl⟩, rfl⟩
  have htotDep : counted.pool.totDep = w.pool.totDep := by
    obtain ⟨alert, alerts, -, rfl⟩ := incrementCommitmentCount_eq_ok hcounted
    rfl
  simp only [deposit, cfg, bind_eq_ok, Env.requireAuth_eq_ok, exists_const, expect_eq_ok, ensure_eq_ok, pure_eq_ok,
    I128.checked_eq_ok, addChecked_eq_ok, Prod.mk.injEq]
  refine ⟨_, ⟨hsigned, hforeign⟩, hunpaused, hpositive, config, hstored, trivial, hroom, paid, hpaid, _,
    ⟨hindex, rfl⟩, counted, hcounted, ⟨w.pool.totDep.val + value.val, by omega, by omega⟩, ?_, rfl, trivial⟩
  rw [htotDep]

theorem exists_transfer {env : Env} {t : TokenLedger} {token src dst : Address} {amount : I128} (hne : dst ≠ src)
    (hamount : 0 ≤ amount.val) (hrefuses : env.refuses token src dst = false) (hcovered : amount.val ≤ t token src)
    (hroom : t token dst + amount.val < 2 ^ 127) :
    ∃ t', (t.transfer env token src dst amount : Result PoolError TokenLedger) = .ok t' := by
  simp only [TokenLedger.transfer, bind_eq_ok, ensure_eq_ok, exists_const, pure_eq_ok]
  refine ⟨_, hamount, hrefuses, hcovered, ?_, rfl⟩
  rwa [TokenLedger.set, if_neg fun heq => hne heq.2]

theorem step_publish {host : Host} {env : Env} {w : World} {admin : Address} {root hash : BytesN 32}
    {config : PoolConfig} {kind : RootKind} (h : ByAdmin host env w.pool admin config) :
    step host w ⟨env, publishCall kind admin root hash⟩ = (published env w kind root hash, .ok .unit) := by
  have hpublish : publishRoot host env w admin root hash kind = .ok (published env w kind root hash) := by
    rw [publishRoot, requireAdmin_eq_ok.mpr h]
    rfl
  refine step_of_ok host ?_
  cases kind with
  | state | asp =>
    show (publishRoot host env w admin root hash _ >>= _) = _
    rw [hpublish]
    rfl

namespace FullTree

def token : Address := Pool.Demo.contract 2

def config : PoolConfig where
  admin := Pool.Demo.admin
  groth16Verifier := Pool.Demo.contract 1
  nativeSac := token
  scope := 9
  rootExpiryLedgers := DEFAULT_ROOT_EXPIRY_LEDGERS

def tokens : TokenLedger := fun _ holder => if holder = Pool.Demo.user then Capacity.MAX_COMMITMENTS else 0

def start : Invocation := ⟨Pool.Demo.env 10 Pool.Demo.admin, .initializePool config.admin config.groth16Verifier
  config.nativeSac config.scope⟩

/-- A deposit of one, at this index. -/
def depositAt (index : ℕ) : Invocation :=
  ⟨Pool.Demo.env 11 Pool.Demo.user,
    .deposit Pool.Demo.user (I128.ofNat 1 I128.one_lt) (BytesN.ofNat 32 8) index⟩

def fill (n : ℕ) : List Invocation := start :: (List.range n).map depositAt

def publish : List Invocation := [
  ⟨Pool.Demo.env 12 Pool.Demo.admin, .updateStateRoot Pool.Demo.admin Pool.Demo.args.stateRoot (BytesN.ofNat 32 0)⟩,
  ⟨Pool.Demo.env 13 Pool.Demo.admin, .updateAspRoot Pool.Demo.admin Pool.Demo.args.aspRoot (BytesN.ofNat 32 0)⟩]

/-- After that many deposits. -/
structure Filled (n : ℕ) (w : World) : Prop where
  stored : w.pool.config = some config
  unpaused : w.pool.depositsPaused = false
  unrequested : w.pool.wdPauseRequest = NO_PAUSE_REQUEST
  depCount : w.pool.depCount = n
  capacity : ∃ time, w.pool.treeCapacity = some ⟨Capacity.MAX_COMMITMENTS, n, Capacity.TREE_DEPTH, time⟩
  totDep : w.pool.totDep.val = n
  totWd : w.pool.totWd.val = 0
  nullifiers : w.pool.nullifiers = ∅
  minimum : Withdrawal.getMinimumWithdrawalAmount w.pool = 0
  user : (w.tokens token Pool.Demo.user : ℤ) = Capacity.MAX_COMMITMENTS - n
  pool : (w.tokens token Pool.Demo.host.self : ℤ) = n
  others : ∀ holder, holder ≠ Pool.Demo.user → holder ≠ Pool.Demo.host.self → w.tokens token holder = 0

theorem filled_start : Filled 0 ((machine Pool.Demo.host).final (.deployed tokens) [start]) := by
  refine ⟨rfl, rfl, rfl, rfl, ⟨10, rfl⟩, rfl, rfl, rfl, rfl, rfl, rfl, ?_⟩
  intro holder hne _
  exact if_neg hne

theorem filled_deposit {n : ℕ} {w : World} (h : Filled n w) (hn : n < Capacity.MAX_COMMITMENTS) :
    Filled (n + 1) (step Pool.Demo.host w (depositAt n)).1 := by
  obtain ⟨time, hcapacity⟩ := h.capacity
  have hbound : Capacity.MAX_COMMITMENTS = 1000000 := rfl
  have huser := h.user
  have hpool := h.pool
  have htotal := h.totDep
  have hone : (I128.ofNat 1 I128.one_lt).val = 1 := rfl
  have hne : Pool.Demo.host.self ≠ Pool.Demo.user := by decide
  obtain ⟨paid, hpaid⟩ : ∃ paid, (w.tokens.transfer (depositAt n).env token Pool.Demo.user Pool.Demo.host.self
      (I128.ofNat 1 I128.one_lt) : Result PoolError TokenLedger) = .ok paid := by
    exact exists_transfer hne (by decide) rfl (by omega) (by omega)
  have hroom : Capacity.isTreeAtCapacity (depositAt n).env w.pool = false := by
    simp [Capacity.isTreeAtCapacity, Capacity.getTreeCapacity, hcapacity, hn]
  have hcount : (Capacity.getTreeCapacity (depositAt n).env w.pool).currentCount + 1 < 2 ^ 64 := by
    rw [Capacity.getTreeCapacity, hcapacity]
    show n + 1 < 2 ^ 64
    omega
  have hready : ∃ w', deposit Pool.Demo.host (depositAt n).env w Pool.Demo.user (I128.ofNat 1 I128.one_lt)
      (BytesN.ofNat 32 8) w.pool.depCount = .ok (w', w.pool.depCount) :=
    deposit_of_ready (List.mem_singleton_self _) hne.symm h.unpaused (by decide) h.stored hroom hpaid
      (by rw [h.depCount]; omega) hcount (by omega)
  obtain ⟨w', hw'⟩ := hready
  rw [h.depCount] at hw'
  have hexec : exec Pool.Demo.host (depositAt n).env w (depositAt n).call = .ok (w', .index n) := by
    show (deposit _ _ _ _ _ _ _ >>= _) = _
    rw [hw']
    rfl
  rw [step_of_ok Pool.Demo.host hexec]
  cases deposit_effect hw' with
  | @deposit _ _ _ config' tokens totDep _ _ _ _ _ _ stored _ transferred total =>
    obtain rfl : config' = config := Option.some.inj (stored.symm.trans h.stored)
    obtain ⟨-, -, hbalance⟩ := TokenLedger.transfer_eq_ok transferred
    refine ⟨h.stored, h.unpaused, h.unrequested, rfl, ⟨11, ?_⟩, ?_, h.totWd, h.nullifiers, h.minimum, ?_, ?_, ?_⟩
    · simp [Capacity.getTreeCapacity, hcapacity, depositAt, Pool.Demo.env]
    · rw [total, htotal, hone]
      push_cast
      ring
    · rw [hbalance token Pool.Demo.user, huser]
      simp [TokenLedger.gain, hne.symm, hone, config]
      omega
    · rw [hbalance token Pool.Demo.host.self, hpool]
      simp [TokenLedger.gain, hne, hone, config]
    · intro holder huser hpool
      have hsame := hbalance token holder
      rw [h.others holder huser hpool] at hsame
      simpa [TokenLedger.gain, huser, hpool] using hsame

theorem filled_fill {n : ℕ} (hn : n ≤ Capacity.MAX_COMMITMENTS) :
    Filled n ((machine Pool.Demo.host).final (.deployed tokens) (fill n)) := by
  induction n with
  | zero => exact filled_start
  | succ n ih =>
    have hfill : fill (n + 1) = fill n ++ [depositAt n] := by simp [fill, List.range_succ]
    rw [hfill, Machine.final_snoc]
    exact filled_deposit (ih (by omega)) (by omega)

/-- The full tree, with its roots. -/
def full (w : World) : World :=
  published (Pool.Demo.env 13 Pool.Demo.admin) (published (Pool.Demo.env 12 Pool.Demo.admin) w .state
    Pool.Demo.args.stateRoot (BytesN.ofNat 32 0)) .asp Pool.Demo.args.aspRoot (BytesN.ofNat 32 0)

theorem final_publish {n : ℕ} {w : World} (h : Filled n w) : (machine Pool.Demo.host).final w publish = full w := by
  have hstate : step Pool.Demo.host w ⟨Pool.Demo.env 12 Pool.Demo.admin, .updateStateRoot Pool.Demo.admin
      Pool.Demo.args.stateRoot (BytesN.ofNat 32 0)⟩ = _ :=
    @step_publish _ _ _ _ _ _ _ .state ⟨List.mem_singleton_self _, by decide, h.stored, rfl⟩
  have hasp : step Pool.Demo.host (published (Pool.Demo.env 12 Pool.Demo.admin) w .state Pool.Demo.args.stateRoot
      (BytesN.ofNat 32 0)) ⟨Pool.Demo.env 13 Pool.Demo.admin, .updateAspRoot Pool.Demo.admin
      Pool.Demo.args.aspRoot (BytesN.ofNat 32 0)⟩ = _ :=
    @step_publish _ _ _ _ _ _ _ .asp ⟨List.mem_singleton_self _, by decide, h.stored, rfl⟩
  show (step _ (step _ w _).1 _).1 = _
  rw [hstate, hasp]
  rfl

def coverage (lastUpdated : ℕ) : DepositCoverage where
  covered := false
  stateRoot := some Pool.Demo.args.stateRoot
  aspRoot := some Pool.Demo.args.aspRoot
  stateRootKnown := true
  aspRootKnown := true
  reasons := [.«tree-at-capacity»]
  capacity := ⟨Capacity.MAX_COMMITMENTS, Capacity.MAX_COMMITMENTS, Capacity.TREE_DEPTH, lastUpdated⟩
  depositsPaused := false
  withdrawalsPaused := false

theorem covered_full {w : World} (h : Filled Capacity.MAX_COMMITMENTS w) :
    ∃ lastUpdated, isDepositCovered Demo.rpc Pool.Demo.spend.env (full w).pool Demo.opts =
      .ok (coverage lastUpdated) := by
  obtain ⟨time, hcapacity⟩ := h.capacity
  have hstate : getLatestRoot Demo.rpc (full w).pool .state = .ok (some Pool.Demo.args.stateRoot) := by
    simp [getLatestRoot, readNative, Demo.rpc, Pool.getLatestRoot, full, published, getLast?_pushHistory, okOr]
  have hasp : getLatestRoot Demo.rpc (full w).pool .asp = .ok (some Pool.Demo.args.aspRoot) := by
    simp [getLatestRoot, readNative, Demo.rpc, Pool.getLatestRoot, full, published, getLast?_pushHistory, okOr]
  have hdeposits : readNative Demo.rpc .isDepositsPaused (.ok (Pool.isDepositsPaused (full w).pool)) = .ok false :=
    congrArg Except.ok h.unpaused
  have hwithdrawals : readNative Demo.rpc .isWithdrawalsPaused
      (.ok (Pool.isWithdrawalsPaused Pool.Demo.spend.env (full w).pool)) = .ok false :=
    congrArg Except.ok (if_pos h.unrequested)
  have hinfo : readNative Demo.rpc .getTreeCapacityInfo
      (.ok (Pool.getTreeCapacityInfo Pool.Demo.spend.env (full w).pool)) = .ok (coverage time).capacity :=
    congrArg (fun info => Except.ok (Option.getD info _)) hcapacity
  have hstateKnown : isKnownRoot Demo.rpc (full w).pool .state (some Pool.Demo.args.stateRoot) = .ok true := by
    simp [isKnownRoot, readNative, Demo.rpc, Pool.isKnownRoot, full, published, Finmap.lookup_insert_of_ne]
  have haspKnown : isKnownRoot Demo.rpc (full w).pool .asp (some Pool.Demo.args.aspRoot) = .ok true := by
    simp [isKnownRoot, readNative, Demo.rpc, Pool.isKnownRoot, full, published]
  refine ⟨time, bind_eq_ok.mpr ⟨(), rfl, bind_eq_ok.mpr ⟨_, hstate, bind_eq_ok.mpr ⟨_, hasp, bind_eq_ok.mpr
    ⟨_, hdeposits, bind_eq_ok.mpr ⟨_, hwithdrawals, bind_eq_ok.mpr ⟨_, hinfo, bind_eq_ok.mpr ⟨_, hstateKnown,
      bind_eq_ok.mpr ⟨_, haspKnown, rfl⟩⟩⟩⟩⟩⟩⟩⟩⟩

set_option maxRecDepth 100000 in
theorem verified_spend : Pool.Demo.host.verifyProofV3 config.groth16Verifier Pool.Demo.args.proofA
    Pool.Demo.args.proofB Pool.Demo.args.proofC (Pool.Demo.args.publicInputs Pool.Demo.host config.scope) =
    some true := by
  decide

theorem withdraw_full {w : World} (h : Filled Capacity.MAX_COMMITMENTS w) :
    ∃ w', withdraw Pool.Demo.host Pool.Demo.spend.env (full w) Pool.Demo.args = .ok w' := by
  have hbound : Capacity.MAX_COMMITMENTS = 1000000 := rfl
  have hpool := h.pool
  have htotal := h.totDep
  have hwithdrawn := h.totWd
  have hdepCount := h.depCount
  have hvalue : Pool.Demo.args.withdrawnValue.val = 5 := rfl
  have hfee : Pool.Demo.args.fee.val = 1 := rfl
  have hpayout : (I128.ofNat 4 (by decide)).val = 4 := rfl
  have hne : Pool.Demo.args.recipient ≠ Pool.Demo.host.self := by decide
  have hne' : Pool.Demo.args.relayer ≠ Pool.Demo.host.self := by decide
  have hother : Pool.Demo.args.relayer ≠ Pool.Demo.args.recipient := by decide
  have hrecipient : w.tokens token Pool.Demo.args.recipient = 0 := h.others _ (by decide) hne
  have hrelayer : w.tokens token Pool.Demo.args.relayer = 0 := h.others _ (by decide) hne'
  obtain ⟨paid, hpaid⟩ : ∃ paid, (w.tokens.transfer Pool.Demo.spend.env token Pool.Demo.host.self
      Pool.Demo.args.recipient (I128.ofNat 4 (by decide)) : Result PoolError TokenLedger) = .ok paid := by
    refine exists_transfer hne (by decide) rfl ?_ ?_ <;> omega
  obtain ⟨-, -, hbalance⟩ := TokenLedger.transfer_eq_ok hpaid
  have hpoolPaid : (paid token Pool.Demo.host.self : ℤ) = 1000000 - 4 := by
    rw [hbalance, TokenLedger.gain_src hne, hpool, hpayout, hbound]
    norm_num
  have hrelayerPaid : (paid token Pool.Demo.args.relayer : ℤ) = 0 := by
    rw [hbalance, hrelayer]
    simp [TokenLedger.gain, hne', hother]
  obtain ⟨last, hlast⟩ : ∃ last, (paid.transfer Pool.Demo.spend.env token Pool.Demo.host.self
      Pool.Demo.args.relayer Pool.Demo.args.fee : Result PoolError TokenLedger) = .ok last := by
    refine exists_transfer hne' (by decide) rfl ?_ ?_ <;> omega
  have hunpaused : withdrawalsPauseActive Pool.Demo.spend.env (full w).pool = false := if_pos h.unrequested
  refine @withdraw_of_completes _ _ _ _ config ⟨⟨h.stored, hunpaused, by decide, by decide, by decide, ?_, ?_, ?_, ?_,
    verified_spend, ?_⟩, ?_, I128.ofNat 4 (by decide), paid, last, rfl, ?_, ?_⟩
  · show decide (Withdrawal.getMinimumWithdrawalAmount w.pool ≤ _) = true
    rw [h.minimum]
    exact decide_eq_true (Nat.zero_le _)
  · exact ⟨⟨12, BytesN.ofNat 32 0⟩, by simp [full, published, Finmap.lookup_insert_of_ne, Pool.Demo.env], by decide⟩
  · exact ⟨⟨13, BytesN.ofNat 32 0⟩, by simp [full, published, Pool.Demo.env], by decide⟩
  · show w.pool.nullifiers.lookup _ = none
    rw [h.nullifiers]
    rfl
  · show w.pool.totWd.val + Pool.Demo.args.withdrawnValue.val ≤ w.pool.totDep.val
    omega
  · show w.pool.depCount + 1 < 2 ^ 64
    omega
  · unfold payPositive TokenLedger.transferPositive
    exact (if_pos (by decide)).trans hpaid
  · unfold payPositive TokenLedger.transferPositive
    exact (if_pos (by decide)).trans hlast

end FullTree

/-- Roots that have expired are covered, and a full tree is not; the withdrawal is refused in the one state and
goes through in the other. -/
theorem deposit_coverage_expired :
    (isDepositCovered Demo.rpc Demo.later Demo.world.pool Demo.opts = .ok Demo.coverage ∧
      Demo.coverage.covered = true ∧
      (step Pool.Demo.host Demo.world ⟨Demo.later, .withdraw Pool.Demo.args⟩).2 = .error (.err .RootExpired)) ∧
    ∃ lastUpdated, isDepositCovered Demo.rpc Pool.Demo.spend.env
        ((machine Pool.Demo.host).final (.deployed FullTree.tokens)
          (FullTree.fill Capacity.MAX_COMMITMENTS ++ FullTree.publish)).pool Demo.opts =
          .ok (FullTree.coverage lastUpdated) ∧
      (FullTree.coverage lastUpdated).covered = false ∧
      ∃ w', withdraw Pool.Demo.host Pool.Demo.spend.env
        ((machine Pool.Demo.host).final (.deployed FullTree.tokens)
          (FullTree.fill Capacity.MAX_COMMITMENTS ++ FullTree.publish)) Pool.Demo.args = .ok w' := by
  have hfilled := FullTree.filled_fill le_rfl
  rw [Machine.final_append, FullTree.final_publish hfilled]
  obtain ⟨lastUpdated, hcovered⟩ := FullTree.covered_full hfilled
  exact ⟨⟨by decide, rfl, by decide⟩, lastUpdated, hcovered, rfl, FullTree.withdraw_full hfilled⟩

end OpaqueStellar.Pool.Coverage
