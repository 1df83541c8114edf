import OpaqueStellar.Registry.Jobs
import OpaqueStellar.Registry.Slashes

/-! # The relayer registry: stake on its way out

`request_unstake` moves free stake into a pending amount, which `withdraw_stake` pays out once the
cooldown is over, and a missed deadline cuts on the way. The record keeps an amount and a ledger
that the next request overwrites. `Unbonding` is the account they stand for, moved by what happened
in the run. -/

namespace OpaqueStellar.Registry

open OpaqueStellar.Lib OpaqueStellar.Soroban

/-- The pending amount, the ledger it is locked until, and whether `withdraw_stake` pays it now. -/
def getUnbondingStatus (env : Env) (s : RegistryState) (operator : Address) :
    Result RegistryError (I128 × ℕ × Bool) := do
  let relayer ← readRelayer s operator
  let isUnlockable := decide
    (0 < relayer.pendingUnstake.val ∧ relayer.unstakeUnlockLedger ≤ env.sequence)
  pure (relayer.pendingUnstake, relayer.unstakeUnlockLedger, isUnlockable)

/-! ## The account -/

inductive UnbondingMove where
  | requested (amount : ℤ) (ledger cooldown : ℕ)
  | withdrawn
  | cut (fee : ℤ)

structure Unbonding where
  pending : ℤ
  unlock : ℕ

namespace Unbonding

def idle : Unbonding := ⟨0, 0⟩

def move (a : Unbonding) : UnbondingMove → Unbonding
  | .requested amount ledger cooldown => ⟨a.pending + amount, saturatingAdd ledger cooldown⟩
  | .withdrawn => idle
  | .cut fee =>
      if 0 < a.pending then
        let left := a.pending - min a.pending fee
        ⟨left, if left = 0 then 0 else a.unlock⟩
      else a

/-- What a request asks for and what a missed job costs is positive. -/
def Sane : UnbondingMove → Prop
  | .requested amount _ _ => 0 < amount
  | .withdrawn => True
  | .cut fee => 0 < fee

/-- What is pending is locked for the whole cooldown of the latest request, and since then nothing
was paid. -/
structure Locked (moves : List UnbondingMove) (a : Unbonding) : Prop where
  nonneg : 0 ≤ a.pending
  free : a.pending = 0 → a.unlock = 0
  waiting : 0 < a.pending → ∃ before amount ledger cooldown cuts,
    moves = before ++ .requested amount ledger cooldown :: cuts ∧
    (∀ m ∈ cuts, ∃ fee, m = .cut fee) ∧ a.unlock = saturatingAdd ledger cooldown

theorem locked_idle (moves : List UnbondingMove) : Locked moves idle := by
  refine ⟨le_refl _, fun _ => rfl, ?_⟩
  intro h
  exact absurd h (lt_irrefl _)

theorem Locked.move {moves : List UnbondingMove} {a : Unbonding} {m : UnbondingMove}
    (h : Locked moves a) (hm : Sane m) : Locked (moves ++ [m]) (a.move m) := by
  cases m with
  | requested amount ledger cooldown =>
    have hnonneg := h.nonneg
    have hamount : 0 < amount := hm
    refine ⟨?_, ?_, ?_⟩
    · show 0 ≤ a.pending + amount
      omega
    · show a.pending + amount = 0 → _
      omega
    · intro _
      exact ⟨moves, amount, ledger, cooldown, [], rfl, List.forall_mem_nil _, rfl⟩
  | withdrawn => exact locked_idle _
  | cut fee =>
    have hfee : 0 < fee := hm
    have hsnoc : 0 < a.pending → ∃ before amount ledger cooldown cuts,
        moves ++ [.cut fee] = before ++ .requested amount ledger cooldown :: cuts ∧
        (∀ m ∈ cuts, ∃ fee, m = .cut fee) ∧ a.unlock = saturatingAdd ledger cooldown := by
      intro hpos
      obtain ⟨before, amount, ledger, cooldown, cuts, rfl, hcuts, hunlock⟩ := h.waiting hpos
      refine ⟨before, amount, ledger, cooldown, cuts ++ [.cut fee], ?_, ?_, hunlock⟩
      · simp
      · intro m hmem
        rcases List.mem_append.mp hmem with hmem | hmem
        · exact hcuts m hmem
        · exact ⟨fee, List.mem_singleton.mp hmem⟩
    unfold Unbonding.move
    simp only
    split
    · next hpos =>
      refine ⟨?_, ?_, ?_⟩
      · show 0 ≤ a.pending - min a.pending fee
        omega
      · intro hzero
        exact if_pos hzero
      · intro hleft
        have hne : a.pending - min a.pending fee ≠ 0 := hleft.ne'
        simp only [if_neg hne]
        exact hsnoc hpos
    · exact ⟨h.nonneg, h.free, hsnoc⟩

theorem locked_foldl {moves : List UnbondingMove} (h : ∀ m ∈ moves, Sane m) :
    Locked moves (moves.foldl Unbonding.move idle) := by
  induction moves using List.reverseRecOn with
  | nil => exact locked_idle _
  | append_singleton moves m ih =>
    rw [List.foldl_append]
    apply (ih ?_).move
    · exact h m (List.mem_append_right _ (List.mem_singleton.mpr rfl))
    · intro m' hm'
      exact h m' (List.mem_append_left _ hm')

end Unbonding

/-! ## The account in a run -/

section Runs

variable {host : Host} {env : Env} {w w' : World} {k : Address}

/-- What a step does to the pending stake of `k`. -/
def unbondingMove (k : Address) (e : RegistryStep) : Option UnbondingMove :=
  match e.input, e.output with
  | .registry env (.requestUnstake operator amount), .registry (.ok ()) =>
      if operator = k then e.pre.registry.config.map fun config =>
        .requested amount.val env.sequence config.unstakeCooldownLedgers
      else none
  | .registry _ (.withdrawStake operator), .registry (.ok ()) =>
      if operator = k then some .withdrawn else none
  | .registry _ (.slashJob _ jobId), .registry (.ok ()) =>
      (e.pre.registry.jobs.lookup jobId).bind fun job =>
        if job.acceptedRelayer = some k then some (.cut job.fee.val) else none
  | _, _ => none

def unbondingMoves (k : Address) (t : List RegistryStep) : List UnbondingMove :=
  t.filterMap (unbondingMove k)

/-- The account that the record of `k` keeps. -/
def recordOf (relayers : Store Address RelayerRecord) (k : Address) : Unbonding :=
  match relayers.lookup k with
  | some r => ⟨r.pendingUnstake.val, r.unstakeUnlockLedger⟩
  | none => .idle

theorem recordOf_of_read {relayers : Store Address RelayerRecord} {r : RelayerRecord}
    (h : relayers.lookup k = some r) :
    recordOf relayers k = ⟨r.pendingUnstake.val, r.unstakeUnlockLedger⟩ := by
  simp only [recordOf, h]

theorem recordOf_insert (relayers : Store Address RelayerRecord) (new : RelayerRecord) (k : Address) :
    recordOf (relayers.insert new.operator new) k =
      if new.operator = k then ⟨new.pendingUnstake.val, new.unstakeUnlockLedger⟩
      else recordOf relayers k := by
  split
  · next h =>
    apply recordOf_of_read
    rw [← h]
    exact Finmap.lookup_insert _
  · next h =>
    unfold recordOf
    rw [Finmap.lookup_insert_of_ne _ (Ne.symm h)]

/-- A write that leaves what is pending as it was. -/
theorem recordOf_kept {relayers : Store Address RelayerRecord} {operator : Address}
    {r new : RelayerRecord} (hread : relayers.lookup operator = some r)
    (hkey : new.operator = operator) (hpending : new.pendingUnstake = r.pendingUnstake)
    (hunlock : new.unstakeUnlockLedger = r.unstakeUnlockLedger) (k : Address) :
    recordOf (relayers.insert new.operator new) k = recordOf relayers k := by
  rw [recordOf_insert, hkey, hpending, hunlock]
  split
  · next h =>
    rw [h] at hread
    exact (recordOf_of_read hread).symm
  · rfl

theorem slashPending_account {relayer slashed : RelayerRecord} {fee : I128}
    (h : slashPending relayer fee = .ok slashed) : slashed.operator = relayer.operator ∧
      (⟨slashed.pendingUnstake.val, slashed.unstakeUnlockLedger⟩ : Unbonding) =
        Unbonding.move ⟨relayer.pendingUnstake.val, relayer.unstakeUnlockLedger⟩ (.cut fee.val) := by
  unfold slashPending at h
  split at h
  · next hpos =>
    simp only [bind_eq_ok, I128.checked_eq_ok, pure_eq_ok] at h
    obtain ⟨pending, hpending, rfl⟩ := h
    refine ⟨rfl, ?_⟩
    simp only [Unbonding.move, hpos, if_true, hpending]
  · next hpos =>
    rw [pure_eq_ok] at h
    subst h
    refine ⟨rfl, ?_⟩
    simp only [Unbonding.move, hpos, if_false]

theorem deductSlash_pending {relayer slashed : RelayerRecord} {slash : ℕ}
    (h : deductSlash relayer slash = .ok slashed) : slashed.operator = relayer.operator ∧
      slashed.pendingUnstake = relayer.pendingUnstake ∧
      slashed.unstakeUnlockLedger = relayer.unstakeUnlockLedger := by
  simp only [deductSlash, bind_eq_ok] at h
  obtain ⟨bonded, -, h⟩ := h
  split at h
  · simp only [bind_eq_ok, pure_eq_ok] at h
    obtain ⟨free, -, rfl⟩ := h
    exact ⟨rfl, rfl, rfl⟩
  · rw [pure_eq_ok] at h
    subst h
    exact ⟨rfl, rfl, rfl⟩

/-- **A call moves the account of `k` as its record.** -/
theorem recordOf_effect {call : Call} (hs : Stocked w.registry) (h : Effect host env w call w')
    (k : Address) : recordOf w'.registry.relayers k =
      (unbondingMove k ⟨w, .registry env call, .registry (.ok ())⟩).toList.foldl Unbonding.move
        (recordOf w.registry.relayers k) := by
  have hkey : ∀ {operator r}, w.registry.relayers.lookup operator = some r → r.operator = operator :=
    fun hread => (hs.relayers _ _ hread).1
  cases h with
  | initializeRegistry => rfl
  | setConfig => rfl
  | transferAdmin => rfl
  | @register operator pubkey endpoint stake config w₁ hsigned hstored henough hfresh hpaid =>
    obtain ⟨tokens, -, rfl⟩ := hpaid
    show recordOf (w.registry.relayers.insert _ _) k = recordOf w.registry.relayers k
    rw [recordOf_insert]
    split
    · next h =>
      obtain rfl : operator = k := h
      simp only [recordOf, hfresh]
      rfl
    · rfl
  | addStake hsigned hpositive hstored hread hpaid hfree =>
    obtain ⟨tokens, -, rfl⟩ := hpaid
    apply recordOf_kept hread
    · exact (hs.relayers _ _ hread).1
    · rfl
    · rfl
  | @requestUnstake operator amount config r free pending hsigned hpositive hstored hread hle hfree
      hpending =>
    show recordOf (w.registry.relayers.insert _ _) k = _
    rw [recordOf_insert]
    simp only [unbondingMove, hstored, Option.map_some, hkey hread]
    split
    · next h =>
      rw [h] at hread
      rw [recordOf_of_read hread]
      simp only [Option.toList_some, List.foldl_cons, List.foldl_nil, Unbonding.move, hpending]
    · rfl
  | @withdrawStake operator config r w₁ hsigned hstored hread hpositive hunlocked hpaid =>
    obtain ⟨tokens, -, rfl⟩ := hpaid
    show recordOf (w.registry.relayers.insert _ _) k = _
    rw [recordOf_insert]
    simp only [unbondingMove, hkey hread]
    split
    · rfl
    · rfl
  | createJob hsigned hpositive hstored hahead hnear hfresh hpaid =>
    obtain ⟨tokens, -, rfl⟩ := hpaid
    rfl
  | acceptJob hsigned hjob hopen hinTime hread hle hfree hbonded =>
    apply recordOf_kept hread
    · exact (hs.relayers _ _ hread).1
    · rfl
    · rfl
  | @submitPoolWithdraw operator jobId args config job pool r free bonded w₁ hsigned hstored hjob hstatus
      haccepted hinTime hpayload hcalled hwithdrawn hread hbonded hfree hpaid =>
    obtain ⟨tokens, -, rfl⟩ := hpaid
    apply recordOf_kept hread
    · exact (hs.relayers _ _ hread).1
    · rfl
    · rfl
  | @slashJob creator jobId config job operator r slashed bonded award w₁ hsigned hstored hjob hcreator
      hstatus hlate haccepted hread hbonded hpending hdouble hpaid =>
    obtain ⟨tokens, -, rfl⟩ := hpaid
    obtain ⟨hsame, haccount⟩ := slashPending_account hpending
    show recordOf (w.registry.relayers.insert _ _) k = _
    rw [recordOf_insert, hsame]
    simp only [unbondingMove, hjob, Option.bind_some, haccepted, Option.some.injEq, hkey hread]
    split
    · next h =>
      rw [h] at hread
      rw [recordOf_of_read hread]
      exact haccount
    · rfl
  | cancelJob hsigned hstored hjob hcreator hopen hlate hpaid =>
    obtain ⟨tokens, -, rfl⟩ := hpaid
    rfl
  | @reportSlash proof amount config record r slashed w₁ hpositive hevidence hstored hread hdeducted
      hpaid =>
    obtain ⟨tokens, -, rfl⟩ := hpaid
    obtain ⟨hsame, hpending, hunlock⟩ := deductSlash_pending hdeducted
    exact recordOf_kept hread (hsame.trans (hkey hread)) hpending hunlock k

theorem sane_unbondingMove {call : Call} (hs : Stocked w.registry) (h : Effect host env w call w')
    {m : UnbondingMove} (hm : unbondingMove k ⟨w, .registry env call, .registry (.ok ())⟩ = some m) :
    Unbonding.Sane m := by
  cases h with
  | @requestUnstake operator amount config r free pending hsigned hpositive hstored hread hle hfree
      hpending =>
    simp only [unbondingMove, hstored, Option.map_some] at hm
    split at hm
    · obtain rfl := Option.some.inj hm
      exact hpositive
    · cases hm
  | withdrawStake =>
    simp only [unbondingMove] at hm
    split at hm
    · obtain rfl := Option.some.inj hm
      trivial
    · cases hm
  | slashJob hsigned hstored hjob =>
    simp only [unbondingMove, hjob, Option.bind_some] at hm
    split at hm
    · obtain rfl := Option.some.inj hm
      exact hs.fees _ _ hjob
    · cases hm
  | _ => cases hm

/-- The records are the accounts. -/
structure Accounted (t : List RegistryStep) (w : World) : Prop where
  stocked : Stocked w.registry
  sane : ∀ k, ∀ m ∈ unbondingMoves k t, Unbonding.Sane m
  record : ∀ k, recordOf w.registry.relayers k = (unbondingMoves k t).foldl Unbonding.move .idle

theorem Accounted.snoc {t : List RegistryStep} {e : RegistryStep} (h : Accounted t w)
    (hs : Stocked w'.registry) (hsane : ∀ k m, unbondingMove k e = some m → Unbonding.Sane m)
    (hrecord : ∀ k, recordOf w'.registry.relayers k =
      (unbondingMove k e).toList.foldl Unbonding.move (recordOf w.registry.relayers k)) :
    Accounted (t ++ [e]) w' := by
  have hmoves : ∀ k, unbondingMoves k (t ++ [e]) = unbondingMoves k t ++ (unbondingMove k e).toList := by
    intro k
    rw [unbondingMoves, List.filterMap_append, unbondingMoves]
    cases hmove : unbondingMove k e <;> simp [hmove]
  refine ⟨hs, ?_, ?_⟩
  · intro k m hm
    rw [hmoves, List.mem_append, Option.mem_toList] at hm
    rcases hm with hm | hm
    · exact h.sane k m hm
    · exact hsane k m hm
  · intro k
    rw [hmoves, List.foldl_append, ← h.record, hrecord]

theorem accounted_run (host : Host) (pool : Pool.World) (invs : List Invocation) :
    Accounted ((machine host).trace (.deployed pool) invs)
      ((machine host).final (.deployed pool) invs) := by
  refine run_invariant_of_steps (P := fun _ => True) (I := Accounted) ?_ ?_ ?_ ?_ invs
    (fun _ _ => trivial)
  · exact ⟨stocked_deployed pool, fun _ => List.forall_mem_nil _, fun _ => rfl⟩
  · intro t w env call e h
    have hnone : ∀ k, unbondingMove k ⟨w, .registry env call, .registry (.error e)⟩ = none := by
      intro k
      cases call <;> rfl
    apply h.snoc h.stocked
    · intro k m hm
      rw [hnone] at hm
      cases hm
    · intro k
      rw [hnone]
      rfl
  · intro t w env call w' h _ heffect
    apply h.snoc (stocked_effect h.stocked heffect)
    · intro k m hm
      exact sane_unbondingMove h.stocked heffect hm
    · exact recordOf_effect h.stocked heffect
  · intro t w inv h
    exact h.snoc h.stocked (fun k m hm => by cases hm) fun k => rfl

/-! ## What is shown and what is paid -/

theorem getUnbondingStatus_eq_ok {s : RegistryState} {pending : I128} {unlock : ℕ}
    {isUnlockable : Bool} :
    getUnbondingStatus env s k = .ok (pending, unlock, isUnlockable) ↔
      ∃ r, s.relayers.lookup k = some r ∧ r.pendingUnstake = pending ∧ r.unstakeUnlockLedger = unlock ∧
        (isUnlockable = true ↔ 0 < pending.val ∧ unlock ≤ env.sequence) := by
  simp only [getUnbondingStatus, readRelayer, bind_eq_ok, okOr_eq_ok, pure_eq_ok, Prod.mk.injEq]
  constructor
  · intro h
    obtain ⟨r, hread, rfl, rfl, rfl⟩ := h
    exact ⟨r, hread, rfl, rfl, decide_eq_true_iff⟩
  · intro h
    obtain ⟨r, hread, rfl, rfl, hiff⟩ := h
    refine ⟨r, hread, rfl, rfl, ?_⟩
    rw [Bool.eq_iff_iff, decide_eq_true_iff, hiff]

/-- What `withdraw_stake` takes: a signature, stake whose lock is over, and a token that pays. -/
theorem withdrawStake_of_unlocked {r : RelayerRecord} {config : RegistryConfig} {tokens : TokenLedger}
    (hsigned : Signed host env k) (hstored : w.registry.config = some config)
    (hread : w.registry.relayers.lookup k = some r) (hpositive : 0 < r.pendingUnstake.val)
    (hunlocked : r.unstakeUnlockLedger ≤ env.sequence)
    (hpaid : (w.pool.tokens.transferPositive env config.nativeSac host.self k r.pendingUnstake :
      Result RegistryError TokenLedger) = .ok tokens) :
    ∃ w', exec host env w (.withdrawStake k) = .ok w' := by
  simp only [exec, withdrawStake, cfg, readRelayer, bind_eq_ok, requireAuth_eq_ok, exists_const,
    ensure_eq_ok, okOr_eq_ok, tokenTransfer_eq_ok, pure_eq_ok]
  exact ⟨_, hsigned, config, hstored, r, hread, hpositive, hunlocked, _, ⟨tokens, hpaid, rfl⟩, rfl⟩

/-- What the view says of `k` in a world reached by the steps `t`: the account of the requests,
payments and cuts of the run, which is locked for the cooldown of its latest request; that it can be
withdrawn if and only if it says so, up to signature and payment; and that a withdrawal pays what it
says and leaves nothing. -/
structure UnbondingShown (host : Host) (env : Env) (t : List RegistryStep) (w : World) (k : Address)
    (pending : I128) (unlock : ℕ) (isUnlockable : Bool) : Prop where
  account : (⟨pending.val, unlock⟩ : Unbonding) = (unbondingMoves k t).foldl Unbonding.move .idle
  locked : Unbonding.Locked (unbondingMoves k t) ⟨pending.val, unlock⟩
  withdrawable : (∃ w', exec host env w (.withdrawStake k) = .ok w') ↔
    isUnlockable = true ∧ Signed host env k ∧ ∃ config tokens, w.registry.config = some config ∧
      (w.pool.tokens.transferPositive env config.nativeSac host.self k pending :
        Result RegistryError TokenLedger) = .ok tokens
  paid : ∀ w', exec host env w (.withdrawStake k) = .ok w' →
    (∃ config, w.registry.config = some config ∧
      Moved w.pool.tokens w'.pool.tokens config.nativeSac host.self k pending.val) ∧
    getUnbondingStatus env w'.registry k = .ok (0, 0, false)

/-- A request of `k` that went through, and whose cooldown is over at `ledger`. -/
def WaitedFor (k : Address) (ledger : ℕ) (e : RegistryStep) : Prop :=
  ∃ env amount config, e.input = .registry env (.requestUnstake k amount) ∧
    e.output = .registry (.ok ()) ∧ e.pre.registry.config = some config ∧
    saturatingAdd env.sequence config.unstakeCooldownLedgers ≤ ledger

theorem unbondingShown_of_accounted {t : List RegistryStep} (h : Accounted t w) {pending : I128}
    {unlock : ℕ} {isUnlockable : Bool}
    (hstatus : getUnbondingStatus env w.registry k = .ok (pending, unlock, isUnlockable)) :
    UnbondingShown host env t w k pending unlock isUnlockable := by
  obtain ⟨r, hread, rfl, rfl, hiff⟩ := getUnbondingStatus_eq_ok.mp hstatus
  have haccount := (recordOf_of_read hread).symm.trans (h.record k)
  refine ⟨haccount, ?_, ?_, ?_⟩
  · rw [haccount]
    exact Unbonding.locked_foldl (h.sane k)
  · rw [hiff]
    constructor
    · intro hdone
      obtain ⟨w', hexec⟩ := hdone
      cases effect_of_exec hexec with
      | withdrawStake hsigned hstored hread' hpositive hunlocked hpaid =>
        obtain rfl := Option.some.inj (hread.symm.trans hread')
        obtain ⟨tokens, htransfer, -⟩ := hpaid
        exact ⟨⟨hpositive, hunlocked⟩, hsigned, _, tokens, hstored, htransfer⟩
    · intro hready
      obtain ⟨⟨hpositive, hunlocked⟩, hsigned, config, tokens, hstored, hpaid⟩ := hready
      exact withdrawStake_of_unlocked hsigned hstored hread hpositive hunlocked hpaid
  · intro w' hexec
    cases effect_of_exec hexec with
    | withdrawStake hsigned hstored hread' hpositive hunlocked hpaid =>
      obtain rfl := Option.some.inj (hread.symm.trans hread')
      obtain ⟨tokens, htransfer, rfl⟩ := hpaid
      refine ⟨⟨_, hstored, TokenLedger.transferPositive_eq_ok hpositive.le htransfer⟩, ?_⟩
      rw [getUnbondingStatus_eq_ok]
      refine ⟨{ r with pendingUnstake := 0, unstakeUnlockLedger := 0 }, ?_, rfl, rfl, ?_⟩
      · rw [← (h.stocked.relayers _ _ hread).1]
        exact Finmap.lookup_insert _
      · simp

/-- A withdrawal that goes through was asked for, and the cooldown of the request is over. -/
theorem waited_of_accounted {t : List RegistryStep} (h : Accounted t w)
    (hexec : exec host env w (.withdrawStake k) = .ok w') : ∃ e ∈ t, WaitedFor k env.sequence e := by
  cases effect_of_exec hexec with
  | @withdrawStake _ config r w₁ hsigned hstored hread hpositive hunlocked hpaid =>
    have hlocked := Unbonding.locked_foldl (h.sane k)
    rw [← h.record, recordOf_of_read hread] at hlocked
    obtain ⟨before, amount, ledger, cooldown, cuts, hmoves, -, hunlock⟩ := hlocked.waiting hpositive
    have hmem : .requested amount ledger cooldown ∈ unbondingMoves k t := by
      rw [hmoves]
      exact List.mem_append_right _ List.mem_cons_self
    obtain ⟨e, he, hmove⟩ := List.mem_filterMap.mp hmem
    refine ⟨e, he, ?_⟩
    obtain ⟨pre, input, output⟩ := e
    unfold unbondingMove at hmove
    split at hmove
    · next env' operator amount' hinput houtput =>
      split at hmove
      · next hk =>
        obtain ⟨config', hstored', hrequest⟩ := Option.map_eq_some_iff.mp hmove
        obtain ⟨-, rfl, rfl⟩ := UnbondingMove.requested.inj hrequest
        refine ⟨env', amount', config', ?_, houtput, hstored', ?_⟩
        · rw [← hk]
          exact hinput
        · rw [← hunlock]
          exact hunlocked
      · cases hmove
    · split at hmove
      · cases hmove
      · cases hmove
    · obtain ⟨job, -, hcut⟩ := Option.bind_eq_some_iff.mp hmove
      split at hcut
      · cases hcut
      · cases hcut
    · cases hmove

/-- **Stake on its way out.** In every state of a run the view shows the account that the requests,
payments and missed jobs of the run make: a positive amount is locked for the full cooldown of the
latest request, after which nothing was paid; it can be withdrawn exactly if the view says so, the
relayer signs and the token pays; the withdrawal pays that amount and leaves nothing. And no
withdrawal of the run came before the cooldown of a request was over. -/
theorem unbonding_exact (host : Host) (pool : Pool.World) (invs : List Invocation) (k : Address) :
    let w := (machine host).final (.deployed pool) invs
    let t := (machine host).trace (.deployed pool) invs
    (∀ env pending unlock isUnlockable,
      getUnbondingStatus env w.registry k = .ok (pending, unlock, isUnlockable) →
        UnbondingShown host env t w k pending unlock isUnlockable) ∧
    ∀ e ∈ t, ∀ env, e.input = .registry env (.withdrawStake k) → e.output = .registry (.ok ()) →
      ∃ request ∈ t, WaitedFor k env.sequence request := by
  intro w t
  have h : Accounted t w := accounted_run host pool invs
  refine ⟨?_, ?_⟩
  · intro env pending unlock isUnlockable hstatus
    exact unbondingShown_of_accounted h hstatus
  · intro e he env hinput houtput
    obtain ⟨before, later, rfl, hstep⟩ := Machine.mem_trace _ he
    have hbefore := accounted_run host pool before
    rw [hinput] at hstep
    rw [hstep] at houtput
    have hsuccess : (step host ((machine host).final (.deployed pool) before)
        (.registry env (.withdrawStake k))).2 = .registry (.ok ()) := houtput
    cases hexec : exec host env ((machine host).final (.deployed pool) before)
        (.withdrawStake k) with
    | error e' =>
      rw [step, hexec] at hsuccess
      cases hsuccess
    | ok w' =>
      obtain ⟨request, hmem, hwaited⟩ := waited_of_accounted hbefore hexec
      exact ⟨request, Machine.mem_trace_append _ _ hmem, hwaited⟩

/-- Twenty requested in ledger 14 are shown and paid from ledger 734 on. -/
example : [733, 734].map (fun n => getUnbondingStatus (Pool.Demo.env n (Pool.Demo.account 1))
    ((machine Demo.host).final (.deployed Demo.bondingPool) Demo.unstaking).registry
      (Pool.Demo.account 1)) =
    [.ok (I128.ofNat 20, 734, false), .ok (I128.ofNat 20, 734, true)] := by decide +kernel

end Runs

end OpaqueStellar.Registry
