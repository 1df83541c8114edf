import OpaqueStellar.Pool.ValueSoundness

/-! # The privacy pool: clean provenance

The association tree holds the labels of the deposits that the provider approved, where the label of
the deposit at index `i` is `Poseidon(scope, i)`. A withdrawal proves that the label inside its note
is in that tree. The label is the depositor's own choice, though: the pool checks the index a
deposit expects, and never that the commitment carries the label of that index.

As long as every commitment does, a note's label names the deposit it descends from (`Rooted`), and
the inclusion proof says that this deposit was approved: the labels beyond the last leaf are zero,
which no label is. -/

namespace OpaqueStellar.Pool

open OpaqueStellar.Lib OpaqueStellar.Soroban OpaqueStellar.Circuit

variable {F : Type} [CommRing F]

/-- The label of the deposit at an index, in the scope of the pool. -/
def labelAt (P : Poseidon F) (w : World) (index : ℕ) : F :=
  Asp.computeLabel P.hash2 (scopeOf w).toNat index

/-- If the step is a deposit, its commitment carries the label of its own index. -/
def HonestLabel (P : Poseidon F) (e : PoolStep) : Prop :=
  ∀ value c i, Deposits value c i e → ∀ v l n, Opens P (fieldOf F c) v l n → l = labelAt P e.pre i

/-- The leaf `i` was made by a deposit. -/
def IsDeposit (t : List PoolStep) (i : ℕ) : Prop := ∃ e ∈ t, ∃ value c, Deposits value c i e

/-- Only the initialisation writes the scope. -/
theorem scopeOf_of_effect {host : Host} {env : Env} {w w' : World} {call : Call} {r : Ret}
    (h : Effect host env w call w' r)
    (hcall : ∀ admin verifier sac scope, call ≠ .initializePool admin verifier sac scope) :
    scopeOf w' = scopeOf w := by
  by_cases hq : Quiet call
  · have hwiring := (frame_of_effect h hq).wiring
    have hscope := congrArg (Option.map fun wiring => wiring.2.2) hwiring
    rw [Option.map_map, Option.map_map] at hscope
    exact congrArg (·.getD 0) hscope
  · cases h with
    | initializePool => exact absurd rfl (hcall _ _ _ _)
    | deposit => rfl
    | withdraw => rfl
    | _ => exact absurd trivial hq

/-- A label that sits in the tree of approved labels is the label of an approved index. -/
theorem mem_of_label {P : Poseidon F} {w : World} (hcast : NatCastInj F Groth16.scalarOrder)
    {approved : List ℕ} (hsmall : ∀ i ∈ approved, i < 2 ^ 64) {i position : ℕ} (hi : i < 2 ^ 64)
    (h : labelAt P w i = Asp.MerkleTree.padded (approved.map (labelAt P w)) position) :
    i ∈ approved := by
  have horder : 2 ^ 64 ≤ Groth16.scalarOrder := by decide
  by_cases hlt : position < approved.length
  · rw [Asp.MerkleTree.padded, List.getD_eq_getElem _ _ (by rw [List.length_map]; exact hlt),
      List.getElem_map] at h
    have hmem := List.getElem_mem hlt
    have hsame := (P.hash2_inj h).2
    have heq := hcast i (by omega) _ (lt_of_lt_of_le (hsmall _ hmem) horder) hsame
    rw [heq]
    exact hmem
  · rw [Asp.MerkleTree.padded_of_le (by rw [List.length_map]; exact not_lt.mp hlt)] at h
    exact absurd h (P.hash2_ne_zero _ _)

section Rooted

variable [DecidableEq F]

/-- Every withdrawal of the run that was made against the association root of a set of indices
spends a note that descends from a deposit at one of them. -/
def CleanProvenance (P : Poseidon F) (host : Host) (t : List PoolStep) : Prop :=
  ∀ wit, (∀ e ∈ t, Witnessed P host wit e) → ∀ e ∈ t, ∀ args, withdrawOf e = some args →
    ∀ approved : List ℕ, (∀ i ∈ approved, i < 2 ^ 64) →
      fieldOf F args.aspRoot =
        Asp.MerkleTree.root P.hash2 { leaves := approved.map (labelAt P e.pre) } →
      ∃ i ∈ approved, IsDeposit t i ∧ Descends (spends wit t) i ((wit e).stateLeaf LEVELS)

/-- The deposit that a leaf descends from, which its label names. -/
def Origin (P : Poseidon F) (wit : PoolStep → Witness F) (t : List PoolStep) (w : World)
    (j i : ℕ) : Prop :=
  IsDeposit t i ∧ Descends (spends wit t) i j ∧
    ∀ v l n, Opens P (leafAt F w j) v l n → l = labelAt P w i

structure Rooted (P : Poseidon F) (wit : PoolStep → Witness F) (t : List PoolStep) (w : World) :
    Prop where
  notes : Notes P wit t w
  origin : ∀ j < w.pool.depCount, ∃ i, Origin P wit t w j i

variable {P : Poseidon F} {wit : PoolStep → Witness F} {t : List PoolStep} {w w' : World}

theorem IsDeposit.append {i : ℕ} (h : IsDeposit t i) (later : List PoolStep) :
    IsDeposit (t ++ later) i := by
  obtain ⟨e, he, hdep⟩ := h
  exact ⟨e, List.mem_append_left _ he, hdep⟩

theorem descends_append {i j : ℕ} (h : Descends (spends wit t) i j) (later : List PoolStep) :
    Descends (spends wit (t ++ later)) i j := by
  apply h.mono
  intro s hs
  rw [spends, List.filterMap_append]
  exact List.mem_append_left _ hs

/-- An origin stays one while the leaf and the scope stay. -/
theorem Origin.append {i j : ℕ} (h : Origin P wit t w j i) (later : List PoolStep)
    (hleaf : leafAt F w' j = leafAt F w j) (hscope : scopeOf w' = scopeOf w) :
    Origin P wit (t ++ later) w' j i := by
  obtain ⟨hdep, hdesc, hlabel⟩ := h
  refine ⟨hdep.append later, descends_append hdesc later, ?_⟩
  rw [hleaf, labelAt, hscope]
  exact hlabel

theorem Rooted.failed {inv : Invocation} {e : Failure PoolError} (h : Rooted P wit t w) :
    Rooted P wit (t ++ [⟨w, inv, .error e⟩]) w := by
  refine ⟨h.notes.failed, ?_⟩
  intro j hj
  obtain ⟨i, horigin⟩ := h.origin j hj
  exact ⟨i, horigin.append _ rfl rfl⟩

/-- Where a call appends a leaf and the leaf has an origin, all leaves have one. -/
theorem Rooted.appended {host : Host} {inv : Invocation} {r : Ret} {c : BytesN 32}
    (h : Rooted P wit t w) (hnotes : Notes P wit (t ++ [⟨w, inv, .ok r⟩]) w')
    (heffect : Effect host inv.env w inv.call w' r) (ha : Appended w w' c)
    (hscope : scopeOf w' = scopeOf w)
    (hnew : ∃ i, Origin P wit (t ++ [⟨w, inv, .ok r⟩]) w' w.pool.depCount i) :
    Rooted P wit (t ++ [⟨w, inv, .ok r⟩]) w' := by
  refine ⟨hnotes, ?_⟩
  intro j hj
  rw [ha.depCount] at hj
  rcases Nat.lt_succ_iff_lt_or_eq.mp hj with hold | rfl
  · obtain ⟨i, horigin⟩ := h.origin j hold
    have hg := grows_effect h.notes.indexed heffect
    exact ⟨i, horigin.append _ (hg.leafAt h.notes.indexed hold) hscope⟩
  · exact hnew

variable [IsDomain F] {self : Address} {keccak256 : List UInt8 → BytesN 32} {bn : Groth16.Bn254}

theorem rooted_effect (hcast : NatCastInj F Groth16.scalarOrder) (h : Rooted P wit t w)
    {inv : Invocation} {r : Ret} (hhonest : HonestRoot P ⟨w, inv, .ok r⟩)
    (hlabel : HonestLabel P ⟨w, inv, .ok r⟩)
    (hwit : Witnessed P (.withVerifier self keccak256 bn) wit ⟨w, inv, .ok r⟩)
    (heffect : Effect (.withVerifier self keccak256 bn) inv.env w inv.call w' r) :
    Rooted P wit (t ++ [⟨w, inv, .ok r⟩]) w' := by
  have hnotes := notes_effect hcast h.notes hhonest hwit heffect
  rcases appended_or_frame heffect with ⟨_, _, _, _, -, -, hzero, -⟩ |
    ⟨depositor, value, c, hcall, hr, ha⟩ | ⟨args, hcall, ha⟩ | ⟨hq, hf⟩
  · refine ⟨hnotes, ?_⟩
    intro j hj
    rw [hzero] at hj
    exact absurd hj (Nat.not_lt_zero j)
  · -- a deposit is its own origin
    have hscope := scopeOf_of_effect heffect (by rw [hcall]; intro _ _ _ _ heq; cases heq)
    have hdep : Deposits value c w.pool.depCount ⟨w, inv, .ok r⟩ :=
      ⟨depositor, hcall, congrArg Except.ok hr⟩
    refine h.appended hnotes heffect ha hscope ⟨w.pool.depCount, ?_, .refl, ?_⟩
    · exact ⟨_, List.mem_append_right _ (List.mem_singleton.mpr rfl), value, c, hdep⟩
    · rw [ha.leafAt h.notes.indexed, labelAt, hscope]
      exact hlabel value c _ hdep
  · -- the change of a note has the origin of the note
    have hscope := scopeOf_of_effect heffect (by rw [hcall]; intro _ _ _ _ heq; cases heq)
    have hargs : withdrawOf ⟨w, inv, .ok r⟩ = some args := withdrawOf_eq_some.mpr ⟨hcall, r, rfl⟩
    have hwithdraw := heffect
    rw [hcall] at hwithdraw
    obtain ⟨-, hsplit⟩ := h.notes.split_of_effect hcast (hwit args hargs) hwithdraw
    obtain ⟨hforward, -, value, label, n, n', hsource, htarget, -⟩ := hsplit
    obtain ⟨i, horigin⟩ := h.origin _ hforward
    have hg := grows_effect h.notes.indexed heffect
    obtain ⟨hdep, hdesc, hnamed⟩ :=
      horigin.append [⟨w, inv, .ok r⟩] (hg.leafAt h.notes.indexed hforward) hscope
    refine h.appended hnotes heffect ha hscope ⟨i, hdep, ?_, ?_⟩
    · refine Descends.change (s := ⟨_, w.pool.depCount, args.withdrawnValue.val.toNat⟩) ?_ hdesc
      rw [spends_snoc, spendOf, hargs]
      exact List.mem_append_right _ (List.mem_singleton.mpr rfl)
    · intro v l m hopens
      rw [(hopens.unique hcast htarget).2.1]
      exact hnamed _ _ _ hsource
  · have hscope := scopeOf_of_effect heffect (by intro _ _ _ _ heq; rw [heq] at hq; exact hq.elim)
    refine ⟨hnotes, ?_⟩
    intro j hj
    rw [hf.depCount] at hj
    obtain ⟨i, horigin⟩ := h.origin j hj
    have hg := grows_effect h.notes.indexed heffect
    exact ⟨i, horigin.append _ (hg.leafAt h.notes.indexed hj) hscope⟩

theorem rooted_run (hcast : NatCastInj F Groth16.scalarOrder) (tokens : TokenLedger)
    (invs : List Invocation)
    (hsteps : ∀ e ∈ (machine (.withVerifier self keccak256 bn)).trace (.deployed tokens) invs,
      HonestRoot P e ∧ HonestLabel P e ∧ Witnessed P (.withVerifier self keccak256 bn) wit e) :
    Rooted P wit ((machine (.withVerifier self keccak256 bn)).trace (.deployed tokens) invs)
      ((machine (.withVerifier self keccak256 bn)).final (.deployed tokens) invs) := by
  have hstart : Rooted P wit [] (.deployed tokens) :=
    ⟨notes_deployed P wit tokens, fun j hj => absurd hj (Nat.not_lt_zero j)⟩
  refine run_invariant_of_steps hstart ?_ ?_ invs hsteps
  · intro t w inv e h
    exact h.failed
  · intro t w inv w' r h hstep heffect
    exact rooted_effect hcast h hstep.1 hstep.2.1 hstep.2.2 heffect

/-- The notes are rooted in the state each step of a run starts from. -/
theorem rooted_before (hcast : NatCastInj F Groth16.scalarOrder) {tokens : TokenLedger}
    {invs : List Invocation}
    (hsteps : ∀ e ∈ (machine (.withVerifier self keccak256 bn)).trace (.deployed tokens) invs,
      HonestRoot P e ∧ HonestLabel P e ∧ Witnessed P (.withVerifier self keccak256 bn) wit e)
    {e : PoolStep}
    (he : e ∈ (machine (.withVerifier self keccak256 bn)).trace (.deployed tokens) invs) :
    ∃ t₀ later, (machine (.withVerifier self keccak256 bn)).trace (.deployed tokens) invs =
      t₀ ++ later ∧ Rooted P wit t₀ e.pre := by
  obtain ⟨before, later, hsplit, hpre⟩ := Machine.mem_trace_split _ he
  refine ⟨_, later, hsplit, ?_⟩
  rw [hpre]
  apply rooted_run hcast tokens before
  intro e' he'
  apply hsteps e'
  rw [hsplit]
  exact List.mem_append_left _ he'

/-- **Clean provenance of honest deposits.** With a verifier that is sound for the circuit and state
roots of true leaf prefixes, every run has witnesses for its withdrawals; and if every commitment
carries the label of its own index, each withdrawal against the association root of a set of
indices spends a note that descends from a deposit at one of them. -/
theorem clean_provenance (P : Poseidon F) (hcast : NatCastInj F Groth16.scalarOrder)
    (self : Address) (keccak256 : List UInt8 → BytesN 32) (bn : Groth16.Bn254)
    (hsound : SoundVerifier P bn) (tokens : TokenLedger) (invs : List Invocation) :
    let host := Host.withVerifier self keccak256 bn
    let t := (machine host).trace (.deployed tokens) invs
    (∀ e ∈ t, HonestRoot P e) → (∀ e ∈ t, HonestLabel P e) →
    (∃ wit, ∀ e ∈ t, Witnessed P host wit e) ∧ CleanProvenance P host t := by
  intro host t hroots hlabels
  refine ⟨exists_witnesses hsound _ invs, ?_⟩
  intro wit hwit e he args hargs approved hsmall haspRoot
  obtain ⟨hcall, r, hout⟩ := withdrawOf_eq_some.mp hargs
  obtain ⟨w', -, heffect⟩ := effect_of_mem_trace he hout
  rw [hcall] at heffect
  obtain ⟨config, hcompletes⟩ := heffect.completes
  obtain ⟨t₀, later, hsplit, hrooted⟩ := rooted_before (P := P) hcast
    (fun e he => ⟨hroots e he, hlabels e he, hwit e he⟩) he
  have hcircuit := hwit e he args hargs
  obtain ⟨hlt, -, value, hopens, -⟩ :=
    hrooted.notes.opens_of_admitted hcast hcompletes.admitted hcircuit
  obtain ⟨i, hdep, hdesc, hlabel⟩ := hrooted.origin _ hlt
  have hnamed : (wit e).label = labelAt P e.pre i := hlabel _ _ _ hopens
  refine ⟨i, ?_, ?_, ?_⟩
  · have hle : i ≤ (wit e).stateLeaf LEVELS :=
      hdesc.le fun s hs => (hrooted.notes.split s hs).forward
    have hfits := hcompletes.fits
    have hleaf := hcircuit.aspProof.leaf_eq P.hash2_inj
      (haspRoot.trans (Asp.MerkleTree.root_eq_node _ _))
    exact mem_of_label hcast hsmall (by omega) (hnamed.symm.trans hleaf)
  · show IsDeposit ((machine host).trace (.deployed tokens) invs) i
    rw [hsplit]
    exact hdep.append later
  · show Descends (spends wit ((machine host).trace (.deployed tokens) invs)) i _
    rw [hsplit]
    exact descends_append hdesc later

end Rooted

/-! ## The run with two deposits, again -/

namespace TwoDeposits

theorem labelAt_eq {label : ℤ} {w : World} (hscope : scopeOf w = 9) (i : ℕ) :
    labelAt (poseidon label) w i = hash2 label 9 i := by
  have hnine : ((9 : UInt64).toNat : ℤ) = 9 := rfl
  rw [labelAt, hscope, Asp.computeLabel, hnine]
  rfl

/-- The association root of the run approves the one deposit whose label is 200. -/
theorem aspRoot_eq {k : ℕ} (hk : k < 9) {w : World} (hscope : scopeOf w = 9) :
    fieldOf ℤ args.aspRoot = Asp.MerkleTree.root (poseidon k).hash2
      { leaves := [k].map (labelAt (poseidon k) w) } := by
  have hlabel : labelAt (poseidon k) w k = 200 := by
    rw [labelAt_eq hscope, hash2, if_neg, if_pos ⟨rfl, rfl⟩]
    intro hcounting
    obtain ⟨-, -, hmod, -⟩ := hcounting
    omega
  have hroot := rootFrom_eq k (.inr rfl : (200 : ℤ) = 100 ∨ (200 : ℤ) = 200) (le_refl 20)
  rw [List.map_singleton, hlabel]
  exact (show fieldOf ℤ args.aspRoot = 200 + 20 by decide).trans hroot.symm

/-- Both deposits are made in the scope 9. -/
theorem scope_of_deposits {value : I128} {c : BytesN 32} {i : ℕ} {e : PoolStep}
    (he : e ∈ trace (I128.ofNat 100)) (h : Deposits value c i e) : scopeOf e.pre = 9 := by
  have htail : ∀ e ∈ (trace (I128.ofNat 100)).tail, scopeOf e.pre = 9 := by
    decide
  rcases List.mem_cons.mp he with rfl | he
  · obtain ⟨depositor, hcall, -⟩ := h
    cases hcall
  · exact htail e he

/-- The withdrawal succeeds, in the scope 9. -/
theorem withdrawal : ∃ e ∈ trace (I128.ofNat 100), withdrawOf e = some args ∧ scopeOf e.pre = 9 := by
  have hfound : (trace (I128.ofNat 100)).any
      (fun e => decide (withdrawOf e = some args) && decide (scopeOf e.pre = 9)) = true := by
    decide +kernel
  obtain ⟨e, he, hboth⟩ := List.any_eq_true.mp hfound
  rw [Bool.and_eq_true, decide_eq_true_iff, decide_eq_true_iff] at hboth
  exact ⟨e, he, hboth⟩

end TwoDeposits

/-- A first commitment with the label of the second deposit, which is the only one approved: the
withdrawal against that approval spends the first. -/
theorem provenance_not_clean :
    NatCastInj ℤ Groth16.scalarOrder ∧ SoundVerifier (TwoDeposits.poseidon 1) TwoDeposits.bn254 ∧
    (∀ e ∈ TwoDeposits.trace (I128.ofNat 100), HonestRoot (TwoDeposits.poseidon 1) e) ∧
    ¬ CleanProvenance (TwoDeposits.poseidon 1) TwoDeposits.host
      (TwoDeposits.trace (I128.ofNat 100)) := by
  refine ⟨TwoDeposits.natCastInj, TwoDeposits.sound 1,
    TwoDeposits.honestRoot 1 (by decide), ?_⟩
  intro h
  have hspends : spends (fun _ => TwoDeposits.witness) (TwoDeposits.trace (I128.ofNat 100)) =
      [⟨0, 2, 100⟩] := by
    decide +kernel
  obtain ⟨e, he, hargs, hscope⟩ := TwoDeposits.withdrawal
  obtain ⟨i, hi, -, hdesc⟩ := h _ (TwoDeposits.witnessed 1 _) e he _ hargs [1] (by decide)
    (TwoDeposits.aspRoot_eq (k := 1) (by decide) hscope)
  obtain rfl : i = 1 := List.mem_singleton.mp hi
  rw [hspends] at hdesc
  have hle : 1 ≤ TwoDeposits.witness.stateLeaf LEVELS := hdesc.le (by decide)
  revert hle
  decide

/-- With the label of the first deposit in its commitment, and that deposit approved, the withdrawal
spends an approved deposit. -/
theorem clean_provenance_two :
    let P := TwoDeposits.poseidon 0
    let t := TwoDeposits.trace (I128.ofNat 100)
    (∃ e ∈ t, withdrawOf e = some TwoDeposits.args ∧ fieldOf ℤ TwoDeposits.args.aspRoot =
      Asp.MerkleTree.root P.hash2 { leaves := [0].map (labelAt P e.pre) }) ∧
    CleanProvenance P TwoDeposits.host t := by
  intro P t
  obtain ⟨e, he, hargs, hscope⟩ := TwoDeposits.withdrawal
  refine ⟨⟨e, he, hargs, TwoDeposits.aspRoot_eq (k := 0) (by decide) hscope⟩, ?_⟩
  refine (clean_provenance P TwoDeposits.natCastInj (Demo.contract 0) Demo.keccak256
    TwoDeposits.bn254 (TwoDeposits.sound 0) TwoDeposits.tokens (TwoDeposits.run (I128.ofNat 100))
    (TwoDeposits.honestRoot 0 (by decide)) ?_).2
  intro e he value c i hdep v l n hopens
  rw [TwoDeposits.labelAt_eq (TwoDeposits.scope_of_deposits he hdep)]
  rcases TwoDeposits.deposits_cases he hdep with ⟨rfl, rfl, rfl⟩ | ⟨rfl, rfl, rfl⟩
  · rw [(TwoDeposits.opens_first hopens).2]
    rfl
  · exact (TwoDeposits.opens_second hopens).2

end OpaqueStellar.Pool
