import OpaqueStellar.Asp.Merkle
import OpaqueStellar.Circuit.PoolWithdraw
import OpaqueStellar.Lib.Lineage
import OpaqueStellar.Pool.Leaves
import OpaqueStellar.Pool.Nullifier
import OpaqueStellar.Pool.Roots

/-! # The privacy pool: notes

What the contract, the circuit and the published state root say together about who spends what. A
leaf opens to a note: a value, a label and a nullifier. A withdrawal that succeeds was verified for
some witness of the circuit; whatever witness is chosen for each withdrawal of a run, `spends` reads
the run as spends of notes by leaf index.

The assumptions are three. The verifier accepts only what the circuit proves (`SoundVerifier`), which
gives a choice of witnesses (`exists_witnesses`). The administrator publishes as state root only the
root of an initial part of the leaves (`HonestRoot`). Hashes are injective and numbers below the
scalar order are different field elements.

`Notes` is the invariant that results: no leaf is spent twice, every spend goes from an earlier leaf
to a later one, and it splits the value under an unchanged label. Nothing in it says where the value
and the label of a deposit come from. -/

namespace OpaqueStellar.Pool

open OpaqueStellar.Lib OpaqueStellar.Soroban OpaqueStellar.Circuit

/-! ## Field elements -/

/-- The field element that 32 bytes stand for. -/
def fieldOf (F : Type) [NatCast F] (b : BytesN 32) : F := ((b.toNat % Groth16.scalarOrder : ℕ) : F)

def signals (F : Type) [NatCast F] (p : Groth16.VerifyPublicInputsV3) : PublicSignals F where
  withdrawnValue := fieldOf F p.withdrawnValue
  stateRoot := fieldOf F p.stateRoot
  aspRoot := fieldOf F p.aspRoot
  nullifierHash := fieldOf F p.nullifierHash
  newCommitment := fieldOf F p.newCommitment
  context := fieldOf F p.context

/-- The leaves of the state tree. -/
def leafFields (F : Type) [NatCast F] (w : World) : List F :=
  (leaves w).map fun leaf => fieldOf F leaf.1

/-- The leaf at an index, zero where there is none yet. -/
def leafAt (F : Type) [NatCast F] [Zero F] (w : World) (i : ℕ) : F :=
  Asp.MerkleTree.padded (leafFields F w) i

theorem fieldOf_inj {F : Type} [NatCast F] (hcast : NatCastInj F Groth16.scalarOrder)
    {a b : BytesN 32} (ha : a.toNat < Groth16.scalarOrder) (hb : b.toNat < Groth16.scalarOrder)
    (h : fieldOf F a = fieldOf F b) : a = b := by
  rw [fieldOf, fieldOf, Nat.mod_eq_of_lt ha, Nat.mod_eq_of_lt hb] at h
  exact BytesN.toNat_inj (hcast _ ha _ hb h)

/-- A positive amount stands for itself. -/
theorem fieldOf_i128Be32 {F : Type} [NatCast F] {v : I128} (h : 0 ≤ v.val) :
    fieldOf F (i128Be32 v) = ((v.val.toNat : ℕ) : F) := by
  have hval := I128.asU128_of_nonneg h
  have hupper := v.upper
  have hbytes : (i128Be32 v).toNat = v.asU128 % 256 ^ 16 := by
    show beNat (List.replicate 16 0 ++ beBytes 16 v.asU128) = _
    rw [beNat_append, beNat_replicate_zero, beNat_beBytes, Nat.zero_mul, Nat.zero_add]
  have hsmall : v.val.toNat < Groth16.scalarOrder := by
    have : (2 : ℕ) ^ 127 ≤ Groth16.scalarOrder := by decide
    omega
  have hnat : v.asU128 = v.val.toNat := by omega
  have hbits : v.val.toNat < 256 ^ 16 := by omega
  rw [fieldOf, hbytes, hnat, Nat.mod_eq_of_lt hbits, Nat.mod_eq_of_lt hsmall]

section Notes

variable {F : Type} [CommRing F]

/-! ## Openings -/

/-- `x` is the commitment of a note with this value, label and nullifier. -/
def Opens (P : Poseidon F) (x : F) (value : ℕ) (label nullifier : F) : Prop :=
  value < 2 ^ VALUE_BITS ∧ ∃ secret, P.hash3 value label (P.hash2 nullifier secret) = x

theorem Opens.unique {P : Poseidon F} (hcast : NatCastInj F Groth16.scalarOrder) {x : F}
    {v v' : ℕ} {l l' n n' : F} (h : Opens P x v l n) (h' : Opens P x v' l' n') :
    v = v' ∧ l = l' ∧ n = n' := by
  obtain ⟨hv, secret, heq⟩ := h
  obtain ⟨hv', secret', heq'⟩ := h'
  obtain ⟨hvalue, hlabel, hpre⟩ := P.hash3_inj (heq.trans heq'.symm)
  have hbound : 2 ^ VALUE_BITS ≤ Groth16.scalarOrder := by decide
  exact ⟨hcast v (by omega) v' (by omega) hvalue, hlabel, (P.hash2_inj hpre).1⟩

open Classical in
/-- The value hidden in a commitment, zero where it opens to nothing. -/
noncomputable def hiddenValue (P : Poseidon F) (x : F) : ℕ :=
  if h : ∃ v l n, Opens P x v l n then h.choose else 0

theorem Opens.hiddenValue_eq {P : Poseidon F} (hcast : NatCastInj F Groth16.scalarOrder) {x : F}
    {v : ℕ} {l n : F} (h : Opens P x v l n) : hiddenValue P x = v := by
  have hex : ∃ v l n, Opens P x v l n := ⟨v, l, n, h⟩
  obtain ⟨l', n', h'⟩ := hex.choose_spec
  rw [hiddenValue, dif_pos hex]
  exact (h'.unique hcast h).1

theorem hiddenValue_le {P : Poseidon F} {x : F} {bound : ℤ} (hbound : 0 ≤ bound)
    (h : ∀ v l n, Opens P x v l n → (v : ℤ) ≤ bound) : (hiddenValue P x : ℤ) ≤ bound := by
  rw [hiddenValue]
  split
  · next hex =>
      obtain ⟨l, n, hopens⟩ := hex.choose_spec
      exact h _ l n hopens
  · exact hbound

/-! ## Assumptions on a run -/

/-- The verifier contract accepts only public inputs for which the circuit has a witness. -/
def SoundVerifier (P : Poseidon F) (bn : Groth16.Bn254) : Prop :=
  ∀ a b c p, Groth16.verifyProofV3 bn a b c p = .ok true →
    ∃ wit, PrivacyPoolWithdraw P LEVELS VALUE_BITS (signals F p) wit

/-- The bytes are the root of an initial part of the leaves. -/
def PrefixRoot (P : Poseidon F) (w : World) (root : BytesN 32) : Prop :=
  ∃ k ≤ (leafFields F w).length,
    fieldOf F root = Asp.MerkleTree.root P.hash2 { leaves := (leafFields F w).take k }

/-- If the step publishes a state root, it is the root of an initial part of the leaves. -/
def HonestRoot (P : Poseidon F) (e : PoolStep) : Prop :=
  ∀ root, Publishes .state root e → PrefixRoot P e.pre root

/-- The arguments of a withdrawal that succeeded. -/
def withdrawOf (e : PoolStep) : Option WithdrawArgs :=
  match e.input.call, e.output with
  | .withdraw args, .ok _ => some args
  | _, _ => none

theorem withdrawOf_eq_some {e : PoolStep} {args : WithdrawArgs} :
    withdrawOf e = some args ↔ e.input.call = .withdraw args ∧ ∃ r, e.output = .ok r := by
  unfold withdrawOf
  split
  · next hcall hout =>
      rw [hcall, hout, Option.some.injEq, Call.withdraw.injEq]
      exact ⟨fun h => ⟨h, _, rfl⟩, fun h => h.1⟩
  · next hno =>
      constructor
      · intro h
        cases h
      · intro h
        obtain ⟨hcall, r, hout⟩ := h
        exact absurd hout (hno args r hcall)

def scopeOf (w : World) : UInt64 := (w.pool.config.map PoolConfig.scope).getD 0

theorem scopeOf_of_stored {w : World} {config : PoolConfig} (h : w.pool.config = some config) :
    scopeOf w = config.scope := by
  rw [scopeOf, h]
  rfl

/-- If the step is a withdrawal that succeeded, `wit` satisfies the circuit for its inputs. -/
def Witnessed (P : Poseidon F) (host : Host) (wit : PoolStep → Witness F) (e : PoolStep) : Prop :=
  ∀ args, withdrawOf e = some args →
    PrivacyPoolWithdraw P LEVELS VALUE_BITS
      (signals F (args.publicInputs host (scopeOf e.pre))) (wit e)

/-- With a sound verifier every run has its witnesses. -/
theorem exists_witnesses {P : Poseidon F} {self : Address} {keccak256 : List UInt8 → BytesN 32}
    {bn : Groth16.Bn254} (hsound : SoundVerifier P bn) (w₀ : World) (invs : List Invocation) :
    ∃ wit, ∀ e ∈ (machine (.withVerifier self keccak256 bn)).trace w₀ invs,
      Witnessed P (.withVerifier self keccak256 bn) wit e := by
  have hstep : ∀ e : PoolStep, ∃ wt,
      e ∈ (machine (.withVerifier self keccak256 bn)).trace w₀ invs → ∀ args,
        withdrawOf e = some args → PrivacyPoolWithdraw P LEVELS VALUE_BITS
          (signals F (args.publicInputs (.withVerifier self keccak256 bn) (scopeOf e.pre))) wt := by
    intro e
    by_cases hargs : e ∈ (machine (.withVerifier self keccak256 bn)).trace w₀ invs ∧
        ∃ args, withdrawOf e = some args
    · obtain ⟨he, args, hargs⟩ := hargs
      obtain ⟨hcall, r, hout⟩ := withdrawOf_eq_some.mp hargs
      obtain ⟨w', -, heffect⟩ := effect_of_mem_trace he hout
      rw [hcall] at heffect
      obtain ⟨config, hcompletes⟩ := heffect.completes
      obtain ⟨wt, hwt⟩ := hsound _ _ _ _ (verified_of_admitted hcompletes.admitted)
      refine ⟨wt, ?_⟩
      intro _ args' hargs'
      obtain rfl : args = args' := Option.some.inj (hargs.symm.trans hargs')
      rw [scopeOf_of_stored hcompletes.admitted.stored]
      exact hwt
    · have : Inhabited F := ⟨0⟩
      exact ⟨default, fun he args h => absurd ⟨he, args, h⟩ hargs⟩
  choose wit hwit using hstep
  exact ⟨wit, fun e he args hargs => hwit e he args hargs⟩

/-! ## What only grows along a run -/

structure Grows (w w' : World) : Prop where
  leaves : leaves w <+: leaves w'
  depCount : w.pool.depCount ≤ w'.pool.depCount
  spent : ∀ n, isSpent w.pool n = true → isSpent w'.pool n = true

theorem grows_effect {host : Host} {env : Env} {w w' : World} {call : Call} {r : Ret}
    (h : Indexed w) (heffect : Effect host env w call w' r) : Grows w w' := by
  have hspent : ∀ n, isSpent w.pool n = true → isSpent w'.pool n = true := by
    intro n hn
    exact isSpent_effect hn heffect
  have happended : ∀ {c}, Appended w w' c → Grows w w' := by
    intro c ha
    refine ⟨?_, ?_, hspent⟩
    · rw [ha.leaves]
      exact List.prefix_append _ _
    · rw [ha.depCount]
      exact Nat.le_succ _
  rcases appended_or_frame heffect with
    ⟨_, _, _, _, -, hfresh, -, -, hleaves, -⟩ | ⟨_, _, _, -, -, ha⟩ | ⟨_, -, ha⟩ | ⟨-, hf⟩
  · refine ⟨?_, ?_, hspent⟩
    · rw [hleaves]
    · rw [h.untouched hfresh]
      exact Nat.zero_le _
  · exact happended ha
  · exact happended ha
  · refine ⟨?_, ?_, hspent⟩
    · have hleaves : leaves w' = leaves w := hf.leaves
      rw [hleaves]
    · rw [hf.depCount]

theorem Indexed.length_leaves {w : World} (h : Indexed w) :
    (leaves w).length = w.pool.depCount := by
  rw [← List.length_map Prod.snd, h.indices, List.length_range]

theorem Indexed.length_leafFields {w : World} (h : Indexed w) :
    (leafFields F w).length = w.pool.depCount := by
  rw [leafFields, List.length_map, h.length_leaves]

theorem Grows.leafFields {w w' : World} (h : Grows w w') :
    leafFields F w <+: leafFields F w' := h.leaves.map _

theorem PrefixRoot.mono {P : Poseidon F} {w w' : World} {root : BytesN 32} (hg : Grows w w')
    (h : PrefixRoot P w root) : PrefixRoot P w' root := by
  obtain ⟨k, hk, heq⟩ := h
  obtain ⟨more, hmore⟩ := hg.leafFields (F := F)
  refine ⟨k, ?_, ?_⟩
  · rw [← hmore, List.length_append]
    exact le_trans hk (Nat.le_add_right _ _)
  · rw [← hmore, List.take_append_of_le_length hk]
    exact heq

theorem Grows.leafAt {w w' : World} (hw : Indexed w) (h : Grows w w') {i : ℕ}
    (hi : i < w.pool.depCount) : leafAt F w' i = leafAt F w i := by
  obtain ⟨more, hmore⟩ := h.leafFields (F := F)
  rw [← hw.length_leafFields (F := F)] at hi
  rw [Pool.leafAt, Pool.leafAt, Asp.MerkleTree.padded, Asp.MerkleTree.padded, ← hmore]
  exact List.getD_append _ _ _ _ hi

/-- The leaf just appended is found at its index. -/
theorem Appended.leafAt {w w' : World} {c : BytesN 32} (hw : Indexed w) (h : Appended w w' c) :
    leafAt F w' w.pool.depCount = fieldOf F c := by
  have hfields : leafFields F w' = leafFields F w ++ [fieldOf F c] := by
    rw [Pool.leafFields, h.leaves, List.map_append]
    rfl
  rw [Pool.leafAt, Asp.MerkleTree.padded, hfields, ← hw.length_leafFields (F := F),
    List.getD_append_right _ _ _ _ (le_refl _), Nat.sub_self]
  rfl

/-- The step is a deposit of `value` that made `commitment` the leaf `index`. -/
def Deposits (value : I128) (commitment : BytesN 32) (index : ℕ) (e : PoolStep) : Prop :=
  ∃ depositor, e.input.call = .deposit depositor value commitment index ∧
    e.output = .ok (.index index)

/-- A deposit's commitment is the leaf at the index it returns. -/
theorem leafAt_of_deposits {w w' : World} {host : Host} {inv : Invocation} {r : Ret}
    (hw : Indexed w) (heffect : Effect host inv.env w inv.call w' r) {value : I128} {c : BytesN 32}
    {i : ℕ} (hdep : Deposits value c i ⟨w, inv, .ok r⟩) :
    i < w'.pool.depCount ∧ leafAt F w' i = fieldOf F c := by
  obtain ⟨depositor, hcall, -⟩ := hdep
  rcases appended_or_frame heffect with ⟨_, _, _, _, hcall', -⟩ | ⟨_, _, _, hcall', -, ha⟩ |
    ⟨_, hcall', -⟩ | ⟨hq, -⟩
  · cases hcall.symm.trans hcall'
  · cases hcall.symm.trans hcall'
    refine ⟨?_, ha.leafAt hw⟩
    rw [ha.depCount]
    exact Nat.lt_succ_self _
  · cases hcall.symm.trans hcall'
  · simp only at hcall
    rw [hcall] at hq
    exact hq.elim

/-! ## Spends -/

/-- Both leaves of a spend open, under one label, to values that differ by the amount, and the hash
of the spent note's nullifier is stored as spent. -/
structure Split (P : Poseidon F) (w : World) (s : Spend) : Prop where
  forward : s.source < s.target
  made : s.target < w.pool.depCount
  opens : ∃ value label nullifier newNullifier,
    Opens P (leafAt F w s.source) (s.amount + value) label nullifier ∧
    Opens P (leafAt F w s.target) value label newNullifier ∧
    ∃ hash : BytesN 32, isSpent w.pool hash = true ∧ hash.toNat < Groth16.scalarOrder ∧
      fieldOf F hash = P.hash1 nullifier

theorem Split.mono {P : Poseidon F} {w w' : World} {s : Spend} (hw : Indexed w) (hg : Grows w w')
    (h : Split P w s) : Split P w' s := by
  obtain ⟨hforward, hmade, value, label, n, n', hsource, htarget, hash, hspent, hcanonical, heq⟩ := h
  refine ⟨hforward, lt_of_lt_of_le hmade hg.depCount, value, label, n, n', ?_, ?_, hash,
    hg.spent hash hspent, hcanonical, heq⟩
  · rw [hg.leafAt hw (lt_trans hforward hmade)]
    exact hsource
  · rw [hg.leafAt hw hmade]
    exact htarget

section Spends

variable [DecidableEq F]

/-- The spend that a successful withdrawal makes under a choice of witnesses: from the leaf its
state path points at to the leaf of its change commitment. -/
def spendOf (wit : PoolStep → Witness F) (e : PoolStep) : Option Spend :=
  (withdrawOf e).map fun args =>
    ⟨(wit e).stateLeaf LEVELS, e.pre.pool.depCount, args.withdrawnValue.val.toNat⟩

def spends (wit : PoolStep → Witness F) (t : List PoolStep) : List Spend :=
  t.filterMap (spendOf wit)

theorem spends_snoc (wit : PoolStep → Witness F) (t : List PoolStep) (e : PoolStep) :
    spends wit (t ++ [e]) = spends wit t ++ (spendOf wit e).toList := by
  rw [spends, List.filterMap_append, spends]
  cases h : spendOf wit e <;> simp [h]

/-! ## The invariant -/

structure Notes (P : Poseidon F) (wit : PoolStep → Witness F) (t : List PoolStep) (w : World) :
    Prop where
  indexed : Indexed w
  roots : ∀ root entry, w.pool.roots.lookup (.state, root) = some entry → PrefixRoot P w root
  once : ((spends wit t).map Spend.source).Nodup
  split : ∀ s ∈ spends wit t, Split P w s
  deposited : ∀ e ∈ t, ∀ value c i, Deposits value c i e →
    i < w.pool.depCount ∧ leafAt F w i = fieldOf F c

theorem notes_deployed (P : Poseidon F) (wit : PoolStep → Witness F) (tokens : TokenLedger) :
    Notes P wit [] (.deployed tokens) := by
  refine ⟨⟨rfl, ?_, fun _ => rfl⟩, ?_, List.nodup_nil, ?_, ?_⟩
  · intro leaf hleaf
    cases hleaf
  · intro root entry hlookup
    cases hlookup
  · intro s hs
    cases hs
  · intro e he
    cases he

theorem Notes.failed {P : Poseidon F} {wit : PoolStep → Witness F} {t : List PoolStep} {w : World}
    {inv : Invocation} {e : Failure PoolError} (h : Notes P wit t w) :
    Notes P wit (t ++ [⟨w, inv, .error e⟩]) w := by
  have hnone : withdrawOf ⟨w, inv, .error e⟩ = none := by
    rw [Option.eq_none_iff_forall_ne_some]
    intro args hargs
    obtain ⟨-, r, hout⟩ := withdrawOf_eq_some.mp hargs
    cases hout
  have hspends : spends wit (t ++ [⟨w, inv, .error e⟩]) = spends wit t := by
    rw [spends_snoc, spendOf, hnone, Option.map_none, Option.toList_none, List.append_nil]
  refine ⟨h.indexed, h.roots, ?_, ?_, ?_⟩
  · rw [hspends]
    exact h.once
  · rw [hspends]
    exact h.split
  · intro e' he' value c i hdep
    rcases List.mem_append.mp he' with hold | hnew
    · exact h.deposited e' hold value c i hdep
    · obtain rfl := List.mem_singleton.mp hnew
      obtain ⟨_, -, hout⟩ := hdep
      cases hout

/-- The state roots known after a step are the ones known before and one honest publication. -/
theorem Notes.roots_kept {P : Poseidon F} {wit : PoolStep → Witness F} {t : List PoolStep}
    {w w' : World} {host : Host} {inv : Invocation} {r : Ret} (h : Notes P wit t w)
    (hhonest : HonestRoot P ⟨w, inv, .ok r⟩) (heffect : Effect host inv.env w inv.call w' r)
    {root : BytesN 32} {entry : RootEntry}
    (hlookup : w'.pool.roots.lookup (.state, root) = some entry) : PrefixRoot P w' root := by
  apply PrefixRoot.mono (grows_effect h.indexed heffect)
  rcases roots_of_effect heffect with ⟨kind, admin, new, hash, config, hcall, -, hw'⟩ | ⟨-, hkept⟩
  · rw [hw'] at hlookup
    by_cases hkey : (RootKind.state, root) = (kind, new)
    · obtain ⟨rfl, rfl⟩ := Prod.mk.inj hkey
      exact hhonest root ⟨admin, hash, r, hcall, rfl⟩
    · rw [published, Finmap.lookup_insert_of_ne _ hkey] at hlookup
      exact h.roots root entry hlookup
  · rw [hkept] at hlookup
    exact h.roots root entry hlookup

/-- A successful call keeps the invariant if its own spend, if any, is of a new source and
splits. -/
theorem Notes.kept {P : Poseidon F} {wit : PoolStep → Witness F} {t : List PoolStep} {w w' : World}
    {host : Host} {inv : Invocation} {r : Ret} (h : Notes P wit t w)
    (hhonest : HonestRoot P ⟨w, inv, .ok r⟩) (heffect : Effect host inv.env w inv.call w' r)
    (honce : ((spends wit (t ++ [⟨w, inv, .ok r⟩])).map Spend.source).Nodup)
    (hsplit : ∀ s ∈ spendOf wit ⟨w, inv, .ok r⟩, Split P w' s) :
    Notes P wit (t ++ [⟨w, inv, .ok r⟩]) w' := by
  have hg := grows_effect h.indexed heffect
  refine ⟨indexed_effect h.indexed heffect, ?_, honce, ?_, ?_⟩
  · intro root entry hlookup
    exact h.roots_kept hhonest heffect hlookup
  · intro s hs
    rw [spends_snoc, List.mem_append] at hs
    rcases hs with hold | hnew
    · exact (h.split s hold).mono h.indexed hg
    · exact hsplit s (Option.mem_toList.mp hnew)
  · intro e he value c i hdep
    rcases List.mem_append.mp he with hold | hnew
    · obtain ⟨hi, hleaf⟩ := h.deposited e hold value c i hdep
      refine ⟨lt_of_lt_of_le hi hg.depCount, ?_⟩
      rw [hg.leafAt h.indexed hi]
      exact hleaf
    · obtain rfl := List.mem_singleton.mp hnew
      exact leafAt_of_deposits h.indexed heffect hdep

/-! ## A withdrawal is a spend -/

/-- The leaf that a withdrawal spends was not spent before: the nullifier of the note it opens to
would be stored already. -/
theorem Notes.source_fresh {P : Poseidon F} {wit : PoolStep → Witness F} {t : List PoolStep}
    {w : World} (h : Notes P wit t w) (hcast : NatCastInj F Groth16.scalarOrder) {i v : ℕ}
    {label n : F} {hash : BytesN 32} (hopens : Opens P (leafAt F w i) v label n)
    (hhash : fieldOf F hash = P.hash1 n) (hcanonical : hash.toNat < Groth16.scalarOrder)
    (hunspent : w.pool.nullifiers.lookup hash = none) :
    i ∉ (spends wit t).map Spend.source := by
  intro hmem
  obtain ⟨s, hs, rfl⟩ := List.mem_map.mp hmem
  obtain ⟨-, -, _, _, n', _, hopens', -, hash', hspent, hcanonical', hhash'⟩ := h.split s hs
  obtain ⟨-, -, rfl⟩ := hopens.unique hcast hopens'
  obtain rfl : hash = hash' :=
    fieldOf_inj hcast hcanonical hcanonical' (hhash.trans hhash'.symm)
  rw [isSpent, hunspent] at hspent
  cases hspent

section Withdrawals

variable [IsDomain F] {P : Poseidon F} {wit : PoolStep → Witness F} {t : List PoolStep} {w : World}

omit [DecidableEq F] in
/-- A satisfied circuit splits the value of the note it spends. -/
theorem opens_of_circuit (hcast : NatCastInj F Groth16.scalarOrder) {pub : PublicSignals F}
    {wt : Witness F} (h : PrivacyPoolWithdraw P LEVELS VALUE_BITS pub wt) {amount : ℕ}
    (hamount : pub.withdrawnValue = (amount : F)) (hsmall : amount < Groth16.scalarOrder) :
    ∃ value, Opens P (wt.commit P) (amount + value) wt.label wt.nullifier ∧
      Opens P pub.newCommitment value wt.label wt.newNullifier := by
  have hbits : 2 ^ (VALUE_BITS + 1) ≤ Groth16.scalarOrder := by decide
  obtain ⟨value, withdrawn, hvalue, hle, hv, hw⟩ := h.values hbits hcast
  have hbound : 2 ^ VALUE_BITS ≤ 2 ^ (VALUE_BITS + 1) := Nat.pow_le_pow_right (by decide) (by omega)
  obtain rfl : amount = withdrawn :=
    hcast amount hsmall withdrawn (by omega) (hamount.symm.trans hw)
  refine ⟨value - amount, ⟨by omega, wt.secret, ?_⟩, by omega, wt.newSecret, ?_⟩
  · rw [Nat.add_sub_cancel' hle, ← hv]
    rfl
  · rw [Nat.cast_sub hle, ← hv, ← hw]
    exact h.newCommit

/-- What a withdrawal that was let through spends: an existing leaf, which opens to the note of the
witness. -/
theorem Notes.leaf_of_admitted (h : Notes P wit t w) {host : Host} {env : Env}
    {args : WithdrawArgs} {config : PoolConfig} {pub : PublicSignals F} {wt : Witness F}
    (hadmitted : Admitted host env w.pool args config)
    (hroot : pub.stateRoot = fieldOf F args.stateRoot)
    (hcircuit : PrivacyPoolWithdraw P LEVELS VALUE_BITS pub wt) :
    wt.stateLeaf LEVELS < w.pool.depCount ∧ leafAt F w (wt.stateLeaf LEVELS) = wt.commit P := by
  obtain ⟨entry, hlookup, -⟩ := hadmitted.stateFresh
  obtain ⟨k, hk, heq⟩ := h.roots _ _ hlookup
  rw [Asp.MerkleTree.root_eq_node] at heq
  have hleaf : wt.commit P =
      Asp.MerkleTree.padded ((leafFields F w).take k) (wt.stateLeaf LEVELS) :=
    hcircuit.stateProof.leaf_eq P.hash2_inj (hroot.trans heq)
  -- a padding leaf is zero, and no commitment is
  have hlt : wt.stateLeaf LEVELS < ((leafFields F w).take k).length := by
    by_contra hge
    rw [Asp.MerkleTree.padded_of_le (not_lt.mp hge)] at hleaf
    exact P.hash3_ne_zero _ _ _ hleaf
  rw [List.length_take] at hlt
  have hcount := h.indexed.length_leafFields (F := F)
  refine ⟨by omega, ?_⟩
  rw [hleaf, leafAt, Asp.MerkleTree.padded, Asp.MerkleTree.padded, List.getD_eq_getElem?_getD,
    List.getD_eq_getElem?_getD, List.getElem?_take_of_lt (by omega)]

/-- The note a withdrawal spends, the note it leaves and the nullifier it reveals. -/
theorem Notes.opens_of_admitted (h : Notes P wit t w) (hcast : NatCastInj F Groth16.scalarOrder)
    {host : Host} {env : Env} {args : WithdrawArgs} {config : PoolConfig} {wt : Witness F}
    (hadmitted : Admitted host env w.pool args config)
    (hcircuit : PrivacyPoolWithdraw P LEVELS VALUE_BITS
      (signals F (args.publicInputs host (scopeOf w))) wt) :
    wt.stateLeaf LEVELS < w.pool.depCount ∧
    fieldOf F args.nullifierHash = P.hash1 wt.nullifier ∧
    ∃ value, Opens P (leafAt F w (wt.stateLeaf LEVELS)) (args.withdrawnValue.val.toNat + value)
        wt.label wt.nullifier ∧
      Opens P (fieldOf F args.newCommitment) value wt.label wt.newNullifier := by
  have hnonneg := le_of_lt hadmitted.positive
  have hupper := args.withdrawnValue.upper
  have hsmall : args.withdrawnValue.val.toNat < Groth16.scalarOrder := by
    have horder : (2 : ℕ) ^ 127 ≤ Groth16.scalarOrder := by decide
    omega
  obtain ⟨hlt, hleaf⟩ := h.leaf_of_admitted hadmitted rfl hcircuit
  obtain ⟨value, hold, hnew⟩ := opens_of_circuit hcast hcircuit (fieldOf_i128Be32 hnonneg) hsmall
  refine ⟨hlt, hcircuit.nullifier.symm, value, ?_, hnew⟩
  rw [hleaf]
  exact hold

variable {self : Address} {keccak256 : List UInt8 → BytesN 32} {bn : Groth16.Bn254}

/-- The spend of a successful withdrawal, in the world after it. -/
theorem Notes.split_of_effect (h : Notes P wit t w) (hcast : NatCastInj F Groth16.scalarOrder)
    {env : Env} {args : WithdrawArgs} {w' : World} {r : Ret} {wt : Witness F}
    (hcircuit : PrivacyPoolWithdraw P LEVELS VALUE_BITS
      (signals F (args.publicInputs (.withVerifier self keccak256 bn) (scopeOf w))) wt)
    (heffect : Effect (.withVerifier self keccak256 bn) env w (.withdraw args) w' r) :
    wt.stateLeaf LEVELS ∉ (spends wit t).map Spend.source ∧
    Split P w' ⟨wt.stateLeaf LEVELS, w.pool.depCount, args.withdrawnValue.val.toNat⟩ := by
  obtain ⟨config, hcompletes⟩ := heffect.completes
  have hadmitted := hcompletes.admitted
  have hcanonical := canonical_nullifier hadmitted
  obtain ⟨hlt, hhash, value, hold, hnew⟩ := h.opens_of_admitted hcast hadmitted hcircuit
  have ha := appended_of_withdraw heffect
  have hg := grows_effect h.indexed heffect
  refine ⟨h.source_fresh hcast hold hhash hcanonical hadmitted.unspent, hlt, ?_, ?_⟩
  · rw [ha.depCount]
    exact Nat.lt_succ_self _
  · refine ⟨value, wt.label, wt.nullifier, wt.newNullifier, ?_, ?_, args.nullifierHash,
      isSpent_of_withdraw heffect, hcanonical, hhash⟩
    · rw [hg.leafAt h.indexed hlt]
      exact hold
    · rw [ha.leafAt h.indexed]
      exact hnew

theorem notes_effect (hcast : NatCastInj F Groth16.scalarOrder) (h : Notes P wit t w)
    {inv : Invocation} {w' : World} {r : Ret} (hhonest : HonestRoot P ⟨w, inv, .ok r⟩)
    (hwit : Witnessed P (.withVerifier self keccak256 bn) wit ⟨w, inv, .ok r⟩)
    (heffect : Effect (.withVerifier self keccak256 bn) inv.env w inv.call w' r) :
    Notes P wit (t ++ [⟨w, inv, .ok r⟩]) w' := by
  cases hargs : withdrawOf ⟨w, inv, .ok r⟩ with
  | none =>
      have hnone : spendOf wit ⟨w, inv, .ok r⟩ = none := by
        rw [spendOf, hargs]
        rfl
      refine h.kept hhonest heffect ?_ ?_
      · rw [spends_snoc, hnone, Option.toList_none, List.append_nil]
        exact h.once
      · intro s hs
        rw [hnone] at hs
        cases hs
  | some args =>
      obtain ⟨hcall, -⟩ := withdrawOf_eq_some.mp hargs
      have hsome : spendOf wit ⟨w, inv, .ok r⟩ = some ⟨(wit ⟨w, inv, .ok r⟩).stateLeaf LEVELS,
          w.pool.depCount, args.withdrawnValue.val.toNat⟩ := by
        rw [spendOf, hargs]
        rfl
      have hwithdraw := heffect
      simp only at hcall
      rw [hcall] at hwithdraw
      obtain ⟨hfresh, hsplit⟩ := h.split_of_effect hcast (hwit args hargs) hwithdraw
      refine h.kept hhonest heffect ?_ ?_
      · rw [spends_snoc, hsome, List.map_append]
        refine List.Nodup.append h.once (List.nodup_singleton _) ?_
        exact List.disjoint_singleton.mpr hfresh
      · intro s hs
        rw [hsome, Option.mem_some_iff] at hs
        rw [← hs]
        exact hsplit

/-- **The notes of a run.** -/
theorem notes_run (hcast : NatCastInj F Groth16.scalarOrder) (tokens : TokenLedger)
    (invs : List Invocation)
    (hhonest : ∀ e ∈ (machine (.withVerifier self keccak256 bn)).trace (.deployed tokens) invs,
      HonestRoot P e)
    (hwit : ∀ e ∈ (machine (.withVerifier self keccak256 bn)).trace (.deployed tokens) invs,
      Witnessed P (.withVerifier self keccak256 bn) wit e) :
    Notes P wit ((machine (.withVerifier self keccak256 bn)).trace (.deployed tokens) invs)
      ((machine (.withVerifier self keccak256 bn)).final (.deployed tokens) invs) := by
  refine run_invariant_of_steps
    (P := fun e => HonestRoot P e ∧ Witnessed P (.withVerifier self keccak256 bn) wit e)
    (notes_deployed P wit tokens) ?_ ?_ invs (fun e he => ⟨hhonest e he, hwit e he⟩)
  · intro t w inv e h
    exact h.failed
  · intro t w inv w' r h hstep heffect
    exact notes_effect hcast h hstep.1 hstep.2 heffect

end Withdrawals

end Spends

end Notes

end OpaqueStellar.Pool
