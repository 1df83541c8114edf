import Mathlib.Logic.Encodable.Basic
import OpaqueStellar.Pool.Notes

/-! # The privacy pool: what can be drawn from a deposit

A deposit pays `value` tokens in and hands over 32 bytes as commitment. Nothing ties the two: the
pool never opens the commitment, and no proof comes with it. The circuit keeps the value hidden in
a note along its change notes, so the pool pays out from a deposit at most what is hidden in the
commitment, and that is at most what was paid in as long as the depositors are honest about it. -/

namespace OpaqueStellar.Pool

open OpaqueStellar.Lib OpaqueStellar.Soroban OpaqueStellar.Circuit

variable {F : Type} [CommRing F]

/-- If the step is a deposit, its commitment hides no more than the deposit pays. -/
def HonestValue (P : Poseidon F) (e : PoolStep) : Prop :=
  ∀ value c i, Deposits value c i e → ∀ v l n, Opens P (fieldOf F c) v l n → (v : ℤ) ≤ value.val

theorem Deposits.positive {host : Host} {w₀ : World} {invs : List Invocation} {value : I128}
    {c : BytesN 32} {i : ℕ} {e : PoolStep} (he : e ∈ (machine host).trace w₀ invs)
    (h : Deposits value c i e) : 0 < value.val := by
  obtain ⟨depositor, hcall, hout⟩ := h
  obtain ⟨w', -, heffect⟩ := effect_of_mem_trace he hout
  rw [hcall] at heffect
  cases heffect with
  | deposit _ _ _ hpositive => exact hpositive

section Drawn

variable [DecidableEq F]

/-- Whichever witnesses the withdrawals of the run were proved with, what they took from a deposit
and its descendants is at most what it paid. -/
def ValueSound (P : Poseidon F) (host : Host) (t : List PoolStep) : Prop :=
  ∀ wit, (∀ e ∈ t, Witnessed P host wit e) → ∀ e ∈ t, ∀ value c i, Deposits value c i e →
    (drawn (spends wit t) i : ℤ) ≤ value.val

/-- The splits of a run conserve the hidden values. -/
theorem Notes.drawn_le {P : Poseidon F} {wit : PoolStep → Witness F} {t : List PoolStep} {w : World}
    (hcast : NatCastInj F Groth16.scalarOrder) (h : Notes P wit t w) (i : ℕ) :
    drawn (spends wit t) i ≤ hiddenValue P (leafAt F w i) := by
  refine Lib.drawn_le (fun i => hiddenValue P (leafAt F w i)) h.once ?_ ?_ i
  · intro s hs
    exact (h.split s hs).forward
  · intro s hs
    obtain ⟨-, -, value, label, n, n', hsource, htarget, -⟩ := h.split s hs
    show hiddenValue P _ = s.amount + hiddenValue P _
    rw [hsource.hiddenValue_eq hcast, htarget.hiddenValue_eq hcast]

/-- **Value soundness of honest deposits.** With a verifier that is sound for the circuit and state
roots of true leaf prefixes, every run has witnesses for its withdrawals; and if no commitment
hides more than its deposit paid, no more is drawn from any deposit than it paid. -/
theorem deposit_value_sound [IsDomain F] (P : Poseidon F)
    (hcast : NatCastInj F Groth16.scalarOrder) (self : Address)
    (keccak256 : List UInt8 → BytesN 32) (bn : Groth16.Bn254) (hsound : SoundVerifier P bn)
    (tokens : TokenLedger) (invs : List Invocation) :
    let host := Host.withVerifier self keccak256 bn
    let t := (machine host).trace (.deployed tokens) invs
    (∀ e ∈ t, HonestRoot P e) → (∀ e ∈ t, HonestValue P e) →
    (∃ wit, ∀ e ∈ t, Witnessed P host wit e) ∧ ValueSound P host t := by
  intro host t hroots hvalues
  refine ⟨exists_witnesses hsound _ invs, ?_⟩
  intro wit hwit e he value c i hdep
  have hnotes := notes_run (P := P) hcast tokens invs hroots hwit
  obtain ⟨-, hleaf⟩ := hnotes.deposited e he value c i hdep
  have hdrawn : drawn (spends wit t) i ≤ hiddenValue P (fieldOf F c) := by
    rw [← hleaf]
    exact hnotes.drawn_le hcast i
  have hhidden : (hiddenValue P (fieldOf F c) : ℤ) ≤ value.val :=
    hiddenValue_le (le_of_lt (hdep.positive he)) (hvalues e he value c i hdep)
  exact le_trans (Int.ofNat_le.mpr hdrawn) hhidden

end Drawn

/-! ## A run with two deposits

Two deposits, and a withdrawal of 100 from the first. The hashes are injective functions on the
integers that give small numbers where the run needs bytes: an empty subtree of height `n` hashes to
`n`, and above the single leaf 100 or 200 of a tree the nodes count up from it. -/

namespace TwoDeposits

/-- An injective code by negative numbers. -/
def code {α : Type} [Encodable α] (x : α) : ℤ := -(Encodable.encode x : ℤ) - 1

theorem code_neg {α : Type} [Encodable α] (x : α) : code x < 0 := by
  unfold code
  omega

theorem code_inj {α : Type} [Encodable α] {x y : α} (h : code x = code y) : x = y := by
  apply Encodable.encode_injective
  unfold code at h
  omega

/-- The two children of a node on the way up. -/
def Counting (a b : ℤ) : Prop := 0 ≤ a ∧ a < 300 ∧ b = a % 100 ∧ b < 20

instance (a b : ℤ) : Decidable (Counting a b) := inferInstanceAs (Decidable (_ ∧ _))

/-- `label` is the index whose label is 200. -/
def hash2 (label a b : ℤ) : ℤ :=
  if Counting a b then a + 1 else if a = 9 ∧ b = label then 200 else code (a, b)

/-- The commitments of the first deposit, the second one and the change. -/
def hash3 (label v l p : ℤ) : ℤ :=
  if v = 100 ∧ l = 200 ∧ p = hash2 label 5 6 then 100
  else if v = 100 ∧ l = hash2 label 9 1 ∧ p = hash2 label 11 12 then 500
  else if v = 0 ∧ l = 200 ∧ p = hash2 label 7 8 then 300
  else code (v, l, p)

theorem hash2_cases (label a b : ℤ) :
    (Counting a b ∧ hash2 label a b = a + 1) ∨
    (a = 9 ∧ b = label ∧ hash2 label a b = 200) ∨ hash2 label a b = code (a, b) := by
  unfold hash2
  split
  · next h => exact .inl ⟨h, rfl⟩
  · split
    · next h => exact .inr (.inl ⟨h.1, h.2, rfl⟩)
    · exact .inr (.inr rfl)

theorem hash2_inj {label a b c d : ℤ} (h : hash2 label a b = hash2 label c d) :
    a = c ∧ b = d := by
  have hab := code_neg (a, b)
  have hcd := code_neg (c, d)
  rcases hash2_cases label a b with ⟨⟨_, _, _, _⟩, h₁⟩ | ⟨_, _, h₁⟩ | h₁ <;>
    rcases hash2_cases label c d with ⟨⟨_, _, _, _⟩, h₂⟩ | ⟨_, _, h₂⟩ | h₂ <;>
    rw [h₁, h₂] at h
  all_goals first | exact Prod.mk.inj (code_inj h) | omega

theorem hash2_ne_zero (label a b : ℤ) : hash2 label a b ≠ 0 := by
  have hcode := code_neg (a, b)
  rcases hash2_cases label a b with ⟨⟨_, _, _, _⟩, h⟩ | ⟨_, _, h⟩ | h
  · omega
  · omega
  · omega

theorem hash3_cases (label v l p : ℤ) :
    (v = 100 ∧ l = 200 ∧ p = hash2 label 5 6 ∧ hash3 label v l p = 100) ∨
    (v = 100 ∧ l = hash2 label 9 1 ∧ p = hash2 label 11 12 ∧ hash3 label v l p = 500) ∨
    (v = 0 ∧ l = 200 ∧ p = hash2 label 7 8 ∧ hash3 label v l p = 300) ∨
    hash3 label v l p = code (v, l, p) := by
  unfold hash3
  split
  · next h => exact .inl ⟨h.1, h.2.1, h.2.2, rfl⟩
  · split
    · next h => exact .inr (.inl ⟨h.1, h.2.1, h.2.2, rfl⟩)
    · split
      · next h => exact .inr (.inr (.inl ⟨h.1, h.2.1, h.2.2, rfl⟩))
      · exact .inr (.inr (.inr rfl))

theorem hash3_inj {label v l p v' l' p' : ℤ} (h : hash3 label v l p = hash3 label v' l' p') :
    v = v' ∧ l = l' ∧ p = p' := by
  have hcode := code_neg (v, l, p)
  have hcode' := code_neg (v', l', p')
  rcases hash3_cases label v l p with ⟨_, _, _, h₁⟩ | ⟨_, _, _, h₁⟩ | ⟨_, _, _, h₁⟩ | h₁ <;>
    rcases hash3_cases label v' l' p' with ⟨_, _, _, h₂⟩ | ⟨_, _, _, h₂⟩ | ⟨_, _, _, h₂⟩ | h₂ <;>
    rw [h₁, h₂] at h
  all_goals first | omega | skip
  have hall := Prod.mk.inj (code_inj h)
  exact ⟨hall.1, Prod.mk.inj hall.2⟩

theorem hash3_ne_zero (label v l p : ℤ) : hash3 label v l p ≠ 0 := by
  have hcode := code_neg (v, l, p)
  rcases hash3_cases label v l p with ⟨_, _, _, h⟩ | ⟨_, _, _, h⟩ | ⟨_, _, _, h⟩ | h
  · omega
  · omega
  · omega
  · omega

def poseidon (label : ℤ) : Poseidon ℤ where
  hash1 := id
  hash2 := hash2 label
  hash3 := hash3 label
  hash2_inj := hash2_inj
  hash3_inj := hash3_inj
  hash2_ne_zero := hash2_ne_zero label
  hash3_ne_zero := hash3_ne_zero label

theorem hash2_counting {label a b : ℤ} (h : Counting a b) : hash2 label a b = a + 1 := if_pos h

/-! The trees over one leaf. -/

theorem zero_eq (label : ℤ) {n : ℕ} (h : n ≤ 20) :
    Asp.MerkleTree.zero (hash2 label) n = n := by
  induction n with
  | zero => rfl
  | succ n ih =>
      rw [Asp.MerkleTree.zero, ih (by omega),
        hash2_counting ⟨by omega, by omega, by omega, by omega⟩]
      push_cast
      rfl

theorem rootFrom_eq (label : ℤ) {x : ℤ} (hx : x = 100 ∨ x = 200) {n : ℕ} (h : n ≤ 20) :
    Asp.MerkleTree.rootFrom (hash2 label) [x] n 0 = x + n := by
  induction n with
  | zero => simp [Asp.MerkleTree.rootFrom]
  | succ n ih =>
      have hright : Asp.MerkleTree.rootFrom (hash2 label) [x] n (0 + 2 ^ n) = n := by
        rw [Asp.MerkleTree.rootFrom_eq_node, Asp.MerkleTree.node_eq_zero, zero_eq label (by omega)]
        have := Nat.one_le_two_pow (n := n)
        simpa using this
      rw [Asp.MerkleTree.rootFrom, if_neg (by simp), ih (by omega), hright,
        hash2_counting ⟨by omega, by omega, by omega, by omega⟩]
      push_cast
      ring

theorem merkleCur_eq (label : ℤ) {x : ℤ} (hx : x = 100 ∨ x = 200) {n : ℕ} (h : n ≤ 20) :
    merkleCur (hash2 label) x (fun i => (i : ℤ)) (fun _ => 0) n = x + n := by
  induction n with
  | zero => simp [merkleCur]
  | succ n ih =>
      rw [merkleCur, ih (by omega)]
      simp only [mux1, mul_zero, zero_add]
      rw [hash2_counting ⟨by omega, by omega, by omega, by omega⟩]
      push_cast
      ring

/-! The withdrawal and its witness. -/

def args : WithdrawArgs where
  proofA := BytesN.ofNat 64 0
  proofB := BytesN.ofNat 128 0
  proofC := BytesN.ofNat 64 0
  withdrawnValue := I128.ofNat 100 I128.hundred_lt
  stateRoot := BytesN.ofNat 32 120
  aspRoot := BytesN.ofNat 32 220
  nullifierHash := BytesN.ofNat 32 5
  newCommitment := BytesN.ofNat 32 300
  recipient := Demo.account 5
  fee := I128.ofNat 1 I128.one_lt
  relayer := Demo.account 6

def digits (n i : ℕ) : ℤ := (n / 2 ^ i % 2 : ℕ)

def witness : Witness ℤ where
  value := 100
  label := 200
  nullifier := 5
  secret := 6
  newNullifier := 7
  newSecret := 8
  stateSiblings := fun i => i
  stateIndex := fun _ => 0
  aspSiblings := fun i => i
  aspIndex := fun _ => 0
  valueBits := digits 100
  withdrawnBits := digits 100
  leBits := digits (2 ^ 64 - 1)

theorem circuit_of_eq (label : ℤ) {pub : PublicSignals ℤ} (hvalue : pub.withdrawnValue = 100)
    (hstate : pub.stateRoot = 120) (hasp : pub.aspRoot = 220) (hnull : pub.nullifierHash = 5)
    (hnew : pub.newCommitment = 300) :
    PrivacyPoolWithdraw (poseidon label) LEVELS VALUE_BITS pub witness := by
  refine ⟨⟨?_, ?_⟩, ⟨?_, ?_⟩, ?_, ⟨?_, ?_⟩, ⟨?_, ?_⟩, ⟨⟨?_, ?_⟩, ?_⟩, ?_⟩
  · intro i _
    rfl
  · have hcommit : witness.commit (poseidon label) = 100 := by
      show hash3 label 100 200 (hash2 label 5 6) = 100
      rw [hash3, if_pos ⟨rfl, rfl, rfl⟩]
    rw [hstate, hcommit]
    exact (merkleCur_eq label (.inl rfl) (le_refl 20)).symm
  · intro i _
    rfl
  · rw [hasp]
    exact (merkleCur_eq label (.inr rfl) (le_refl 20)).symm
  · rw [hnull]
    rfl
  · decide
  · decide
  · decide
  · rw [hvalue]
    decide
  · decide
  · rw [hvalue]
    decide
  · decide
  · rw [hvalue, hnew]
    show hash3 label (100 - 100) 200 (hash2 label 7 8) = 300
    simp [hash3]

theorem circuit_of_inputs (label : ℤ) {p : Groth16.VerifyPublicInputsV3}
    (hvalue : p.withdrawnValue = i128Be32 args.withdrawnValue)
    (hstate : p.stateRoot = args.stateRoot) (hasp : p.aspRoot = args.aspRoot)
    (hnull : p.nullifierHash = args.nullifierHash) (hnew : p.newCommitment = args.newCommitment) :
    PrivacyPoolWithdraw (poseidon label) LEVELS VALUE_BITS (signals ℤ p) witness := by
  apply circuit_of_eq
  · show fieldOf ℤ p.withdrawnValue = 100
    rw [hvalue]
    decide
  · show fieldOf ℤ p.stateRoot = 120
    rw [hstate]
    decide
  · show fieldOf ℤ p.aspRoot = 220
    rw [hasp]
    decide
  · show fieldOf ℤ p.nullifierHash = 5
    rw [hnull]
    decide
  · show fieldOf ℤ p.newCommitment = 300
    rw [hnew]
    decide

/-! A stand-in for the curve that accepts the signals of the withdrawal only: a product with a wrong
signal is the point at infinity, which absorbs every sum and fails the pairing check. -/

def infinity : BytesN 64 := BytesN.ofNat 64 0

def expected : List (BytesN 64 × BytesN 32) :=
  Groth16.verifyingKeyV3.ic.zip
    [i128Be32 args.withdrawnValue, args.stateRoot, args.aspRoot, args.nullifierHash,
      args.newCommitment]

def Good (point : BytesN 64) (signal : BytesN 32) : Prop :=
  ∀ q ∈ expected, q.1 = point → signal = q.2

instance (point : BytesN 64) (signal : BytesN 32) : Decidable (Good point signal) :=
  inferInstanceAs (Decidable (∀ q ∈ expected, q.1 = point → signal = q.2))

def bn254 : Groth16.Bn254 where
  g1Add := fun p q => some (if p = infinity ∨ q = infinity then infinity else p)
  g1Mul := fun point signal => some (if Good point signal then point else infinity)
  pairingCheck := fun points _ => some (decide (points[2]? ≠ some infinity))

theorem accumulate_infinity {l : List (BytesN 64 × BytesN 32)} {vkX : BytesN 64}
    (h : Groth16.accumulate bn254 infinity l = .ok vkX) : vkX = infinity := by
  induction l with
  | nil => exact (Except.ok.inj h).symm
  | cons p l ih =>
      obtain ⟨point, signal⟩ := p
      simp only [Groth16.accumulate, bind_eq_ok, hostCall_eq_ok] at h
      obtain ⟨m, -, sum, hsum, hrest⟩ := h
      have hinf : sum = infinity := by
        simpa [bn254, eq_comm] using hsum
      rw [hinf] at hrest
      exact ih hrest

theorem good_of_accumulate {l : List (BytesN 64 × BytesN 32)} {start vkX : BytesN 64}
    (h : Groth16.accumulate bn254 start l = .ok vkX) (hne : vkX ≠ infinity) :
    ∀ p ∈ l, Good p.1 p.2 := by
  induction l generalizing start with
  | nil =>
      intro p hp
      cases hp
  | cons p l ih =>
      obtain ⟨point, signal⟩ := p
      simp only [Groth16.accumulate, bind_eq_ok, hostCall_eq_ok] at h
      obtain ⟨m, hm, sum, hsum, hrest⟩ := h
      intro q hq
      rcases List.mem_cons.mp hq with rfl | hq
      · by_contra hbad
        have hinf : sum = infinity := by
          simp only [bn254, Option.some.injEq, if_neg hbad] at hm hsum
          rw [if_pos (.inr hm.symm)] at hsum
          exact hsum.symm
        rw [hinf] at hrest
        exact hne (accumulate_infinity hrest)
      · exact ih hrest q hq

theorem good_of_verify {a c : BytesN 64} {b : BytesN 128} {p : Groth16.VerifyPublicInputsV3}
    (h : Groth16.verifyProofV3 bn254 a b c p = .ok true) :
    ∀ q ∈ Groth16.verifyingKeyV3.ic.zip p.signals, Good q.1 q.2 := by
  simp only [Groth16.verifyProofV3, Groth16.verifyWith, bind_eq_ok, ensure_eq_ok,
    Groth16.runPairingCheck_eq, hostCall_eq_ok] at h
  obtain ⟨-, -, vkX, hvkX, hpairing⟩ := h
  apply good_of_accumulate hvkX
  intro hinf
  rw [hinf] at hpairing
  simp [bn254] at hpairing

theorem sound (label : ℤ) : SoundVerifier (poseidon label) bn254 := by
  intro a b c p h
  have hgood := good_of_verify h
  obtain ⟨x₁, x₂, x₃, x₄, x₅, x₆, hic⟩ :
      ∃ x₁ x₂ x₃ x₄ x₅ x₆, Groth16.verifyingKeyV3.ic = [x₁, x₂, x₃, x₄, x₅, x₆] :=
    ⟨_, _, _, _, _, _, rfl⟩
  simp only [Good, expected, hic, Groth16.VerifyPublicInputsV3.signals, List.zip_cons_cons,
    List.forall_mem_cons] at hgood
  obtain ⟨⟨hvalue, -⟩, ⟨-, hstate, -⟩, ⟨-, -, hasp, -⟩, ⟨-, -, -, hnull, -⟩,
    ⟨-, -, -, -, hnew, -⟩, -⟩ := hgood
  exact ⟨witness, circuit_of_inputs label (hvalue trivial) (hstate trivial) (hasp trivial)
    (hnull trivial) (hnew trivial)⟩

/-! The run. -/

def host : Host := .withVerifier (Demo.contract 0) Demo.keccak256 bn254

def tokens : TokenLedger := fun _ holder => if holder = Demo.user then 1000 else 0

def run (paid : I128) : List Invocation := [
  ⟨Demo.env 10 Demo.admin, .initializePool Demo.admin (Demo.contract 1) (Demo.contract 2) 9⟩,
  ⟨Demo.env 11 Demo.user, .deposit Demo.user paid (BytesN.ofNat 32 100) 0⟩,
  ⟨Demo.env 12 Demo.user, .deposit Demo.user (I128.ofNat 100) (BytesN.ofNat 32 500) 1⟩,
  ⟨Demo.env 13 Demo.admin, .updateStateRoot Demo.admin args.stateRoot (BytesN.ofNat 32 0)⟩,
  ⟨Demo.env 14 Demo.admin, .updateAspRoot Demo.admin args.aspRoot (BytesN.ofNat 32 0)⟩,
  ⟨Demo.env 15 Demo.user, .withdraw args⟩]

def trace (paid : I128) : List PoolStep := (machine host).trace (.deployed tokens) (run paid)

/-- The world in which the state root is published. -/
def beforeRoot (paid : I128) : World :=
  (machine host).final (.deployed tokens) ((run paid).take 3)

/-- Where both deposits succeed, the published state root is the root of the first leaf. -/
theorem honestRoot (label : ℤ) {paid : I128}
    (hleaves : leafFields ℤ (beforeRoot paid) = [100, 500]) :
    ∀ e ∈ trace paid, HonestRoot (poseidon label) e := by
  intro e he root hpub
  obtain ⟨admin, hash, r, hcall, -⟩ := hpub
  simp only [trace, run, Machine.trace, Machine.stepAt, List.mem_cons, List.not_mem_nil,
    or_false] at he
  rcases he with rfl | rfl | rfl | rfl | rfl | rfl
  all_goals cases hcall
  show ∃ k ≤ (leafFields ℤ (beforeRoot paid)).length, fieldOf ℤ args.stateRoot =
    Asp.MerkleTree.root (hash2 label) { leaves := (leafFields ℤ (beforeRoot paid)).take k }
  rw [hleaves]
  refine ⟨1, by decide, ?_⟩
  have hroot := rootFrom_eq label (.inl rfl : (100 : ℤ) = 100 ∨ (100 : ℤ) = 200) (le_refl 20)
  exact (show fieldOf ℤ args.stateRoot = 100 + 20 by decide).trans hroot.symm

/-- The withdrawal is the one the witness is for. -/
theorem witnessed (label : ℤ) (paid : I128) :
    ∀ e ∈ trace paid, Witnessed (poseidon label) host (fun _ => witness) e := by
  intro e he args' hargs
  obtain ⟨hcall, -⟩ := withdrawOf_eq_some.mp hargs
  simp only [trace, run, Machine.trace, Machine.stepAt, List.mem_cons, List.not_mem_nil,
    or_false] at he
  rcases he with rfl | rfl | rfl | rfl | rfl | rfl
  all_goals cases hcall
  exact circuit_of_inputs label rfl rfl rfl rfl rfl

/-- Only the deposit calls of the run deposit. -/
theorem deposits_cases {paid value : I128} {c : BytesN 32} {i : ℕ} {e : PoolStep}
    (he : e ∈ trace paid) (h : Deposits value c i e) :
    (value = paid ∧ c = BytesN.ofNat 32 100 ∧ i = 0) ∨
    (value = I128.ofNat 100 ∧ c = BytesN.ofNat 32 500 ∧ i = 1) := by
  obtain ⟨depositor, hcall, -⟩ := h
  simp only [trace, run, Machine.trace, Machine.stepAt, List.mem_cons, List.not_mem_nil,
    or_false] at he
  rcases he with rfl | rfl | rfl | rfl | rfl | rfl
  all_goals cases hcall
  · exact .inl ⟨rfl, rfl, rfl⟩
  · exact .inr ⟨rfl, rfl, rfl⟩

/-- The openings of the three commitments of the run. -/
theorem opens_cases {label x l n : ℤ} {v : ℕ} (h : Opens (poseidon label) x v l n) :
    (x = 100 ∧ v = 100 ∧ l = 200) ∨ (x = 500 ∧ v = 100 ∧ l = hash2 label 9 1) ∨
    (x = 300 ∧ v = 0 ∧ l = 200) ∨ x < 0 := by
  obtain ⟨-, secret, heq⟩ := h
  have hhash : hash3 label v l (hash2 label n secret) = x := heq
  have hcode := code_neg ((v : ℤ), l, hash2 label n secret)
  rcases hash3_cases label v l (hash2 label n secret) with ⟨hv, hl, -, h⟩ | ⟨hv, hl, -, h⟩ |
    ⟨hv, hl, -, h⟩ | h
  · exact .inl ⟨by omega, by omega, hl⟩
  · exact .inr (.inl ⟨by omega, by omega, hl⟩)
  · exact .inr (.inr (.inl ⟨by omega, by omega, hl⟩))
  · exact .inr (.inr (.inr (by omega)))

/-- Both commitments hide 100, the second under the label of its own index. -/
theorem opens_first {label l n : ℤ} {v : ℕ}
    (h : Opens (poseidon label) (fieldOf ℤ (BytesN.ofNat 32 100)) v l n) : v = 100 ∧ l = 200 := by
  have hfield : fieldOf ℤ (BytesN.ofNat 32 100) = 100 := by decide
  rcases opens_cases h with ⟨-, hopens⟩ | ⟨hx, -⟩ | ⟨hx, -⟩ | hx
  · exact hopens
  · omega
  · omega
  · omega

theorem opens_second {label l n : ℤ} {v : ℕ}
    (h : Opens (poseidon label) (fieldOf ℤ (BytesN.ofNat 32 500)) v l n) :
    v = 100 ∧ l = hash2 label 9 1 := by
  have hfield : fieldOf ℤ (BytesN.ofNat 32 500) = 500 := by decide
  rcases opens_cases h with ⟨hx, -⟩ | ⟨-, hopens⟩ | ⟨hx, -⟩ | hx
  · omega
  · exact hopens
  · omega
  · omega

theorem natCastInj : NatCastInj ℤ Groth16.scalarOrder := by
  intro a _ b _ h
  exact Int.ofNat.inj h

end TwoDeposits

/-- A deposit of 1 whose commitment hides 100: the 100 are withdrawn from it, out of what the other
depositor paid. -/
theorem value_not_sound :
    NatCastInj ℤ Groth16.scalarOrder ∧ SoundVerifier (TwoDeposits.poseidon 1) TwoDeposits.bn254 ∧
    (∀ e ∈ TwoDeposits.trace (I128.ofNat 1), HonestRoot (TwoDeposits.poseidon 1) e) ∧
    ¬ ValueSound (TwoDeposits.poseidon 1) TwoDeposits.host (TwoDeposits.trace (I128.ofNat 1)) := by
  refine ⟨TwoDeposits.natCastInj, TwoDeposits.sound 1,
    TwoDeposits.honestRoot 1 (by decide), ?_⟩
  intro h
  have hspends : spends (fun _ => TwoDeposits.witness) (TwoDeposits.trace (I128.ofNat 1)) =
      [⟨0, 2, 100⟩] := by
    decide +kernel
  obtain ⟨e, he, hdep⟩ : ∃ e ∈ TwoDeposits.trace (I128.ofNat 1),
      Deposits (I128.ofNat 1) (BytesN.ofNat 32 100) 0 e := by
    refine ⟨_, List.mem_cons_of_mem _ List.mem_cons_self, Demo.user, rfl, ?_⟩
    decide
  have hle := h _ (TwoDeposits.witnessed 1 _) e he _ _ _ hdep
  rw [hspends] at hle
  revert hle
  simp [drawn, Descends.refl, I128.ofNat]

/-- The same run with 100 paid for the first commitment: all of it can be drawn, and no more. -/
theorem deposit_value_sound_two :
    let t := TwoDeposits.trace (I128.ofNat 100)
    (∃ e ∈ t, Deposits (I128.ofNat 100) (BytesN.ofNat 32 100) 0 e) ∧
    ValueSound (TwoDeposits.poseidon 0) TwoDeposits.host t ∧
    spends (fun _ => TwoDeposits.witness) t = [⟨0, 2, 100⟩] := by
  refine ⟨?_, ?_, by decide +kernel⟩
  · refine ⟨_, List.mem_cons_of_mem _ List.mem_cons_self, Demo.user, rfl, ?_⟩
    decide
  · refine (deposit_value_sound (TwoDeposits.poseidon 0) TwoDeposits.natCastInj (Demo.contract 0)
      Demo.keccak256 TwoDeposits.bn254 (TwoDeposits.sound 0) TwoDeposits.tokens
      (TwoDeposits.run (I128.ofNat 100)) (TwoDeposits.honestRoot 0 (by decide)) ?_).2
    intro e he value c i hdep v l n hopens
    rcases TwoDeposits.deposits_cases he hdep with ⟨rfl, rfl, rfl⟩ | ⟨rfl, rfl, rfl⟩
    · rw [(TwoDeposits.opens_first hopens).1]
      rfl
    · rw [(TwoDeposits.opens_second hopens).1]
      rfl

end OpaqueStellar.Pool
