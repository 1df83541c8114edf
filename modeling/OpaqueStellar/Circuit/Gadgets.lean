import Mathlib.Algebra.BigOperators.Group.Finset.Basic
import Mathlib.Algebra.Ring.Basic
import Mathlib.Tactic.LinearCombination
import OpaqueStellar.Lib.Merkle

/-! # Circuit gadgets

The templates that the circuits take from circomlib, as constraints over a domain `F`, and what a
satisfying assignment of each says about numbers. Numbers below some bound `r` have to be different
elements of `F` for that; `NatCastInj` is this one assumption.

Hash templates are left symbolic: `Poseidon` has one injective function per arity, none of which
hits the padding leaf zero. No finite field has such functions, which is why `F` is any domain. -/

namespace OpaqueStellar.Circuit

open OpaqueStellar.Lib

/-- Numbers below `r` are different elements of `F`. -/
def NatCastInj (F : Type) [NatCast F] (r : ℕ) : Prop :=
  ∀ a < r, ∀ b < r, (a : F) = (b : F) → a = b

/-- Symbolic Poseidon hashes of one, two and three inputs. -/
structure Poseidon (F : Type) [Zero F] where
  hash1 : F → F
  hash2 : F → F → F
  hash3 : F → F → F → F
  hash2_inj : ∀ {a b c d}, hash2 a b = hash2 c d → a = c ∧ b = d
  hash3_inj : ∀ {a b c d e f}, hash3 a b c = hash3 d e f → a = d ∧ b = e ∧ c = f
  hash2_ne_zero : ∀ a b, hash2 a b ≠ 0
  hash3_ne_zero : ∀ a b c, hash3 a b c ≠ 0

variable {F : Type} [CommRing F]

/-! ## Bits and comparisons -/

/-- `Num2Bits(n)`: the outputs are bits, and they are the binary digits of the input. -/
structure Num2Bits (n : ℕ) (inp : F) (out : ℕ → F) : Prop where
  bits : ∀ i < n, out i * (out i - 1) = 0
  sum : ∑ i ∈ Finset.range n, out i * 2 ^ i = inp

/-- `LessThan(n)`, through the top bit of `in[0] + 2^n - in[1]`. -/
structure LessThan (n : ℕ) (in0 in1 : F) (n2b : ℕ → F) (out : F) : Prop where
  digits : Num2Bits (n + 1) (in0 + 2 ^ n - in1) n2b
  result : out = 1 - n2b n

/-- `LessEqThan(n)` compares with the successor. -/
def LessEqThan (n : ℕ) (in0 in1 : F) (n2b : ℕ → F) (out : F) : Prop :=
  LessThan n in0 (in1 + 1) n2b out

/-- `Mux1`: `c0` for selector zero, `c1` for selector one. -/
def mux1 (c0 c1 s : F) : F := (c1 - c0) * s + c0

section Domain

variable [IsDomain F]

theorem eq_zero_or_one_of_bit {x : F} (h : x * (x - 1) = 0) : x = 0 ∨ x = 1 := by
  rcases mul_eq_zero.mp h with h | h
  · exact .inl h
  · exact .inr (sub_eq_zero.mp h)

/-- The input of a satisfied `Num2Bits(n)` is a number of `n` bits. -/
theorem Num2Bits.exists_lt {n : ℕ} {inp : F} {out : ℕ → F} (h : Num2Bits n inp out) :
    ∃ k : ℕ, k < 2 ^ n ∧ inp = (k : F) := by
  induction n generalizing inp with
  | zero =>
      refine ⟨0, by decide, ?_⟩
      rw [← h.sum]
      simp
  | succ n ih =>
      have hlow : Num2Bits n (∑ i ∈ Finset.range n, out i * 2 ^ i) out :=
        ⟨fun i hi => h.bits i (by omega), rfl⟩
      obtain ⟨k, hk, heq⟩ := ih hlow
      rw [← h.sum, Finset.sum_range_succ, heq, pow_succ]
      rcases eq_zero_or_one_of_bit (h.bits n (by omega)) with hbit | hbit
      · refine ⟨k, by omega, ?_⟩
        rw [hbit]
        ring
      · refine ⟨k + 2 ^ n, by omega, ?_⟩
        rw [hbit]
        push_cast
        ring

/-- A satisfied comparison with output one compares the numbers. -/
theorem LessThan.lt {n r : ℕ} (hr : 2 ^ (n + 1) ≤ r) (hcast : NatCastInj F r) {x y : ℕ}
    (hx : x < 2 ^ n) (hy : y ≤ 2 ^ n) {n2b : ℕ → F}
    (h : LessThan n (x : F) (y : F) n2b 1) : x < y := by
  have htop : n2b n = 0 := by linear_combination h.result
  have hlow : Num2Bits n (∑ i ∈ Finset.range n, n2b i * 2 ^ i) n2b :=
    ⟨fun i hi => h.digits.bits i (by omega), rfl⟩
  obtain ⟨k, hk, heq⟩ := hlow.exists_lt
  have hsum := h.digits.sum
  rw [Finset.sum_range_succ, htop, heq] at hsum
  -- the low bits are `x + 2^n - y`, without a carry into the top one
  have hfield : ((x + 2 ^ n : ℕ) : F) = ((k + y : ℕ) : F) := by
    push_cast
    linear_combination -hsum
  rw [pow_succ] at hr
  have hnat := hcast (x + 2 ^ n) (by omega) (k + y) (by omega) hfield
  omega

theorem LessEqThan.le {n r : ℕ} (hr : 2 ^ (n + 1) ≤ r) (hcast : NatCastInj F r) {x y : ℕ}
    (hx : x < 2 ^ n) (hy : y < 2 ^ n) {n2b : ℕ → F}
    (h : LessEqThan n (x : F) (y : F) n2b 1) : x ≤ y := by
  have h' : LessThan n (x : F) ((y + 1 : ℕ) : F) n2b 1 := by
    push_cast
    exact h
  exact Nat.lt_succ_iff.mp (h'.lt hr hcast hx hy)

end Domain

/-! ### Assignments that satisfy them -/

/-- The binary digits of a number. -/
def binaryDigits (F : Type) [NatCast F] (k i : ℕ) : F := ((k / 2 ^ i % 2 : ℕ) : F)

theorem num2Bits_binaryDigits {n k : ℕ} (h : k < 2 ^ n) :
    Num2Bits n (k : F) (binaryDigits F k) := by
  constructor
  · intro i _
    rcases Nat.mod_two_eq_zero_or_one (k / 2 ^ i) with hbit | hbit
    · simp [binaryDigits, hbit]
    · simp [binaryDigits, hbit]
  · have hsum : ∀ m, ∑ i ∈ Finset.range m, binaryDigits F k i * 2 ^ i = ((k % 2 ^ m : ℕ) : F) := by
      intro m
      induction m with
      | zero => simp [Nat.mod_one]
      | succ m ih =>
          rw [Finset.sum_range_succ, ih, Nat.mod_pow_succ, binaryDigits]
          push_cast
          ring
    rw [hsum, Nat.mod_eq_of_lt h]

/-- The digits of `x + 2^n - y` show that `x` is below `y`. -/
theorem lessThan_binaryDigits {n x y : ℕ} (hxy : x < y) (hy : y ≤ 2 ^ n) :
    LessThan n (x : F) (y : F) (binaryDigits F (x + 2 ^ n - y)) 1 := by
  have hlow : x + 2 ^ n - y < 2 ^ n := by omega
  constructor
  · have hdigits := num2Bits_binaryDigits (F := F) (k := x + 2 ^ n - y) (n := n + 1)
      (by rw [pow_succ]; omega)
    have hcast : ((x + 2 ^ n - y : ℕ) : F) = (x : F) + 2 ^ n - (y : F) := by
      rw [Nat.cast_sub (by omega)]
      push_cast
      ring
    rwa [hcast] at hdigits
  · rw [binaryDigits, Nat.div_eq_of_lt hlow]
    simp

/-! ## Merkle inclusion -/

/-- The signals `cur` of `MerkleInclusion`. -/
def merkleCur (hash2 : F → F → F) (leaf : F) (siblings pathIndices : ℕ → F) : ℕ → F
  | 0 => leaf
  | i + 1 =>
    let cur := merkleCur hash2 leaf siblings pathIndices i
    hash2 (mux1 cur (siblings i) (pathIndices i)) (mux1 (siblings i) cur (pathIndices i))

/-- `MerkleInclusion(levels)` with output `root`. -/
structure MerkleInclusion (hash2 : F → F → F) (levels : ℕ) (leaf : F)
    (siblings pathIndices : ℕ → F) (root : F) : Prop where
  binary : ∀ i < levels, pathIndices i * (1 - pathIndices i) = 0
  root : root = merkleCur hash2 leaf siblings pathIndices levels

section Path

variable [DecidableEq F]

/-- The siblings and the directions of the first `levels` levels. -/
def path (siblings pathIndices : ℕ → F) (levels : ℕ) : List (F × Bool) :=
  (List.range levels).map fun i => (siblings i, decide (pathIndices i = 1))

theorem path_succ (siblings pathIndices : ℕ → F) (levels : ℕ) :
    path siblings pathIndices (levels + 1) =
      path siblings pathIndices levels ++
        [(siblings levels, decide (pathIndices levels = 1))] := by
  rw [path, List.range_succ, List.map_append]
  rfl

theorem length_path (siblings pathIndices : ℕ → F) (levels : ℕ) :
    (path siblings pathIndices levels).length = levels := by
  rw [path, List.length_map, List.length_range]

/-- With binary path indices the two multiplexers put the current node on the side the index says,
so the template walks up the path. -/
theorem merkleCur_eq_fold [IsDomain F] {hash2 : F → F → F} {leaf : F}
    {siblings pathIndices : ℕ → F} {levels : ℕ}
    (h : ∀ i < levels, pathIndices i * (1 - pathIndices i) = 0) :
    merkleCur hash2 leaf siblings pathIndices levels =
      Merkle.fold hash2 leaf (path siblings pathIndices levels) := by
  induction levels with
  | zero => rfl
  | succ levels ih =>
      have hbelow := ih fun i hi => h i (by omega)
      have hbit : pathIndices levels = 0 ∨ pathIndices levels = 1 := by
        apply eq_zero_or_one_of_bit
        linear_combination -(h levels (by omega))
      rw [merkleCur, hbelow, path_succ, Merkle.fold, Merkle.fold, List.foldl_append]
      rcases hbit with hbit | hbit
      · simp [mux1, Merkle.up, hbit]
      · simp [mux1, Merkle.up, hbit]

end Path

end OpaqueStellar.Circuit
