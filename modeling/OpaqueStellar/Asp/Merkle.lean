import Mathlib.Algebra.Ring.Basic
import Mathlib.Data.List.GetD
import OpaqueStellar.Lib.Merkle

/-! # The off-chain Merkle tree

`MerkleTree` of `asp/src/merkle.ts`: leaves appended from the left, empty leaves zero, and the hash
of an empty subtree taken from the table `zero` instead of being computed. `root_eq_node` says that
the shortcut computes the root of the perfect tree over the padded leaves. -/

namespace OpaqueStellar.Asp

open OpaqueStellar.Lib

def TREE_DEPTH : ℕ := 20

structure MerkleTree (F : Type) where
  depth : ℕ := TREE_DEPTH
  leaves : List F := []

namespace MerkleTree

variable {F : Type} [Zero F] (hash2 : F → F → F)

/-- The table of empty subtrees. -/
def zero : ℕ → F
  | 0 => 0
  | level + 1 => hash2 (zero level) (zero level)

def insert (t : MerkleTree F) (leaf : F) : Except String (MerkleTree F × ℕ) :=
  if 2 ^ t.depth ≤ t.leaves.length then .error "tree full"
  else .ok ({ t with leaves := t.leaves ++ [leaf] }, t.leaves.length)

def rootFrom (leaves : List F) : ℕ → ℕ → F
  | 0, start => if leaves.length ≤ start then zero hash2 0 else leaves.getD start 0
  | level + 1, start =>
    if leaves.length ≤ start then zero hash2 (level + 1)
    else hash2 (rootFrom leaves level start) (rootFrom leaves level (start + 2 ^ level))

def root (t : MerkleTree F) : F := rootFrom hash2 t.leaves t.depth 0

def node (t : MerkleTree F) (index level : ℕ) : F :=
  rootFrom hash2 t.leaves level (index * 2 ^ level)

/-- The siblings of the leaf at `index`, bottom up, with their directions. -/
def proof (t : MerkleTree F) (index : ℕ) : List (F × Bool) :=
  (List.range t.depth).map fun level =>
    (node hash2 t (index / 2 ^ level ^^^ 1) level, decide (index / 2 ^ level % 2 = 1))

/-- The leaf at a position, zero beyond the last. -/
def padded (leaves : List F) (i : ℕ) : F := leaves.getD i 0

theorem padded_of_le {leaves : List F} {i : ℕ} (h : leaves.length ≤ i) : padded leaves i = 0 :=
  List.getD_eq_default leaves 0 h

/-- Beyond the last leaf there are only empty subtrees. -/
theorem node_eq_zero {leaves : List F} {level start : ℕ} (h : leaves.length ≤ start) :
    Merkle.node hash2 (padded leaves) level start = zero hash2 level := by
  induction level generalizing start with
  | zero => exact padded_of_le h
  | succ level ih =>
      rw [Merkle.node, ih h, ih (le_trans h (Nat.le_add_right _ _)), zero]

theorem rootFrom_eq_node (leaves : List F) (level start : ℕ) :
    rootFrom hash2 leaves level start = Merkle.node hash2 (padded leaves) level start := by
  induction level generalizing start with
  | zero =>
      rw [rootFrom]
      split_ifs with h
      · exact (node_eq_zero hash2 h).symm
      · rfl
  | succ level ih =>
      rw [rootFrom]
      split_ifs with h
      · exact (node_eq_zero hash2 h).symm
      · rw [ih, ih, Merkle.node]

theorem root_eq_node (t : MerkleTree F) :
    root hash2 t = Merkle.node hash2 (padded t.leaves) t.depth 0 :=
  rootFrom_eq_node hash2 t.leaves t.depth 0

theorem proof_eq_authPath (t : MerkleTree F) (index : ℕ) :
    proof hash2 t index = Merkle.authPath hash2 (padded t.leaves) index t.depth := by
  simp only [proof, Merkle.authPath, node, rootFrom_eq_node]

/-- The siblings that `proof` returns lead from the leaf to the root. -/
theorem fold_proof (t : MerkleTree F) {index : ℕ} (h : index < 2 ^ t.depth) :
    Merkle.fold hash2 (padded t.leaves index) (proof hash2 t index) = root hash2 t := by
  rw [proof_eq_authPath, Merkle.fold_authPath, root_eq_node, Nat.div_eq_of_lt h, Nat.zero_mul]

/-! ## Equal roots -/

theorem getElem?_eq_of_padded {xs ys : List F} (hxs : 0 ∉ xs) {i : ℕ}
    (h : padded xs i = padded ys i) {x : F} (hx : xs[i]? = some x) : ys[i]? = some x := by
  have hx' : padded xs i = x := by rw [padded, List.getD_eq_getElem?_getD, hx]; rfl
  rw [hx', padded, List.getD_eq_getElem?_getD] at h
  cases hy : ys[i]? with
  | none =>
      rw [hy, Option.getD_none] at h
      rw [h] at hx
      exact absurd (List.mem_of_getElem? hx) hxs
  | some y =>
      rw [hy] at h
      rw [h]
      rfl

variable {hash2} in
/-- With an injective hash, two trees without empty leaves among theirs have the same root exactly if
they have the same leaves, as far as the trees go. -/
theorem root_eq_iff (hinj : ∀ {a b c d}, hash2 a b = hash2 c d → a = c ∧ b = d) {xs ys : List F}
    (hxs : 0 ∉ xs) (hys : 0 ∉ ys) {depth : ℕ} :
    root hash2 ⟨depth, xs⟩ = root hash2 ⟨depth, ys⟩ ↔ xs.take (2 ^ depth) = ys.take (2 ^ depth) := by
  rw [root_eq_node, root_eq_node]
  constructor
  · intro heq
    have hpadded := Merkle.node_inj hinj heq
    apply List.ext_getElem?
    intro i
    rw [List.getElem?_take, List.getElem?_take]
    split_ifs with hi
    · have hsame := hpadded i hi
      rw [Nat.zero_add] at hsame
      apply Option.ext
      intro x
      exact ⟨getElem?_eq_of_padded hxs hsame, getElem?_eq_of_padded hys hsame.symm⟩
    · rfl
  · intro heq
    apply Merkle.node_congr
    intro i hi
    rw [Nat.zero_add, padded, padded, List.getD_eq_getElem?_getD, List.getD_eq_getElem?_getD,
      ← List.getElem?_take_of_lt hi, heq, List.getElem?_take_of_lt hi]

/-! ## Building a tree -/

omit [Zero F] in
theorem insert_eq_ok {t t' : MerkleTree F} {leaf : F} {index : ℕ} :
    t.insert leaf = .ok (t', index) ↔ t.leaves.length < 2 ^ t.depth ∧
      t' = { t with leaves := t.leaves ++ [leaf] } ∧ index = t.leaves.length := by
  unfold insert
  split
  · next hfull =>
      constructor
      · intro h
        cases h
      · rintro ⟨hroom, -⟩
        omega
  · next hroom =>
      rw [Except.ok.injEq, Prod.mk.injEq]
      constructor
      · rintro ⟨rfl, rfl⟩
        exact ⟨not_le.mp hroom, rfl, rfl⟩
      · rintro ⟨-, rfl, rfl⟩
        exact ⟨rfl, rfl⟩

omit [Zero F] in
/-- A loop that inserts a leaf for each element: the leaves are there in order, if they fit. -/
theorem foldlM_insert_eq_ok {ε β : Type} {f : MerkleTree F → β → Except ε (MerkleTree F)} {g : β → F}
    (hf : ∀ t x t', f t x = .ok t' ↔ t.leaves.length < 2 ^ t.depth ∧
      t' = { t with leaves := t.leaves ++ [g x] })
    {xs : List β} {t t' : MerkleTree F} (ht : t.leaves.length ≤ 2 ^ t.depth) :
    xs.foldlM f t = .ok t' ↔ t.leaves.length + xs.length ≤ 2 ^ t.depth ∧
      t' = { t with leaves := t.leaves ++ xs.map g } := by
  induction xs generalizing t with
  | nil =>
      rw [List.foldlM_nil, List.map_nil, List.append_nil, List.length_nil, Nat.add_zero]
      constructor
      · intro h
        cases h
        exact ⟨ht, rfl⟩
      · rintro ⟨-, rfl⟩
        rfl
  | cons x xs ih =>
      rw [List.foldlM_cons, List.length_cons]
      by_cases hroom : t.leaves.length < 2 ^ t.depth
      · have hx := (hf t x { t with leaves := t.leaves ++ [g x] }).mpr ⟨hroom, rfl⟩
        have hnext : (t.leaves ++ [g x]).length ≤ 2 ^ t.depth := by
          rw [List.length_append, List.length_singleton]
          exact hroom
        rw [hx]
        refine (ih hnext).trans ?_
        rw [List.length_append, List.length_singleton, List.map_cons, List.append_assoc,
          List.singleton_append, Nat.add_assoc, Nat.add_comm 1]
      · constructor
        · intro h
          cases hx : f t x with
          | error e =>
              rw [hx] at h
              cases h
          | ok t₁ => exact absurd ((hf t x t₁).mp hx).1 hroom
        · rintro ⟨hfits, -⟩
          omega

end MerkleTree

/-- `label = Poseidon(scope, depositIndex)`. -/
def computeLabel {F : Type} [NatCast F] (hash2 : F → F → F) (scope index : ℕ) : F :=
  hash2 (scope : F) (index : F)

end OpaqueStellar.Asp
