import OpaqueStellar.Asp.Merkle

/-! # The scanner's Merkle tree

`MerkleTree` of `scanner/src/merkle.rs`, over any two-to-one hash: leaves appended from the left, the
root and every sibling computed down to the leaves, and `verify_proof`, which walks back up.

`computeRootFrom_eq_node` says that the recursion computes the perfect tree over the padded leaves,
and `climb_eq` that the loop of `proof` collects the authentication path of the leaf. -/

namespace OpaqueStellar.Scanner

open OpaqueStellar.Lib OpaqueStellar.Asp.MerkleTree

inductive MerkleError where
  | treeFull (capacity count : ℕ)
  | indexOutOfBounds (index count : ℕ)
  deriving DecidableEq

def MerkleError.message : MerkleError → String
  | .treeFull capacity count => s!"Merkle tree is full: capacity={capacity}, count={count}"
  | .indexOutOfBounds index count =>
      s!"Merkle proof index {index} out of bounds (leaf count={count})"

structure MerkleProof (α : Type) where
  leaf : α
  pathElements : List α
  pathIndices : List ℕ
  root : α
  deriving DecidableEq

section Tree

variable {α : Type} [Zero α] (hash2 : α → α → α)

/-- The loop of the constructor, which the classes in TypeScript have too: the hash of the empty
subtree of each level from the one below. -/
def emptyHashes (depth : ℕ) : List α :=
  (List.range depth).foldl (fun zeros i => zeros ++ [hash2 (zeros.getD i 0) (zeros.getD i 0)]) [0]

theorem emptyHashes_eq (depth : ℕ) :
    emptyHashes hash2 depth = (List.range (depth + 1)).map (zero hash2) := by
  induction depth with
  | zero => rfl
  | succ depth ih =>
      have hlast : ((List.range (depth + 1)).map (zero hash2)).getD depth 0 = zero hash2 depth := by
        simp [List.getD_eq_getElem?_getD]
      rw [emptyHashes, List.range_succ, List.foldl_append, ← emptyHashes, ih, List.foldl_cons,
        List.foldl_nil, hlast, List.range_succ (n := depth + 1), List.map_append]
      rfl

/-- The table holds the empty subtree of every level of the tree. -/
theorem getD_emptyHashes {depth level : ℕ} (h : level ≤ depth) :
    (emptyHashes hash2 depth).getD level 0 = zero hash2 level := by
  rw [emptyHashes_eq, List.getD_eq_getElem?_getD, List.getElem?_map,
    List.getElem?_range (Nat.lt_succ_of_le h)]
  rfl

/-- A tree of a depth, with its table of empty subtrees. -/
structure MerkleTree where
  depth : ℕ
  leaves : List α
  zeroHashes : List α
  table : zeroHashes = emptyHashes hash2 depth

namespace MerkleTree

variable {hash2}

variable (hash2) in
def new (depth : ℕ) : MerkleTree hash2 := ⟨depth, [], emptyHashes hash2 depth, rfl⟩

/-- `self.leaves.push(leaf)` -/
def push (t : MerkleTree hash2) (leaf : α) : MerkleTree hash2 :=
  { t with leaves := t.leaves ++ [leaf] }

def capacity (t : MerkleTree hash2) : ℕ := 1 <<< t.depth

def insert (t : MerkleTree hash2) (leaf : α) : Except MerkleError (MerkleTree hash2 × ℕ) :=
  if t.capacity ≤ t.leaves.length then .error (.treeFull t.capacity t.leaves.length)
  else .ok (t.push leaf, t.leaves.length)

def computeRootFrom (t : MerkleTree hash2) : ℕ → ℕ → α
  | start, 0 =>
    if start < t.leaves.length then t.leaves.getD start 0 else t.zeroHashes.getD 0 0
  | start, level + 1 =>
    hash2 (computeRootFrom t start level) (computeRootFrom t (start + 1 <<< level) level)

def root (t : MerkleTree hash2) : α := t.computeRootFrom 0 t.depth

def getNode (t : MerkleTree hash2) (index level : ℕ) : α :=
  if level = 0 then
    if index < t.leaves.length then t.leaves.getD index 0 else t.zeroHashes.getD 0 0
  else t.computeRootFrom (index * 1 <<< level) level

end MerkleTree

/-- The variables of the loop that collects a proof. -/
structure Climb (α : Type) where
  currentIdx : ℕ
  pathElements : List α
  pathIndices : List ℕ

namespace MerkleTree

variable {hash2}

/-- The loop of `proof` after a number of levels. -/
def climb (t : MerkleTree hash2) (index : ℕ) : ℕ → Climb α
  | 0 => ⟨index, [], []⟩
  | level + 1 =>
    let s := climb t index level
    { currentIdx := s.currentIdx >>> 1
      pathElements := s.pathElements ++ [t.getNode (s.currentIdx ^^^ 1) level]
      pathIndices := s.pathIndices ++ [s.currentIdx &&& 1] }

def proof (t : MerkleTree hash2) (index : ℕ) : Except MerkleError (MerkleProof α) :=
  if t.leaves.length ≤ index then .error (.indexOutOfBounds index t.leaves.length)
  else
    let s := t.climb index t.depth
    .ok ⟨t.leaves.getD index 0, s.pathElements, s.pathIndices, t.root⟩

end MerkleTree

/-- The loop of `verify_proof` after a number of levels: an index that is missing panics. -/
def MerkleProof.current (hash2 : α → α → α) (p : MerkleProof α) : ℕ → Option α
  | 0 => some p.leaf
  | i + 1 => do
    let current ← current hash2 p i
    let index ← p.pathIndices[i]?
    let element ← p.pathElements[i]?
    pure (if index = 0 then hash2 current element else hash2 element current)

def verifyProof [DecidableEq α] (p : MerkleProof α) : Option Bool := do
  let current ← p.current hash2 p.pathElements.length
  pure (current = p.root)

end Tree

/-! ## The recursion -/

section Correct

variable {α : Type} [Zero α] {hash2 : α → α → α}

namespace MerkleTree

theorem getD_zeroHashes (t : MerkleTree hash2) {level : ℕ} (h : level ≤ t.depth) :
    t.zeroHashes.getD level 0 = zero hash2 level := by
  rw [t.table, getD_emptyHashes hash2 h]

/-- A leaf, or the empty one. -/
theorem leaf_eq_padded (t : MerkleTree hash2) (start : ℕ) :
    (if start < t.leaves.length then t.leaves.getD start 0 else t.zeroHashes.getD 0 0) =
      padded t.leaves start := by
  rw [t.getD_zeroHashes (Nat.zero_le _)]
  split
  · rfl
  · next h => exact (padded_of_le (not_lt.mp h)).symm

theorem computeRootFrom_eq_node (t : MerkleTree hash2) (start level : ℕ) :
    t.computeRootFrom start level = Merkle.node hash2 (padded t.leaves) level start := by
  induction level generalizing start with
  | zero => exact t.leaf_eq_padded start
  | succ level ih => rw [computeRootFrom, ih, ih, Nat.one_shiftLeft, Merkle.node]

theorem root_eq_node (t : MerkleTree hash2) :
    t.root = Merkle.node hash2 (padded t.leaves) t.depth 0 :=
  t.computeRootFrom_eq_node 0 t.depth

theorem getNode_eq_node (t : MerkleTree hash2) (index level : ℕ) :
    t.getNode index level = Merkle.node hash2 (padded t.leaves) level (index * 2 ^ level) := by
  rw [getNode]
  split
  · next h =>
      subst h
      rw [pow_zero, Nat.mul_one]
      exact t.leaf_eq_padded index
  · rw [computeRootFrom_eq_node, Nat.one_shiftLeft]

end MerkleTree

/-! ## The loop -/

/-- The siblings of a path, and its directions as bits. -/
def elements (path : List (α × Bool)) : List α := path.map (·.1)

def bits (path : List (α × Bool)) : List ℕ := path.map fun s => if s.2 then 1 else 0

omit [Zero α] in
theorem elements_append (path : List (α × Bool)) (s : α × Bool) :
    elements (path ++ [s]) = elements path ++ [s.1] := List.map_append

omit [Zero α] in
theorem bits_append (path : List (α × Bool)) (s : α × Bool) :
    bits (path ++ [s]) = bits path ++ [if s.2 then 1 else 0] := List.map_append

/-- The parity of a number, as a direction and as a bit. -/
theorem bit_parity (n : ℕ) : (if decide (n % 2 = 1) then 1 else 0) = n % 2 := by
  rcases Nat.mod_two_eq_zero_or_one n with h | h <;> simp [h]

theorem MerkleTree.climb_eq (t : MerkleTree hash2) (index level : ℕ) :
    t.climb index level =
      { currentIdx := index / 2 ^ level
        pathElements := elements (Merkle.authPath hash2 (padded t.leaves) index level)
        pathIndices := bits (Merkle.authPath hash2 (padded t.leaves) index level) } := by
  induction level with
  | zero =>
      rw [pow_zero, Nat.div_one]
      rfl
  | succ level ih =>
      have hparent : (index / 2 ^ level) >>> 1 = index / 2 ^ (level + 1) := by
        rw [Nat.shiftRight_eq_div_pow, pow_one, Nat.div_div_eq_div_mul, pow_succ]
      rw [climb, ih, Merkle.authPath_succ, elements_append, bits_append, getNode_eq_node,
        Nat.and_one_is_mod, bit_parity, hparent]

theorem MerkleTree.proof_of_lt (t : MerkleTree hash2) {index : ℕ} (h : index < t.leaves.length) :
    t.proof index = .ok
      { leaf := padded t.leaves index
        pathElements := elements (Merkle.authPath hash2 (padded t.leaves) index t.depth)
        pathIndices := bits (Merkle.authPath hash2 (padded t.leaves) index t.depth)
        root := t.root } := by
  rw [proof, if_neg (not_le.mpr h), climb_eq]
  rfl

/-! ## The way back -/

omit [Zero α] in
/-- The loop of `verify_proof` walks up the path. -/
theorem MerkleProof.current_eq_fold (leaf root : α) (path : List (α × Bool)) {n : ℕ}
    (h : n ≤ path.length) :
    MerkleProof.current hash2 ⟨leaf, elements path, bits path, root⟩ n =
      some (Merkle.fold hash2 leaf (path.take n)) := by
  induction n with
  | zero => rfl
  | succ n ih =>
      have hn : n < path.length := h
      have hstep : Merkle.fold hash2 leaf (path.take (n + 1)) =
          Merkle.up hash2 (Merkle.fold hash2 leaf (path.take n)) path[n] := by
        rw [List.take_add_one, List.getElem?_eq_getElem hn, Merkle.fold, List.foldl_append]
        rfl
      rw [current, ih (Nat.le_of_lt hn), hstep]
      cases hside : path[n].2 <;>
        simp [elements, bits, List.getElem?_eq_getElem hn, Merkle.up, hside]

omit [Zero α] in
theorem verifyProof_eq [DecidableEq α] (leaf root : α) (path : List (α × Bool)) :
    verifyProof hash2 ⟨leaf, elements path, bits path, root⟩ =
      some (decide (Merkle.fold hash2 leaf path = root)) := by
  have hlen : (elements path).length = path.length := List.length_map _
  rw [verifyProof, hlen, MerkleProof.current_eq_fold leaf root path le_rfl, List.take_length]
  rfl

end Correct

end OpaqueStellar.Scanner
