import Mathlib.Data.Nat.Bitwise
import OpaqueStellar.Circuit.Gadgets
import OpaqueStellar.Scanner.Merkle

/-! # The Merkle trees in TypeScript

The classes of `asp/src/merkle.ts`, `publisher/src/merkle.ts` and `sdk/src/prove/pool.ts`. They share
the constructor, the recursion, which takes the hash of an empty subtree from the table, and the loop
of `proof`; they differ in what they check and in what they return. Positions are numbers under the
bit operators, which read thirty-two signed bits, so `1 << 31` is negative and the trees are those of
the scanner up to a depth of thirty.

`trees_agree` compares the four implementations with each other, with `verify_proof` and with the
inclusion check of the circuits. -/

namespace OpaqueStellar.Scanner

open OpaqueStellar.Lib OpaqueStellar.Asp.MerkleTree

/-! ## Bit operators -/

/-- `ToInt32` -/
def toInt32 (x : ℤ) : BitVec 32 := BitVec.ofInt 32 x

/-- `1 << n` -/
def oneShl (n : ℕ) : ℤ := (1#32 <<< (n % 32)).toInt

/-- `x ^ 1` -/
def xorOne (x : ℤ) : ℤ := (toInt32 x ^^^ 1#32).toInt

/-- `x & 1` -/
def andOne (x : ℤ) : ℕ := (toInt32 x &&& 1#32).toNat

/-- `x >> 1` -/
def sarOne (x : ℤ) : ℤ := ((toInt32 x).sshiftRight 1).toInt

theorem oneShl_eq {n : ℕ} (h : n ≤ 30) : oneShl n = ((2 ^ n : ℕ) : ℤ) := by
  have hall : ∀ n ≤ 30, oneShl n = ((2 ^ n : ℕ) : ℤ) := by decide
  exact hall n h

theorem toNat_toInt32 {n : ℕ} (h : n < 2 ^ 31) : (toInt32 n).toNat = n := by
  rw [toInt32, BitVec.ofInt_natCast, BitVec.toNat_ofNat]
  omega

theorem toInt_of_lt {x : BitVec 32} (h : x.toNat < 2 ^ 31) : x.toInt = x.toNat := by
  apply BitVec.toInt_eq_toNat_of_lt
  omega

theorem xorOne_natCast {n : ℕ} (h : n < 2 ^ 31) : xorOne n = ((n ^^^ 1 : ℕ) : ℤ) := by
  have hval : (toInt32 n ^^^ 1#32).toNat = n ^^^ 1 := by
    rw [BitVec.toNat_xor, toNat_toInt32 h]
    rfl
  have hlt : n ^^^ 1 < 2 ^ 31 := Nat.xor_lt_two_pow h (by decide)
  rw [← hval] at hlt
  rw [xorOne, toInt_of_lt hlt, hval]

theorem andOne_natCast {n : ℕ} (h : n < 2 ^ 31) : andOne n = n % 2 := by
  rw [andOne, BitVec.toNat_and, toNat_toInt32 h]
  exact Nat.and_one_is_mod n

theorem sarOne_natCast {n : ℕ} (h : n < 2 ^ 31) : sarOne n = ((n / 2 : ℕ) : ℤ) := by
  have hval := toNat_toInt32 h
  rw [← hval] at h
  rw [sarOne, BitVec.toInt_sshiftRight, toInt_of_lt h, hval]
  rfl

/-! ## The classes -/

section Classes

variable {α : Type} [Zero α] {hash2 : α → α → α}

/-- `rootFrom`: below a depth of thirty-one no start is negative. -/
def rootFrom (t : MerkleTree hash2) : ℤ → ℕ → α
  | start, 0 =>
    if (t.leaves.length : ℤ) ≤ start then t.zeroHashes.getD 0 0
    else t.leaves.getD start.toNat 0
  | start, level + 1 =>
    if (t.leaves.length : ℤ) ≤ start then t.zeroHashes.getD (level + 1) 0
    else hash2 (rootFrom t start level) (rootFrom t (start + oneShl level) level)

def tsRoot (t : MerkleTree hash2) : α := rootFrom t 0 t.depth

def tsNode (t : MerkleTree hash2) (index : ℤ) (level : ℕ) : α :=
  rootFrom t (index * oneShl level) level

end Classes

/-- The variables of the loop that collects a proof. -/
structure TsClimb (α : Type) where
  cur : ℤ
  pathElements : List α
  pathIndices : List ℕ

section Classes

variable {α : Type} [Zero α] {hash2 : α → α → α}

/-- The loop of `proof` after a number of levels. -/
def tsClimb (t : MerkleTree hash2) (index : ℤ) : ℕ → TsClimb α
  | 0 => ⟨index, [], []⟩
  | level + 1 =>
    let s := tsClimb t index level
    { cur := sarOne s.cur
      pathElements := s.pathElements ++ [tsNode t (xorOne s.cur) level]
      pathIndices := s.pathIndices ++ [andOne s.cur] }

/-- `insert`, with the text that the class throws when the tree is full. -/
def insertOr (full : String) (t : MerkleTree hash2) (leaf : α) :
    Except String (MerkleTree hash2 × ℕ) :=
  if oneShl t.depth ≤ t.leaves.length then .error full else .ok (t.push leaf, t.leaves.length)

/-! ### The association set provider -/

def aspInsert : MerkleTree hash2 → α → Except String (MerkleTree hash2 × ℕ) :=
  insertOr "tree full"

def aspProof (t : MerkleTree hash2) (index : ℤ) : Except String (List α × List ℕ × α) :=
  if (t.leaves.length : ℤ) ≤ index then .error s!"leaf index {index} out of bounds"
  else
    let s := tsClimb t index t.depth
    .ok (s.pathElements, s.pathIndices, tsRoot t)

/-! ### The publisher -/

variable {Hex : Type} (bigintToHex32 : α → Hex)

def publisherInsert : MerkleTree hash2 → α → Except String (MerkleTree hash2 × ℕ) :=
  insertOr "reputation tree is full"

def rootHex (t : MerkleTree hash2) : Hex := bigintToHex32 (tsRoot t)

def publisherProof (t : MerkleTree hash2) (index : ℤ) : Except String (Hex × List Hex × List ℕ) :=
  if index < 0 ∨ (t.leaves.length : ℤ) ≤ index then .error s!"leaf index {index} out of bounds"
  else
    -- the siblings are written as they are collected
    let s := tsClimb t index t.depth
    .ok (rootHex bigintToHex32 t, s.pathElements.map bigintToHex32, s.pathIndices)

/-! ### The SDK -/

variable (hash2) in
/-- `PoolMerkleTree`: made from its leaves, without a bound on them. -/
def poolMerkleTree (leaves : List α) (depth : ℕ) : MerkleTree hash2 :=
  { MerkleTree.new hash2 depth with leaves := leaves }

def poolProof (t : MerkleTree hash2) (index : ℤ) : List α × List ℕ :=
  let s := tsClimb t index t.depth
  (s.pathElements, s.pathIndices)

/-! ## The recursion and the loop -/

theorem rootFrom_eq_node (t : MerkleTree hash2) (hdepth : t.depth ≤ 31) {level : ℕ}
    (hlevel : level ≤ t.depth) (start : ℕ) :
    rootFrom t start level = Merkle.node hash2 (padded t.leaves) level start := by
  induction level generalizing start with
  | zero =>
      rw [rootFrom, t.getD_zeroHashes hlevel]
      simp only [Nat.cast_le]
      split
      · next h => exact (node_eq_zero hash2 h).symm
      · rfl
  | succ level ih =>
      have hnext : (start : ℤ) + oneShl level = ((start + 2 ^ level : ℕ) : ℤ) := by
        rw [oneShl_eq (by omega), Nat.cast_add]
      rw [rootFrom, t.getD_zeroHashes hlevel]
      simp only [Nat.cast_le]
      split
      · next h => exact (node_eq_zero hash2 h).symm
      · rw [hnext, ih (by omega), ih (by omega), Merkle.node]

theorem tsRoot_eq_node (t : MerkleTree hash2) (hdepth : t.depth ≤ 31) :
    tsRoot t = Merkle.node hash2 (padded t.leaves) t.depth 0 :=
  rootFrom_eq_node t hdepth le_rfl 0

theorem tsNode_eq_node (t : MerkleTree hash2) (hdepth : t.depth ≤ 30) {level : ℕ}
    (hlevel : level ≤ t.depth) (index : ℕ) :
    tsNode t index level = Merkle.node hash2 (padded t.leaves) level (index * 2 ^ level) := by
  have hstart : (index : ℤ) * oneShl level = ((index * 2 ^ level : ℕ) : ℤ) := by
    rw [oneShl_eq (by omega), Nat.cast_mul]
  rw [tsNode, hstart, rootFrom_eq_node t (by omega) hlevel]

theorem tsClimb_eq (t : MerkleTree hash2) (hdepth : t.depth ≤ 30) {index level : ℕ}
    (hindex : index < 2 ^ 31) (hlevel : level ≤ t.depth) :
    tsClimb t index level =
      { cur := (index / 2 ^ level : ℕ)
        pathElements := elements (Merkle.authPath hash2 (padded t.leaves) index level)
        pathIndices := bits (Merkle.authPath hash2 (padded t.leaves) index level) } := by
  induction level with
  | zero =>
      rw [pow_zero, Nat.div_one]
      rfl
  | succ level ih =>
      have hcur : index / 2 ^ level < 2 ^ 31 := lt_of_le_of_lt (Nat.div_le_self _ _) hindex
      have hparent : index / 2 ^ level / 2 = index / 2 ^ (level + 1) := by
        rw [Nat.div_div_eq_div_mul, pow_succ]
      rw [tsClimb, ih (by omega), Merkle.authPath_succ, elements_append, bits_append, bit_parity,
        xorOne_natCast hcur, andOne_natCast hcur, sarOne_natCast hcur,
        tsNode_eq_node t hdepth (by omega), hparent]

/-- The classes refine the tree whose positions are natural numbers. -/
theorem tsRoot_eq_root (t : MerkleTree hash2) (hdepth : t.depth ≤ 31) :
    tsRoot t = Asp.MerkleTree.root hash2 ⟨t.depth, t.leaves⟩ := by
  rw [tsRoot_eq_node t hdepth, Asp.MerkleTree.root_eq_node]

theorem poolProof_eq_proof (t : MerkleTree hash2) (hdepth : t.depth ≤ 30) {index : ℕ}
    (hindex : index < 2 ^ 31) :
    poolProof t index = (elements (Asp.MerkleTree.proof hash2 ⟨t.depth, t.leaves⟩ index),
      bits (Asp.MerkleTree.proof hash2 ⟨t.depth, t.leaves⟩ index)) := by
  rw [poolProof, tsClimb_eq t hdepth hindex le_rfl, Asp.MerkleTree.proof_eq_authPath]

end Classes

/-! ## Filling a tree -/

/-- Leaves inserted one after another, with the positions they are given. -/
def insertAll {T α ε : Type} (insert : T → α → Except ε (T × ℕ)) :
    T → List α → Except ε (T × List ℕ)
  | t, [] => .ok (t, [])
  | t, leaf :: rest => do
    let (t, position) ← insert t leaf
    let (t, positions) ← insertAll insert t rest
    pure (t, position :: positions)

section Filling

variable {α : Type} [Zero α] {hash2 : α → α → α}

/-- An insertion that appends the leaf while there is room, in trees of a depth. -/
def Appends {ε : Type} (insert : MerkleTree hash2 → α → Except ε (MerkleTree hash2 × ℕ))
    (depth : ℕ) : Prop :=
  ∀ t leaf t' position, t.depth = depth → (insert t leaf = .ok (t', position) ↔
    t.leaves.length < 2 ^ depth ∧ t' = t.push leaf ∧ position = t.leaves.length)

omit [Zero α] in
theorem ite_error_eq_ok {ε β : Type} {full : Prop} [Decidable full] {e : ε} {x y : β} :
    (if full then .error e else .ok x : Except ε β) = .ok y ↔ ¬full ∧ y = x := by
  split
  · next h => simp [h]
  · next h => simp [h, eq_comm]

variable (hash2) in
theorem appends_insert (depth : ℕ) : Appends (@MerkleTree.insert α _ hash2) depth := by
  rintro t leaf t' position rfl
  rw [MerkleTree.insert, MerkleTree.capacity, Nat.one_shiftLeft, ite_error_eq_ok, not_le,
    Prod.mk.injEq]

variable (hash2) in
theorem appends_insertOr (full : String) {depth : ℕ} (hdepth : depth ≤ 30) :
    Appends (@insertOr α _ hash2 full) depth := by
  rintro t leaf t' position rfl
  rw [insertOr, oneShl_eq hdepth, ite_error_eq_ok, Nat.cast_le, not_le, Prod.mk.injEq]

/-- Leaves are appended in order as long as they fit, and are given the positions they then have. -/
theorem insertAll_eq_ok {ε : Type}
    {insert : MerkleTree hash2 → α → Except ε (MerkleTree hash2 × ℕ)} {depth : ℕ}
    (hinsert : Appends insert depth) {leaves : List α} {t t' : MerkleTree hash2}
    {positions : List ℕ} (hdepth : t.depth = depth) (ht : t.leaves.length ≤ 2 ^ depth) :
    insertAll insert t leaves = .ok (t', positions) ↔
      t.leaves.length + leaves.length ≤ 2 ^ depth ∧
      t' = { t with leaves := t.leaves ++ leaves } ∧
      positions = List.range' t.leaves.length leaves.length := by
  induction leaves generalizing t positions with
  | nil =>
      rw [insertAll, Except.ok.injEq, Prod.mk.injEq, List.append_nil]
      simp [ht, eq_comm]
  | cons leaf rest ih =>
      by_cases hroom : t.leaves.length < 2 ^ depth
      · have hleaf := (hinsert t leaf _ _ hdepth).mpr ⟨hroom, rfl, rfl⟩
        have hbind : insertAll insert t (leaf :: rest) = .ok (t', positions) ↔
            ∃ later, insertAll insert (t.push leaf) rest = .ok (t', later) ∧
              positions = t.leaves.length :: later := by
          cases hrest : insertAll insert (t.push leaf) rest with
          | error e => simp [insertAll, hleaf, hrest, bind, Except.bind]
          | ok r =>
              simp [insertAll, hleaf, hrest, bind, Except.bind, pure, Except.pure, Prod.ext_iff,
                eq_comm]
        have hpush : (t.push leaf).leaves = t.leaves ++ [leaf] := rfl
        have hlength : (t.push leaf).leaves.length ≤ 2 ^ depth := by simp [hpush]; omega
        simp only [hbind, ih (t := t.push leaf) hdepth hlength, hpush]
        simp [MerkleTree.push, List.range'_succ, and_assoc]
        intros
        omega
      · have hfull : ∀ r, insertAll insert t (leaf :: rest) ≠ .ok r := by
          intro r h
          cases hleaf : insert t leaf with
          | error e => simp [insertAll, hleaf, bind, Except.bind] at h
          | ok s => exact hroom ((hinsert t leaf s.1 s.2 hdepth).mp hleaf).1
        simp only [hfull, List.length_cons, false_iff]
        omega

end Filling

/-! ## Agreement -/

/-- `MerkleInclusion` of the circuits walks up the path, over any ring the hash is taken in. -/
theorem merkleCur_eq_fold_take {F : Type} [CommRing F] (hash2 : F → F → F) (leaf : F)
    {path : List (F × Bool)} {siblings pathIndices : ℕ → F}
    (h : ∀ i s, path[i]? = some s →
      siblings i = s.1 ∧ pathIndices i = ((if s.2 then 1 else 0 : ℕ) : F))
    {n : ℕ} (hn : n ≤ path.length) :
    Circuit.merkleCur hash2 leaf siblings pathIndices n =
      Merkle.fold hash2 leaf (path.take n) := by
  induction n with
  | zero => rfl
  | succ n ih =>
      have hlt : n < path.length := hn
      obtain ⟨hsibling, hindex⟩ := h n path[n] (List.getElem?_eq_getElem hlt)
      rw [Circuit.merkleCur, ih (Nat.le_of_lt hlt), hsibling, hindex, List.take_add_one,
        List.getElem?_eq_getElem hlt, Merkle.fold, Merkle.fold, List.foldl_append]
      cases hside : path[n].2 <;> simp [Circuit.mux1, Merkle.up, hside]

section Agreement

variable {α Hex : Type} [Zero α] [DecidableEq α] {hash2 : α → α → α}

/-- The proof is one for the leaf at the index: it leads to the root, for `verify_proof` and, when
the values are elements of a ring, for the inclusion check of the circuits. -/
structure Proves (hash2 : α → α → α) (depth : ℕ) (leaf root : α) (p : MerkleProof α) : Prop where
  starts : p.leaf = leaf
  ends : p.root = root
  length_pathElements : p.pathElements.length = depth
  length_pathIndices : p.pathIndices.length = depth
  verifies : verifyProof hash2 p = some true
  inclusion : ∀ [CommRing α] (siblings pathIndices : ℕ → α),
    (∀ i x, p.pathElements[i]? = some x → siblings i = x) →
    (∀ i (b : ℕ), p.pathIndices[i]? = some b → pathIndices i = (b : α)) →
    Circuit.MerkleInclusion hash2 depth leaf siblings pathIndices root

/-- What `insert` makes of further leaves: those already there stay where they are. -/
def KeepsLeaves {ε : Type} (insert : MerkleTree hash2 → α → Except ε (MerkleTree hash2 × ℕ))
    (t : MerkleTree hash2) : Prop :=
  ∀ more t' positions, insertAll insert t more = .ok (t', positions) →
    positions = List.range' t.leaves.length more.length ∧
    ∀ i < t.leaves.length, t'.leaves[i]? = t.leaves[i]?

/-- The scanner's tree, the provider's, the publisher's and the SDK's. -/
structure TreesAgree (bigintToHex32 : α → Hex) (s a p k : MerkleTree hash2) : Prop where
  asp : tsRoot a = s.root
  publisher : rootHex bigintToHex32 p = bigintToHex32 s.root
  sdk : tsRoot k = s.root
  proofs : ∀ (index : ℕ) (h : index < s.leaves.length), ∃ m : MerkleProof α,
    s.proof index = .ok m ∧
    aspProof a index = .ok (m.pathElements, m.pathIndices, m.root) ∧
    publisherProof bigintToHex32 p index =
      .ok (bigintToHex32 m.root, m.pathElements.map bigintToHex32, m.pathIndices) ∧
    poolProof k index = (m.pathElements, m.pathIndices) ∧
    Proves hash2 s.depth s.leaves[index] s.root m

omit [Zero α] in
/-- The authentication path of a leaf is a proof for it. -/
theorem proves_authPath (f : ℕ → α) {depth index : ℕ} (h : index < 2 ^ depth) :
    Proves hash2 depth (f index) (Merkle.node hash2 f depth 0)
      { leaf := f index
        pathElements := elements (Merkle.authPath hash2 f index depth)
        pathIndices := bits (Merkle.authPath hash2 f index depth)
        root := Merkle.node hash2 f depth 0 } := by
  have hlength : (Merkle.authPath hash2 f index depth).length = depth := by
    simp [Merkle.authPath]
  have hfold : Merkle.fold hash2 (f index) (Merkle.authPath hash2 f index depth) =
      Merkle.node hash2 f depth 0 := by
    rw [Merkle.fold_authPath, Nat.div_eq_of_lt h, Nat.zero_mul]
  constructor
  case starts => rfl
  case ends => rfl
  case length_pathElements => simp [elements, hlength]
  case length_pathIndices => simp [bits, hlength]
  case verifies => rw [verifyProof_eq, hfold, decide_eq_true rfl]
  case inclusion =>
    intro _ siblings pathIndices hsiblings hindices
    have hpath : ∀ i s, (Merkle.authPath hash2 f index depth)[i]? = some s →
        siblings i = s.1 ∧ pathIndices i = ((if s.2 then 1 else 0 : ℕ) : α) := by
      intro i s hs
      constructor
      · apply hsiblings
        simp [elements, hs]
      · apply hindices
        simp [bits, hs]
    constructor
    · intro i hi
      have hlt : i < (Merkle.authPath hash2 f index depth).length := by rw [hlength]; exact hi
      rw [(hpath i _ (List.getElem?_eq_getElem hlt)).2]
      cases (Merkle.authPath hash2 f index depth)[i].2 <;> simp
    · rw [merkleCur_eq_fold_take hash2 (f index) hpath hlength.ge,
        List.take_of_length_le hlength.le, hfold]

/-- Trees of the same leaves agree. -/
theorem treesAgree_of_leaves (bigintToHex32 : α → Hex) {depth : ℕ} (hdepth : depth ≤ 30)
    {leaves : List α} (hfit : leaves.length ≤ 2 ^ depth) {t : MerkleTree hash2}
    (ht : t.depth = depth) (hleaves : t.leaves = leaves) : TreesAgree bigintToHex32 t t t t := by
  subst ht hleaves
  have hroot : tsRoot t = t.root := by rw [tsRoot_eq_node t (by omega), t.root_eq_node]
  constructor
  case asp => exact hroot
  case publisher => rw [rootHex, hroot]
  case sdk => exact hroot
  case proofs =>
    intro index hindex
    have hlt : index < 2 ^ t.depth := lt_of_lt_of_le hindex hfit
    have hsmall : index < 2 ^ 31 := by
      have hpow : 2 ^ t.depth ≤ 2 ^ 30 := Nat.pow_le_pow_right (by decide) hdepth
      omega
    have hleaf : t.leaves[index] = padded t.leaves index := by simp [padded, hindex]
    have hin : ¬(t.leaves.length : ℤ) ≤ index := by omega
    have hclimb := tsClimb_eq t hdepth hsmall le_rfl
    refine ⟨_, t.proof_of_lt hindex, ?_, ?_, ?_, ?_⟩
    · rw [aspProof, if_neg hin, hclimb, hroot]
    · rw [publisherProof, if_neg (by omega), hclimb, rootHex, hroot]
    · rw [poolProof, hclimb]
    · rw [hleaf, t.root_eq_node]
      exact proves_authPath (padded t.leaves) hlt

omit [DecidableEq α] in
theorem keepsLeaves {ε : Type} {insert : MerkleTree hash2 → α → Except ε (MerkleTree hash2 × ℕ)}
    {t : MerkleTree hash2} (hinsert : Appends insert t.depth)
    (hfit : t.leaves.length ≤ 2 ^ t.depth) : KeepsLeaves insert t := by
  intro more t' positions h
  obtain ⟨-, rfl, hpositions⟩ := (insertAll_eq_ok hinsert rfl hfit).mp h
  refine ⟨hpositions, ?_⟩
  intro i hi
  exact List.getElem?_append_left hi

/-- **The Merkle trees agree and prove.** Filled with the same leaves, no more than fit, the four
trees have one root and give one proof for every leaf, which leads to the root for `verify_proof` and
for the circuits; and leaves that are inserted later leave the earlier ones where they are. -/
theorem trees_agree (hash2 : α → α → α) (bigintToHex32 : α → Hex) {depth : ℕ}
    (hdepth : depth ≤ 30) {leaves : List α} (hfit : leaves.length ≤ 2 ^ depth) :
    ∃ s a p : MerkleTree hash2,
      insertAll MerkleTree.insert (MerkleTree.new hash2 depth) leaves =
        .ok (s, List.range leaves.length) ∧
      insertAll aspInsert (MerkleTree.new hash2 depth) leaves =
        .ok (a, List.range leaves.length) ∧
      insertAll publisherInsert (MerkleTree.new hash2 depth) leaves =
        .ok (p, List.range leaves.length) ∧
      s.leaves = leaves ∧ a.leaves = leaves ∧ p.leaves = leaves ∧
      TreesAgree bigintToHex32 s a p (poolMerkleTree hash2 leaves depth) ∧
      KeepsLeaves MerkleTree.insert s ∧ KeepsLeaves aspInsert a ∧
      KeepsLeaves publisherInsert p := by
  have hfill {ε : Type} {insert : MerkleTree hash2 → α → Except ε (MerkleTree hash2 × ℕ)}
      (hinsert : Appends insert depth) :
      insertAll insert (MerkleTree.new hash2 depth) leaves =
        .ok (poolMerkleTree hash2 leaves depth, List.range leaves.length) := by
    apply (insertAll_eq_ok hinsert rfl (Nat.zero_le _)).mpr
    refine ⟨?_, rfl, List.range_eq_range'⟩
    rw [MerkleTree.new, List.length_nil, Nat.zero_add]
    exact hfit
  have hscanner := appends_insert hash2 depth
  have hts := fun full => appends_insertOr hash2 full hdepth
  exact ⟨_, _, _, hfill hscanner, hfill (hts _), hfill (hts _), rfl, rfl, rfl,
    treesAgree_of_leaves bigintToHex32 hdepth hfit rfl rfl,
    keepsLeaves hscanner hfit, keepsLeaves (hts _) hfit, keepsLeaves (hts _) hfit⟩

/-- Three leaves at depth two. -/
theorem trees_agree_three :
    let hash2 : ℤ → ℤ → ℤ := fun x y => 3 * x + 5 * y + 1
    ∃ s a p : MerkleTree hash2,
      insertAll MerkleTree.insert (MerkleTree.new hash2 2) [5, 6, 7] = .ok (s, [0, 1, 2]) ∧
      insertAll aspInsert (MerkleTree.new hash2 2) [5, 6, 7] = .ok (a, [0, 1, 2]) ∧
      insertAll publisherInsert (MerkleTree.new hash2 2) [5, 6, 7] = .ok (p, [0, 1, 2]) ∧
      TreesAgree Int.toNat s a p (poolMerkleTree hash2 [5, 6, 7] 2) ∧ s.root = 249 := by
  intro hash2
  have hdepth : 2 ≤ 30 := by decide
  have hfit : ([5, 6, 7] : List ℤ).length ≤ 2 ^ 2 := by decide
  obtain ⟨s, a, p, hs, ha, hp, -, -, -, hagree, -⟩ :=
    trees_agree hash2 Int.toNat hdepth hfit
  refine ⟨s, a, p, hs, ha, hp, hagree, ?_⟩
  rw [← hagree.sdk]
  decide

end Agreement

end OpaqueStellar.Scanner
