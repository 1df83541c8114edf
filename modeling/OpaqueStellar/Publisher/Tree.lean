import OpaqueStellar.Circuit.Signals

/-! # The publisher's tree over texts

`buildProof` of `publisher/src/merkle.ts`. Leaves are big integers as they are read, and are not reduced;
what is hashed is. The texts of a path are written by `bigintToHex32`, which throws for a number that
does not fit. -/

namespace OpaqueStellar.Publisher.Tree

open OpaqueStellar.Lib OpaqueStellar.Scanner OpaqueStellar.Asp.MerkleTree
open OpaqueStellar.Circuit (bigIntOfString_hex encode_ne_nil)
open OpaqueStellar.Publisher (Scalar)
open OpaqueStellar.Relayer (bigIntOfString bytesToHex)
open OpaqueStellar.Schemas (Str)
open OpaqueStellar.Soroban (bind_eq_ok pure_eq_ok)

def TREE_DEPTH : ℕ := 20

def bigintToHex32 (value : ℤ) : Except String Str := do
  require (0 ≤ value) "value must be non-negative"
  require (value ≤ 2 ^ 256 - 1) "value must fit in 32 bytes"
  pure (bytesToHex (beBytes 32 value.toNat))

section Proof

variable (hash2 : Scalar → Scalar → Scalar)

/-- The inputs of the hash are reduced, and so is what it gives. -/
def hashFields (a b : ℤ) : ℤ := (hash2 a b).val

/-- What `proof` returns. -/
structure Path where
  root : Str
  pathElements : List Str
  pathIndices : List ℕ

variable {hash2} in
def proof (t : MerkleTree (hashFields hash2)) (index : ℤ) : Except String Path := do
  require (0 ≤ index ∧ index < t.leaves.length) s!"leaf index {index} out of bounds"
  let s := tsClimb t index t.depth
  let pathElements ← s.pathElements.mapM bigintToHex32
  let root ← bigintToHex32 (tsRoot t)
  pure ⟨root, pathElements, s.pathIndices⟩

variable (toLowerCase : Str → Str)

/-- The loop over the entries, with the index of the first leaf that is the target. -/
def insertEntry (target : Str) (s : MerkleTree (hashFields hash2) × Option ℕ) (entry : Str × ℕ) :
    Except String (MerkleTree (hashFields hash2) × Option ℕ) := do
  let normalized := toLowerCase entry.1
  let value ← orThrow (bigIntOfString normalized) "Cannot convert to a BigInt"
  let (tree, _) ← publisherInsert s.1 value
  pure (tree, if normalized = target ∧ s.2 = none then some entry.2 else s.2)

def buildProof (leaves : List Str) (leaf : Str) : Except String (ℕ × Path) := do
  let (tree, found) ← leaves.zipIdx.foldlM (insertEntry hash2 toLowerCase (toLowerCase leaf))
    (MerkleTree.new (hashFields hash2) TREE_DEPTH, none)
  let leafIndex ← orThrow found "leaf not found"
  let path ← proof tree leafIndex
  pure (leafIndex, path)

end Proof

/-! ## What is written -/

/-- A number that is written is read back. -/
theorem bigIntOfString_bigintToHex32 {value : ℤ} {text : Str} (h : bigintToHex32 value = .ok text) :
    bigIntOfString text = some value := by
  simp only [bigintToHex32, bind_eq_ok, require_eq_ok, pure_eq_ok] at h
  obtain ⟨-, hlow, -, hhigh, rfl⟩ := h
  have hlt : value.toNat < 256 ^ 32 := by omega
  have hne : beBytes 32 value.toNat ≠ [] := by
    intro hnil
    have hlength := length_beBytes 32 value.toNat
    rw [hnil] at hlength
    cases hlength
  rw [bytesToHex, bigIntOfString_hex (encode_ne_nil hne) (Hex.decode_encode _), beNat_beBytes,
    Nat.mod_eq_of_lt hlt, Int.toNat_of_nonneg hlow]

section Proof

variable {hash2 : Scalar → Scalar → Scalar} {toLowerCase : Str → Str} {leaves : List Str} {leaf target : Str}

/-- The texts of a path of numbers. -/
structure Path.Writes (p : Path) (path : List (ℤ × Bool)) (root : ℤ) : Prop where
  root : bigIntOfString p.root = some root
  pathElements : List.Forall₂ (fun text s => bigIntOfString text = some s.1) p.pathElements path
  pathIndices : p.pathIndices = path.map fun s => if s.2 then 1 else 0

/-- The path of a leaf leads from it to the root. -/
theorem writes_of_proof {t : MerkleTree (hashFields hash2)} (hdepth : t.depth = TREE_DEPTH)
    (hfit : t.leaves.length ≤ 2 ^ TREE_DEPTH) {index : ℕ} {value : ℤ} (hvalue : t.leaves[index]? = some value)
    {p : Path} (h : proof t index = .ok p) :
    ∃ path, path.length = TREE_DEPTH ∧ p.Writes path (Merkle.fold (hashFields hash2) value path) := by
  obtain ⟨hlt, hget⟩ := List.getElem?_eq_some_iff.mp hvalue
  have hpow : (2 : ℕ) ^ TREE_DEPTH = 1048576 := rfl
  simp only [proof, bind_eq_ok, require_eq_ok, pure_eq_ok] at h
  obtain ⟨-, -, elements, helements, root, hroot, rfl⟩ := h
  have hleaf : padded t.leaves index = value := by simp [padded, hlt, hget]
  have hnode : tsRoot t = Merkle.fold (hashFields hash2) value
      (Merkle.authPath (hashFields hash2) (padded t.leaves) index TREE_DEPTH) := by
    rw [tsRoot_eq_node t (by rw [hdepth]; decide), hdepth, ← hleaf, Merkle.fold_authPath,
      Nat.div_eq_of_lt (by omega), Nat.zero_mul]
  rw [tsClimb_eq t (by rw [hdepth]; decide) (by omega) le_rfl, hdepth] at helements ⊢
  refine ⟨Merkle.authPath (hashFields hash2) (padded t.leaves) index TREE_DEPTH, by simp [Merkle.authPath],
    ?_, ?_, rfl⟩
  · rw [← hnode]
    exact bigIntOfString_bigintToHex32 hroot
  · have hread := (mapM_eq_ok_forall₂.mp helements).imp fun _ _ => bigIntOfString_bigintToHex32
    rw [Scanner.elements, List.forall₂_map_left_iff] at hread
    exact hread.flip

/-- The leaves are the numbers of the texts, and the index is that of a text of the target. -/
theorem foldlM_insertEntry {k : ℕ} {t t' : MerkleTree (hashFields hash2)} (hdepth : t.depth = TREE_DEPTH)
    (hk : t.leaves.length = k) {found found' : Option ℕ}
    (h : (leaves.zipIdx k).foldlM (insertEntry hash2 toLowerCase target) (t, found) = .ok (t', found')) :
    t'.depth = TREE_DEPTH ∧ (k ≤ 2 ^ TREE_DEPTH → t'.leaves.length ≤ 2 ^ TREE_DEPTH) ∧
      ∃ values, List.Forall₂ (fun text v => bigIntOfString (toLowerCase text) = some v) leaves values ∧
        t'.leaves = t.leaves ++ values ∧
        ∀ i, found' = some i → found = some i ∨
          ∃ text, leaves[i - k]? = some text ∧ k ≤ i ∧ toLowerCase text = target := by
  induction leaves generalizing k t found with
  | nil =>
      obtain ⟨rfl, rfl⟩ := Prod.mk.inj (pure_eq_ok.mp h)
      exact ⟨hdepth, fun hle => hk ▸ hle, [], .nil, (List.append_nil _).symm, fun i hi => .inl hi⟩
  | cons text leaves ih =>
      simp only [List.zipIdx_cons, List.foldlM_cons, insertEntry, bind_eq_ok, orThrow_eq_ok, pure_eq_ok] at h
      obtain ⟨-, ⟨value, hvalue, ⟨tree, position⟩, hinsert, rfl⟩, hrest⟩ := h
      obtain ⟨hroom, rfl, -⟩ :=
        (appends_insertOr (hashFields hash2) _ (by decide : TREE_DEPTH ≤ 30) t value tree position hdepth).mp
          hinsert
      have hlength : (t.push value).leaves.length = k + 1 := by simp [MerkleTree.push, hk]
      obtain ⟨hdepth', hfit, values, hvalues, hleaves, hfound⟩ := ih (t := t.push value) hdepth hlength hrest
      refine ⟨hdepth', fun _ => hfit (by omega), value :: values, .cons hvalue hvalues, ?_, ?_⟩
      · rw [hleaves, MerkleTree.push, List.append_assoc, List.singleton_append]
      · intro i hi
        rcases hfound i hi with hsame | ⟨text', htext', hle, htarget⟩
        · split at hsame
          · next hfirst =>
              obtain rfl := Option.some.inj hsame
              exact .inr ⟨text, by simp, le_rfl, hfirst.1⟩
          · exact .inl hsame
        · refine .inr ⟨text', ?_, by omega, htarget⟩
          have hindex : i - k = i - (k + 1) + 1 := by omega
          rw [hindex, List.getElem?_cons_succ, htext']

/-- The path that is served leads from the number of the leaf that was asked for. -/
theorem writes_of_buildProof {index : ℕ} {p : Path}
    (h : buildProof hash2 toLowerCase leaves leaf = .ok (index, p)) :
    ∃ value path, bigIntOfString (toLowerCase leaf) = some value ∧ path.length = TREE_DEPTH ∧
      p.Writes path (Merkle.fold (hashFields hash2) value path) := by
  simp only [buildProof, bind_eq_ok, orThrow_eq_ok, pure_eq_ok, Prod.mk.injEq] at h
  obtain ⟨⟨tree, found⟩, hloop, leafIndex, rfl, path, hproof, rfl, rfl⟩ := h
  obtain ⟨hdepth, hfit, values, hvalues, hleaves, hfound⟩ := foldlM_insertEntry rfl rfl hloop
  rcases hfound leafIndex rfl with hnone | ⟨text, htext, -, htarget⟩
  · cases hnone
  · have hfit := hfit (Nat.zero_le _)
    have htext : leaves[leafIndex]? = some text := htext
    obtain ⟨hlt, hget⟩ := List.getElem?_eq_some_iff.mp htext
    have hlt' : leafIndex < values.length := hvalues.length_eq ▸ hlt
    have hvalue : bigIntOfString (toLowerCase leaves[leafIndex]) = some values[leafIndex] :=
      List.Forall₂.get hvalues hlt hlt'
    have hleaf : tree.leaves[leafIndex]? = some values[leafIndex] := by
      rw [hleaves]
      exact List.getElem?_eq_getElem hlt'
    obtain ⟨path', hlength, hwrites⟩ := writes_of_proof hdepth hfit hleaf hproof
    refine ⟨values[leafIndex], path', ?_, hlength, hwrites⟩
    rw [← htarget, ← hget, hvalue]

end Proof

end OpaqueStellar.Publisher.Tree
