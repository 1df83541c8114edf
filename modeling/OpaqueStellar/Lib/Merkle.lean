import Mathlib.Data.List.Induction
import Mathlib.Data.Nat.Bitwise
import Mathlib.Tactic.Ring

/-! # Merkle trees of a fixed depth

`node h f level start` is the root of the perfect tree over the leaves `f start`, `f (start + 1)`,
… of the given height. `fold h leaf path` walks up from a leaf along its siblings, and `position`
reads the directions of the walk as the index of the leaf.

`fold_eq_node`: with an injective `h`, a walk that ends at the root of a tree of its own height
started at the leaf of that tree at its own position. `fold_authPath` is the converse, for the
siblings taken from the tree. `node_inj`: with an injective `h`, trees of the same root have the same
leaves. -/

namespace OpaqueStellar.Lib.Merkle

variable {α : Type}

def node (h : α → α → α) (f : ℕ → α) : ℕ → ℕ → α
  | 0, start => f start
  | level + 1, start => h (node h f level start) (node h f level (start + 2 ^ level))

/-- One level up: the sibling, and whether it stands to the left. -/
def up (h : α → α → α) (cur : α) (s : α × Bool) : α := if s.2 then h s.1 cur else h cur s.1

/-- The walk up along a path of siblings, lowest first. -/
def fold (h : α → α → α) (leaf : α) (path : List (α × Bool)) : α := path.foldl (up h) leaf

/-- The directions of a path, lowest first, as a binary number. -/
def position : List (α × Bool) → ℕ
  | [] => 0
  | s :: path => (if s.2 then 1 else 0) + 2 * position path

theorem position_snoc (path : List (α × Bool)) (s : α × Bool) :
    position (path ++ [s]) = position path + (if s.2 then 2 ^ path.length else 0) := by
  induction path with
  | nil => cases h : s.2 <;> simp [position, h]
  | cons t path ih =>
      rw [List.cons_append, position, ih, position, List.length_cons, pow_succ]
      split_ifs <;> ring

/-- **Inclusion.** -/
theorem fold_eq_node {h : α → α → α}
    (hinj : ∀ {a b c d}, h a b = h c d → a = c ∧ b = d) {f : ℕ → α} {leaf : α}
    {path : List (α × Bool)} {start : ℕ}
    (heq : fold h leaf path = node h f path.length start) : leaf = f (start + position path) := by
  -- the last sibling is the one at the top, where the two trees are compared first
  induction path using List.reverseRecOn generalizing start with
  | nil => exact heq
  | append_singleton path s ih =>
      rw [List.length_append, List.length_singleton, node, fold, List.foldl_append] at heq
      rw [position_snoc]
      obtain ⟨sibling, right⟩ := s
      cases right with
      | false =>
          obtain ⟨hleft, -⟩ := hinj heq
          exact ih hleft
      | true =>
          obtain ⟨-, hright⟩ := hinj heq
          rw [ih hright]
          simp only [if_true]
          congr 1
          omega

/-- A walk along a path determines the leaf it started at. -/
theorem fold_inj {h : α → α → α} (hinj : ∀ {a b c d}, h a b = h c d → a = c ∧ b = d)
    {path : List (α × Bool)} {a b : α} (heq : fold h a path = fold h b path) : a = b := by
  induction path generalizing a b with
  | nil => exact heq
  | cons s path ih =>
      have hup : up h a s = up h b s := ih heq
      unfold up at hup
      split_ifs at hup
      · exact (hinj hup).2
      · exact (hinj hup).1

/-- Neither does a walk forget its leaf where no step up does. -/
theorem fold_cancel {h : α → α → α} (hleft : ∀ {a b s}, h a s = h b s → a = b)
    (hright : ∀ {a b s}, h s a = h s b → a = b) {path : List (α × Bool)} {a b : α}
    (heq : fold h a path = fold h b path) : a = b := by
  induction path generalizing a b with
  | nil => exact heq
  | cons s path ih =>
      have hup : up h a s = up h b s := ih heq
      unfold up at hup
      split_ifs at hup
      · exact hright hup
      · exact hleft hup

/-- A walk in another representation of the hashes. -/
theorem map_fold {β : Type} {h : α → α → α} {h' : β → β → β} {g : α → β}
    (hg : ∀ a b, g (h a b) = h' (g a) (g b)) (leaf : α) (path : List (α × Bool)) :
    g (fold h leaf path) = fold h' (g leaf) (path.map fun s => (g s.1, s.2)) := by
  induction path generalizing leaf with
  | nil => rfl
  | cons s path ih =>
      have hup : g (up h leaf s) = up h' (g leaf) (g s.1, s.2) := by
        rw [up, up, apply_ite g, hg, hg]
      rw [fold, List.foldl_cons, ← fold, ih, hup]
      rfl

/-! ## The siblings of a leaf -/

/-- The siblings on the way from a leaf to the root, lowest first. -/
def authPath (h : α → α → α) (f : ℕ → α) (i depth : ℕ) : List (α × Bool) :=
  (List.range depth).map fun level =>
    (node h f level ((i / 2 ^ level ^^^ 1) * 2 ^ level), decide (i / 2 ^ level % 2 = 1))

theorem authPath_succ (h : α → α → α) (f : ℕ → α) (i depth : ℕ) :
    authPath h f i (depth + 1) = authPath h f i depth ++
      [(node h f depth ((i / 2 ^ depth ^^^ 1) * 2 ^ depth), decide (i / 2 ^ depth % 2 = 1))] := by
  rw [authPath, List.range_succ, List.map_append]
  rfl

/-- A node and its sibling under their parent. -/
theorem up_sibling (h : α → α → α) (f : ℕ → α) (q depth : ℕ) :
    up h (node h f depth (q * 2 ^ depth))
        (node h f depth ((q ^^^ 1) * 2 ^ depth), decide (q % 2 = 1)) =
      node h f (depth + 1) (q / 2 * 2 ^ (depth + 1)) := by
  have hstart : q / 2 * 2 ^ (depth + 1) = q / 2 * 2 * 2 ^ depth := by
    rw [pow_succ, Nat.mul_comm (2 ^ depth), Nat.mul_assoc]
  rw [up, node, hstart]
  rcases Nat.mod_two_eq_zero_or_one q with hq | hq
  · have hdiv : q / 2 * 2 = q := by omega
    rw [hdiv, Nat.xor_one_of_even (Nat.even_iff.mpr hq), Nat.succ_mul]
    simp [hq]
  · have hdiv : q / 2 * 2 = q - 1 := by omega
    have hright : (q - 1) * 2 ^ depth + 2 ^ depth = q * 2 ^ depth := by
      rw [← Nat.succ_mul]
      congr 1
      omega
    rw [hdiv, hright, Nat.xor_one_of_odd (Nat.odd_iff.mpr hq)]
    simp [hq]

/-- **Completeness.** The walk along the siblings of a leaf ends at the root of its tree. -/
theorem fold_authPath (h : α → α → α) (f : ℕ → α) (i depth : ℕ) :
    fold h (f i) (authPath h f i depth) = node h f depth (i / 2 ^ depth * 2 ^ depth) := by
  induction depth with
  | zero => simp [authPath, fold, node]
  | succ depth ih =>
      have hquot : i / 2 ^ (depth + 1) = i / 2 ^ depth / 2 := by
        rw [pow_succ, Nat.div_div_eq_div_mul]
      have hbelow : (authPath h f i depth).foldl (up h) (f i) = _ := ih
      rw [authPath_succ, fold, List.foldl_append, hbelow, hquot, ← up_sibling]
      rfl

/-! ## Trees with the same root -/

/-- A tree depends on the leaves under it only. -/
theorem node_shift (h : α → α → α) (f : ℕ → α) (depth start offset : ℕ) :
    node h f depth (start + offset) = node h (fun i => f (start + i)) depth offset := by
  induction depth generalizing offset with
  | zero => rfl
  | succ depth ih => rw [node, node, Nat.add_assoc, ih, ih]

theorem node_inj {h : α → α → α} (hinj : ∀ {a b c d}, h a b = h c d → a = c ∧ b = d)
    {f g : ℕ → α} {depth start : ℕ} (heq : node h f depth start = node h g depth start) :
    ∀ i < 2 ^ depth, f (start + i) = g (start + i) := by
  induction depth generalizing start with
  | zero =>
      intro i hi
      rw [pow_zero, Nat.lt_one_iff] at hi
      rw [hi]
      exact heq
  | succ depth ih =>
      intro i hi
      obtain ⟨hleft, hright⟩ := hinj heq
      rw [pow_succ] at hi
      rcases lt_or_ge i (2 ^ depth) with hlt | hge
      · exact ih hleft i hlt
      · have hi' := ih hright (i - 2 ^ depth) (by omega)
        rwa [Nat.add_assoc, Nat.add_sub_cancel' hge] at hi'

theorem node_congr {h : α → α → α} {f g : ℕ → α} {depth start : ℕ}
    (heq : ∀ i < 2 ^ depth, f (start + i) = g (start + i)) :
    node h f depth start = node h g depth start := by
  induction depth generalizing start with
  | zero => exact heq 0 Nat.one_pos
  | succ depth ih =>
      rw [pow_succ] at heq
      rw [node, node, ih fun i hi => heq i (by omega), ih]
      intro i hi
      rw [Nat.add_assoc]
      exact heq (2 ^ depth + i) (by omega)

/-- Trees at any places have one root exactly if they have the same leaves. -/
theorem node_eq_iff {h : α → α → α} (hinj : ∀ {a b c d}, h a b = h c d → a = c ∧ b = d)
    {f g : ℕ → α} {depth start start' : ℕ} :
    node h f depth start = node h g depth start' ↔
      ∀ i < 2 ^ depth, f (start + i) = g (start' + i) := by
  have hf := node_shift h f depth start 0
  have hg := node_shift h g depth start' 0
  rw [Nat.add_zero] at hf hg
  rw [hf, hg]
  constructor
  · intro heq i hi
    have hleaf := node_inj hinj heq i hi
    rwa [Nat.zero_add] at hleaf
  · intro heq
    apply node_congr
    intro i hi
    rw [Nat.zero_add]
    exact heq i hi

/-! ## Another leaf on the same path -/

section Update

variable (h : α → α → α) (f : ℕ → α) (i : ℕ) (leaf : α)

/-- The leaf at a position is under none of the siblings on its way. -/
theorem authPath_update (depth : ℕ) :
    authPath h (Function.update f i leaf) i depth = authPath h f i depth := by
  apply List.map_congr_left
  intro level _
  rw [Prod.mk.injEq]
  refine ⟨node_congr ?_, rfl⟩
  intro j hj
  apply Function.update_of_ne
  intro heq
  have hdiv : ((i / 2 ^ level ^^^ 1) * 2 ^ level + j) / 2 ^ level = i / 2 ^ level ^^^ 1 := by
    rw [Nat.add_comm, Nat.add_mul_div_right _ _ (Nat.two_pow_pos level), Nat.div_eq_of_lt hj,
      Nat.zero_add]
  rw [heq] at hdiv
  have hself : i / 2 ^ level ^^^ (i / 2 ^ level ^^^ 1) = 0 := by rw [← hdiv, Nat.xor_self]
  rw [← Nat.xor_assoc, Nat.xor_self, Nat.zero_xor] at hself
  exact absurd hself (by decide)

/-- From any leaf the walk along a path ends at the root of the tree with that leaf in its place. -/
theorem fold_authPath_update (depth : ℕ) :
    fold h leaf (authPath h f i depth) =
      node h (Function.update f i leaf) depth (i / 2 ^ depth * 2 ^ depth) := by
  have hfold := fold_authPath h (Function.update f i leaf) i depth
  rwa [Function.update_self, authPath_update] at hfold

end Update

end OpaqueStellar.Lib.Merkle
