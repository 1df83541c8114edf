import Mathlib.Algebra.BigOperators.Group.List.Basic
import Mathlib.Algebra.Order.BigOperators.Group.List
import Mathlib.Algebra.Order.Group.Basic
import Mathlib.Tactic.Cases

/-! # Choosing by weight

The weights of a list lay intervals end to end. Going down the list and taking each weight off a number
finds the element in whose interval the number lies. -/

namespace OpaqueStellar.Lib.Weighted

variable {α M : Type} [AddCommGroup M] [LinearOrder M] [IsOrderedAddMonoid M]

/-- The first element whose weight is more than what is left of the number. -/
def pick (w : α → M) : M → List α → Option α
  | _, [] => none
  | t, x :: xs => if t < w x then some x else pick w (t - w x) xs

/-- Where the interval of an element begins. -/
def offset (w : α → M) (l : List α) (i : ℕ) : M := ((l.take i).map w).sum

/-- The number lies in the interval of this element. -/
structure InInterval (w : α → M) (l : List α) (t : M) (i : ℕ) : Prop where
  lt_length : i < l.length
  offset_le : offset w l i ≤ t
  lt_offset : t < offset w l (i + 1)

variable {w : α → M} {x : α} {xs l : List α} {t : M} {i j : ℕ}

omit [LinearOrder M] [IsOrderedAddMonoid M] in
@[simp] theorem offset_zero (w : α → M) (l : List α) : offset w l 0 = 0 := by simp [offset]

omit [LinearOrder M] [IsOrderedAddMonoid M] in
@[simp] theorem offset_cons_succ (w : α → M) (x : α) (xs : List α) (i : ℕ) :
    offset w (x :: xs) (i + 1) = w x + offset w xs i := by simp [offset]

omit [IsOrderedAddMonoid M] in
theorem inInterval_cons_zero : InInterval w (x :: xs) t 0 ↔ 0 ≤ t ∧ t < w x := by
  constructor
  · rintro ⟨-, hle, hlt⟩
    simpa using And.intro hle hlt
  · rintro ⟨hle, hlt⟩
    exact ⟨by simp, by simpa using hle, by simpa using hlt⟩

/-- What is left of the number lies in an interval of what is left of the list. -/
theorem inInterval_cons_succ : InInterval w (x :: xs) t (i + 1) ↔ InInterval w xs (t - w x) i := by
  have hle : w x + offset w xs i ≤ t ↔ offset w xs i ≤ t - w x := le_sub_iff_add_le'.symm
  have hlt : t < w x + offset w xs (i + 1) ↔ t - w x < offset w xs (i + 1) := sub_lt_iff_lt_add'.symm
  constructor
  · rintro ⟨hlength, h, h'⟩
    rw [offset_cons_succ] at h h'
    exact ⟨by simpa using hlength, hle.mp h, hlt.mp h'⟩
  · rintro ⟨hlength, h, h'⟩
    refine ⟨by simpa using hlength, ?_, ?_⟩
    · rw [offset_cons_succ]
      exact hle.mpr h
    · rw [offset_cons_succ]
      exact hlt.mpr h'

/-- Every number below the sum lies in some interval. -/
theorem exists_inInterval (h : 0 ≤ t) (hsum : t < (l.map w).sum) : ∃ i, InInterval w l t i := by
  induction l generalizing t with
  | nil => exact absurd (h.trans_lt hsum) (lt_irrefl _)
  | cons x xs ih =>
      by_cases hx : t < w x
      · exact ⟨0, inInterval_cons_zero.mpr ⟨h, hx⟩⟩
      · rw [List.map_cons, List.sum_cons, ← sub_lt_iff_lt_add'] at hsum
        obtain ⟨i, hi⟩ := ih (sub_nonneg.mpr (le_of_not_gt hx)) hsum
        exact ⟨i + 1, inInterval_cons_succ.mpr hi⟩

theorem nonneg_of_inInterval (hw : ∀ x ∈ l, 0 ≤ w x) (h : InInterval w l t i) : 0 ≤ t := by
  refine le_trans (List.sum_nonneg ?_) h.offset_le
  intro a ha
  obtain ⟨y, hy, rfl⟩ := List.mem_map.mp ha
  exact hw y (List.mem_of_mem_take hy)

/-- **The element that is picked is the one in whose interval the number lies.** -/
theorem pick_eq_of_inInterval (hw : ∀ x ∈ l, 0 ≤ w x) (h : InInterval w l t i) : pick w t l = l[i]? := by
  induction l generalizing t i with
  | nil => exact absurd h.lt_length (Nat.not_lt_zero i)
  | cons x xs ih =>
      rw [List.forall_mem_cons] at hw
      cases i with
      | zero =>
          rw [pick, if_pos (inInterval_cons_zero.mp h).2]
          rfl
      | succ i =>
          have hrest := inInterval_cons_succ.mp h
          have hx : ¬ t < w x := not_lt_of_ge (sub_nonneg.mp (nonneg_of_inInterval hw.2 hrest))
          rw [pick, if_neg hx, ih hw.2 hrest]
          rfl

/-- Intervals do not overlap. -/
theorem inInterval_unique (hw : ∀ x ∈ l, 0 ≤ w x) (h : InInterval w l t i) (h' : InInterval w l t j) :
    i = j := by
  induction l generalizing t i j with
  | nil => exact absurd h.lt_length (Nat.not_lt_zero i)
  | cons x xs ih =>
      rw [List.forall_mem_cons] at hw
      have hdisjoint : ∀ {k : ℕ}, t < w x → ¬ InInterval w (x :: xs) t (k + 1) := by
        intro k hx hk
        have hrest := nonneg_of_inInterval hw.2 (inInterval_cons_succ.mp hk)
        exact absurd hx (not_lt_of_ge (sub_nonneg.mp hrest))
      cases i with
      | zero =>
          cases j with
          | zero => rfl
          | succ j => exact absurd h' (hdisjoint (inInterval_cons_zero.mp h).2)
      | succ i =>
          cases j with
          | zero => exact absurd h (hdisjoint (inInterval_cons_zero.mp h').2)
          | succ j => rw [ih hw.2 (inInterval_cons_succ.mp h) (inInterval_cons_succ.mp h')]

/-- An element without weight has no interval. -/
theorem weight_pos_of_inInterval (h : InInterval w l t i) (hx : l[i]? = some x) : 0 < w x := by
  have hstep : offset w l (i + 1) = offset w l i + w x := by
    rw [offset, List.take_add_one, hx, Option.toList_some, List.map_append, List.sum_append]
    simp [offset]
  have hlt := h.offset_le.trans_lt h.lt_offset
  rw [hstep] at hlt
  exact pos_of_lt_add_right hlt

end OpaqueStellar.Lib.Weighted
