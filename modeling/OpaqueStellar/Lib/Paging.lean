import Mathlib.Data.List.Basic
import Mathlib.Algebra.Order.Group.Nat
import Mathlib.Data.Nat.Init

/-! # Histories cut into pages

A source hands a history out in pages of at most `limit` entries, in order, and may cut it anywhere: a page
may be short or empty although later pages hold entries. A reader that takes a short page for the last one
sees the whole history exactly when no page before an entry is short and its pages suffice
(`upToShort_eq_iff`). -/

namespace OpaqueStellar.Lib.Paging

variable {α : Type} {limit m : ℕ} {page : ℕ → List α} {history : List α}

/-- The first `n` pages. -/
def firstPages (page : ℕ → List α) (n : ℕ) : List α := (List.range n).flatMap page

/-- The history is what all the pages hold. -/
structure Cuts (limit : ℕ) (page : ℕ → List α) (history : List α) : Prop where
  length_le : ∀ k, (page k).length ≤ limit
  whole : ∃ m, firstPages page m = history ∧ ∀ j, m ≤ j → page j = []

/-- What a reader has read that stops after `budget` pages, or after a short one. -/
def upToShort (limit : ℕ) (page : ℕ → List α) : (budget k : ℕ) → List α
  | 0, _ => []
  | budget + 1, k =>
    if (page k).length < limit then page k else page k ++ upToShort limit page budget (k + 1)

/-- Every page before one with entries is full, and the first pages of the budget have all entries. -/
structure Gapless (limit : ℕ) (page : ℕ → List α) (budget : ℕ) : Prop where
  full : ∀ k j, k < j → page j ≠ [] → (page k).length = limit
  within : ∀ j, budget ≤ j → page j = []

theorem firstPages_succ (page : ℕ → List α) (n : ℕ) :
    firstPages page (n + 1) = firstPages page n ++ page n := by
  simp [firstPages, List.range_succ]

theorem firstPages_eq_of_empty {n : ℕ} (hempty : ∀ j, n ≤ j → page j = []) (hm : n ≤ m) :
    firstPages page m = firstPages page n := by
  induction m, hm using Nat.le_induction with
  | base => rfl
  | succ m hm ih => rw [firstPages_succ, ih, hempty m hm, List.append_nil]

theorem firstPages_isPrefix (page : ℕ → List α) {n : ℕ} (hn : n ≤ m) : firstPages page n <+: firstPages page m := by
  induction m, hn using Nat.le_induction with
  | base => exact List.prefix_refl _
  | succ m hm ih =>
      rw [firstPages_succ]
      exact ih.trans (List.prefix_append _ _)

/-- Some first pages are the whole history exactly when the other pages are empty. -/
theorem Cuts.firstPages_eq_iff (h : Cuts limit page history) (n : ℕ) :
    firstPages page n = history ↔ ∀ j, n ≤ j → page j = [] := by
  obtain ⟨m, hwhole, hrest⟩ := h.whole
  constructor
  · intro heq j hj
    have hlonger := (firstPages_isPrefix page hj).length_le
    have hsucc := (firstPages_isPrefix page (le_max_right m (j + 1))).length_le
    rw [firstPages_eq_of_empty hrest (le_max_left m (j + 1)), hwhole, ← heq, firstPages_succ,
      List.length_append] at hsucc
    exact List.length_eq_zero_iff.mp (by omega)
  · intro hempty
    rw [← hwhole, ← firstPages_eq_of_empty hempty (le_max_left n m),
      firstPages_eq_of_empty hrest (le_max_right n m)]

/-- The pages that were read: all of them are full but the last, which is short unless the budget is used. -/
theorem firstPages_append_upToShort (limit : ℕ) (page : ℕ → List α) (budget k : ℕ) :
    ∃ n ≤ budget, firstPages page k ++ upToShort limit page budget k = firstPages page (k + n) ∧
      (∀ i, k ≤ i → i + 1 < k + n → limit ≤ (page i).length) ∧
      (n < budget → ∃ last, k + n = last + 1 ∧ (page last).length < limit) := by
  induction budget generalizing k with
  | zero => exact ⟨0, le_rfl, List.append_nil _, fun i hk hi => by omega, fun hn => absurd hn (lt_irrefl 0)⟩
  | succ budget ih =>
      by_cases hshort : (page k).length < limit
      · refine ⟨1, by omega, ?_, fun i hk hi => by omega, fun _ => ⟨k, rfl, hshort⟩⟩
        rw [upToShort, if_pos hshort, firstPages_succ]
      · obtain ⟨n, hn, heq, hfull, hlast⟩ := ih (k + 1)
        rw [firstPages_succ, List.append_assoc] at heq
        refine ⟨n + 1, by omega, ?_, ?_, ?_⟩
        · rw [upToShort, if_neg hshort, heq]
          congr 1
          omega
        · intro i hk hi
          rcases Nat.eq_or_lt_of_le hk with rfl | hlt
          · exact Nat.le_of_not_lt hshort
          · exact hfull i hlt (by omega)
        · intro hlt
          obtain ⟨last, hlast, hlen⟩ := hlast (by omega)
          exact ⟨last, by omega, hlen⟩

theorem upToShort_isPrefix (h : Cuts limit page history) (budget : ℕ) :
    upToShort limit page budget 0 <+: history := by
  obtain ⟨n, -, heq, -⟩ := firstPages_append_upToShort limit page budget 0
  obtain ⟨m, hwhole, hrest⟩ := h.whole
  rw [Nat.zero_add, show firstPages page 0 = [] from rfl, List.nil_append] at heq
  rw [heq, ← hwhole, ← firstPages_eq_of_empty hrest (le_max_left m n)]
  exact firstPages_isPrefix page (le_max_right m n)

/-- **What a reader that stops at a short page reads.** -/
theorem upToShort_eq_iff (h : Cuts limit page history) (budget : ℕ) :
    upToShort limit page budget 0 = history ↔ Gapless limit page budget := by
  obtain ⟨n, hn, heq, hfull, hlast⟩ := firstPages_append_upToShort limit page budget 0
  rw [Nat.zero_add] at heq hfull hlast
  rw [show firstPages page 0 = [] from rfl, List.nil_append] at heq
  rw [heq, h.firstPages_eq_iff n]
  constructor
  · intro hempty
    refine ⟨?_, fun j hj => hempty j (hn.trans hj)⟩
    intro k j hkj hne
    have hj : j < n := Nat.lt_of_not_le fun hle => hne (hempty j hle)
    exact le_antisymm (h.length_le k) (hfull k (Nat.zero_le k) (by omega))
  · intro hgapless j hj
    rcases Nat.eq_or_lt_of_le hn with rfl | hlt
    · exact hgapless.within j hj
    · -- the page that stopped the reader is short, so nothing comes after it
      obtain ⟨last, rfl, hshort⟩ := hlast hlt
      by_contra hne
      exact absurd (hgapless.full last j (by omega) hne) (by omega)

end OpaqueStellar.Lib.Paging
