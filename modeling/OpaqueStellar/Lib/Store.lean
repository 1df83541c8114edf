import Mathlib.Data.Finmap
import Mathlib.Algebra.BigOperators.Group.Multiset.Basic
import Mathlib.Algebra.Order.BigOperators.Group.Multiset

/-! # Keyed storage

A contract's storage is a finite map. `Store K V` is Mathlib's `Finmap` at a constant value type,
so two stores with the same lookups are equal. What is added here is the sum of a quantity over
all entries, and how writing one entry moves it. -/

namespace OpaqueStellar.Lib

/-- A finite map from keys `K` to values `V`. -/
abbrev Store (K V : Type) := Finmap fun _ : K => V

namespace Store

variable {K V : Type} [DecidableEq K]

/-- The sum of `f` over all entries. -/
def total (f : K → V → ℤ) (s : Store K V) : ℤ := (s.entries.map fun e => f e.1 e.2).sum

/-- What the entry at `k`, if there is one, contributes to `total f`. -/
def share (f : K → V → ℤ) (s : Store K V) (k : K) : ℤ := ((s.lookup k).map (f k)).getD 0

theorem share_eq_of_lookup {f : K → V → ℤ} {s : Store K V} {k : K} {v : V}
    (h : s.lookup k = some v) : share f s k = f k v := by
  simp [share, h]

theorem share_eq_zero {f : K → V → ℤ} {s : Store K V} {k : K} (h : s.lookup k = none) :
    share f s k = 0 := by
  simp [share, h]

private theorem total_insert_of_notMem (f : K → V → ℤ) {s : Store K V} {k : K} (v : V)
    (h : k ∉ s) : total f (s.insert k v) = f k v + total f s := by
  rw [total, Finmap.entries_insert_of_notMem h, Multiset.map_cons, Multiset.sum_cons, total]

private theorem insert_erase_of_lookup {s : Store K V} {k : K} {v : V}
    (h : s.lookup k = some v) : Finmap.insert k v (s.erase k) = s := by
  apply Finmap.ext_lookup
  intro k'
  by_cases hk : k' = k
  · subst hk
    rw [Finmap.lookup_insert, h]
  · rw [Finmap.lookup_insert_of_ne _ hk, Finmap.lookup_erase_ne hk]

/-- **Writing one entry** replaces its old contribution to a sum by the new one. -/
theorem total_insert (f : K → V → ℤ) (s : Store K V) (k : K) (v : V) :
    total f (s.insert k v) = total f s - share f s k + f k v := by
  cases h : s.lookup k with
  | none =>
      rw [total_insert_of_notMem f v (Finmap.lookup_eq_none.mp h), share_eq_zero h]
      omega
  | some v' =>
      have hfresh : k ∉ s.erase k := Finmap.notMem_erase_self
      have hold := total_insert_of_notMem f v' hfresh
      have hnew := total_insert_of_notMem f v hfresh
      have hover : Finmap.insert k v (Finmap.insert k v' (s.erase k)) =
          Finmap.insert k v (s.erase k) := Finmap.insert_insert _
      rw [insert_erase_of_lookup h] at hold hover
      rw [hover, hnew, hold, share_eq_of_lookup h]
      omega

/-- Sums compare entry by entry. -/
theorem total_le_total {f g : K → V → ℤ} {s : Store K V}
    (h : ∀ k v, s.lookup k = some v → f k v ≤ g k v) : total f s ≤ total g s := by
  apply Multiset.sum_map_le_sum_map
  intro e he
  exact h e.1 e.2 (Finmap.lookup_eq_some_iff.mpr he)

omit [DecidableEq K] in
theorem total_zero (s : Store K V) : total (fun _ _ => 0) s = 0 := by
  simp [total]

theorem total_nonneg {f : K → V → ℤ} {s : Store K V}
    (h : ∀ k v, s.lookup k = some v → 0 ≤ f k v) : 0 ≤ total f s := by
  rw [← total_zero s]
  exact total_le_total h

/-- What is found after a write is what was written, or what was there before. -/
theorem lookup_insert_cases {s : Store K V} {k k' : K} {v v' : V}
    (h : Finmap.lookup k' (s.insert k v) = some v') :
    (k' = k ∧ v' = v) ∨ s.lookup k' = some v' := by
  by_cases hk : k' = k
  · subst hk
    rw [Finmap.lookup_insert] at h
    exact .inl ⟨rfl, (Option.some.inj h).symm⟩
  · rw [Finmap.lookup_insert_of_ne _ hk] at h
    exact .inr h

/-- What is missing after a write is another key that was missing before. -/
theorem lookup_of_insert_none {s : Store K V} {k k' : K} {v : V}
    (h : Finmap.lookup k' (s.insert k v) = none) : k' ≠ k ∧ s.lookup k' = none := by
  by_cases hk : k' = k
  · subst hk
    rw [Finmap.lookup_insert] at h
    cases h
  · rw [Finmap.lookup_insert_of_ne _ hk] at h
    exact ⟨hk, h⟩

end Store

end OpaqueStellar.Lib
