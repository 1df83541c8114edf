import Mathlib.Algebra.Order.BigOperators.Group.List
import Mathlib.Algebra.Order.Ring.Nat
import Mathlib.Data.List.Nodup

/-! # Notes and what descends from them

Notes are numbered in the order they were made. A `Spend` consumes the note `source`, takes `amount`
out of it and leaves the rest in a later note `target`. `Descends spends i j` says that note `j` is
`i` itself or was left over, in one or several spends, from `i`; `drawn spends i` is all that was
taken out of `i` and its descendants.

`drawn_le`: where no note is spent twice and each spend splits the value of its source into the
amount and the value of its target, no more is drawn from a note than its value. -/

namespace OpaqueStellar.Lib

structure Spend where
  source : ℕ
  target : ℕ
  amount : ℕ
  deriving DecidableEq

inductive Descends (spends : List Spend) (i : ℕ) : ℕ → Prop
  | refl : Descends spends i i
  | change {s : Spend} (mem : s ∈ spends) (source : Descends spends i s.source) :
      Descends spends i s.target

open Classical in
/-- What the spends took out of note `i` and its descendants. -/
noncomputable def drawn (spends : List Spend) (i : ℕ) : ℕ :=
  (spends.map fun s => if Descends spends i s.source then s.amount else 0).sum

variable {spends : List Spend}

theorem Descends.trans {i j k : ℕ} (h : Descends spends i j) (h' : Descends spends j k) :
    Descends spends i k := by
  induction h' with
  | refl => exact h
  | change hmem _ ih => exact .change hmem ih

theorem Descends.mono {more : List Spend} {i j : ℕ} (hsub : ∀ s ∈ spends, s ∈ more)
    (h : Descends spends i j) : Descends more i j := by
  induction h with
  | refl => exact .refl
  | change hmem _ ih => exact .change (hsub _ hmem) ih

/-- Spends go forward. -/
theorem Descends.le {i j : ℕ} (hlt : ∀ s ∈ spends, s.source < s.target)
    (h : Descends spends i j) : i ≤ j := by
  induction h with
  | refl => exact le_refl _
  | change hmem _ ih => exact le_trans ih (le_of_lt (hlt _ hmem))

/-- Nothing else descends from a note that is not spent. -/
theorem Descends.eq_of_unspent {i j : ℕ} (hun : ∀ s ∈ spends, s.source ≠ i)
    (h : Descends spends i j) : j = i := by
  induction h with
  | refl => rfl
  | change hmem _ ih => exact absurd ih (hun _ hmem)

/-- What descends from a spent note is the note itself or descends from its change. -/
theorem descends_iff_of_spent {s : Spend} (hmem : s ∈ spends)
    (hunique : ∀ s' ∈ spends, s'.source = s.source → s' = s) {j : ℕ} :
    Descends spends s.source j ↔ j = s.source ∨ Descends spends s.target j := by
  constructor
  · intro h
    induction h with
    | refl => exact .inl rfl
    | change hmem' _ ih =>
        right
        rcases ih with heq | hdesc
        · rw [hunique _ hmem' heq]
          exact .refl
        · exact .change hmem' hdesc
  · intro h
    rcases h with rfl | hdesc
    · exact .refl
    · exact Descends.trans (.change hmem .refl) hdesc

/-- The amounts of the spends of one note, when it is spent once. -/
theorem sum_of_unique {l : List Spend} {s : Spend} (hmem : s ∈ l)
    (hnodup : (l.map Spend.source).Nodup) :
    (l.map fun s' => if s'.source = s.source then s'.amount else 0).sum = s.amount := by
  induction l with
  | nil => cases hmem
  | cons s' l ih =>
      rw [List.map_cons, List.nodup_cons] at hnodup
      rw [List.map_cons, List.sum_cons]
      rcases List.mem_cons.mp hmem with rfl | hmem
      · have hrest : l.map (fun s' => if s'.source = s.source then s'.amount else 0) =
            l.map (fun _ => 0) := by
          apply List.map_congr_left
          intro s' hs'
          rw [if_neg]
          intro heq
          exact hnodup.1 (heq ▸ List.mem_map_of_mem hs')
        rw [if_pos rfl, hrest]
        simp
      · rw [if_neg, ih hmem hnodup.2, zero_add]
        intro heq
        exact hnodup.1 (heq ▸ List.mem_map_of_mem hmem)

theorem source_unique {l : List Spend} (hnodup : (l.map Spend.source).Nodup) {s s' : Spend}
    (hs : s ∈ l) (hs' : s' ∈ l) (heq : s'.source = s.source) : s' = s :=
  List.inj_on_of_nodup_map hnodup hs' hs heq

/-- What is drawn from a spent note: the amount of its spend, and what is drawn from the change. -/
theorem drawn_of_spent {s : Spend} (hmem : s ∈ spends) (hnodup : (spends.map Spend.source).Nodup)
    (hlt : ∀ s ∈ spends, s.source < s.target) :
    drawn spends s.source = s.amount + drawn spends s.target := by
  have hiff := fun {j} => descends_iff_of_spent (j := j) hmem
    (fun s' hs' heq => source_unique hnodup hmem hs' heq)
  rw [drawn, ← sum_of_unique hmem hnodup, drawn, ← List.sum_map_add]
  congr 1
  apply List.map_congr_left
  intro s' _
  by_cases hsource : s'.source = s.source
  · have hnot : ¬ Descends spends s.target s'.source := by
      intro hdesc
      have hle := hdesc.le hlt
      have hafter := hlt s hmem
      omega
    rw [if_pos (hiff.mpr (.inl hsource)), if_pos hsource, if_neg hnot, add_zero]
  · rw [if_neg hsource, zero_add]
    by_cases hdesc : Descends spends s.target s'.source
    · rw [if_pos (hiff.mpr (.inr hdesc)), if_pos hdesc]
    · rw [if_neg hdesc, if_neg]
      intro h
      rcases hiff.mp h with heq | hdesc'
      · exact hsource heq
      · exact hdesc hdesc'

theorem drawn_of_unspent {i : ℕ} (hun : ∀ s ∈ spends, s.source ≠ i) : drawn spends i = 0 := by
  rw [drawn]
  apply List.sum_eq_zero
  intro n hn
  obtain ⟨s, hs, rfl⟩ := List.mem_map.mp hn
  rw [if_neg]
  intro hdesc
  exact hun s hs (hdesc.eq_of_unspent hun)

/-- **Value is conserved along descent.** -/
theorem drawn_le (val : ℕ → ℕ) (hnodup : (spends.map Spend.source).Nodup)
    (hlt : ∀ s ∈ spends, s.source < s.target)
    (hval : ∀ s ∈ spends, val s.source = s.amount + val s.target) (i : ℕ) :
    drawn spends i ≤ val i := by
  -- induction from the last note backwards: targets are bounded, and spends go forward
  obtain ⟨bound, hbound⟩ : ∃ bound, ∀ s ∈ spends, s.target ≤ bound := by
    refine ⟨(spends.map Spend.target).sum, ?_⟩
    intro s hs
    exact List.single_le_sum (fun _ _ => Nat.zero_le _) _ (List.mem_map_of_mem hs)
  induction hn : bound - i using Nat.strong_induction_on generalizing i with
  | _ n ih =>
      by_cases hspent : ∃ s ∈ spends, s.source = i
      · obtain ⟨s, hs, rfl⟩ := hspent
        have hnext : drawn spends s.target ≤ val s.target := by
          have h₁ := hlt s hs
          have h₂ := hbound s hs
          exact ih (bound - s.target) (by omega) s.target rfl
        rw [drawn_of_spent hs hnodup hlt, hval s hs]
        omega
      · rw [drawn_of_unspent]
        · exact Nat.zero_le _
        · intro s hs heq
          exact hspent ⟨s, hs, heq⟩

end OpaqueStellar.Lib
