import Mathlib.Data.List.Induction
import Mathlib.Order.MinMax

/-! # Arrays with holes

An array into which one may assign anywhere: assigning beyond its end makes it as long as needed and
leaves holes in between. `value` is what stands at an index.

`foldl_assign_eq_map_take`: filling such an array with elements of a list, each at its own index,
gives an initial part of that list where no index below an assigned one is left out. -/

namespace OpaqueStellar.Lib.Sparse

variable {α : Type}

/-- `array[i] = x`. -/
def assign (array : List (Option α)) (u : ℕ × α) : List (Option α) :=
  if u.1 < array.length then array.set u.1 (some u.2)
  else array ++ List.replicate (u.1 - array.length) none ++ [some u.2]

/-- What stands at an index; nothing in a hole and beyond the end. -/
def value (array : List (Option α)) (i : ℕ) : Option α := array[i]?.join

theorem length_assign (array : List (Option α)) (u : ℕ × α) :
    (assign array u).length = max array.length (u.1 + 1) := by
  unfold assign
  split
  · rw [List.length_set]
    omega
  · simp only [List.length_append, List.length_replicate, List.length_singleton]
    omega

theorem value_assign (array : List (Option α)) (u : ℕ × α) (i : ℕ) :
    value (assign array u) i = if i = u.1 then some u.2 else value array i := by
  unfold value assign
  split
  · next hlt =>
      rw [List.getElem?_set]
      by_cases hi : i = u.1
      · simp [hi, hlt]
      · simp [hi, Ne.symm hi]
  · next hge =>
      by_cases hi : i = u.1
      · subst hi
        simp only [List.append_assoc]
        rw [List.getElem?_append_right (not_lt.mp hge), List.getElem?_append_right (by simp)]
        simp
      · rw [if_neg hi]
        rcases lt_or_ge i array.length with hlt | hle
        · rw [List.append_assoc, List.getElem?_append_left hlt]
        · rw [List.getElem?_eq_none hle, List.append_assoc, List.getElem?_append_right hle]
          rcases lt_or_ge (i - array.length) (u.1 - array.length) with hhole | hbeyond
          · rw [List.getElem?_append_left (by simpa using hhole), List.getElem?_replicate,
              if_pos hhole]
            rfl
          · rw [List.getElem?_eq_none]
            simp
            omega

/-- Assigning what stands there changes nothing. -/
theorem assign_eq_self {array : List (Option α)} {u : ℕ × α} (h : value array u.1 = some u.2) :
    assign array u = array := by
  have hx : array[u.1]? = some (some u.2) := Option.join_eq_some_iff.mp h
  have hlt := (List.getElem?_eq_some_iff.mp hx).1
  rw [assign, if_pos hlt]
  apply List.ext_getElem?
  intro i
  rw [List.getElem?_set]
  split
  · next hi => rw [← hi, hx]
  · rfl

theorem foldl_assign_eq_self {array : List (Option α)} {updates : List (ℕ × α)}
    (h : ∀ u ∈ updates, value array u.1 = some u.2) : updates.foldl assign array = array := by
  induction updates with
  | nil => rfl
  | cons u updates ih =>
      obtain ⟨hfirst, hrest⟩ := List.forall_mem_cons.mp h
      rw [List.foldl_cons, assign_eq_self hfirst]
      exact ih hrest

/-- An array without holes. -/
theorem eq_map_some_iff {array : List (Option α)} {full : List α} {n : ℕ} (hn : n ≤ full.length) :
    array = (full.take n).map some ↔
      array.length = n ∧ ∀ i, i < n → value array i = full[i]? := by
  constructor
  · rintro rfl
    refine ⟨by simp [hn], ?_⟩
    intro i hi
    rw [value, List.getElem?_map, List.getElem?_take, if_pos hi]
    cases full[i]? <;> rfl
  · rintro ⟨hlen, hvalue⟩
    apply List.ext_getElem?
    intro i
    rw [List.getElem?_map, List.getElem?_take]
    split
    · next hi =>
        have hv := hvalue i hi
        rw [List.getElem?_eq_getElem (lt_of_lt_of_le hi hn)] at hv ⊢
        unfold value at hv
        rw [List.getElem?_eq_getElem (hlen.symm ▸ hi)] at hv ⊢
        rw [Option.join_some] at hv
        rw [hv]
        rfl
    · next hi =>
        rw [List.getElem?_eq_none (hlen.symm ▸ not_lt.mp hi)]
        rfl

/-- An index that holds an element after filling up from an initial part of length `n`. -/
def Filled (n : ℕ) (updates : List (ℕ × α)) (i : ℕ) : Prop := i < n ∨ ∃ u ∈ updates, u.1 = i

theorem lt_length_foldl_assign {array : List (Option α)} {updates : List (ℕ × α)} {i : ℕ} :
    i < (updates.foldl assign array).length ↔ ∃ k, i ≤ k ∧ Filled array.length updates k := by
  induction updates generalizing array with
  | nil =>
      simp only [List.foldl_nil, Filled, List.not_mem_nil, false_and, exists_false, or_false]
      constructor
      · intro h
        exact ⟨i, le_refl _, h⟩
      · rintro ⟨k, hle, hlt⟩
        omega
  | cons u updates ih =>
      rw [List.foldl_cons, ih, length_assign]
      simp only [Filled, List.mem_cons, lt_max_iff, Nat.lt_succ_iff]
      constructor
      · rintro ⟨k, hle, (hk | hk) | ⟨u', hu', rfl⟩⟩
        · exact ⟨k, hle, .inl hk⟩
        · exact ⟨u.1, le_trans hle hk, .inr ⟨u, .inl rfl, rfl⟩⟩
        · exact ⟨u'.1, hle, .inr ⟨u', .inr hu', rfl⟩⟩
      · rintro ⟨k, hle, hk | ⟨u', rfl | hu', rfl⟩⟩
        · exact ⟨k, hle, .inl (.inl hk)⟩
        · exact ⟨u'.1, hle, .inl (.inr (le_refl _))⟩
        · exact ⟨u'.1, hle, .inr ⟨u', hu', rfl⟩⟩

/-- Elements of one list, each assigned at its own index. -/
theorem value_foldl_assign (array : List (Option α)) {updates : List (ℕ × α)} {full : List α}
    (hupdates : ∀ u ∈ updates, full[u.1]? = some u.2) (i : ℕ) :
    value (updates.foldl assign array) i = value array i ∨
      value (updates.foldl assign array) i = full[i]? := by
  induction updates generalizing array with
  | nil => exact .inl rfl
  | cons u updates ih =>
      rw [List.foldl_cons]
      have hlater : ∀ u' ∈ updates, full[u'.1]? = some u'.2 :=
        fun u' hu' => hupdates u' (List.mem_cons_of_mem _ hu')
      rcases ih (assign array u) hlater with h | h
      · rw [h, value_assign]
        split
        · next hi => exact .inr (by rw [hi, hupdates u List.mem_cons_self])
        · exact .inl rfl
      · exact .inr h

theorem value_foldl_assign_of_mem {array : List (Option α)} {updates : List (ℕ × α)} {full : List α}
    (hupdates : ∀ u ∈ updates, full[u.1]? = some u.2) {i : ℕ} (h : ∃ u ∈ updates, u.1 = i) :
    value (updates.foldl assign array) i = full[i]? := by
  induction updates generalizing array with
  | nil =>
      obtain ⟨u, hu, -⟩ := h
      cases hu
  | cons u updates ih =>
      have hlater : ∀ u' ∈ updates, full[u'.1]? = some u'.2 :=
        fun u' hu' => hupdates u' (List.mem_cons_of_mem _ hu')
      rw [List.foldl_cons]
      obtain ⟨u', hu', rfl⟩ := h
      rcases List.mem_cons.mp hu' with rfl | hu'
      · rcases value_foldl_assign (assign array u') hlater u'.1 with heq | heq
        · rw [heq, value_assign, if_pos rfl, hupdates u' List.mem_cons_self]
        · exact heq
      · exact ih hlater ⟨u', hu', rfl⟩

/-- **Filling without gaps.** -/
theorem foldl_assign_eq_map_take {updates : List (ℕ × α)} {full : List α} {n : ℕ}
    (hn : n ≤ full.length) (hupdates : ∀ u ∈ updates, full[u.1]? = some u.2)
    (hclosed : ∀ j k, j ≤ k → Filled n updates k → Filled n updates j) :
    ∃ m, n ≤ m ∧ m ≤ full.length ∧
      updates.foldl assign ((full.take n).map some) = (full.take m).map some ∧
      ∀ i, i < m ↔ Filled n updates i := by
  have hlen : ((full.take n).map some).length = n := by simp [hn]
  have hfilled : ∀ i, i < (updates.foldl assign ((full.take n).map some)).length ↔
      Filled n updates i := by
    intro i
    rw [lt_length_foldl_assign, hlen]
    constructor
    · rintro ⟨k, hle, hk⟩
      exact hclosed i k hle hk
    · intro hi
      exact ⟨i, le_refl _, hi⟩
  have hbound : ∀ i, Filled n updates i → i < full.length := by
    rintro i (hi | ⟨u, hu, rfl⟩)
    · omega
    · exact (List.getElem?_eq_some_iff.mp (hupdates u hu)).1
  have hm : (updates.foldl assign ((full.take n).map some)).length ≤ full.length := by
    by_contra hgt
    have := hbound _ ((hfilled full.length).mp (by omega))
    omega
  refine ⟨_, ?_, hm, ?_, hfilled⟩
  · by_contra hlt
    have := (hfilled (updates.foldl assign ((full.take n).map some)).length).mpr (.inl (by omega))
    omega
  · rw [eq_map_some_iff hm]
    refine ⟨rfl, ?_⟩
    intro i hi
    rcases (hfilled i).mp hi with hold | hnew
    · have hvalue := ((eq_map_some_iff hn).mp rfl).2 i hold
      rcases value_foldl_assign ((full.take n).map some) hupdates i with h | h
      · rw [h, hvalue]
      · exact h
    · exact value_foldl_assign_of_mem hupdates hnew

end OpaqueStellar.Lib.Sparse
