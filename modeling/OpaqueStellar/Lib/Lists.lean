import Mathlib.Data.List.Basic
import Mathlib.Data.List.TakeWhile

/-! # Lists with one place changed

A table of tasks is a list in which one entry at a time is replaced; a history is one that grows at its
end. -/

namespace OpaqueStellar.Lib

variable {α β : Type} {l : List α} {i : ℕ} {a b x : α}

/-- What stands somewhere is the new entry, or it stood there before. -/
theorem getElem?_set_cases {j : ℕ} (h : (l.set i a)[j]? = some b) :
    i = j ∧ b = a ∨ i ≠ j ∧ l[j]? = some b := by
  by_cases hij : i = j
  · subst hij
    have hi : i < (l.set i a).length := (List.getElem?_eq_some_iff.mp h).1
    rw [List.getElem?_set_self (by simpa using hi)] at h
    exact .inl ⟨rfl, (Option.some.inj h).symm⟩
  · rw [List.getElem?_set_ne hij] at h
    exact .inr ⟨hij, h⟩

/-- Only the entry that is replaced goes. -/
theorem mem_of_set (hi : l[i]? = some a) (hx : x ∈ l) : x = a ∨ x ∈ l.set i b := by
  obtain ⟨j, hj⟩ := List.mem_iff_getElem?.mp hx
  by_cases hij : i = j
  · subst hij
    rw [hi] at hj
    exact .inl (Option.some.inj hj).symm
  · refine .inr (List.mem_iff_getElem?.mpr ⟨j, ?_⟩)
    rw [List.getElem?_set_ne hij]
    exact hj

/-- Only the entry that is taken out goes. -/
theorem mem_of_eraseIdx (hi : l[i]? = some a) (hx : x ∈ l) : x = a ∨ x ∈ l.eraseIdx i := by
  obtain ⟨j, hj⟩ := List.mem_iff_getElem?.mp hx
  by_cases hij : j = i
  · subst hij
    rw [hi] at hj
    exact .inl (Option.some.inj hj).symm
  · exact .inr (List.mem_eraseIdx_iff_getElem?.mpr ⟨j, hij, hj⟩)

/-- The first components stay where only a second one changes. -/
theorem map_fst_set {l : List (α × β)} {b : β} (h : l[i]? = some (a, b)) (b' : β) :
    (l.set i (a, b')).map (·.1) = l.map (·.1) := by
  obtain ⟨hi, -⟩ := List.getElem?_eq_some_iff.mp h
  rw [List.map_set]
  refine List.ext_getElem? fun j => ?_
  by_cases hij : i = j
  · subst hij
    rw [List.getElem?_set_self (by simpa using hi), List.getElem?_map, h]
    rfl
  · rw [List.getElem?_set_ne hij]

theorem filterMap_range_getElem? (l : List α) :
    (List.range l.length).filterMap (fun i => l[i]?) = l := by
  induction l with
  | nil => rfl
  | cons a l ih =>
    rw [List.length_cons, List.range_succ_eq_map, List.filterMap_cons, List.filterMap_map]
    exact congrArg (a :: ·) ih

/-- Lists that one function does not tell apart another one does not tell apart either, if that is so
for their elements. -/
theorem map_eq_map_of {γ : Type} {f : α → β} {g : α → γ} {xs ys : List α}
    (h : ∀ x ∈ xs, ∀ y ∈ ys, f x = f y → g x = g y) (heq : xs.map f = ys.map f) :
    xs.map g = ys.map g := by
  induction xs generalizing ys with
  | nil =>
    obtain rfl := List.map_eq_nil_iff.mp heq.symm
    rfl
  | cons x xs ih =>
    cases ys with
    | nil => cases heq
    | cons y ys =>
      obtain ⟨hfirst, hrest⟩ := List.cons.inj heq
      have htail := ih (fun x hx y hy => h x (List.mem_cons_of_mem _ hx) y (List.mem_cons_of_mem _ hy))
        hrest
      rw [List.map_cons, List.map_cons, htail,
        h x List.mem_cons_self y List.mem_cons_self hfirst]

/-- There are as many results as there are arguments. -/
theorem length_of_mapM {f : α → Option β} {xs : List α} {ys : List β} (h : xs.mapM f = some ys) :
    ys.length = xs.length := by
  induction xs generalizing ys with
  | nil =>
    cases h
    rfl
  | cons x xs ih =>
    rw [List.mapM_cons] at h
    obtain ⟨y, -, hrest⟩ := Option.bind_eq_some_iff.mp h
    obtain ⟨zs, hzs, heq⟩ := Option.bind_eq_some_iff.mp hrest
    cases heq
    rw [List.length_cons, List.length_cons, ih hzs]

/-- A partner for each element is a list of partners. -/
theorem exists_forall₂_iff {R : α → β → Prop} {xs : List α} :
    (∃ ys, List.Forall₂ R xs ys) ↔ ∀ x ∈ xs, ∃ y, R x y := by
  induction xs with
  | nil => exact ⟨by simp, fun _ => ⟨[], .nil⟩⟩
  | cons x xs ih =>
    rw [List.forall_mem_cons, ← ih]
    constructor
    · rintro ⟨ys, h⟩
      cases h with
      | cons hy hys => exact ⟨⟨_, hy⟩, _, hys⟩
    · rintro ⟨⟨y, hy⟩, ys, hys⟩
      exact ⟨y :: ys, .cons hy hys⟩

/-- The last separator splits a list in one way. -/
theorem append_sep_inj {sep : α} {s s' t t' : List α} (ht : sep ∉ t) (ht' : sep ∉ t')
    (heq : s ++ sep :: t = s' ++ sep :: t') : s = s' ∧ t = t' := by
  rcases List.append_eq_append_iff.mp heq with ⟨u, hs', hrest⟩ | ⟨u, hs, hrest⟩
  · cases u with
    | nil => exact ⟨by simpa using hs'.symm, (List.cons.inj hrest).2⟩
    | cons x u =>
      have htail : t = u ++ sep :: t' := (List.cons.inj hrest).2
      exact absurd (htail ▸ List.mem_append_right u List.mem_cons_self) ht
  · cases u with
    | nil => exact ⟨by simpa using hs, (List.cons.inj hrest).2.symm⟩
    | cons x u =>
      have htail : t' = u ++ sep :: t := (List.cons.inj hrest).2
      exact absurd (htail ▸ List.mem_append_right u List.mem_cons_self) ht'

theorem getElem?_snoc {y : α} : (l ++ [x])[i]? = some y ↔ l[i]? = some y ∨ i = l.length ∧ x = y := by
  rcases lt_trichotomy i l.length with hlt | rfl | hgt
  · rw [List.getElem?_append_left hlt]
    exact (or_iff_left fun hlast => hlt.ne hlast.1).symm
  · simp
  · have hold : l[i]? = none := List.getElem?_eq_none hgt.le
    have hnew : (l ++ [x])[i]? = none := List.getElem?_eq_none (by simp; omega)
    simp [hold, hnew, hgt.ne']

/-- A prefix and what comes next. -/
theorem append_isPrefix {r : List α} (h : l <+: r) (hx : r[l.length]? = some x) : l ++ [x] <+: r := by
  obtain ⟨rest, rfl⟩ := h
  rw [List.getElem?_append_right le_rfl, Nat.sub_self] at hx
  obtain ⟨rest, rfl⟩ := List.head?_eq_some_iff.mp (List.head?_eq_getElem? ▸ hx)
  exact ⟨rest, by simp⟩

/-- The first element that fails a test parts a list. -/
theorem span_append {p : α → Bool} {before : List α} (after : List α) (hbefore : ∀ y ∈ before, p y)
    (hx : p x = false) : (before ++ x :: after).takeWhile p = before ∧
      (before ++ x :: after).dropWhile p = x :: after := by
  rw [List.takeWhile_append_of_pos hbefore, List.dropWhile_append_of_pos hbefore]
  simp [hx]

theorem mapM_toOption {ε : Type} (f : α → Except ε β) (l : List α) :
    (l.mapM f).toOption = l.mapM fun x => (f x).toOption := by
  induction l with
  | nil => rfl
  | cons x l ih =>
    rw [List.mapM_cons, List.mapM_cons, ← ih]
    cases f x with
    | error e => rfl
    | ok y => cases l.mapM f <;> rfl

theorem mapM_mono {f g : α → Option β} {ys : List β} (h : l.mapM f = some ys)
    (hfg : ∀ x ∈ l, ∀ y, f x = some y → g x = some y) : l.mapM g = some ys := by
  induction l generalizing ys with
  | nil => exact h
  | cons x l ih =>
    rw [List.mapM_cons] at h ⊢
    obtain ⟨y, hy, h⟩ := Option.bind_eq_some_iff.mp h
    obtain ⟨rest, hrest, h⟩ := Option.bind_eq_some_iff.mp h
    rw [hfg x List.mem_cons_self y hy, ih hrest fun x' hx' => hfg x' (List.mem_cons_of_mem _ hx')]
    exact h

/-! ## Sets that list their elements in the order they came -/

variable [DecidableEq α]

def addLast (set : List α) (x : α) : List α := if x ∈ set then set else set ++ [x]

end OpaqueStellar.Lib
