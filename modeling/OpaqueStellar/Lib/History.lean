import Mathlib.Data.List.Basic
import Mathlib.Data.List.Induction

/-! # Events in a history

A history is a list, oldest event first. `Latest p t e` says that `e` is the last event of `t` with
`p`. For a request that can be cancelled, `Cancelled p q t` says that a `q` follows every `p`, and
`FirstSince p q t e` that `e` is the first `p` after the last `q`: no `q` follows it, and every
earlier `p` was cancelled before it.

Each notion is followed through one more event at the end, which is what an invariant over a run
needs. -/

namespace OpaqueStellar.Lib

variable {α : Type} {p q : α → Prop} {t : List α} {e x : α}

/-- A split of a history with one more event is at that event, or a split of the history before. -/
theorem snoc_split {a b : List α} (h : t ++ [x] = a ++ e :: b) :
    (t = a ∧ x = e ∧ b = []) ∨ ∃ b', b = b' ++ [x] ∧ t = a ++ e :: b' := by
  rcases List.eq_nil_or_concat' b with rfl | ⟨b', y, rfl⟩
  · left
    obtain ⟨rfl, hx⟩ := List.append_inj' h rfl
    exact ⟨rfl, (List.cons.inj hx).1, rfl⟩
  · right
    have h' : t ++ [x] = (a ++ e :: b') ++ [y] := by rw [h, List.append_assoc]; rfl
    obtain ⟨rfl, hx⟩ := List.append_inj' h' rfl
    obtain rfl := (List.cons.inj hx).1
    exact ⟨b', rfl, rfl⟩

/-! ## The latest event of a kind -/

def Latest (p : α → Prop) (t : List α) (e : α) : Prop :=
  ∃ t₁ t₂, t = t₁ ++ e :: t₂ ∧ p e ∧ ∀ x ∈ t₂, ¬ p x

theorem Latest.holds (h : Latest p t e) : p e := by
  obtain ⟨t₁, t₂, -, hp, -⟩ := h
  exact hp

theorem Latest.mem (h : Latest p t e) : e ∈ t := by
  obtain ⟨t₁, t₂, rfl, -, -⟩ := h
  exact List.mem_append_right _ List.mem_cons_self

theorem not_latest_nil : ¬ Latest p [] e := by
  intro h
  cases h.mem

theorem latest_snoc_of_pos (hx : p x) : Latest p (t ++ [x]) e ↔ e = x := by
  constructor
  · rintro ⟨t₁, t₂, ht, -, hlast⟩
    rcases snoc_split ht with ⟨-, rfl, -⟩ | ⟨b', rfl, -⟩
    · rfl
    · exact absurd hx (hlast x (List.mem_append_right _ (List.mem_singleton.mpr rfl)))
  · rintro rfl
    exact ⟨t, [], rfl, hx, fun _ h => by cases h⟩

theorem latest_snoc_of_neg (hx : ¬ p x) : Latest p (t ++ [x]) e ↔ Latest p t e := by
  constructor
  · rintro ⟨t₁, t₂, ht, hp, hlast⟩
    rcases snoc_split ht with ⟨-, rfl, -⟩ | ⟨b', rfl, rfl⟩
    · exact absurd hp hx
    · exact ⟨t₁, b', rfl, hp, fun y hy => hlast y (List.mem_append_left _ hy)⟩
  · rintro ⟨t₁, t₂, rfl, hp, hlast⟩
    refine ⟨t₁, t₂ ++ [x], by rw [List.append_assoc]; rfl, hp, ?_⟩
    intro y hy
    rcases List.mem_append.mp hy with hy | hy
    · exact hlast y hy
    · rw [List.mem_singleton.mp hy]
      exact hx

theorem exists_latest (he : e ∈ t) (hp : p e) : ∃ e', Latest p t e' := by
  induction t using List.reverseRecOn with
  | nil => cases he
  | append_singleton t x ih =>
      by_cases hx : p x
      · exact ⟨x, (latest_snoc_of_pos hx).mpr rfl⟩
      · rcases List.mem_append.mp he with he | he
        · obtain ⟨e', he'⟩ := ih he
          exact ⟨e', (latest_snoc_of_neg hx).mpr he'⟩
        · rw [List.mem_singleton.mp he] at hp
          exact absurd hp hx

/-- In an ordered history the latest event comes after the others of its kind. -/
theorem Latest.eq_or_of_pairwise {R : α → α → Prop} (h : Latest p t e) (hR : t.Pairwise R)
    (hx : x ∈ t) (hp : p x) : x = e ∨ R x e := by
  obtain ⟨t₁, t₂, rfl, -, hlast⟩ := h
  rcases List.mem_append.mp hx with hx | hx
  · exact .inr ((List.pairwise_append.mp hR).2.2 x hx e List.mem_cons_self)
  · rcases List.mem_cons.mp hx with rfl | hx
    · exact .inl rfl
    · exact absurd hp (hlast x hx)

/-- The last of the values that the events have. -/
theorem getLast?_filterMap {β : Type} {f : α → Option β} {b : β} :
    (t.filterMap f).getLast? = some b ↔ ∃ e, Latest (fun x => (f x).isSome) t e ∧ f e = some b := by
  induction t using List.reverseRecOn with
  | nil =>
    constructor
    · intro h
      cases h
    · rintro ⟨e, h, -⟩
      exact absurd h not_latest_nil
  | append_singleton t x ih =>
    cases hx : f x with
    | none =>
      have hno : ¬ (f x).isSome = true := by simp [hx]
      rw [List.filterMap_append, List.filterMap_cons_none hx, List.filterMap_nil, List.append_nil, ih]
      simp only [latest_snoc_of_neg (p := fun x => (f x).isSome = true) hno]
    | some y =>
      have hyes : (f x).isSome = true := by simp [hx]
      rw [List.filterMap_append, List.filterMap_cons_some hx, List.filterMap_nil, List.getLast?_concat]
      simp [latest_snoc_of_pos (p := fun x => (f x).isSome = true) hyes, hx]

/-! ## Requests that can be cancelled -/

def Cancelled (p q : α → Prop) (t : List α) : Prop :=
  ∀ a e b, t = a ++ e :: b → p e → ∃ x ∈ b, q x

def FirstSince (p q : α → Prop) (t : List α) (e : α) : Prop :=
  ∃ t₁ t₂, t = t₁ ++ e :: t₂ ∧ p e ∧ (∀ x ∈ t₂, ¬ q x) ∧ Cancelled p q t₁

theorem cancelled_nil : Cancelled p q [] := by
  intro a e b h
  cases a <;> cases h

/-- A cancellation cancels everything before it. -/
theorem cancelled_snoc_of_cancel (hp : ¬ p x) (hq : q x) : Cancelled p q (t ++ [x]) := by
  intro a e b h he
  rcases snoc_split h with ⟨-, rfl, -⟩ | ⟨b', rfl, -⟩
  · exact absurd he hp
  · exact ⟨x, List.mem_append_right _ (List.mem_singleton.mpr rfl), hq⟩

theorem Cancelled.snoc (h : Cancelled p q t) (hp : ¬ p x) : Cancelled p q (t ++ [x]) := by
  intro a e b ht he
  rcases snoc_split ht with ⟨-, rfl, -⟩ | ⟨b', rfl, rfl⟩
  · exact absurd he hp
  · obtain ⟨y, hy, hqy⟩ := h a e b' rfl he
    exact ⟨y, List.mem_append_left _ hy, hqy⟩

/-- A request with nothing pending before it is the first. -/
theorem Cancelled.firstSince (h : Cancelled p q t) (hp : p x) : FirstSince p q (t ++ [x]) x :=
  ⟨t, [], rfl, hp, (fun _ hy => by cases hy), h⟩

/-- What is not a cancellation, another request included, leaves the first request in place. -/
theorem FirstSince.snoc (h : FirstSince p q t e) (hq : ¬ q x) : FirstSince p q (t ++ [x]) e := by
  obtain ⟨t₁, t₂, rfl, hp, hlast, hfirst⟩ := h
  refine ⟨t₁, t₂ ++ [x], by rw [List.append_assoc]; rfl, hp, ?_, hfirst⟩
  intro y hy
  rcases List.mem_append.mp hy with hy | hy
  · exact hlast y hy
  · rw [List.mem_singleton.mp hy]
    exact hq

theorem FirstSince.not_cancelled (h : FirstSince p q t e) : ¬ Cancelled p q t := by
  obtain ⟨t₁, t₂, ht, hp, hlast, -⟩ := h
  intro hc
  obtain ⟨y, hy, hqy⟩ := hc t₁ e t₂ ht hp
  exact hlast y hy hqy

/-- There is at most one first request since the last cancellation. -/
theorem FirstSince.unique {e' : α} (h : FirstSince p q t e) (h' : FirstSince p q t e') : e = e' := by
  obtain ⟨t₁, t₂, ht, hp, hlast, hfirst⟩ := h
  obtain ⟨t₁', t₂', ht', hp', hlast', hfirst'⟩ := h'
  -- if one stood before the other, it would have been cancelled before the other was made
  rcases List.append_eq_append_iff.mp (ht.symm.trans ht') with ⟨c, hc₁, hc₂⟩ | ⟨c, hc₁, hc₂⟩
  · cases c with
    | nil => exact (List.cons.inj hc₂).1
    | cons y c =>
        obtain ⟨rfl, rfl⟩ := List.cons.inj hc₂
        obtain ⟨z, hz, hqz⟩ := hfirst' t₁ e c hc₁ hp
        exact absurd hqz (hlast z (List.mem_append_left _ hz))
  · cases c with
    | nil => exact (List.cons.inj hc₂).1.symm
    | cons y c =>
        obtain ⟨rfl, rfl⟩ := List.cons.inj hc₂
        obtain ⟨z, hz, hqz⟩ := hfirst t₁' e' c hc₁ hp'
        exact absurd hqz (hlast' z (List.mem_append_left _ hz))

end OpaqueStellar.Lib
