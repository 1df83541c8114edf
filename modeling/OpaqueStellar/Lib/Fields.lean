import Mathlib.Data.List.Basic
import Mathlib.Algebra.BigOperators.Group.List.Basic
import OpaqueStellar.Lib.Text

/-! # Strings put together from parts

A concatenation can be taken apart where no part begins another one of its place: parts of one length, or
parts that say their length at a fixed place.
Where parts stand for values, `Framed` says the same of the encoding. -/

namespace OpaqueStellar.Lib

variable {α β : Type}

/-! ## Parts that end where they end -/

section PrefixFree

variable {S : List β → Prop} {a b u w : List β}

/-- No string of the set begins another one. -/
def PrefixFree (S : List β → Prop) : Prop := ∀ a b u w, S a → S b → a ++ u = b ++ w → a = b

theorem PrefixFree.cut (hS : PrefixFree S) (ha : S a) (hb : S b) (h : a ++ u = b ++ w) : a = b ∧ u = w := by
  have hab := hS a b u w ha hb h
  rw [hab] at h
  exact ⟨hab, List.append_cancel_left h⟩

theorem prefixFree_length (n : ℕ) : PrefixFree fun a : List β => a.length = n := by
  intro a b u w ha hb h
  exact (List.append_inj h (ha.trans hb.symm)).1

/-- A header of fixed length says how much follows. -/
theorem prefixFree_header (k : ℕ) (len : List β → ℕ) :
    PrefixFree fun a => ∃ header body, header.length = k ∧ body.length = len header ∧ a = header ++ body := by
  rintro a b u w ⟨header, body, hheader, hbody, rfl⟩ ⟨header', body', hheader', hbody', rfl⟩ h
  rw [List.append_assoc, List.append_assoc] at h
  obtain ⟨rfl, hrest⟩ := List.append_inj h (hheader.trans hheader'.symm)
  exact congrArg (header ++ ·) (List.append_inj hrest (hbody.trans hbody'.symm)).1

end PrefixFree

/-! ## Encodings that can be cut off -/

/-- What is encoded at the front of a string, and what follows it, is determined by the string. -/
def Framed (encode : α → List β) : Prop := ∀ a b u w, encode a ++ u = encode b ++ w → a = b ∧ u = w

section Framed

variable {encode : α → List β}

theorem Framed.injective (h : Framed encode) : Function.Injective encode := by
  intro a b hab
  have happend : encode a ++ [] = encode b ++ [] := by rw [hab]
  exact (h a b [] [] happend).1

theorem framed_of_length (n : ℕ) (hlength : ∀ a, (encode a).length = n) (hinj : Function.Injective encode) :
    Framed encode := by
  intro a b u w h
  obtain ⟨hab, hrest⟩ := List.append_inj h ((hlength a).trans (hlength b).symm)
  exact ⟨hinj hab, hrest⟩

end Framed

/-! ## A part for each element -/

def gather (f : α → Option (List β)) : List α → Option (List β)
  | [] => some []
  | x :: xs => (f x).bind fun a => (gather f xs).map (a ++ ·)

section Gather

variable {f g : α → Option (List β)} {x : α} {xs : List α} {out : List β}

theorem gather_nil (f : α → Option (List β)) : gather f [] = some [] := rfl

theorem gather_cons (f : α → Option (List β)) (x : α) (xs : List α) :
    gather f (x :: xs) = (f x).bind fun a => (gather f xs).map (a ++ ·) := rfl

/-- The loop that appends part after part. -/
theorem foldlM_gather (f : α → Option (List β)) (xs : List α) (acc : List β) :
    xs.foldlM (fun acc x => (f x).map (acc ++ ·)) acc = (gather f xs).map (acc ++ ·) := by
  induction xs generalizing acc with
  | nil => exact congrArg some (List.append_nil acc).symm
  | cons x xs ih =>
    rw [List.foldlM_cons, gather_cons]
    cases f x with
    | none => rfl
    | some a =>
      show xs.foldlM _ (acc ++ a) = Option.map _ ((gather f xs).map _)
      rw [ih, Option.map_map]
      congr 1
      funext rest
      exact List.append_assoc acc a rest

/-- The loop that appends part after part and may fail. -/
theorem toOption_foldlM_gather {ε : Type} {turn : List β → α → Except ε (List β)}
    (h : ∀ acc x, (turn acc x).toOption = (f x).map (acc ++ ·)) (xs : List α) :
    (xs.foldlM turn []).toOption = gather f xs := by
  have hview := foldlM_toOption (f := turn) (g := fun acc x => (f x).map (acc ++ ·)) id
    (fun acc x => by
      rw [Option.map_id]
      exact h acc x) xs []
  rw [Option.map_id] at hview
  exact hview.trans ((foldlM_gather f xs []).trans Option.map_id')

theorem gather_cons_eq_some : gather f (x :: xs) = some out ↔
    ∃ a rest, f x = some a ∧ gather f xs = some rest ∧ out = a ++ rest := by
  simp only [gather_cons, Option.bind_eq_some_iff, Option.map_eq_some_iff]
  constructor
  · rintro ⟨a, ha, rest, hrest, rfl⟩
    exact ⟨a, rest, ha, hrest, rfl⟩
  · rintro ⟨a, rest, ha, hrest, rfl⟩
    exact ⟨a, ha, rest, hrest, rfl⟩

/-- The string is a part for each element. -/
theorem gather_eq_some : gather f xs = some out ↔
    ∃ parts, List.Forall₂ (fun x a => f x = some a) xs parts ∧ parts.flatten = out := by
  induction xs generalizing out with
  | nil => simp [gather_nil]
  | cons x xs ih =>
    rw [gather_cons_eq_some]
    constructor
    · rintro ⟨a, rest, ha, hrest, rfl⟩
      obtain ⟨parts, hparts, rfl⟩ := ih.mp hrest
      exact ⟨a :: parts, .cons ha hparts, List.flatten_cons⟩
    · rintro ⟨parts, hparts, rfl⟩
      cases hparts with
      | cons ha hparts => exact ⟨_, _, ha, ih.mpr ⟨_, hparts, rfl⟩, List.flatten_cons⟩

theorem gather_eq_none : gather f xs = none ↔ ∃ x ∈ xs, f x = none := by
  induction xs with
  | nil => simp [gather_nil]
  | cons x xs ih =>
    rw [List.exists_mem_cons_iff, ← ih, gather_cons]
    cases f x with
    | none => simp
    | some a => simp

theorem length_gather (h : gather f xs = some out) : out.length = ((xs.filterMap f).map List.length).sum := by
  induction xs generalizing out with
  | nil =>
    obtain rfl := Option.some.inj h
    rfl
  | cons x xs ih =>
    obtain ⟨a, rest, ha, hrest, rfl⟩ := gather_cons_eq_some.1 h
    rw [List.length_append, List.filterMap_cons_some ha, List.map_cons, List.sum_cons, ih hrest]

theorem gather_congr (h : ∀ x ∈ xs, f x = g x) : gather f xs = gather g xs := by
  induction xs with
  | nil => rfl
  | cons x xs ih =>
    rw [List.forall_mem_cons] at h
    rw [gather_cons, gather_cons, h.1, ih h.2]

theorem gather_map {γ : Type} (h : γ → α) (ys : List γ) : gather f (ys.map h) = gather (f ∘ h) ys := by
  induction ys with
  | nil => rfl
  | cons y ys ih => rw [List.map_cons, gather_cons, gather_cons, ih, Function.comp_apply]

theorem gather_some (part : α → List β) (xs : List α) :
    gather (fun x => some (part x)) xs = some (xs.flatMap part) := by
  induction xs with
  | nil => rfl
  | cons x xs ih => rw [gather_cons, ih, Option.bind_some, Option.map_some, List.flatMap_cons]

/-- Lists that are related element by element are those of a list of related pairs. -/
theorem forall₂_iff_pairs {γ : Type} {R : α → γ → Prop} {ys : List γ} : List.Forall₂ R xs ys ↔
    ∃ pairs : List (α × γ), pairs.map Prod.fst = xs ∧ pairs.map Prod.snd = ys ∧ ∀ p ∈ pairs, R p.1 p.2 := by
  constructor
  · intro h
    induction h with
    | nil => exact ⟨[], rfl, rfl, by simp⟩
    | @cons x y _ _ hxy _ ih =>
      obtain ⟨pairs, rfl, rfl, hall⟩ := ih
      exact ⟨(x, y) :: pairs, rfl, rfl, List.forall_mem_cons.mpr ⟨hxy, hall⟩⟩
  · rintro ⟨pairs, rfl, rfl, hall⟩
    rw [List.forall₂_map_left_iff, List.forall₂_map_right_iff, List.forall₂_same]
    exact hall

/-- Where each element has parts of its own kind, one string has one part for each element. -/
theorem eq_of_gather_eq {S : α → List β → Prop} (hS : ∀ x, PrefixFree (S x))
    (hf : ∀ x ∈ xs, ∀ a, f x = some a → S x a) (hg : ∀ x ∈ xs, ∀ a, g x = some a → S x a)
    (h : gather f xs = some out) (h' : gather g xs = some out) : ∀ x ∈ xs, f x = g x := by
  induction xs generalizing out with
  | nil => simp
  | cons x xs ih =>
    obtain ⟨a, rest, ha, hrest, rfl⟩ := gather_cons_eq_some.1 h
    obtain ⟨b, rest', hb, hrest', heq⟩ := gather_cons_eq_some.1 h'
    rw [List.forall_mem_cons] at hf hg
    obtain ⟨rfl, rfl⟩ := (hS x).cut (hf.1 a ha) (hg.1 b hb) heq
    rw [List.forall_mem_cons]
    exact ⟨ha.trans hb.symm, ih hf.2 hg.2 hrest hrest'⟩

theorem length_gather_of_length {n : ℕ} (hf : ∀ x a, f x = some a → a.length = n)
    (h : gather f xs = some out) : out.length = n * xs.length := by
  induction xs generalizing out with
  | nil =>
    obtain rfl := Option.some.inj h
    rfl
  | cons x xs ih =>
    obtain ⟨a, rest, ha, hrest, rfl⟩ := gather_cons_eq_some.1 h
    rw [List.length_append, hf x a ha, ih hrest, List.length_cons, Nat.mul_succ, Nat.add_comm]

/-- Where all parts are of one length, a string of them says what they are, but for their number. -/
theorem map_eq_of_gather_eq {n : ℕ} (hf : ∀ x a, f x = some a → a.length = n) {ys : List α}
    (hlen : xs.length = ys.length) (h : gather f xs = some out) (h' : gather f ys = some out) :
    xs.map f = ys.map f := by
  induction xs generalizing ys out with
  | nil =>
    obtain rfl := List.length_eq_zero_iff.mp hlen.symm
    rfl
  | cons x xs ih =>
    cases ys with
    | nil => cases hlen
    | cons y ys =>
      obtain ⟨a, rest, ha, hrest, rfl⟩ := gather_cons_eq_some.1 h
      obtain ⟨b, rest', hb, hrest', heq⟩ := gather_cons_eq_some.1 h'
      obtain ⟨rfl, rfl⟩ := List.append_inj heq ((hf x a ha).trans (hf y b hb).symm)
      rw [List.map_cons, List.map_cons, ha, hb, ih (Nat.succ.inj hlen) hrest hrest']

end Gather

end OpaqueStellar.Lib
