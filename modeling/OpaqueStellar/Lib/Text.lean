import Mathlib.Data.List.Basic
import Mathlib.Data.Nat.Notation
import Mathlib.Algebra.BigOperators.Group.List.Basic
import Mathlib.Algebra.GroupWithZero.Nat

/-! # Trimming, splitting and UTF-8

White space is whatever a reader takes for it, so trimming has it as a parameter. Two readers that agree on
the characters of a text trim it alike. -/

namespace OpaqueStellar.Lib

variable {α β ε σ : Type}

/-! ## Trimming -/

section Trim

def trimBy (p : α → Bool) (s : List α) : List α := ((s.dropWhile p).reverse.dropWhile p).reverse

variable {p q : α → Bool} {s : List α} {c : α}

theorem dropWhile_congr (h : ∀ c ∈ s, p c = q c) : s.dropWhile p = s.dropWhile q := by
  induction s with
  | nil => rfl
  | cons c s ih =>
    rw [List.forall_mem_cons] at h
    rw [List.dropWhile_cons, List.dropWhile_cons, h.1, ih h.2]

theorem trimBy_congr (h : ∀ c ∈ s, p c = q c) : trimBy p s = trimBy q s := by
  have hdrop : ∀ c ∈ (s.dropWhile q).reverse, p c = q c := fun c hc =>
    h c ((List.dropWhile_sublist q).subset (List.mem_reverse.mp hc))
  rw [trimBy, dropWhile_congr h, dropWhile_congr hdrop, trimBy]

theorem mem_of_mem_trimBy (h : c ∈ trimBy p s) : c ∈ s := by
  have hdrop := (List.dropWhile_sublist p).subset (List.mem_reverse.mp h)
  exact (List.dropWhile_sublist p).subset (List.mem_reverse.mp hdrop)

theorem mem_dropWhile_or (h : c ∈ s) : c ∈ s.dropWhile p ∨ p c = true := by
  induction s with
  | nil => cases h
  | cons a s ih =>
    rw [List.dropWhile_cons]
    split
    next ha =>
      rcases List.mem_cons.mp h with rfl | h
      · exact .inr ha
      · exact ih h
    next => exact .inl h

/-- Only white space is trimmed. -/
theorem mem_trimBy_or (h : c ∈ s) : c ∈ trimBy p s ∨ p c = true := by
  rcases mem_dropWhile_or (p := p) h with hdrop | hp
  · rcases mem_dropWhile_or (p := p) (List.mem_reverse.mpr hdrop) with hmem | hp
    · exact .inl (List.mem_reverse.mpr hmem)
    · exact .inr hp
  · exact .inr hp

/-- What is not white space at all stays as it is. -/
theorem trimBy_eq_self (h : ∀ c ∈ s, p c = false) : trimBy p s = s := by
  have hdrop : ∀ s : List α, (∀ c ∈ s, p c = false) → s.dropWhile p = s := by
    intro s h
    cases s with
    | nil => rfl
    | cons c s => exact List.dropWhile_cons_of_neg (by simp [h c List.mem_cons_self])
  rw [trimBy, hdrop s h, hdrop s.reverse (by simpa using h), List.reverse_reverse]

end Trim

/-- ECMAScript's `WhiteSpace` and `LineTerminator`. -/
def isSpace (c : Char) : Bool :=
  let n := c.toNat
  (0x09 ≤ n && n ≤ 0x0D) || n == 0x20 || n == 0xA0 || n == 0x1680 || (0x2000 ≤ n && n ≤ 0x200A) ||
    n == 0x2028 || n == 0x2029 || n == 0x202F || n == 0x205F || n == 0x3000 || n == 0xFEFF

/-- ECMAScript's `trim`. -/
def trimSpaces (s : List Char) : List Char := trimBy isSpace s

theorem trimSpaces_eq_self {s : List Char} (h : ∀ c ∈ s, isSpace c = false) : trimSpaces s = s :=
  trimBy_eq_self h

/-! ## Splitting -/

theorem mem_intercalate {sep : α} {c : α} {parts : List (List α)} (h : c ∈ [sep].intercalate parts) :
    c = sep ∨ ∃ part ∈ parts, c ∈ part := by
  induction parts with
  | nil => cases h
  | cons part parts ih =>
    cases parts with
    | nil => exact .inr ⟨part, List.mem_cons_self, by simpa using h⟩
    | cons next parts =>
      rw [List.intercalate_cons_cons, List.mem_append, List.mem_append] at h
      rcases h with (h | h) | h
      · exact .inr ⟨part, List.mem_cons_self, h⟩
      · exact .inl (List.mem_singleton.mp h)
      · rcases ih h with h | ⟨found, hfound, h⟩
        · exact .inl h
        · exact .inr ⟨found, List.mem_cons_of_mem _ hfound, h⟩

theorem mem_intercalate_of_mem {sep c : α} {part : List α} {parts : List (List α)} (hpart : part ∈ parts)
    (h : c ∈ part) : c ∈ [sep].intercalate parts := by
  induction parts with
  | nil => cases hpart
  | cons first parts ih =>
    cases parts with
    | nil =>
      rw [List.mem_singleton.mp hpart] at h
      simpa using h
    | cons next parts =>
      rw [List.intercalate_cons_cons, List.mem_append, List.mem_append]
      rcases List.mem_cons.mp hpart with rfl | hpart
      · exact .inl (.inl h)
      · exact .inr (ih hpart)

theorem mem_of_mem_splitOn [BEq α] [LawfulBEq α] {sep c : α} {s part : List α}
    (hpart : part ∈ s.splitOn sep) (h : c ∈ part) : c ∈ s := by
  have hwhole : [sep].intercalate (s.splitOn sep) = s := List.intercalate_splitOn sep
  rw [← hwhole]
  exact mem_intercalate_of_mem hpart h

theorem mem_splitOn [BEq α] [LawfulBEq α] {sep c : α} {s : List α} (h : c ∈ s) :
    c = sep ∨ ∃ part ∈ s.splitOn sep, c ∈ part := by
  apply mem_intercalate
  rwa [List.intercalate_splitOn]

/-! ## The first 128 characters -/

/-- What holds of each of the first 128 characters by its number holds of a character among them. -/
theorem of_ascii {P : Char → Prop} (h : ∀ n < 128, P (Char.ofNat n)) {c : Char} (hc : c.toNat < 128) :
    P c := by
  have hn := h c.toNat hc
  rwa [Char.ofNat_toNat] at hn

/-! ## Errors -/

def orThrow (o : Option α) (e : ε) : Except ε α :=
  match o with
  | some a => .ok a
  | none => .error e

/-- Go on if `c` holds. -/
def require (c : Prop) [Decidable c] (e : ε) : Except ε Unit := if c then .ok () else .error e

@[simp] theorem orThrow_eq_ok {o : Option α} {e : ε} {a : α} : orThrow o e = .ok a ↔ o = some a := by
  cases o <;> simp [orThrow]

@[simp] theorem require_eq_ok {c : Prop} [Decidable c] {e : ε} {u : Unit} :
    require c e = .ok u ↔ c := by
  unfold require
  split <;> simp_all

/-! ## Loops -/

/-- A loop that ends well has gone well for each element. -/
theorem exists_of_foldlM_eq_some {f : σ → α → Option σ} {xs : List α} {s r : σ}
    (h : xs.foldlM f s = some r) : ∀ x ∈ xs, ∃ t u, f t x = some u := by
  induction xs generalizing s with
  | nil => simp
  | cons x xs ih =>
    rw [List.foldlM_cons] at h
    obtain ⟨t, ht, h⟩ := Option.bind_eq_some_iff.mp h
    rw [List.forall_mem_cons]
    exact ⟨⟨s, t, ht⟩, ih h⟩

/-- What each turn keeps holds at the end. -/
theorem foldlM_keeps {f : σ → α → Option σ} {xs : List α} {s r : σ} {P : σ → Prop}
    (hstep : ∀ t x u, f t x = some u → P t → P u) (hs : P s) (h : xs.foldlM f s = some r) : P r := by
  induction xs generalizing s with
  | nil =>
    obtain rfl := Option.some.inj h
    exact hs
  | cons x xs ih =>
    rw [List.foldlM_cons] at h
    obtain ⟨t, ht, h⟩ := Option.bind_eq_some_iff.mp h
    exact ih (hstep s x t ht hs) h

theorem mapM_eq_ok_forall₂ {f : α → Except ε β} {xs : List α} {ys : List β} :
    xs.mapM f = .ok ys ↔ List.Forall₂ (fun x y => f x = .ok y) xs ys := by
  induction xs generalizing ys with
  | nil =>
    rw [List.forall₂_nil_left_iff]
    exact ⟨fun h => (Except.ok.inj h).symm, fun h => congrArg Except.ok h.symm⟩
  | cons x xs ih =>
    rw [List.mapM_cons, List.forall₂_cons_left_iff]
    cases hx : f x with
    | error e => simp [bind, Except.bind]
    | ok y =>
      cases hxs : xs.mapM f with
      | error e => simp [bind, Except.bind, ← ih, hxs]
      | ok rest =>
        simp only [← ih, hxs, Except.ok.injEq]
        constructor
        · intro h
          exact ⟨y, rest, rfl, rfl, (Except.ok.inj h).symm⟩
        · rintro ⟨-, -, rfl, rfl, rfl⟩
          rfl

theorem toOption_eq_some_iff {x : Except ε α} {a : α} : x.toOption = some a ↔ x = .ok a := by
  cases x with
  | error e => simp [Except.toOption]
  | ok b => simp [Except.toOption]

theorem toOption_bind {x : Except ε α} {f : α → Except ε β} :
    (x >>= f).toOption = x.toOption >>= fun a => (f a).toOption := by
  cases x with
  | error e => rfl
  | ok a => rfl

/-- Two loops that match turn by turn match, up to a view of their states. -/
theorem foldlM_toOption {f : σ → α → Except ε σ} {g : β → α → Option β} (view : σ → β)
    (h : ∀ s x, (f s x).toOption.map view = g (view s) x) (xs : List α) (s : σ) :
    (xs.foldlM f s).toOption.map view = xs.foldlM g (view s) := by
  induction xs generalizing s with
  | nil => rfl
  | cons x xs ih =>
    rw [List.foldlM_cons, List.foldlM_cons, toOption_bind, ← h]
    cases f s x with
    | error e => rfl
    | ok t => exact ih t

theorem foldlM_congr {f g : σ → α → Option σ} {xs : List α} {s : σ}
    (h : ∀ t, ∀ x ∈ xs, f t x = g t x) : xs.foldlM f s = xs.foldlM g s := by
  induction xs generalizing s with
  | nil => rfl
  | cons x xs ih =>
    rw [List.foldlM_cons, List.foldlM_cons, h s x List.mem_cons_self]
    congr 1
    funext t
    exact ih fun t x hx => h t x (List.mem_cons_of_mem _ hx)

/-! ## UTF-8 -/

section Utf8

variable {c : Char} {s : List Char}

theorem utf8EncodeChar_of_lt (h : c.toNat < 128) : String.utf8EncodeChar c = [UInt8.ofNat c.toNat] := by
  unfold String.utf8EncodeChar
  exact if_pos (Nat.le_of_lt_succ h)

/-- The other characters begin with a byte that no ASCII character has. -/
theorem utf8EncodeChar_of_le (h : 128 ≤ c.toNat) :
    ∃ first rest, String.utf8EncodeChar c = first :: rest ∧ 128 ≤ first.toNat := by
  have hlarge : ¬ c.val.toNat ≤ 0x7f := Nat.not_le_of_gt h
  have hfirst : ∀ n k : ℕ, n < k → k ≤ 64 → 128 ≤ (UInt8.ofNat (n + (256 - k))).toNat := by
    intro n k hn hk
    rw [UInt8.toNat_ofNat']
    omega
  unfold String.utf8EncodeChar
  simp only [hlarge, if_false]
  split
  · exact ⟨_, _, rfl, hfirst _ 64 (by omega) (by omega)⟩
  · split
    · exact ⟨_, _, rfl, hfirst _ 32 (by omega) (by omega)⟩
    · exact ⟨_, _, rfl, hfirst _ 16 (by omega) (by omega)⟩

/-- UTF-16 takes two units for a character beyond the first 65536. -/
def utf16Length (s : List Char) : ℕ := (s.map fun c => if c.toNat < 0x10000 then 1 else 2).sum

theorem utf16Length_of_lt (h : ∀ c ∈ s, c.toNat < 128) : utf16Length s = s.length := by
  induction s with
  | nil => rfl
  | cons c s ih =>
    rw [List.forall_mem_cons] at h
    have hc : c.toNat < 0x10000 := by omega
    have hlater := ih h.2
    simp only [utf16Length] at hlater
    simp only [utf16Length, List.map_cons, List.sum_cons, List.length_cons, if_pos hc, hlater]
    omega

theorem utf8Length_of_lt (h : ∀ c ∈ s, c.toNat < 128) :
    (s.flatMap String.utf8EncodeChar).length = s.length := by
  induction s with
  | nil => rfl
  | cons c s ih =>
    rw [List.forall_mem_cons] at h
    rw [List.flatMap_cons, List.length_append, utf8EncodeChar_of_lt h.1, ih h.2]
    exact Nat.add_comm 1 s.length

end Utf8

end OpaqueStellar.Lib
