import Mathlib.Algebra.Order.Ring.Nat
import Mathlib.Data.List.Basic
import Mathlib.Data.List.Induction
import Mathlib.Tactic.Linarith
import Mathlib.Tactic.LinearCombination
import Mathlib.Tactic.Ring

/-! # Numbers in machine words

A number is a list of 64-bit words, lowest first. Products and sums are taken in 128 bits and differences
in signed 128 bits; `none` is a result that does not fit. `value` says what number the words are, and the
other lemmas say it of the words that the loops produce, with the carry that is left. -/

namespace OpaqueStellar.Lib.Limbs

def radix : ℕ := 2 ^ 64

def value : List UInt64 → ℕ
  | [] => 0
  | x :: xs => x.toNat + radix * value xs

/-- A result in `u128`. -/
def u128 (n : ℕ) : Option ℕ := if n < 2 ^ 128 then some n else none

/-- A result in `i128`. -/
def i128 (n : ℤ) : Option ℤ := if -2 ^ 127 ≤ n ∧ n < 2 ^ 127 then some n else none

/-- `n as u64` -/
def lo (n : ℕ) : UInt64 := UInt64.ofNat n

/-- `(n >> 64) as u64` -/
def hi (n : ℕ) : UInt64 := UInt64.ofNat (n >>> 64)

/-! ## Words -/

theorem toNat_lt_radix (x : UInt64) : x.toNat < radix := x.toNat_lt

theorem u128_eq {n : ℕ} (h : n < 2 ^ 128) : u128 n = some n := if_pos h

theorem i128_eq {n : ℤ} (h : -2 ^ 127 ≤ n ∧ n < 2 ^ 127) : i128 n = some n := if_pos h

theorem toNat_lo (n : ℕ) : (lo n).toNat = n % radix := UInt64.toNat_ofNat'

/-- Nothing is lost of a double word. -/
theorem lo_add_hi {n : ℕ} (h : n < 2 ^ 128) : (lo n).toNat + radix * (hi n).toNat = n := by
  have hlt : n / 2 ^ 64 < 2 ^ 64 := by
    apply Nat.div_lt_of_lt_mul
    exact h
  rw [toNat_lo, hi, UInt64.toNat_ofNat', Nat.shiftRight_eq_div_pow, Nat.mod_eq_of_lt hlt]
  exact Nat.mod_add_div n radix

theorem value_lt (xs : List UInt64) : value xs < radix ^ xs.length := by
  induction xs with
  | nil => exact Nat.one_pos
  | cons x xs ih =>
      have hx := toNat_lt_radix x
      rw [value, List.length_cons, pow_succ']
      nlinarith [Nat.mul_le_mul_left radix (Nat.succ_le_of_lt ih)]

theorem value_append (xs ys : List UInt64) :
    value (xs ++ ys) = value xs + radix ^ xs.length * value ys := by
  induction xs with
  | nil => simp [value]
  | cons x xs ih =>
      rw [List.cons_append, value, ih, value, List.length_cons, pow_succ]
      ring

theorem value_replicate_zero (n : ℕ) : value (List.replicate n 0) = 0 := by
  induction n with
  | zero => rfl
  | succ n ih =>
      rw [List.replicate_succ, value, ih]
      rfl

/-! ## Multiplication -/

/-- `t + a * b + c`, as its low and its high word. -/
def mac (t a b c : UInt64) : Option (UInt64 × UInt64) := do
  let product ← u128 (a.toNat * b.toNat)
  let sum ← u128 (t.toNat + product)
  let cs ← u128 (sum + c.toNat)
  pure (lo cs, hi cs)

/-- `t += a * b`, with a carry. -/
def mulAdd (b : UInt64) : List UInt64 → List UInt64 → UInt64 → Option (List UInt64 × UInt64)
  | t :: ts, a :: as, c => do
      let (l, c) ← mac t a b c
      let (ls, c) ← mulAdd b ts as c
      pure (l :: ls, c)
  | _, _, c => some ([], c)

/-- A product of words leaves room for two more words. -/
theorem mul_add_lt (t a b c : UInt64) : t.toNat + a.toNat * b.toNat + c.toNat < 2 ^ 128 := by
  have ht := t.toNat_lt
  have hc := c.toNat_lt
  have hproduct : a.toNat * b.toNat ≤ (2 ^ 64 - 1) * (2 ^ 64 - 1) :=
    Nat.mul_le_mul (Nat.le_pred_of_lt a.toNat_lt) (Nat.le_pred_of_lt b.toNat_lt)
  omega

/-- It never overflows. -/
theorem mac_eq (t a b c : UInt64) : ∃ l h, mac t a b c = some (l, h) ∧
    l.toNat + radix * h.toNat = t.toNat + a.toNat * b.toNat + c.toNat := by
  have hsum := mul_add_lt t a b c
  refine ⟨lo _, hi _, ?_, lo_add_hi hsum⟩
  simp only [mac, Option.bind_eq_bind, u128_eq (show a.toNat * b.toNat < 2 ^ 128 by omega),
    u128_eq (show t.toNat + a.toNat * b.toNat < 2 ^ 128 by omega), u128_eq hsum, Option.bind_some,
    Option.pure_def]

theorem mulAdd_eq (b : UInt64) {ts as : List UInt64} (h : ts.length = as.length) (c : UInt64) :
    ∃ ls c', mulAdd b ts as c = some (ls, c') ∧ ls.length = ts.length ∧
      value ls + radix ^ ts.length * c'.toNat = value ts + value as * b.toNat + c.toNat := by
  induction ts generalizing as c with
  | nil =>
      obtain rfl := List.length_eq_zero_iff.mp h.symm
      exact ⟨[], c, rfl, rfl, by simp [value]⟩
  | cons t ts ih =>
      cases as with
      | nil => cases h
      | cons a as =>
          obtain ⟨l, carry, hmac, hword⟩ := mac_eq t a b c
          obtain ⟨ls, c', hrest, hlength, hvalue⟩ := ih (Nat.succ.inj h) carry
          refine ⟨l :: ls, c', ?_, by rw [List.length_cons, List.length_cons, hlength], ?_⟩
          · simp only [mulAdd, hmac, hrest, Option.bind_eq_bind, Option.bind_some, Option.pure_def]
          · rw [value, value, value, List.length_cons, pow_succ]
            linear_combination hword + radix * hvalue

/-! ## Addition -/

def addCarry : List UInt64 → List UInt64 → ℕ → Option (List UInt64 × ℕ)
  | a :: as, b :: bs, carry => do
      let sum ← u128 (a.toNat + b.toNat)
      let s ← u128 (sum + carry)
      let (ls, carry) ← addCarry as bs (s >>> 64)
      pure (lo s :: ls, carry)
  | _, _, carry => some ([], carry)

theorem addCarry_eq {as bs : List UInt64} (h : as.length = bs.length) (carry : ℕ) (hcarry : carry ≤ 1) :
    ∃ ls carry', addCarry as bs carry = some (ls, carry') ∧ ls.length = as.length ∧
      value ls + radix ^ as.length * carry' = value as + value bs + carry := by
  induction as generalizing bs carry with
  | nil =>
      obtain rfl := List.length_eq_zero_iff.mp h.symm
      exact ⟨[], carry, rfl, rfl, by simp [value]⟩
  | cons a as ih =>
      cases bs with
      | nil => cases h
      | cons b bs =>
          have ha := a.toNat_lt
          have hb := b.toNat_lt
          have hsplit : (lo (a.toNat + b.toNat + carry)).toNat +
              radix * ((a.toNat + b.toNat + carry) >>> 64) = a.toNat + b.toNat + carry := by
            rw [toNat_lo, Nat.shiftRight_eq_div_pow]
            exact Nat.mod_add_div _ radix
          have hnext : (a.toNat + b.toNat + carry) >>> 64 ≤ 1 := by
            rw [Nat.shiftRight_eq_div_pow]
            omega
          obtain ⟨ls, carry', hrest, hlength, hvalue⟩ := ih (Nat.succ.inj h) _ hnext
          refine ⟨lo (a.toNat + b.toNat + carry) :: ls, carry', ?_,
            by rw [List.length_cons, List.length_cons, hlength], ?_⟩
          · simp only [addCarry, u128_eq (show a.toNat + b.toNat < 2 ^ 128 by omega),
              u128_eq (show a.toNat + b.toNat + carry < 2 ^ 128 by omega), hrest, Option.bind_eq_bind,
              Option.bind_some, Option.pure_def]
          · rw [value, value, value, List.length_cons, pow_succ]
            linear_combination hsplit + radix * hvalue

/-! ## Comparison -/

/-- From the highest word down. -/
def geFrom : List UInt64 → List UInt64 → Bool
  | x :: xs, y :: ys => if x ≠ y then decide (y < x) else geFrom xs ys
  | _, _ => true

def ge (as bs : List UInt64) : Bool := geFrom as.reverse bs.reverse

theorem ge_iff {as bs : List UInt64} (h : as.length = bs.length) : ge as bs = true ↔ value bs ≤ value as := by
  induction as using List.reverseRecOn generalizing bs with
  | nil =>
      obtain rfl := List.length_eq_zero_iff.mp h.symm
      simp [ge, geFrom]
  | append_singleton as x ih =>
      obtain rfl | ⟨bs, y, rfl⟩ := List.eq_nil_or_concat bs
      · simp at h
      · rw [List.concat_eq_append] at h ⊢
        have hlength : as.length = bs.length := by simpa using h
        have hlast : ∀ z : UInt64, value [z] = z.toNat := by simp [value]
        have has := value_lt as
        have hbs := value_lt bs
        rw [← hlength] at hbs
        rw [ge, List.reverse_append, List.reverse_append, List.reverse_singleton, List.singleton_append,
          List.reverse_singleton, List.singleton_append, geFrom, value_append, value_append, hlast, hlast,
          hlength.symm]
        by_cases hxy : x = y
        · have hrec := ih hlength
          rw [ge] at hrec
          simp only [hxy, ne_eq, not_true, if_false, hrec, Nat.add_le_add_iff_right]
        · have hne : x.toNat ≠ y.toNat := fun heq => hxy (UInt64.toNat_inj.mp heq)
          simp only [ne_eq, hxy, not_false_eq_true, if_true, decide_eq_true_eq, UInt64.lt_iff_toNat_lt]
          constructor
          · intro hlt
            nlinarith [Nat.mul_le_mul_left (radix ^ as.length) (Nat.succ_le_of_lt hlt)]
          · intro hle
            by_contra hge
            have hlt : x.toNat < y.toNat := by omega
            nlinarith [Nat.mul_le_mul_left (radix ^ as.length) (Nat.succ_le_of_lt hlt)]

/-! ## Subtraction -/

/-- `a - b - borrow`, as a word and what is borrowed for it. -/
def subWord (a b : UInt64) (borrow : ℤ) : Option (UInt64 × ℤ) := do
  let difference ← i128 (a.toNat - b.toNat)
  let d ← i128 (difference - borrow)
  if d < 0 then (i128 (d + 2 ^ 64)).map fun lifted => (UInt64.ofInt lifted, 1)
  else some (UInt64.ofInt d, 0)

def subBorrow : List UInt64 → List UInt64 → ℤ → Option (List UInt64 × ℤ)
  | a :: as, b :: bs, borrow => do
      let (l, borrow) ← subWord a b borrow
      let (ls, borrow) ← subBorrow as bs borrow
      pure (l :: ls, borrow)
  | _, _, borrow => some ([], borrow)

/-- `a -= b`; what is borrowed from beyond the last word is lost. -/
def subAssign (as bs : List UInt64) : Option (List UInt64) := (subBorrow as bs 0).map (·.1)

theorem subWord_eq (a b : UInt64) {borrow : ℤ} (hborrow : borrow = 0 ∨ borrow = 1) :
    ∃ l borrow', subWord a b borrow = some (l, borrow') ∧ (borrow' = 0 ∨ borrow' = 1) ∧
      (l.toNat : ℤ) + b.toNat + borrow = a.toNat + radix * borrow' := by
  have ha := a.toNat_lt
  have hb := b.toNat_lt
  have hradix : (radix : ℤ) = 2 ^ 64 := rfl
  have hdifference := i128_eq (n := (a.toNat : ℤ) - b.toNat) (by omega)
  have hd := i128_eq (n := (a.toNat : ℤ) - b.toNat - borrow) (by omega)
  have hword : ∀ d : ℤ, 0 ≤ d → d < 2 ^ 64 → ((UInt64.ofInt d).toNat : ℤ) = d := by
    intro d hlow hhigh
    rw [UInt64.ofInt, UInt64.toNat_ofNat', Nat.mod_eq_of_lt (by omega), Int.toNat_of_nonneg (by omega),
      Int.emod_eq_of_lt hlow hhigh]
  simp only [subWord, hdifference, hd, Option.bind_eq_bind, Option.bind_some]
  split
  · next hneg =>
      have hlifted := i128_eq (n := (a.toNat : ℤ) - b.toNat - borrow + 2 ^ 64) (by omega)
      refine ⟨_, 1, by rw [hlifted, Option.map_some], .inr rfl, ?_⟩
      rw [hword _ (by omega) (by omega), hradix]
      ring
  · next hneg =>
      refine ⟨_, 0, rfl, .inl rfl, ?_⟩
      rw [hword _ (by omega) (by omega)]
      ring

theorem subBorrow_eq {as bs : List UInt64} (h : as.length = bs.length) {borrow : ℤ}
    (hborrow : borrow = 0 ∨ borrow = 1) :
    ∃ ls borrow', subBorrow as bs borrow = some (ls, borrow') ∧ ls.length = as.length ∧
      (borrow' = 0 ∨ borrow' = 1) ∧
      (value ls : ℤ) + value bs + borrow = value as + radix ^ as.length * borrow' := by
  induction as generalizing bs borrow with
  | nil =>
      obtain rfl := List.length_eq_zero_iff.mp h.symm
      exact ⟨[], borrow, rfl, rfl, hborrow, by simp [value]⟩
  | cons a as ih =>
      cases bs with
      | nil => cases h
      | cons b bs =>
          obtain ⟨l, next, hsub, hnext, hword⟩ := subWord_eq a b hborrow
          obtain ⟨ls, borrow', hrest, hlength, hborrow', hvalue⟩ := ih (Nat.succ.inj h) hnext
          refine ⟨l :: ls, borrow', ?_, by rw [List.length_cons, List.length_cons, hlength], hborrow', ?_⟩
          · simp only [subBorrow, hsub, hrest, Option.bind_eq_bind, Option.bind_some, Option.pure_def]
          · rw [value, value, value, List.length_cons, pow_succ]
            push_cast
            linear_combination hword + (radix : ℤ) * hvalue

/-- A difference that fits comes out, with a word more than the number has borrowed from or without. -/
theorem subAssign_eq {as bs : List UInt64} (h : as.length = bs.length) (top : ℕ)
    (hle : value bs ≤ value as + radix ^ as.length * top)
    (hlt : value as + radix ^ as.length * top < value bs + radix ^ as.length) :
    ∃ ls, subAssign as bs = some ls ∧ ls.length = as.length ∧
      value ls + value bs = value as + radix ^ as.length * top := by
  obtain ⟨ls, borrow, hsub, hlength, hborrow, hvalue⟩ := subBorrow_eq h (.inl rfl)
  refine ⟨ls, by rw [subAssign, hsub, Option.map_some], hlength, ?_⟩
  have hls := value_lt ls
  rw [hlength] at hls
  have hvalue' : (value ls : ℤ) + value bs = value as + radix ^ as.length * borrow := by linarith
  have hle' : (value bs : ℤ) ≤ value as + radix ^ as.length * top := by exact_mod_cast hle
  have hlt' : (value as : ℤ) + radix ^ as.length * top < value bs + radix ^ as.length := by exact_mod_cast hlt
  have hls' : (value ls : ℤ) < radix ^ as.length := by exact_mod_cast hls
  have hpos : (0 : ℤ) < radix ^ as.length := pow_pos (by decide) _
  -- what was borrowed is the word there is: two numbers below the next power differ by a multiple of it
  have hsame : borrow = top := by
    have hlow : (radix : ℤ) ^ as.length * (top - borrow) < radix ^ as.length * 1 := by nlinarith
    have hhigh : (radix : ℤ) ^ as.length * (borrow - top) < radix ^ as.length * 1 := by nlinarith
    have h1 := lt_of_mul_lt_mul_left hlow hpos.le
    have h2 := lt_of_mul_lt_mul_left hhigh hpos.le
    omega
  rw [hsame] at hvalue'
  exact_mod_cast hvalue'

end OpaqueStellar.Lib.Limbs
