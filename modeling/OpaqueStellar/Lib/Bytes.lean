import Mathlib.Data.List.Basic
import Mathlib.Data.Nat.ModEq
import Mathlib.Tactic.Ring

/-! # Byte strings and big-endian numbers

`beNat` reads a byte string as a big-endian number and `beBytes k` writes the low `k` bytes of a
number. Strings of one length are determined by their number (`beNat_inj`), and scanning two of
them for the first byte that differs compares their numbers (`lexLt_iff`).

`BytesN n` is the type of strings of exactly `n` bytes, with the length as part of the value. -/

namespace OpaqueStellar.Lib

def beNat : List UInt8 → ℕ
  | [] => 0
  | b :: bs => b.toNat * 256 ^ bs.length + beNat bs

def beBytes : ℕ → ℕ → List UInt8
  | 0, _ => []
  | k + 1, n => UInt8.ofNat (n / 256 ^ k) :: beBytes k n

@[simp] theorem length_beBytes (k n : ℕ) : (beBytes k n).length = k := by
  induction k with
  | zero => rfl
  | succ k ih => simp [beBytes, ih]

theorem beNat_lt (bs : List UInt8) : beNat bs < 256 ^ bs.length := by
  induction bs with
  | nil => simp [beNat]
  | cons b bs ih =>
      have hb : b.toNat ≤ 255 := Nat.le_of_lt_succ b.toNat_lt
      have hmul : b.toNat * 256 ^ bs.length ≤ 255 * 256 ^ bs.length := Nat.mul_le_mul_right _ hb
      simp only [beNat, List.length_cons, pow_succ]
      omega

/-- Writing `k` bytes and reading them back keeps the number modulo `256 ^ k`. -/
theorem beNat_beBytes (k n : ℕ) : beNat (beBytes k n) = n % 256 ^ k := by
  induction k with
  | zero => simp [beBytes, beNat, Nat.mod_one]
  | succ k ih =>
      have hdigit : (UInt8.ofNat (n / 256 ^ k)).toNat = n / 256 ^ k % 256 := by simp
      rw [beBytes, beNat, length_beBytes, ih, hdigit, Nat.mod_pow_succ]
      ring

/-- Numbers of a width are determined by their bytes. -/
theorem beBytes_inj {k n m : ℕ} (hn : n < 256 ^ k) (hm : m < 256 ^ k)
    (h : beBytes k n = beBytes k m) : n = m := by
  have hnat := congrArg beNat h
  rwa [beNat_beBytes, beNat_beBytes, Nat.mod_eq_of_lt hn, Nat.mod_eq_of_lt hm] at hnat

theorem beNat_append (xs ys : List UInt8) :
    beNat (xs ++ ys) = beNat xs * 256 ^ ys.length + beNat ys := by
  induction xs with
  | nil => simp [beNat]
  | cons x xs ih =>
      simp only [List.cons_append, beNat, ih, List.length_append, pow_add]
      ring

theorem beNat_replicate_zero (k : ℕ) : beNat (List.replicate k 0) = 0 := by
  induction k with
  | zero => rfl
  | succ k ih => simp [List.replicate_succ, beNat, ih]

/-! ## Comparing byte strings

`lexLt` walks two strings from the front and decides at the first byte that differs. -/

/-- Does the first byte in which the strings differ make `xs` the smaller one? -/
def lexLt : List UInt8 → List UInt8 → Bool
  | x :: xs, y :: ys => if x < y then true else if y < x then false else lexLt xs ys
  | _, _ => false

/-- On strings of one length the scan compares the numbers they denote. -/
theorem lexLt_iff {xs ys : List UInt8} (h : xs.length = ys.length) :
    lexLt xs ys = true ↔ beNat xs < beNat ys := by
  induction xs generalizing ys with
  | nil =>
      have hys : ys = [] := List.length_eq_zero_iff.mp h.symm
      simp [hys, lexLt]
  | cons x xs ih =>
      cases ys with
      | nil => simp at h
      | cons y ys =>
          have hlen : xs.length = ys.length := by simpa using h
          have hx := beNat_lt xs
          have hy := beNat_lt ys
          simp only [lexLt, beNat, hlen, UInt8.lt_iff_toNat_lt] at hx ⊢
          -- the leading byte outweighs everything after it, unless the leading bytes agree
          rcases lt_trichotomy x.toNat y.toNat with hlt | heq | hgt
          · have := Nat.mul_le_mul_right (256 ^ ys.length) (Nat.succ_le_of_lt hlt)
            rw [Nat.succ_mul] at this
            simp only [hlt, if_true, true_iff]
            omega
          · simp only [heq, lt_irrefl, if_false, ih hlen]
            omega
          · have := Nat.mul_le_mul_right (256 ^ ys.length) (Nat.succ_le_of_lt hgt)
            rw [Nat.succ_mul] at this
            simp only [hgt, not_lt_of_gt hgt, if_true, if_false, Bool.false_eq_true, false_iff]
            omega

/-- Strings of one length with the same number are the same string. -/
theorem beNat_inj {xs ys : List UInt8} (h : xs.length = ys.length)
    (hn : beNat xs = beNat ys) : xs = ys := by
  induction xs generalizing ys with
  | nil => exact (List.length_eq_zero_iff.mp h.symm).symm
  | cons x xs ih =>
      cases ys with
      | nil => simp at h
      | cons y ys =>
          have hlen : xs.length = ys.length := by simpa using h
          have hx := beNat_lt xs
          have hy := beNat_lt ys
          simp only [beNat, hlen] at hn hx
          have hhead : x.toNat = y.toNat := by
            have hdiv := congrArg (· / 256 ^ ys.length) hn
            simpa [Nat.mul_comm _ (256 ^ ys.length), Nat.mul_add_div (Nat.pos_of_neZero _),
              Nat.div_eq_of_lt hx, Nat.div_eq_of_lt hy] using hdiv
          have htail : beNat xs = beNat ys := by rw [hhead] at hn; omega
          rw [UInt8.toNat_inj.mp hhead, ih hlen htail]

/-! ## Strings of a fixed length -/

def BytesN (n : ℕ) : Type := { bs : List UInt8 // bs.length = n }

namespace BytesN

variable {n : ℕ}

instance : DecidableEq (BytesN n) :=
  inferInstanceAs (DecidableEq { bs : List UInt8 // bs.length = n })

/-- Keys and digests are looked up in lists. -/
instance : LawfulBEq (BytesN 32) := inferInstance

def toNat (b : BytesN n) : ℕ := beNat b.1

/-- The `n`-byte big-endian encoding of a number, taken modulo `256 ^ n`. -/
def ofNat (n k : ℕ) : BytesN n := ⟨beBytes n k, length_beBytes n k⟩

theorem toNat_lt (b : BytesN n) : b.toNat < 256 ^ n := by
  have h := beNat_lt b.1
  rwa [b.2] at h

theorem toNat_inj {a b : BytesN n} (h : a.toNat = b.toNat) : a = b :=
  Subtype.ext (beNat_inj (a.2.trans b.2.symm) h)

end BytesN

end OpaqueStellar.Lib
