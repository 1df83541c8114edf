import Mathlib.Data.Nat.Notation
import Mathlib.Logic.Function.Basic
import Mathlib.Tactic.Cases

/-! # Words and the operations on them that lose nothing

Mixing functions are built from a product with an odd constant, an exclusive or with a shifted copy and
rotations. Each of these is injective, at every width. -/

namespace OpaqueStellar.Lib.Words

variable {w : ℕ}

/-- A word, combined with its own upper bits. -/
def xorShift (s : ℕ) (x : BitVec w) : BitVec w := x ^^^ (x >>> s)

@[simp] theorem getLsbD_xorShift (s i : ℕ) (x : BitVec w) :
    (xorShift s x).getLsbD i = (x.getLsbD i ^^ x.getLsbD (s + i)) := by
  simp [xorShift]

/-- The bits come back from the top: the copy of bit `i` is hidden behind bit `s + i` only. -/
theorem xorShift_injective {s : ℕ} (hs : 0 < s) : Function.Injective (xorShift (w := w) s) := by
  intro x y hxy
  have hbit : ∀ n i, w ≤ i + n → x.getLsbD i = y.getLsbD i := by
    intro n
    induction n with
    | zero =>
        intro i hi
        rw [BitVec.getLsbD_of_ge x i hi, BitVec.getLsbD_of_ge y i hi]
    | succ n ih =>
        intro i hi
        have habove : x.getLsbD (s + i) = y.getLsbD (s + i) := ih (s + i) (by omega)
        have hi' := congrArg (fun z => z.getLsbD i) hxy
        simpa only [getLsbD_xorShift, habove, Bool.xor_right_inj, Bool.xor_left_inj] using hi'
  apply BitVec.eq_of_getLsbD_eq
  intro i _
  exact hbit w i (by omega)

/-- A factor with an inverse can be taken away again. -/
theorem mul_left_injective {c d : BitVec w} (hinverse : c * d = 1#w) :
    Function.Injective fun x : BitVec w => x * c := by
  intro x y hxy
  have h : x * c * d = y * c * d := congrArg (· * d) hxy
  simpa [BitVec.mul_assoc, hinverse] using h

theorem xor_left_injective (x : BitVec w) : Function.Injective fun y : BitVec w => x ^^^ y := by
  intro y z h
  exact (BitVec.xor_right_inj x).mp h

/-- Two of the four terms change sides. -/
theorem xor_eq_xor_iff {a b c d : BitVec w} : a ^^^ b = c ^^^ d ↔ a ^^^ c = d ^^^ b := by
  have hsum : a ^^^ b ^^^ (c ^^^ d) = a ^^^ c ^^^ (d ^^^ b) := by ac_rfl
  rw [← BitVec.xor_eq_zero_iff, hsum, BitVec.xor_eq_zero_iff]

/-- The bits at the top come around. -/
theorem getLsbD_rotateLeft_low {r i : ℕ} (x : BitVec w) (hr : r < w) (hi : i < r) :
    (x.rotateLeft r).getLsbD i = x.getLsbD (w - r + i) := by
  rw [BitVec.getLsbD_rotateLeft_of_le hr, decide_eq_true hi, cond_true]

theorem getLsbD_rotateLeft_high {r i : ℕ} (x : BitVec w) (hr : r ≤ i) (hi : i < w) :
    (x.rotateLeft r).getLsbD i = x.getLsbD (i - r) := by
  rw [BitVec.getLsbD_rotateLeft_of_le (by omega), decide_eq_false (by omega), cond_false,
    decide_eq_true hi, Bool.true_and]

theorem rotateLeft_injective {r : ℕ} (hr : r < w) :
    Function.Injective fun x : BitVec w => x.rotateLeft r := by
  intro x y hxy
  apply BitVec.eq_of_getLsbD_eq
  intro i hi
  by_cases hfits : i + r < w
  · have h := congrArg (fun z => z.getLsbD (i + r)) hxy
    simp only [getLsbD_rotateLeft_high _ (Nat.le_add_left r i) hfits] at h
    rwa [Nat.add_sub_cancel] at h
  · have h := congrArg (fun z => z.getLsbD (i + r - w)) hxy
    simp only [getLsbD_rotateLeft_low _ hr (show i + r - w < r by omega)] at h
    rwa [show w - r + (i + r - w) = i by omega] at h

theorem rotateLeft_xor {r : ℕ} (hr : r < w) (x y : BitVec w) :
    (x ^^^ y).rotateLeft r = x.rotateLeft r ^^^ y.rotateLeft r := by
  apply BitVec.eq_of_getLsbD_eq
  intro i hi
  rw [BitVec.getLsbD_xor]
  by_cases hlow : i < r
  · simp only [getLsbD_rotateLeft_low _ hr hlow, BitVec.getLsbD_xor]
  · simp only [getLsbD_rotateLeft_high _ (Nat.le_of_not_lt hlow) hi, BitVec.getLsbD_xor]

/-- Turning a word by half its width exchanges its halves. -/
theorem rotateLeft_half_eq_self_iff {h : ℕ} (x : BitVec (h + h)) :
    x.rotateLeft h = x ↔ x.extractLsb' h h = x.extractLsb' 0 h := by
  constructor
  · intro heq
    apply BitVec.eq_of_getLsbD_eq
    intro i hi
    have hbit := congrArg (fun z => z.getLsbD i) heq
    simp only [getLsbD_rotateLeft_low _ (show h < h + h by omega) hi] at hbit
    simpa [hi] using hbit
  · intro heq
    have hhalves : ∀ i < h, x.getLsbD (h + i) = x.getLsbD i := by
      intro i hi
      simpa [hi] using congrArg (fun z => z.getLsbD i) heq
    apply BitVec.eq_of_getLsbD_eq
    intro i hi
    by_cases hlow : i < h
    · rw [getLsbD_rotateLeft_low _ (by omega) hlow, Nat.add_sub_cancel, hhalves i hlow]
    · rw [getLsbD_rotateLeft_high _ (by omega) hi, ← hhalves (i - h) (by omega),
        Nat.add_sub_cancel' (by omega)]

end OpaqueStellar.Lib.Words
