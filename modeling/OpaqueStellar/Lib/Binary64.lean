import Mathlib.Data.Int.Log
import Mathlib.Data.Rat.Floor
import Mathlib.Tactic.Linarith
import Mathlib.Tactic.NormNum

/-! # Rounding to a double

Numbers that are not negative, rounded to the nearest binary64, halves to the even neighbour. Only what is at
most half of the least double above zero is rounded to zero. -/

namespace OpaqueStellar.Lib

inductive Double where
  | nan
  | infinity (negative : Bool)
  | finite (value : ℚ)
  deriving DecidableEq

namespace Double

/-- Comparisons with what is no number are false. -/
def leZero : Double → Bool
  | nan => false
  | infinity negative => negative
  | finite value => value ≤ 0

def neg : Double → Double
  | nan => nan
  | infinity negative => infinity (!negative)
  | finite value => finite (-value)

def nearestEven (x : ℚ) : ℤ :=
  if x - ⌊x⌋ < 1 / 2 then ⌊x⌋
  else if 1 / 2 < x - ⌊x⌋ then ⌊x⌋ + 1
  else if ⌊x⌋ % 2 = 0 then ⌊x⌋ else ⌊x⌋ + 1

/-- The distance of doubles around a number is this power of two. -/
def lastPlace (x : ℚ) : ℤ := max (Int.log 2 x) (-1022) - 52

def round (x : ℚ) : Double :=
  let value := nearestEven (x / 2 ^ lastPlace x) * (2 : ℚ) ^ lastPlace x
  if 2 ^ 1024 ≤ value then infinity false else finite value

variable {x : ℚ}

theorem nearestEven_pos_iff (h : 0 ≤ x) : 0 < nearestEven x ↔ 1 / 2 < x := by
  have hfloor : 0 ≤ ⌊x⌋ := Int.floor_nonneg.mpr h
  have hle := Int.floor_le x
  rcases hfloor.eq_or_lt with hzero | hpos
  · rw [nearestEven, ← hzero, Int.cast_zero, sub_zero]
    split_ifs with hlt hgt <;> constructor <;> intro hx <;> first | omega | linarith
  · have hone : (1 : ℚ) ≤ ⌊x⌋ := by exact_mod_cast hpos
    have hx : 1 / 2 < x := by linarith
    refine ⟨fun _ => hx, fun _ => ?_⟩
    unfold nearestEven
    split_ifs <;> omega

theorem half_lt_div_iff (h : 0 < x) : 1 / 2 < x / 2 ^ lastPlace x ↔ (2 : ℚ) ^ (-1075 : ℤ) < x := by
  have hplace : (0 : ℚ) < 2 ^ lastPlace x := zpow_pos two_pos _
  have hhalf : (1 / 2 : ℚ) * 2 ^ lastPlace x = 2 ^ (lastPlace x - 1) := by
    rw [zpow_sub_one₀ two_ne_zero]
    ring
  rw [lt_div_iff₀ hplace, hhalf, lastPlace]
  rcases le_total (Int.log 2 x) (-1022) with hsmall | hlarge
  · rw [max_eq_right hsmall]
    norm_num
  · rw [max_eq_left hlarge]
    -- both bounds are below the power of two that the number has reached
    have hlog : (2 : ℚ) ^ Int.log 2 x ≤ x := by exact_mod_cast Int.zpow_log_le_self one_lt_two h
    have hfirst : (2 : ℚ) ^ (Int.log 2 x - 52 - 1) < 2 ^ Int.log 2 x :=
      zpow_lt_zpow_right₀ one_lt_two (by omega)
    have hsecond : (2 : ℚ) ^ (-1075 : ℤ) < 2 ^ Int.log 2 x := zpow_lt_zpow_right₀ one_lt_two (by omega)
    exact iff_of_true (hfirst.trans_le hlog) (hsecond.trans_le hlog)

/-- **Only what is at most half of the least double above zero is rounded to zero.** -/
theorem leZero_round (h : 0 < x) : (round x).leZero = false ↔ (2 : ℚ) ^ (-1075 : ℤ) < x := by
  have hplace : (0 : ℚ) < 2 ^ lastPlace x := zpow_pos two_pos _
  rw [← half_lt_div_iff h, ← nearestEven_pos_iff (div_nonneg h.le (zpow_nonneg two_pos.le _))]
  have hvalue : 0 < nearestEven (x / 2 ^ lastPlace x) * (2 : ℚ) ^ lastPlace x ↔
      0 < nearestEven (x / 2 ^ lastPlace x) := by
    rw [mul_pos_iff_of_pos_right hplace, Int.cast_pos]
  rw [← hvalue]
  unfold round
  dsimp only
  split
  · next hlarge =>
    refine iff_of_true rfl (lt_of_lt_of_le ?_ hlarge)
    norm_num
  · rw [leZero, decide_eq_false_iff_not, not_le]

theorem round_ne_nan : round x ≠ .nan := by
  unfold round
  dsimp only
  split <;> simp

theorem nearestEven_intCast (n : ℤ) : nearestEven n = n := by
  have hhalf : (n : ℚ) - ⌊(n : ℚ)⌋ < 1 / 2 := by
    rw [Int.floor_intCast, sub_self]
    norm_num
  rw [nearestEven, if_pos hhalf, Int.floor_intCast]

/-- Counts are doubles. -/
theorem round_natCast {n : ℕ} (h : n < 2 ^ 53) : round n = finite n := by
  have hlog : Nat.log 2 n ≤ 52 := by
    rcases Nat.eq_zero_or_pos n with rfl | hpos
    · simp
    · exact Nat.le_of_lt_succ (Nat.log_lt_of_lt_pow hpos.ne' h)
  have hplace : lastPlace n ≤ 0 := by
    rw [lastPlace, Int.log_natCast]
    omega
  obtain ⟨k, hk⟩ := Int.exists_eq_neg_ofNat hplace
  -- the last place is a whole part of one
  have hscale : (n : ℚ) / 2 ^ lastPlace n = ((n * 2 ^ k : ℤ) : ℚ) := by
    rw [hk, zpow_neg, div_inv_eq_mul, zpow_natCast]
    push_cast
    rfl
  have hvalue : ((n * 2 ^ k : ℤ) : ℚ) * 2 ^ lastPlace n = n := by
    rw [← hscale]
    exact div_mul_cancel₀ _ (zpow_ne_zero _ two_ne_zero)
  have hsmall : ¬ (2 : ℚ) ^ 1024 ≤ n := by
    have hlt : (n : ℚ) < 2 ^ 53 := by exact_mod_cast h
    have hpow : (2 : ℚ) ^ 53 ≤ 2 ^ 1024 := pow_le_pow_right₀ one_le_two (by omega)
    exact not_le_of_gt (hlt.trans_le hpow)
  unfold round
  rw [hscale, nearestEven_intCast, hvalue]
  exact if_neg hsmall

end Double

end OpaqueStellar.Lib
