import Mathlib.Data.List.Prime
import Mathlib.NumberTheory.LucasPrimality
import Mathlib.Tactic.NormNum.Prime

/-! # Large primes

Lucas's test for a number whose predecessor has been factored. The powers it needs are computed by squaring,
modulo the number, so that the kernel can evaluate the test. -/

namespace OpaqueStellar.Lib

/-- `acc * a ^ e` modulo `m`, for an exponent of at most `bits` binary digits. -/
def mulPowMod (m : ℕ) : ℕ → ℕ → ℕ → ℕ → ℕ
  | 0, acc, _, _ => acc % m
  | bits + 1, acc, a, e => mulPowMod m bits (if e % 2 = 1 then acc * a % m else acc) (a * a % m) (e / 2)

theorem mulPowMod_eq {m bits acc a e : ℕ} (he : e < 2 ^ bits) :
    mulPowMod m bits acc a e = acc * a ^ e % m := by
  induction bits generalizing acc a e with
  | zero =>
    have hzero : e = 0 := by simpa using he
    simp [mulPowMod, hzero]
  | succ bits ih =>
    rw [mulPowMod, ih (by rw [pow_succ] at he; omega)]
    -- the exponent is twice its half, and one more if it is odd
    have hsquare : (a * a % m) ^ (e / 2) % m = a ^ (2 * (e / 2)) % m := by
      rw [← Nat.pow_mod, pow_mul, sq]
    by_cases hodd : e % 2 = 1
    · have hsplit : a ^ e = a * a ^ (2 * (e / 2)) := by
        rw [← pow_succ', ← show e = 2 * (e / 2) + 1 by omega]
      rw [if_pos hodd, Nat.mul_mod, hsquare, Nat.mod_mod, ← Nat.mul_mod, hsplit, mul_assoc]
    · have hsplit : a ^ e = a ^ (2 * (e / 2)) := by
        rw [← show e = 2 * (e / 2) by omega]
      rw [if_neg hodd, Nat.mul_mod, hsquare, ← Nat.mul_mod, hsplit]

/-- The powers that Lucas's test looks at. -/
def lucasTest (p a : ℕ) (factors : List ℕ) : Bool :=
  1 < p && p ≤ 2 ^ 256 && factors.prod = p - 1 && mulPowMod p 256 1 a (p - 1) = 1 &&
    factors.all fun q => mulPowMod p 256 1 a ((p - 1) / q) ≠ 1

theorem prime_of_lucasTest {p : ℕ} (a : ℕ) (factors : List ℕ) (htest : lucasTest p a factors = true)
    (hprime : ∀ q ∈ factors, q.Prime) : p.Prime := by
  simp only [lucasTest, Bool.and_eq_true, decide_eq_true_eq, List.all_eq_true] at htest
  obtain ⟨⟨⟨⟨hp, hbound⟩, hprod⟩, hone⟩, hfactors⟩ := htest
  have hcast : ∀ n < 2 ^ 256, (a : ZMod p) ^ n = 1 ↔ mulPowMod p 256 1 a n = 1 := by
    intro n hn
    rw [mulPowMod_eq hn, one_mul, ← Nat.cast_pow, ← Nat.cast_one, ZMod.natCast_eq_natCast_iff',
      Nat.mod_eq_of_lt hp]
  apply lucas_primality p (a : ZMod p)
  · rw [hcast _ (by omega)]
    exact hone
  · intro q hq hdvd
    rw [← hprod] at hdvd
    -- a prime that divides the product is one of the factors
    obtain ⟨factor, hfactor, hdvd⟩ := (hq.prime.dvd_prod_iff).mp hdvd
    rw [(Nat.prime_dvd_prime_iff_eq hq (hprime factor hfactor)).mp hdvd, Ne,
      hcast _ (lt_of_le_of_lt (Nat.div_le_self _ _) (by omega))]
    exact hfactors factor hfactor

end OpaqueStellar.Lib
