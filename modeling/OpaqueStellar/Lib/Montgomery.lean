import Mathlib.Data.Nat.ModEq
import OpaqueStellar.Lib.Limbs

/-! # Montgomery multiplication, word by word

`montmul` is the coarsely integrated operand scanning method at any number of words. One iteration adds a
row of the product and as much of the modulus as clears the lowest word, and drops that word: in numbers,
`radix * V' = V + a * b + m * n` (`step_eq`). From this `V' < a + n` follows, so that one word above the
operands' is enough and holds at most one (`rows_eq`), and one subtraction of the modulus finishes. -/

namespace OpaqueStellar.Lib.Montgomery

open OpaqueStellar.Lib.Limbs

/-- The words of an accumulator, and the one above them. -/
def total (t : List UInt64 × UInt64) : ℕ := value t.1 + radix ^ t.1.length * t.2.toNat

/-- `t += a * b`: the words, and the two above them. -/
def addRow (a : List UInt64) (t : List UInt64 × UInt64) (b : UInt64) :
    Option (List UInt64 × UInt64 × UInt64) := do
  let (low, c) ← mulAdd b t.1 a 0
  let cs ← u128 (t.2.toNat + c.toNat)
  pure (low, lo cs, hi cs)

/-- `t = (t + m * n) >> 64`, where the lowest word cancels. -/
def reduceRow (n : List UInt64) (inv : UInt64) : List UInt64 × UInt64 × UInt64 → Option (List UInt64 × UInt64)
  | (t0 :: ts, top, above) =>
    match n with
    | n0 :: ns => do
        let m := t0 * inv
        let product ← u128 (m.toNat * n0.toNat)
        let cs ← u128 (t0.toNat + product)
        let (low, c) ← mulAdd m ts ns (hi cs)
        let cs ← u128 (top.toNat + c.toNat)
        pure (low ++ [lo cs], above + hi cs)
    | [] => none
  | ([], _, _) => none

/-- One iteration of the outer loop, for the word `b`. -/
def step (n : List UInt64) (inv : UInt64) (a : List UInt64) (t : List UInt64 × UInt64) (b : UInt64) :
    Option (List UInt64 × UInt64) :=
  (addRow a t b).bind (reduceRow n inv)

/-- The outer loop. -/
def rows (n : List UInt64) (inv : UInt64) (a bs : List UInt64) : Option (List UInt64 × UInt64) :=
  bs.foldlM (step n inv a) (List.replicate n.length 0, 0)

/-- The one subtraction at the end. -/
def finish (n : List UInt64) (overflow : Bool) (r : List UInt64) : Option (List UInt64) :=
  if overflow || ge r n then subAssign r n else some r

def montmul (n : List UInt64) (inv : UInt64) (a b : List UInt64) : Option (List UInt64) := do
  let (r, top) ← rows n inv a b
  finish n (top != 0) r

def add (n a b : List UInt64) : Option (List UInt64) := do
  let (r, carry) ← addCarry a b 0
  finish n (carry != 0) r

/-! ## The subtraction at the end -/

theorem finish_eq {n r : List UInt64} (h : r.length = n.length) (top : ℕ)
    (hlt : value r + radix ^ r.length * top < 2 * value n) :
    ∃ ls, finish n (top != 0) r = some ls ∧ ls.length = n.length ∧
      value ls = (value r + radix ^ r.length * top) % value n := by
  have hr := value_lt r
  have hn := value_lt n
  rw [← h] at hn
  by_cases htop : top = 0
  · subst htop
    rw [mul_zero, add_zero] at hlt ⊢
    by_cases hge : ge r n = true
    · have hle := (ge_iff h).mp hge
      obtain ⟨ls, hsub, hlength, hvalue⟩ := subAssign_eq h 0 (by omega) (by omega)
      refine ⟨ls, by rw [finish, hge, Bool.or_true, if_pos rfl, hsub], hlength.trans h, ?_⟩
      rw [Nat.mod_eq_sub_mod hle, Nat.mod_eq_of_lt (by omega)]
      omega
    · have hle := mt (ge_iff h).mpr hge
      refine ⟨r, by simp [finish, hge], h, (Nat.mod_eq_of_lt (by omega)).symm⟩
  · -- the word above is set: the number is a power of the radix at least, and so above the modulus
    have hpower : radix ^ r.length ≤ radix ^ r.length * top := Nat.le_mul_of_pos_right _ (by omega)
    obtain ⟨ls, hsub, hlength, hvalue⟩ := subAssign_eq h top (by omega) (by omega)
    refine ⟨ls, by simp [finish, htop, hsub], hlength.trans h, ?_⟩
    rw [Nat.mod_eq_sub_mod (by omega), Nat.mod_eq_of_lt (by omega)]
    omega

/-- The sum of two numbers below the modulus. -/
theorem add_eq {n a b : List UInt64} (ha : a.length = n.length) (hb : b.length = n.length)
    (haltn : value a < value n) (hbltn : value b < value n) :
    ∃ ls, add n a b = some ls ∧ ls.length = n.length ∧ value ls = (value a + value b) % value n := by
  obtain ⟨r, carry, hsum, hlength, hvalue⟩ := addCarry_eq (ha.trans hb.symm) 0 (by omega)
  rw [← hlength, add_zero] at hvalue
  obtain ⟨ls, hfinish, hls, hmod⟩ := finish_eq (hlength.trans ha) carry (by omega)
  refine ⟨ls, ?_, hls, by rw [hmod, hvalue]⟩
  simp only [add, hsum, Option.bind_eq_bind, Option.bind_some, hfinish]

/-! ## One iteration -/

/-- The word that clears the lowest one. -/
theorem radix_dvd {n0 inv : UInt64} (hinv : radix ∣ n0.toNat * inv.toNat + 1) (t0 : UInt64) :
    radix ∣ t0.toNat + (t0 * inv).toNat * n0.toNat := by
  rw [UInt64.toNat_mul]
  have hmod : t0.toNat + t0.toNat * inv.toNat % 2 ^ 64 * n0.toNat ≡
      t0.toNat * (n0.toNat * inv.toNat + 1) [MOD radix] := by
    calc t0.toNat + t0.toNat * inv.toNat % 2 ^ 64 * n0.toNat
        ≡ t0.toNat + t0.toNat * inv.toNat * n0.toNat [MOD radix] :=
          ((Nat.mod_modEq _ _).mul_right _).add_left _
      _ = t0.toNat * (n0.toNat * inv.toNat + 1) := by ring
  exact (hmod.dvd_iff (dvd_refl _)).mpr (hinv.mul_left _)

theorem addRow_eq {a : List UInt64} {t : List UInt64 × UInt64} (h : t.1.length = a.length) (b : UInt64) :
    ∃ low top above, addRow a t b = some (low, top, above) ∧ low.length = a.length ∧
      value low + radix ^ a.length * (top.toNat + radix * above.toNat) = total t + value a * b.toNat := by
  obtain ⟨low, c, hrow, hlow, hvalue⟩ := mulAdd_eq b h 0
  have htop := t.2.toNat_lt
  have hc := c.toNat_lt
  have hsum : t.2.toNat + c.toNat < 2 ^ 128 := by omega
  refine ⟨low, lo (t.2.toNat + c.toNat), hi (t.2.toNat + c.toNat), ?_, hlow.trans h, ?_⟩
  · simp only [addRow, hrow, u128_eq hsum, Option.bind_eq_bind, Option.bind_some, Option.pure_def]
  · rw [h, UInt64.toNat_zero] at hvalue
    rw [lo_add_hi hsum, total, h]
    linear_combination hvalue

/-- The reduction divides exactly; the two words it adds at the top are `above` and `spill`. -/
theorem reduceRow_eq {n0 : UInt64} {ns : List UInt64} {inv : UInt64}
    (hinv : radix ∣ n0.toNat * inv.toNat + 1) {low : List UInt64} (hlow : low.length = ns.length + 1)
    (top above : UInt64) :
    ∃ us spill m, reduceRow (n0 :: ns) inv (low, top, above) = some (us, above + spill) ∧
      us.length = ns.length + 1 ∧ m < radix ∧
      radix * (value us + radix ^ (ns.length + 1) * (above.toNat + spill.toNat)) =
        value low + radix ^ (ns.length + 1) * (top.toNat + radix * above.toNat) + m * value (n0 :: ns) := by
  cases low with
  | nil => cases hlow
  | cons t0 ts =>
      have hts : ts.length = ns.length := Nat.succ.inj hlow
      have hclear := mul_add_lt t0 (t0 * inv) n0 0
      rw [UInt64.toNat_zero, add_zero] at hclear
      have hcarry : radix * (hi (t0.toNat + (t0 * inv).toNat * n0.toNat)).toNat =
          t0.toNat + (t0 * inv).toNat * n0.toNat := by
        have hsplit := lo_add_hi hclear
        rwa [toNat_lo, Nat.mod_eq_zero_of_dvd (radix_dvd hinv t0), zero_add] at hsplit
      obtain ⟨us, c, hrow, hus, hvalue⟩ :=
        mulAdd_eq (t0 * inv) hts (hi (t0.toNat + (t0 * inv).toNat * n0.toNat))
      have htop := top.toNat_lt
      have hc := c.toNat_lt
      have hlast : top.toNat + c.toNat < 2 ^ 128 := by omega
      have hlast' := lo_add_hi hlast
      refine ⟨us ++ [lo (top.toNat + c.toNat)], hi (top.toNat + c.toNat), (t0 * inv).toNat, ?_, ?_,
        (t0 * inv).toNat_lt, ?_⟩
      · simp only [reduceRow, u128_eq (show (t0 * inv).toNat * n0.toNat < 2 ^ 128 by omega), u128_eq hclear,
          hrow, u128_eq hlast, Option.bind_eq_bind, Option.bind_some, Option.pure_def]
      · rw [List.length_append, hus, hts, List.length_singleton]
      · rw [hts] at hvalue
        rw [value_append, hus, hts, value, value, value, value, pow_succ]
        linear_combination radix * hvalue + hcarry + radix ^ ns.length * radix * hlast'

/-- What an iteration leaves is below the operand and the modulus together if what it began with was. -/
theorem lt_of_row {T V A N b m : ℕ} (hb : b < radix) (hm : m < radix) (hbound : T < A + N)
    (hrow : radix * V = T + A * b + m * N) : V < A + N := by
  have hproduct : A * b ≤ A * (radix - 1) := Nat.mul_le_mul_left A (by omega)
  have hmultiple : m * N ≤ (radix - 1) * N := Nat.mul_le_mul_right N (by omega)
  have hradix : radix = radix - 1 + 1 := rfl
  apply lt_of_mul_lt_mul_left _ (Nat.zero_le radix)
  calc radix * V = T + A * b + m * N := hrow
    _ < A + N + A * (radix - 1) + (radix - 1) * N := by omega
    _ = (radix - 1 + 1) * (A + N) := by ring
    _ = radix * (A + N) := by rw [← hradix]

/-- Two numbers below a power of the radix carry one at most. -/
theorem lt_two_of_bound {V A N P s : ℕ} (hA : A < P) (hN : N < P) (h : V + P * s < A + N) : s < 2 := by
  apply lt_of_mul_lt_mul_left _ (Nat.zero_le P)
  omega

/-- An iteration divides exactly, keeps the bound, and its last addition does not wrap. -/
theorem step_eq {n0 : UInt64} {ns a : List UInt64} {inv : UInt64}
    (hinv : radix ∣ n0.toNat * inv.toNat + 1) (ha : a.length = ns.length + 1)
    {t : List UInt64 × UInt64} (ht : t.1.length = ns.length + 1)
    (hbound : total t < value a + value (n0 :: ns)) (b : UInt64) :
    ∃ t' m, step (n0 :: ns) inv a t b = some t' ∧ t'.1.length = ns.length + 1 ∧
      radix * total t' = total t + value a * b.toNat + m * value (n0 :: ns) ∧
      total t' < value a + value (n0 :: ns) := by
  obtain ⟨low, top, above, hadd, hlow, hrow⟩ := addRow_eq (ht.trans ha.symm) b
  rw [ha] at hlow hrow
  obtain ⟨us, spill, m, hreduce, hus, hm, hdivided⟩ := reduceRow_eq hinv hlow top above
  rw [hrow] at hdivided
  have hlt := lt_of_row b.toNat_lt hm hbound hdivided
  have hwrap : (above + spill).toNat = above.toNat + spill.toNat := by
    have hA := value_lt a
    have hN := value_lt (n0 :: ns)
    rw [ha] at hA
    rw [List.length_cons] at hN
    have htwo := lt_two_of_bound hA hN hlt
    rw [UInt64.toNat_add]
    apply Nat.mod_eq_of_lt
    omega
  have htotal : total (us, above + spill) =
      value us + radix ^ (ns.length + 1) * (above.toNat + spill.toNat) := by
    rw [total, hus, hwrap]
  refine ⟨(us, above + spill), m, ?_, hus, ?_, ?_⟩
  · rw [step, hadd, Option.bind_some, hreduce]
  · rw [htotal, hdivided]
  · rw [htotal]
    exact hlt

/-! ## The loop -/

theorem rows_append (n : List UInt64) (inv : UInt64) (a bs : List UInt64) (b : UInt64) :
    rows n inv a (bs ++ [b]) = (rows n inv a bs).bind fun t => step n inv a t b := by
  rw [rows, List.foldlM_append]
  simp [rows]

/-- After the iterations for some words, the accumulator is their product with a multiple of the modulus,
divided by the radix once for each. -/
theorem rows_eq {n0 : UInt64} {ns a : List UInt64} {inv : UInt64}
    (hinv : radix ∣ n0.toNat * inv.toNat + 1) (ha : a.length = ns.length + 1)
    (hpos : 0 < value (n0 :: ns)) (bs : List UInt64) :
    ∃ t k, rows (n0 :: ns) inv a bs = some t ∧ t.1.length = ns.length + 1 ∧
      radix ^ bs.length * total t = value a * value bs + k * value (n0 :: ns) ∧
      total t < value a + value (n0 :: ns) := by
  induction bs using List.reverseRecOn with
  | nil =>
      have hzero : total (List.replicate (ns.length + 1) 0, 0) = 0 := by
        rw [total, value_replicate_zero, UInt64.toNat_zero, mul_zero, add_zero]
      refine ⟨_, 0, rfl, List.length_replicate, ?_, ?_⟩
      · rw [List.length_cons, hzero, value]
        ring
      · rw [List.length_cons, hzero]
        omega
  | append_singleton bs b ih =>
      obtain ⟨t, k, hrows, ht, htotal, hbound⟩ := ih
      obtain ⟨t', m, hstep, ht', htotal', hbound'⟩ := step_eq hinv ha ht hbound b
      refine ⟨t', k + radix ^ bs.length * m, ?_, ht', ?_, hbound'⟩
      · rw [rows_append, hrows, Option.bind_some, hstep]
      · rw [List.length_append, List.length_singleton, pow_succ, value_append, value, value]
        linear_combination radix ^ bs.length * htotal' + htotal

/-- The product, divided by the radix to the power of the number of words, modulo the modulus. -/
theorem montmul_eq {n0 : UInt64} {ns a b : List UInt64} {inv : UInt64}
    (hinv : radix ∣ n0.toNat * inv.toNat + 1) (ha : a.length = ns.length + 1)
    (halt : value a < value (n0 :: ns)) :
    ∃ ls, montmul (n0 :: ns) inv a b = some ls ∧ ls.length = ns.length + 1 ∧
      value ls < value (n0 :: ns) ∧
      radix ^ b.length * value ls ≡ value a * value b [MOD value (n0 :: ns)] := by
  obtain ⟨t, k, hrows, ht, htotal, hbound⟩ := rows_eq hinv ha (by omega) b
  obtain ⟨ls, hfinish, hls, hvalue⟩ := finish_eq (n := n0 :: ns) ht t.2.toNat (by
    change total t < _
    omega)
  change value ls = total t % _ at hvalue
  have htop : (t.2 != 0) = (t.2.toNat != 0) := by
    rw [Bool.eq_iff_iff, bne_iff_ne, bne_iff_ne, ne_eq, ne_eq, ← UInt64.toNat_inj, UInt64.toNat_zero]
  refine ⟨ls, ?_, hls, ?_, ?_⟩
  · simp only [montmul, hrows, Option.bind_eq_bind, Option.bind_some, htop, hfinish]
  · rw [hvalue]
    exact Nat.mod_lt _ (by omega)
  · calc radix ^ b.length * value ls
        ≡ radix ^ b.length * total t [MOD value (n0 :: ns)] := by
          rw [hvalue]
          exact (Nat.mod_modEq _ _).mul_left _
      _ = value a * value b + k * value (n0 :: ns) := htotal
      _ ≡ value a * value b [MOD value (n0 :: ns)] := Nat.ModEq.symm (by simp [Nat.ModEq])

end OpaqueStellar.Lib.Montgomery
