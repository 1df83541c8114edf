import Mathlib.Tactic.Linarith
import OpaqueStellar.Groth16.Verifier

/-! # The byte loops of the verifier

`is_valid_scalar` compares with the scalar order byte by byte, and `field_negate` subtracts from the base
modulus byte by byte, with a borrow. Each is the operation on the numbers that the bytes stand for. -/

namespace OpaqueStellar.Groth16

open OpaqueStellar.Lib

def baseModulus : ℕ :=
  21888242871839275222246405745257275088696311157297823662689037894645226208583

theorem beNat_BASE_FIELD : beNat BASE_FIELD = baseModulus := by decide

/-! ## Subtraction with a borrow -/

theorem overflowingSub_recompose (x y : UInt8) :
    (overflowingSub x y).1.toNat + y.toNat = x.toNat + 256 * (overflowingSub x y).2.toNat := by
  have hx := x.toNat_lt
  have hy := y.toNat_lt
  have hsub : (x - y).toNat = (256 - y.toNat + x.toNat) % 256 := UInt8.toNat_sub x y
  unfold overflowingSub
  by_cases hlt : x < y
  · have hnat : x.toNat < y.toNat := UInt8.lt_iff_toNat_lt.mp hlt
    simp only [hlt, decide_true, Bool.toNat_true]
    omega
  · have hnat : ¬ x.toNat < y.toNat := fun h => hlt (UInt8.lt_iff_toNat_lt.mpr h)
    simp only [hlt, decide_false, Bool.toNat_false]
    omega

/-- One byte: the two subtractions borrow at most once between them. -/
theorem subByte_recompose (x y : UInt8) (borrow : Bool) :
    (overflowingSub (overflowingSub x y).1 (if borrow then 1 else 0)).1.toNat + y.toNat + borrow.toNat =
      x.toNat + 256 * ((overflowingSub x y).2 ||
        (overflowingSub (overflowingSub x y).1 (if borrow then 1 else 0)).2).toNat := by
  have hfirst := overflowingSub_recompose x y
  have hsecond := overflowingSub_recompose (overflowingSub x y).1 (if borrow then 1 else 0)
  have hborrow : (if borrow then (1 : UInt8) else 0).toNat = borrow.toNat := by cases borrow <;> rfl
  rw [hborrow] at hsecond
  have hx := x.toNat_lt
  have hy := y.toNat_lt
  have hdiff2 := (overflowingSub (overflowingSub x y).1 (if borrow then 1 else 0)).1.toNat_lt
  have hle := Bool.toNat_le borrow
  have hor : ∀ b1 b2 : Bool, b1.toNat + b2.toNat ≤ 1 → (b1 || b2).toNat = b1.toNat + b2.toNat := by decide
  -- after a first borrow the difference is large enough for the second subtraction
  rw [hor _ _ (by omega)]
  omega

/-- What the loop computes is the difference, up to what was borrowed from beyond the first byte. -/
theorem subBorrow_recompose (l : List (UInt8 × UInt8)) :
    beNat (subBorrow l).1 + beNat (l.map (·.2)) =
      beNat (l.map (·.1)) + 256 ^ l.length * (subBorrow l).2.toNat := by
  induction l with
  | nil => rfl
  | cons p l ih =>
      obtain ⟨x, y⟩ := p
      have hbyte := congrArg (256 ^ l.length * ·) (subByte_recompose x y (subBorrow l).2)
      simp only [Nat.mul_add] at hbyte
      simp only [subBorrow, List.map_cons, beNat, List.length_cons, length_subBorrow, List.length_map,
        pow_succ]
      linarith

/-- Nothing is borrowed where the difference is a number. -/
theorem subBorrow_of_le {l : List (UInt8 × UInt8)} (h : beNat (l.map (·.2)) ≤ beNat (l.map (·.1))) :
    (subBorrow l).2 = false ∧ beNat (subBorrow l).1 = beNat (l.map (·.1)) - beNat (l.map (·.2)) := by
  have hrecompose := subBorrow_recompose l
  have hlt := beNat_lt (subBorrow l).1
  rw [length_subBorrow] at hlt
  rcases hborrow : (subBorrow l).2 with - | -
  · rw [hborrow, Bool.toNat_false] at hrecompose
    exact ⟨rfl, by omega⟩
  · rw [hborrow, Bool.toNat_true] at hrecompose
    omega

/-! ## The negation -/

theorem beNat_zip_BASE_FIELD (a : BytesN 32) :
    beNat ((BASE_FIELD.zip a.1).map (·.1)) = baseModulus ∧
      beNat ((BASE_FIELD.zip a.1).map (·.2)) = a.toNat := by
  have hlength : BASE_FIELD.length = a.1.length := a.2.symm
  rw [List.map_fst_zip (le_of_eq hlength), List.map_snd_zip (le_of_eq hlength.symm), beNat_BASE_FIELD]
  exact ⟨rfl, rfl⟩

theorem toNat_eq_zero_iff (a : BytesN 32) : a.toNat = 0 ↔ a.1.all (· == 0) = true := by
  constructor
  · intro h
    have hzero : a = BytesN.ofNat 32 0 := BytesN.toNat_inj (h.trans rfl)
    rw [hzero]
    decide
  · intro h
    have hall : a.1 = List.replicate 32 0 := by
      refine List.eq_replicate_iff.mpr ⟨a.2, fun b hb => ?_⟩
      exact eq_of_beq (List.all_eq_true.mp h b hb)
    rw [BytesN.toNat, hall, beNat_replicate_zero]

theorem toNat_fieldNegate_zero {a : BytesN 32} (h : a.1.all (· == 0) = true) : (fieldNegate a).toNat = 0 := by
  have hnegate : fieldNegate a = ⟨List.replicate 32 0, by simp⟩ := if_pos h
  rw [hnegate]
  exact beNat_replicate_zero 32

theorem toNat_fieldNegate {a : BytesN 32} (h : a.toNat < baseModulus) :
    (fieldNegate a).toNat = (baseModulus - a.toNat) % baseModulus := by
  obtain ⟨hmodulus, hvalue⟩ := beNat_zip_BASE_FIELD a
  by_cases hzero : a.1.all (· == 0) = true
  · rw [(toNat_eq_zero_iff a).mpr hzero, Nat.sub_zero, Nat.mod_self, toNat_fieldNegate_zero hzero]
  · have hpos : a.toNat ≠ 0 := fun h => hzero ((toNat_eq_zero_iff a).mp h)
    have hle : beNat ((BASE_FIELD.zip a.1).map (·.2)) ≤ beNat ((BASE_FIELD.zip a.1).map (·.1)) := by
      rw [hmodulus, hvalue]
      exact h.le
    have hnegate : (fieldNegate a).1 = (subBorrow (BASE_FIELD.zip a.1)).1 :=
      congrArg Subtype.val (if_neg hzero)
    rw [Nat.mod_eq_of_lt (by omega), ← hmodulus, ← hvalue, BytesN.toNat, hnegate]
    exact (subBorrow_of_le hle).2

theorem toNat_ofNat_of_lt {n k : ℕ} (h : k < 256 ^ n) : (BytesN.ofNat n k).toNat = k :=
  (beNat_beBytes n k).trans (Nat.mod_eq_of_lt h)

/-- **The byte loops are right.** The scalar check holds of the numbers below the scalar order, and below the
base modulus the negation is written in big-endian, with no borrow left. -/
theorem field_helpers :
    (∀ v : BytesN 32, isValidScalar v = true ↔ v.toNat < scalarOrder) ∧
    ∀ a : BytesN 32, a.toNat < baseModulus →
      fieldNegate a = BytesN.ofNat 32 ((baseModulus - a.toNat) % baseModulus) ∧
        (subBorrow (BASE_FIELD.zip a.1)).2 = false := by
  refine ⟨isValidScalar_iff, fun a ha => ⟨?_, ?_⟩⟩
  · apply BytesN.toNat_inj
    have hsmall : (baseModulus - a.toNat) % baseModulus < 256 ^ 32 :=
      (Nat.mod_lt _ (by decide)).trans (by decide)
    rw [toNat_fieldNegate ha, toNat_ofNat_of_lt hsmall]
  · obtain ⟨hmodulus, hvalue⟩ := beNat_zip_BASE_FIELD a
    refine (subBorrow_of_le ?_).1
    rw [hmodulus, hvalue]
    exact ha.le

end OpaqueStellar.Groth16
