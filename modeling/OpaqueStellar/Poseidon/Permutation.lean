import OpaqueStellar.Lib.Hades
import OpaqueStellar.Poseidon.Constants

/-! # Poseidon on chain

`contracts/opaque-poseidon/src/lib.rs`: the permutation over words, and the hashes of two and of three
inputs. The rounds are those of the Hades permutation over the field, element by element
(`represents_permute`), and the hash is its first element (`poseidon2_eq`, `poseidon3_eq`). -/

namespace OpaqueStellar.Poseidon

open OpaqueStellar.Lib OpaqueStellar.Groth16

variable {T : ℕ}

/-! ## The permutation -/

/-- `state[i] = add(state[i], c[r * T + i])` -/
def addRoundConstants (constants : List Fr) (r : ℕ) (state : Vector Fr T) : Option (Vector Fr T) :=
  Vector.ofFnM fun i => (constants[r * T + i]?).bind (add state[i])

/-- Full rounds at the start and end, partial in the middle. -/
def sBox (nRoundsP r : ℕ) (state : Vector Fr T) : Option (Vector Fr T) :=
  if r < N_ROUNDS_F / 2 ∨ r ≥ N_ROUNDS_F / 2 + nRoundsP then Vector.ofFnM fun i => pow5 state[i]
  else if h : 0 < T then (pow5 state[0]).map fun x => state.set 0 x
  else none

/-- `new[i] = Σ_j M[i][j] · state[j]` -/
def mix (m : Vector (Vector Fr T) T) (state : Vector Fr T) : Option (Vector Fr T) :=
  Vector.ofFnM fun i => (List.finRange T).foldlM
    (fun acc j => (montmul m[i][j] state[j]).bind (add acc)) Fr.ZERO

def round (c : List Fr) (m : Vector (Vector Fr T) T) (nRoundsP : ℕ) (state : Vector Fr T) (r : ℕ) :
    Option (Vector Fr T) := do
  let state ← addRoundConstants c r state
  let state ← sBox nRoundsP r state
  mix m state

def permute (state : Vector Fr T) (c : List Fr) (m : Vector (Vector Fr T) T) (nRoundsP : ℕ) :
    Option (Vector Fr T) :=
  (List.range (N_ROUNDS_F + nRoundsP)).foldlM (round c m nRoundsP) state

/-- A 32-byte input in the domain. -/
def input (b : BytesN 32) : Option Fr := (Fr.fromBeBytes b).bind Fr.toMont

def output (state : Vector Fr T) (h : 0 < T) : Option (BytesN 32) := state[0].fromMont.map Fr.toBeBytes

def poseidon2 (a b : BytesN 32) : Option (BytesN 32) := do
  let a ← input a
  let b ← input b
  let state ← permute #v[Fr.ZERO, a, b] C_T3 M_T3 N_ROUNDS_P_T3
  output state (by decide)

def poseidon3 (a b c : BytesN 32) : Option (BytesN 32) := do
  let a ← input a
  let b ← input b
  let c ← input c
  let state ← permute #v[Fr.ZERO, a, b, c] C_T4 M_T4 N_ROUNDS_P_T4
  output state (by decide)

/-! ## What the words stand for -/

/-- The permutation over the field, with the tables' elements. -/
def hades (c : List Fr) (m : Vector (Vector Fr T) T) (nRoundsP : ℕ) : Hades (ZMod scalarOrder) T where
  constants r i := (c.getD (r * T + i) Fr.ZERO).element
  mds i j := m[i][j].element
  exponent := 5
  fullRounds := N_ROUNDS_F
  partialRounds := nRoundsP

def StateRepresents (state : Vector Fr T) (s : Fin T → ZMod scalarOrder) : Prop :=
  ∀ i : Fin T, Represents state[i] (s i)

section Rounds

variable {c : List Fr} {m : Vector (Vector Fr T) T} {nRoundsP : ℕ} {state : Vector Fr T}
  {s : Fin T → ZMod scalarOrder}

theorem represents_addRoundConstants (hc : ∀ x ∈ c, x.value < scalarOrder)
    (hlength : c.length = (N_ROUNDS_F + nRoundsP) * T) {r : ℕ} (hr : r < N_ROUNDS_F + nRoundsP)
    (h : StateRepresents state s) :
    ∃ state', addRoundConstants c r state = some state' ∧
      StateRepresents state' fun i => s i + (hades c m nRoundsP).constants r i := by
  refine exists_ofFnM (P := fun i x => Represents x (s i + (hades c m nRoundsP).constants r i)) ?_
  intro i
  have hi : r * T + i < c.length := by
    rw [hlength]
    calc r * T + i < r * T + T := Nat.add_lt_add_left i.2 _
      _ = (r + 1) * T := by ring
      _ ≤ (N_ROUNDS_F + nRoundsP) * T := Nat.mul_le_mul_right T hr
  obtain ⟨x, hadd, hx⟩ := represents_add (h i) ⟨hc _ (List.getElem_mem hi), rfl⟩
  refine ⟨x, by rw [List.getElem?_eq_getElem hi, Option.bind_some, hadd], ?_⟩
  have hconstant : (hades c m nRoundsP).constants r i = (c.get ⟨r * T + i, hi⟩).element := by
    simp [hades, List.getD_eq_getElem?_getD, hi]
  rw [hconstant]
  exact hx

theorem represents_sBox (c : List Fr) (m : Vector (Vector Fr T) T) (nRoundsP r : ℕ) (hT : 0 < T)
    (h : StateRepresents state s) : ∃ state', sBox nRoundsP r state = some state' ∧
      StateRepresents state' ((hades c m nRoundsP).sBox r s) := by
  have hpow : ∀ i : Fin T, ∃ x, pow5 state[i] = some x ∧ Represents x (s i ^ 5) :=
    fun i => represents_pow5 (h i)
  by_cases hfull : r < N_ROUNDS_F / 2 ∨ r ≥ N_ROUNDS_F / 2 + nRoundsP
  · obtain ⟨state', hall, hrep⟩ := exists_ofFnM hpow
    refine ⟨state', by rw [sBox, if_pos hfull, hall], ?_⟩
    intro i
    rw [Hades.sBox, if_pos (.inl hfull)]
    exact hrep i
  · obtain ⟨x, hx, hrep⟩ := hpow ⟨0, hT⟩
    refine ⟨state.set 0 x, ?_, ?_⟩
    · rw [sBox, if_neg hfull, dif_pos hT]
      exact congrArg (Option.map _) hx
    · intro i
      by_cases hi : i.val = 0
      · obtain rfl : i = ⟨0, hT⟩ := Fin.ext hi
        rw [Hades.sBox, if_pos (.inr rfl)]
        change Represents (state.set 0 x)[0] _
        rw [Vector.getElem_set_self]
        exact hrep
      · have hkept : ¬((hades c m nRoundsP).IsFull r ∨ i.val = 0) := not_or.mpr ⟨hfull, hi⟩
        have hsame : (state.set 0 x)[i] = state[i] := Vector.getElem_set_ne _ _ (Ne.symm hi)
        rw [Hades.sBox, if_neg hkept, hsame]
        exact h i

theorem represents_mix (c : List Fr) (nRoundsP : ℕ) (hm : ∀ i j : Fin T, m[i][j].value < scalarOrder)
    (h : StateRepresents state s) : ∃ state', mix m state = some state' ∧
      StateRepresents state' fun i => ∑ j, (hades c m nRoundsP).mds i j * s j := by
  refine exists_ofFnM (P := fun i x => Represents x (∑ j, (hades c m nRoundsP).mds i j * s j)) ?_
  intro i
  have hstep : ∀ j ∈ List.finRange T, ∀ acc v, Represents acc v →
      ∃ acc', (montmul m[i][j] state[j]).bind (add acc) = some acc' ∧
        Represents acc' (v + (hades c m nRoundsP).mds i j * s j) := by
    intro j _ acc v hacc
    obtain ⟨x, hmul, hx⟩ := represents_montmul ⟨hm i j, rfl⟩ (h j)
    obtain ⟨y, hadd, hy⟩ := represents_add hacc hx
    exact ⟨y, by rw [hmul, Option.bind_some, hadd], hy⟩
  obtain ⟨x, hfold, hx⟩ := exists_foldlM_of_sim hstep represents_zero
  refine ⟨x, hfold, ?_⟩
  rwa [Fin.sum_univ_def, List.sum_eq_foldl, List.foldl_map]

/-- Every round is the round of the permutation, and all of them the permutation. -/
theorem represents_permute (hT : 0 < T) (hc : ∀ x ∈ c, x.value < scalarOrder)
    (hlength : c.length = (N_ROUNDS_F + nRoundsP) * T) (hm : ∀ i j : Fin T, m[i][j].value < scalarOrder)
    (h : StateRepresents state s) :
    ∃ state', permute state c m nRoundsP = some state' ∧
      StateRepresents state' ((hades c m nRoundsP).permutation s) := by
  apply exists_foldlM_of_sim _ h
  intro r hr state s h
  obtain ⟨state₁, hadd, h₁⟩ :=
    represents_addRoundConstants (m := m) hc hlength (List.mem_range.mp hr) h
  obtain ⟨state₂, hpow, h₂⟩ := represents_sBox c m nRoundsP r hT h₁
  obtain ⟨state₃, hmix, h₃⟩ := represents_mix c nRoundsP hm h₂
  refine ⟨state₃, ?_, h₃⟩
  simp only [round, hadd, hpow, hmix, Option.bind_eq_bind, Option.bind_some]

end Rounds

/-! ## The hashes -/

theorem input_eq (b : BytesN 32) : ∃ x, input b = some x ∧ Represents x b.toNat := by
  obtain ⟨x, hread, hx⟩ := fromBeBytes_eq b
  obtain ⟨y, hmont, hy⟩ := represents_toMont (x := x) (by
    rw [hx]
    exact Nat.mod_lt _ (by decide))
  rw [hx, ZMod.natCast_mod] at hy
  exact ⟨y, by rw [input, hread, Option.bind_some, hmont], hy⟩

theorem output_eq {state : Vector Fr T} {s : Fin T → ZMod scalarOrder} (h : StateRepresents state s)
    (hT : 0 < T) : output state hT = some (BytesN.ofNat 32 (s ⟨0, hT⟩).val) := by
  obtain ⟨y, hmont, hy⟩ := value_fromMont (h ⟨0, hT⟩)
  have hmont' : state[0].fromMont = some y := hmont
  rw [output, hmont', Option.map_some, toBeBytes_eq, hy]

/-- The first element of what the permutation makes of a state. -/
theorem output_permute {state : Vector Fr T} {s : Fin T → ZMod scalarOrder} {c : List Fr}
    {m : Vector (Vector Fr T) T} {nRoundsP : ℕ} (hT : 0 < T) (hc : ∀ x ∈ c, x.value < scalarOrder)
    (hlength : c.length = (N_ROUNDS_F + nRoundsP) * T) (hm : ∀ i j : Fin T, m[i][j].value < scalarOrder)
    (h : StateRepresents state s) : (permute state c m nRoundsP).bind (fun state => output state hT) =
      some (BytesN.ofNat 32 ((hades c m nRoundsP).permutation s ⟨0, hT⟩).val) := by
  obtain ⟨state', hpermute, hstate'⟩ := represents_permute hT hc hlength hm h
  rw [hpermute, Option.bind_some]
  exact output_eq hstate' hT

theorem poseidon2_eq (a b : BytesN 32) :
    poseidon2 a b = some (BytesN.ofNat 32
      ((hades C_T3 M_T3 N_ROUNDS_P_T3).permutation ![0, a.toNat, b.toNat] 0).val) := by
  obtain ⟨x, hx, hax⟩ := input_eq a
  obtain ⟨y, hy, hby⟩ := input_eq b
  have hstate : StateRepresents #v[Fr.ZERO, x, y] ![0, (a.toNat : ZMod scalarOrder), b.toNat] := by
    intro i
    fin_cases i
    · exact represents_zero
    · exact hax
    · exact hby
  simp only [poseidon2, hx, hy, Option.bind_eq_bind, Option.bind_some]
  exact output_permute (by decide) C_T3_lt length_C_T3 M_T3_lt hstate

theorem poseidon3_eq (a b c : BytesN 32) :
    poseidon3 a b c = some (BytesN.ofNat 32
      ((hades C_T4 M_T4 N_ROUNDS_P_T4).permutation ![0, a.toNat, b.toNat, c.toNat] 0).val) := by
  obtain ⟨x, hx, hax⟩ := input_eq a
  obtain ⟨y, hy, hby⟩ := input_eq b
  obtain ⟨z, hz, hcz⟩ := input_eq c
  have hstate : StateRepresents #v[Fr.ZERO, x, y, z]
      ![0, (a.toNat : ZMod scalarOrder), b.toNat, c.toNat] := by
    intro i
    fin_cases i
    · exact represents_zero
    · exact hax
    · exact hby
    · exact hcz
  simp only [poseidon3, hx, hy, hz, Option.bind_eq_bind, Option.bind_some]
  exact output_permute (by decide) C_T4_lt length_C_T4 M_T4_lt hstate

/-- The crate's hashes are those of the Hades permutation on all inputs. Below the modulus the product is the
Montgomery product, with the accumulator exact after every row of it, and the sum is the sum; the loop that
reads an input ends with its number modulo the modulus. -/
theorem poseidon_on_chain :
    (∀ a b, poseidon2 a b = some (BytesN.ofNat 32
      ((hades C_T3 M_T3 N_ROUNDS_P_T3).permutation ![0, a.toNat, b.toNat] 0).val)) ∧
    (∀ a b c, poseidon3 a b c = some (BytesN.ofNat 32
      ((hades C_T4 M_T4 N_ROUNDS_P_T4).permutation ![0, a.toNat, b.toNat, c.toNat] 0).val)) ∧
    (∀ x y : Fr, x.value < scalarOrder → y.value < scalarOrder →
      (∃ z, montmul x y = some z ∧ z.value < scalarOrder ∧
        (z.value : ZMod scalarOrder) = x.value * y.value * (R : ZMod scalarOrder)⁻¹) ∧
      (∀ i ≤ 4, ∃ t k, Montgomery.rows MODULUS INV x.limbs (y.limbs.take i) = some t ∧
        Limbs.radix ^ i * Montgomery.total t =
          x.value * Limbs.value (y.limbs.take i) + k * scalarOrder ∧
        Montgomery.total t < x.value + scalarOrder) ∧
      (∃ z, add x y = some z ∧ z.value = (x.value + y.value) % scalarOrder)) ∧
    (∀ b, ∃ x, Fr.fromBeBytes b = some x ∧ x.value = b.toNat % scalarOrder) := by
  refine ⟨poseidon2_eq, poseidon3_eq, ?_, fromBeBytes_eq⟩
  intro x y hx hy
  refine ⟨montmul_eq hx y, ?_, add_eq hx hy⟩
  intro i hi
  obtain ⟨t, k, hrows, htotal, hbound⟩ := rows_eq x (y.limbs.take i)
  rw [List.length_take, y.length_limbs, Nat.min_eq_left hi] at htotal
  exact ⟨t, k, hrows, htotal, hbound⟩

end OpaqueStellar.Poseidon
