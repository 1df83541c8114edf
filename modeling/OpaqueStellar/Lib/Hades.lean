import Mathlib.Algebra.BigOperators.Fin
import Mathlib.Data.Vector.Basic

/-! # The Hades permutation

A state of `T` elements goes through rounds: constants are added, a power is taken, and the elements are
mixed by a matrix. The power is taken of every element in the rounds at both ends, and of the first element
alone in the rounds between.

A program computes it on representations, step by step and with operations that can fail.
`exists_foldlM_of_sim` and `exists_ofFnM` carry a relation between what it holds and what it stands for
through its loops. -/

namespace OpaqueStellar.Lib

/-- The parameters of one instance. -/
structure Hades (F : Type) (T : ℕ) where
  constants : ℕ → Fin T → F
  mds : Fin T → Fin T → F
  exponent : ℕ
  fullRounds : ℕ
  partialRounds : ℕ

namespace Hades

variable {F : Type} [CommSemiring F] {T : ℕ} (H : Hades F T)

/-- Is the power taken of every element? -/
def IsFull (r : ℕ) : Prop := r < H.fullRounds / 2 ∨ H.fullRounds / 2 + H.partialRounds ≤ r

instance (r : ℕ) : Decidable (H.IsFull r) := inferInstanceAs (Decidable (_ ∨ _))

def sBox (r : ℕ) (s : Fin T → F) : Fin T → F :=
  fun i => if H.IsFull r ∨ i.val = 0 then s i ^ H.exponent else s i

def round (s : Fin T → F) (r : ℕ) : Fin T → F :=
  fun i => ∑ j, H.mds i j * H.sBox r (fun k => s k + H.constants r k) j

def permutation (s : Fin T → F) : Fin T → F :=
  (List.range (H.fullRounds + H.partialRounds)).foldl H.round s

end Hades

section Simulation

variable {σ τ ι : Type} {R : σ → τ → Prop}

/-- A loop whose every step succeeds and keeps the relation succeeds and keeps the relation. -/
theorem exists_foldlM_of_sim {f : σ → ι → Option σ} {g : τ → ι → τ} {l : List ι}
    (hstep : ∀ i ∈ l, ∀ s t, R s t → ∃ s', f s i = some s' ∧ R s' (g t i)) {s : σ} {t : τ} (h : R s t) :
    ∃ s', l.foldlM f s = some s' ∧ R s' (l.foldl g t) := by
  induction l generalizing s t with
  | nil => exact ⟨s, rfl, h⟩
  | cons i l ih =>
      obtain ⟨u, hu, hrel⟩ := hstep i List.mem_cons_self s t h
      obtain ⟨s', hs', hlast⟩ := ih (fun j hj => hstep j (List.mem_cons_of_mem i hj)) hrel
      refine ⟨s', ?_, hlast⟩
      rw [List.foldlM_cons, hu]
      exact hs'

/-- An array whose every element can be computed can be computed. -/
theorem exists_ofFnM {n : ℕ} {f : Fin n → Option σ} {P : Fin n → σ → Prop}
    (h : ∀ i, ∃ s, f i = some s ∧ P i s) :
      ∃ v : Vector σ n, Vector.ofFnM f = some v ∧ ∀ i, P i (v.get i) := by
  choose g hg hP using h
  refine ⟨Vector.ofFn g, ?_, ?_⟩
  · rw [show f = pure ∘ g from funext hg]
    exact Vector.ofFnM_pure_comp
  · intro i
    have hget : (Vector.ofFn g).get i = g i := (Vector.getElem_ofFn i.2 : (Vector.ofFn g)[i.val] = g i)
    rw [hget]
    exact hP i

end Simulation

end OpaqueStellar.Lib
