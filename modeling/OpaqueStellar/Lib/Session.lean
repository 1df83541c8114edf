import Mathlib.Order.Defs.Unbundled

/-! # Sessions with a world that moves on

A service reads from and writes to something that others change too. A `Session` is such a piece of
code: it takes the world as it finds it, and returns a value or throws, together with the world as
it is then. A throw does not undo anything.

`bind_eq_ok` takes a session that returned apart, one call at a time. `Keeps` is for what holds
however the session ends, `Avoids` for a failure that cannot come out of it. -/

namespace OpaqueStellar.Lib

def Session (σ ε α : Type) : Type := σ → Except ε α × σ

namespace Session

variable {σ ε α β : Type}

instance : Monad (Session σ ε) where
  pure a := fun s => (.ok a, s)
  bind x f := fun s =>
    match x s with
    | (.ok a, s) => f a s
    | (.error e, s) => (.error e, s)

def throw (e : ε) : Session σ ε α := fun s => (.error e, s)

/-- `try … catch`: the handler goes on in the world the failure left behind. -/
def tryCatch (x : Session σ ε α) (handler : ε → Session σ ε α) : Session σ ε α := fun s =>
  match x s with
  | (.ok a, s) => (.ok a, s)
  | (.error e, s) => handler e s

/-- Go on with what a computation without a world returned. -/
def ofExcept (r : Except ε α) : Session σ ε α := fun s => (r, s)

theorem bind_eq_ok {x : Session σ ε α} {f : α → Session σ ε β} {s s' : σ} {b : β} :
    (x >>= f) s = (.ok b, s') ↔ ∃ a s₁, x s = (.ok a, s₁) ∧ f a s₁ = (.ok b, s') := by
  show (match x s with | (.ok a, s₁) => f a s₁ | (.error e, s₁) => (.error e, s₁)) = _ ↔ _
  constructor
  · intro h
    split at h
    · next a s₁ hx => exact ⟨a, s₁, hx, h⟩
    · cases h
  · rintro ⟨a, s₁, hx, hf⟩
    rw [hx]
    exact hf

theorem bind_eq_error {x : Session σ ε α} {f : α → Session σ ε β} {s s' : σ} {e : ε} :
    (x >>= f) s = (.error e, s') ↔
      x s = (.error e, s') ∨ ∃ a s₁, x s = (.ok a, s₁) ∧ f a s₁ = (.error e, s') := by
  show (match x s with | (.ok a, s₁) => f a s₁ | (.error e, s₁) => (.error e, s₁)) = _ ↔ _
  constructor
  · intro h
    split at h
    · next a s₁ hx => exact .inr ⟨a, s₁, hx, h⟩
    · next e' s₁ hx =>
        cases h
        exact .inl hx
  · rintro (hx | ⟨a, s₁, hx, hf⟩)
    · rw [hx]
    · rw [hx]
      exact hf

/-- Two sessions go the same way if they do up to a call, and from there on. -/
theorem bind_congr {x y : Session σ ε α} {f g : α → Session σ ε β} {s : σ} (hx : x s = y s)
    (hf : ∀ a s', y s = (.ok a, s') → f a s' = g a s') : (x >>= f) s = (y >>= g) s := by
  show (match x s with | (.ok a, s₁) => f a s₁ | (.error e, s₁) => (.error e, s₁)) =
    (match y s with | (.ok a, s₁) => g a s₁ | (.error e, s₁) => (.error e, s₁))
  rw [hx]
  split
  · next a s₁ hy => exact hf a s₁ hy
  · rfl

theorem pure_eq_ok {a b : α} {s s' : σ} :
    (pure a : Session σ ε α) s = (.ok b, s') ↔ a = b ∧ s = s' := by
  show ((.ok a, s) : Except ε α × σ) = _ ↔ _
  rw [Prod.mk.injEq, Except.ok.injEq]

theorem pure_ne_error {a : α} {s s' : σ} {e : ε} :
    (pure a : Session σ ε α) s ≠ (.error e, s') := by
  intro h
  cases h

theorem ofExcept_eq {r r' : Except ε α} {s s' : σ} :
    (ofExcept r : Session σ ε α) s = (r', s') ↔ r = r' ∧ s = s' := by
  rw [ofExcept, Prod.mk.injEq]

/-! ## What every outcome keeps -/

/-- However `x` ends, the world it leaves is related to the one it found. -/
def Keeps (R : σ → σ → Prop) (x : Session σ ε α) : Prop := ∀ s, R s (x s).2

section Keeps

variable {R : σ → σ → Prop}

theorem keeps_pure [Std.Refl R] (a : α) : Keeps R (pure a : Session σ ε α) := fun s => refl_of R s

theorem keeps_throw [Std.Refl R] (e : ε) : Keeps R (throw e : Session σ ε α) := fun s => refl_of R s

theorem keeps_ofExcept [Std.Refl R] (r : Except ε α) : Keeps R (ofExcept r : Session σ ε α) :=
  fun s => refl_of R s

theorem Keeps.bind [IsTrans σ R] {x : Session σ ε α} {f : α → Session σ ε β} (hx : Keeps R x)
    (hf : ∀ a, Keeps R (f a)) : Keeps R (x >>= f) := by
  intro s
  show R s (match x s with | (.ok a, s₁) => f a s₁ | (.error e, s₁) => (.error e, s₁)).2
  have h := hx s
  split
  · next a s₁ hs =>
      rw [hs] at h
      exact trans_of R h (hf a s₁)
  · next e s₁ hs =>
      rw [hs] at h
      exact h

theorem Keeps.tryCatch [IsTrans σ R] {x : Session σ ε α} {handler : ε → Session σ ε α}
    (hx : Keeps R x) (hh : ∀ e, Keeps R (handler e)) : Keeps R (x.tryCatch handler) := by
  intro s
  have h := hx s
  unfold Session.tryCatch
  split
  · next a s₁ hs =>
      rw [hs] at h
      exact h
  · next e s₁ hs =>
      rw [hs] at h
      exact trans_of R h (hh e s₁)

theorem Keeps.of_eq {x : Session σ ε α} (h : Keeps R x) {s s' : σ} {r : Except ε α}
    (heq : x s = (r, s')) : R s s' := by
  have hs := h s
  rwa [heq] at hs

end Keeps

/-! ## Failures that cannot happen -/

/-- `x` never throws `e`. -/
def Avoids (e : ε) (x : Session σ ε α) : Prop := ∀ s s', x s ≠ (.error e, s')

theorem avoids_pure {e : ε} (a : α) : Avoids e (pure a : Session σ ε α) := fun _ _ => pure_ne_error

theorem avoids_throw {e e' : ε} (h : e' ≠ e) : Avoids e (throw e' : Session σ ε α) := by
  intro s s' heq
  exact h (Except.error.inj (congrArg Prod.fst heq))

theorem Avoids.bind {e : ε} {x : Session σ ε α} {f : α → Session σ ε β} (hx : Avoids e x)
    (hf : ∀ a, Avoids e (f a)) : Avoids e (x >>= f) := by
  intro s s' heq
  rcases bind_eq_error.mp heq with h | ⟨a, s₁, -, h⟩
  · exact hx s s' h
  · exact hf a s₁ s' h

theorem Avoids.tryCatch {e : ε} {x : Session σ ε α} {handler : ε → Session σ ε α}
    (hx : Avoids e x) (hh : ∀ e', e' ≠ e → Avoids e (handler e')) :
    Avoids e (x.tryCatch handler) := by
  intro s s' heq
  unfold Session.tryCatch at heq
  split at heq
  · cases heq
  · next e' s₁ hthrown =>
      refine hh e' ?_ s₁ s' heq
      rintro rfl
      exact hx s s₁ hthrown

end Session

/-! The same for computations without a world. -/

section Except

variable {ε α β : Type} {e : ε}

theorem bind_ne_error {x : Except ε α} {f : α → Except ε β} (hx : x ≠ .error e)
    (hf : ∀ a, f a ≠ .error e) : (x >>= f) ≠ .error e := by
  cases x with
  | error e' =>
      intro h
      cases h
      exact hx rfl
  | ok a => exact hf a

theorem foldlM_ne_error {f : β → α → Except ε β} (hf : ∀ b a, f b a ≠ .error e) (l : List α)
    (b : β) : l.foldlM f b ≠ .error e := by
  induction l generalizing b with
  | nil =>
      intro h
      cases h
  | cons a l ih =>
      rw [List.foldlM_cons]
      exact bind_ne_error (hf b a) fun b' => ih b'

end Except

end OpaqueStellar.Lib
