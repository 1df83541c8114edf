import Mathlib.Algebra.Order.Floor.Ring
import Mathlib.Algebra.Order.Ring.Cast
import Mathlib.Data.List.Induction
import Mathlib.Tactic.Linarith
import Mathlib.Tactic.Ring

/-! # Token buckets

A bucket holds at most `cap` tokens, and each request that is served takes one. What is added between
two requests is bounded by a supply, a function of the time that went by. When supplies of consecutive
spans are not more than the supply of both together, then the requests served within any span are at
most the capacity and the span's supply.

`Served` forgets how a limiter reckons; it keeps what the bound needs. -/

namespace OpaqueStellar.Lib.TokenBucket

variable {K : Type} [Field K] [LinearOrder K] [IsStrictOrderedRing K]

structure Supply (f : K → K) : Prop where
  nonneg : ∀ d, 0 ≤ d → 0 ≤ f d
  add_le : ∀ a b, 0 ≤ a → 0 ≤ b → f a + f b ≤ f (a + b)

theorem Supply.mono {f : K → K} (hf : Supply f) {a b : K} (ha : 0 ≤ a) (hab : a ≤ b) :
    f a ≤ f b := by
  have hadd := hf.add_le a (b - a) ha (sub_nonneg.mpr hab)
  have hrest := hf.nonneg (b - a) (sub_nonneg.mpr hab)
  rw [add_sub_cancel] at hadd
  linarith

/-- A steady rate. -/
theorem supply_rate {r : K} (hr : 0 ≤ r) : Supply fun d => r * d where
  nonneg := fun _ hd => mul_nonneg hr hd
  add_le := fun a b _ _ => (mul_add r a b).ge

/-- An amount for every full window. -/
theorem supply_floor [FloorRing K] {c w : K} (hc : 0 ≤ c) (hw : 0 < w) :
    Supply fun d => c * (⌊d / w⌋ : K) where
  nonneg := by
    intro d hd
    exact mul_nonneg hc (Int.cast_nonneg (Int.floor_nonneg.mpr (div_nonneg hd hw.le)))
  add_le := by
    intro a b _ _
    have hfloor : ((⌊a / w⌋ : ℤ) : K) + (⌊b / w⌋ : ℤ) ≤ (⌊(a + b) / w⌋ : ℤ) := by
      rw [add_div, ← Int.cast_add]
      exact Int.cast_le.mpr (Int.le_floor_add (a / w) (b / w))
    rw [← mul_add]
    exact mul_le_mul_of_nonneg_left hfloor hc

theorem Supply.add {f g : K → K} (hf : Supply f) (hg : Supply g) : Supply fun d => f d + g d where
  nonneg := fun d hd => add_nonneg (hf.nonneg d hd) (hg.nonneg d hd)
  add_le := by
    intro a b ha hb
    have h₁ := hf.add_le a b ha hb
    have h₂ := hg.add_le a b ha hb
    linarith

/-! ## Runs of a bucket -/

/-- The level after a request and the time of it. -/
structure Level (K : Type) where
  level : K
  time : K

/-- The tokens that a request takes. -/
def cost (served : Bool) : K := if served then 1 else 0

/-- A request at `now`: before it is answered, the level has gone up by no more than the supply. -/
structure Serves (cap : K) (f : K → K) (b : Option (Level K)) (now : K) (served : Bool)
    (b' : Level K) : Prop where
  time_eq : b'.time = now
  nonneg : 0 ≤ b'.level
  le_cap : b'.level + cost served ≤ cap
  supplied : ∀ l, b = some l → l.time ≤ now ∧ b'.level + cost served ≤ l.level + f (now - l.time)

/-- Requests, oldest first, with their answers. -/
inductive Served (cap : K) (f : K → K) : List (K × Bool) → Option (Level K) → Prop
  | nil : Served cap f [] none
  | snoc {log : List (K × Bool)} {b : Option (Level K)} {now : K} {served : Bool} {b' : Level K}
      (before : Served cap f log b) (serves : Serves cap f b now served b') :
      Served cap f (log ++ [(now, served)]) (some b')

/-- The requests served from `a` on, up to `z`. -/
def servedIn (a z : K) (log : List (K × Bool)) : ℕ :=
  log.countP fun e => decide (a ≤ e.1) && decide (e.1 ≤ z) && e.2

section Bound

variable {cap : K} {f : K → K} {log : List (K × Bool)} {b : Option (Level K)} {a z now : K}
  {served : Bool}

omit [IsStrictOrderedRing K] in
theorem servedIn_snoc_of_mem (ha : a ≤ now) (hz : now ≤ z) :
    (servedIn a z (log ++ [(now, served)]) : K) = servedIn a z log + cost served := by
  cases served <;> simp [servedIn, List.countP_append, ha, hz, cost]

omit [Field K] [IsStrictOrderedRing K] in
theorem servedIn_snoc_of_not (h : ¬ (a ≤ now ∧ now ≤ z)) :
    servedIn a z (log ++ [(now, served)]) = servedIn a z log := by
  rw [servedIn, List.countP_append, List.countP_singleton, servedIn]
  have hout : (decide (a ≤ now) && decide (now ≤ z) && served) = false := by
    rw [← Bool.decide_and, decide_eq_false h, Bool.false_and]
  simp [hout]

omit [IsStrictOrderedRing K] in
theorem Served.time_le (h : Served cap f log b) {l : Level K} (hl : b = some l) :
    ∀ e ∈ log, e.1 ≤ l.time := by
  induction h generalizing l with
  | nil => cases hl
  | @snoc log b now served b' before serves ih =>
      obtain rfl := Option.some.inj hl
      rw [serves.time_eq]
      intro e he
      rcases List.mem_append.mp he with he | he
      · cases b with
        | none =>
            cases before
            cases he
        | some l => exact (ih rfl e he).trans (serves.supplied l rfl).1
      · rw [List.mem_singleton.mp he]

omit [IsStrictOrderedRing K] in
/-- Before the first request from `a` on there is nothing to count. -/
theorem servedIn_eq_zero (h : Served cap f log b) {l : Level K} (hl : b = some l)
    (hlt : l.time < a) : servedIn a z log = 0 := by
  rw [servedIn, List.countP_eq_zero]
  intro e he
  have hle := h.time_le hl e he
  have hnot : ¬ a ≤ e.1 := not_le.mpr (lt_of_le_of_lt hle hlt)
  simp [hnot]

/-- What was served since `a` and what is left come from the capacity and the supply since `a`. -/
theorem Served.since (hf : Supply f) (h : Served cap f log b) {l : Level K} (hl : b = some l)
    (ha : a ≤ l.time) (hz : l.time ≤ z) :
    (servedIn a z log : K) + l.level ≤ cap + f (l.time - a) := by
  induction h generalizing l with
  | nil => cases hl
  | @snoc log b now served b' before serves ih =>
      obtain rfl := Option.some.inj hl
      rw [serves.time_eq] at ha hz ⊢
      rw [servedIn_snoc_of_mem ha hz]
      have hnonneg := hf.nonneg (now - a) (sub_nonneg.mpr ha)
      cases b with
      | none =>
          cases before
          have hcap := serves.le_cap
          simp only [servedIn, List.countP_nil, Nat.cast_zero]
          linarith
      | some l =>
          obtain ⟨hle, hsupplied⟩ := serves.supplied l rfl
          by_cases hearly : l.time < a
          · rw [servedIn_eq_zero before rfl hearly, Nat.cast_zero]
            have hcap := serves.le_cap
            linarith
          · have hin := ih rfl (not_lt.mp hearly) (hle.trans hz)
            have hadd := hf.add_le (l.time - a) (now - l.time) (sub_nonneg.mpr (not_lt.mp hearly))
              (sub_nonneg.mpr hle)
            rw [show l.time - a + (now - l.time) = now - a by ring] at hadd
            linarith

/-- **The bound of a bucket.** Within a span no more is served than the capacity and the span's
supply. -/
theorem Served.bound (hcap : 0 ≤ cap) (hf : Supply f) (h : Served cap f log b) {d : K}
    (hd : 0 ≤ d) : (servedIn a (a + d) log : K) ≤ cap + f d := by
  induction h with
  | nil =>
      have hnonneg := hf.nonneg d hd
      simp only [servedIn, List.countP_nil, Nat.cast_zero]
      linarith
  | @snoc log b now served b' before serves ih =>
      by_cases hin : a ≤ now ∧ now ≤ a + d
      · have htime := serves.time_eq
        have hsince := (Served.snoc before serves).since hf rfl (htime ▸ hin.1) (htime ▸ hin.2)
        have hmono : f (b'.time - a) ≤ f d := by
          rw [htime]
          exact hf.mono (sub_nonneg.mpr hin.1) (by linarith [hin.2])
        have hlevel := serves.nonneg
        linarith
      · rw [servedIn_snoc_of_not hin]
        exact ih

end Bound

end OpaqueStellar.Lib.TokenBucket
