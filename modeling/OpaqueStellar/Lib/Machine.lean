import Mathlib.Data.List.Induction

/-! # Deterministic machines and their runs

A `Machine` takes one input at a time, moves to a next state and answers with an output. A run is
a list of inputs; `final` is the state it ends in and `trace` lists, oldest first, every step it
took together with the state the step started from.

`Machine.invariant` is the induction every whole-run result rests on: a relation between the trace
so far and the current state that holds of the empty trace and survives one more step holds after
every run. The steps may be restricted by a predicate `P`, so that one rule serves both the
results about all runs (`P` trivial) and the results about runs whose steps meet a condition. -/

namespace OpaqueStellar.Lib

structure Machine (σ ι ο : Type) where
  step : σ → ι → σ × ο

namespace Machine

variable {σ ι ο : Type}

/-- One step of a run: where it started, what it was given, what it answered. -/
structure Step (σ ι ο : Type) where
  pre : σ
  input : ι
  output : ο

variable (m : Machine σ ι ο)

def stepAt (s : σ) (i : ι) : Step σ ι ο := ⟨s, i, (m.step s i).2⟩

def final : σ → List ι → σ
  | s, [] => s
  | s, i :: is => final (m.step s i).1 is

def trace : σ → List ι → List (Step σ ι ο)
  | _, [] => []
  | s, i :: is => m.stepAt s i :: trace (m.step s i).1 is

theorem final_append (s : σ) (is js : List ι) :
    m.final s (is ++ js) = m.final (m.final s is) js := by
  induction is generalizing s with
  | nil => rfl
  | cons i is ih => exact ih (m.step s i).1

theorem trace_append (s : σ) (is js : List ι) :
    m.trace s (is ++ js) = m.trace s is ++ m.trace (m.final s is) js := by
  induction is generalizing s with
  | nil => rfl
  | cons i is ih => exact congrArg (m.stepAt s i :: ·) (ih (m.step s i).1)

theorem final_snoc (s : σ) (is : List ι) (i : ι) :
    m.final s (is ++ [i]) = (m.step (m.final s is) i).1 := m.final_append s is [i]

theorem trace_snoc (s : σ) (is : List ι) (i : ι) :
    m.trace s (is ++ [i]) = m.trace s is ++ [m.stepAt (m.final s is) i] :=
  m.trace_append s is [i]

/-- **The invariant rule.** What holds before anything happened and survives every step that
satisfies `P` holds after every run all of whose steps satisfy `P`. -/
theorem invariant_of_steps {P : Step σ ι ο → Prop} {I : List (Step σ ι ο) → σ → Prop} {s₀ : σ}
    (h₀ : I [] s₀)
    (hstep : ∀ t s i, I t s → P (m.stepAt s i) → I (t ++ [m.stepAt s i]) (m.step s i).1)
    (is : List ι) (hP : ∀ e ∈ m.trace s₀ is, P e) :
    I (m.trace s₀ is) (m.final s₀ is) := by
  induction is using List.reverseRecOn with
  | nil => exact h₀
  | append_singleton is i ih =>
      rw [trace_snoc] at hP ⊢
      rw [final_snoc]
      refine hstep _ _ _ (ih ?_) ?_
      · intro e he
        exact hP e (List.mem_append_left _ he)
      · exact hP _ (List.mem_append_right _ (List.mem_singleton.mpr rfl))

/-- The invariant rule for runs whose steps are not restricted. -/
theorem invariant {I : List (Step σ ι ο) → σ → Prop} {s₀ : σ} (h₀ : I [] s₀)
    (hstep : ∀ t s i, I t s → I (t ++ [m.stepAt s i]) (m.step s i).1) (is : List ι) :
    I (m.trace s₀ is) (m.final s₀ is) :=
  m.invariant_of_steps (P := fun _ => True) h₀ (fun t s i h _ => hstep t s i h) is
    (fun _ _ => trivial)

/-- A property of states alone that no step destroys holds of every state a run reaches. -/
theorem stable {J : σ → Prop} (hstep : ∀ s i, J s → J (m.step s i).1) {s : σ} (h : J s)
    (is : List ι) : J (m.final s is) :=
  m.invariant (I := fun _ s => J s) h (fun _ s i => hstep s i) is

/-- Every step of a run is the machine's own step in the state an initial part of the run ends
in. -/
theorem mem_trace {s : σ} {is : List ι} {e : Step σ ι ο} (h : e ∈ m.trace s is) :
    ∃ is₁ is₂, is = is₁ ++ e.input :: is₂ ∧ e = m.stepAt (m.final s is₁) e.input := by
  induction is generalizing s with
  | nil => cases h
  | cons i is ih =>
      rcases List.mem_cons.mp h with rfl | h
      · exact ⟨[], is, rfl, rfl⟩
      · obtain ⟨is₁, is₂, rfl, he⟩ := ih h
        exact ⟨i :: is₁, is₂, rfl, he⟩

/-- The steps of a run are those that its initial parts lead to. -/
theorem stepAt_mem_trace {s : σ} {is js : List ι} {i : ι} :
    m.stepAt (m.final s is) i ∈ m.trace s (is ++ i :: js) := by
  rw [m.trace_append]
  exact List.mem_append_right _ List.mem_cons_self

/-- The input of a step is one of the run's. -/
theorem input_mem_of_mem_trace {s : σ} {is : List ι} {e : Step σ ι ο} (h : e ∈ m.trace s is) :
    e.input ∈ is := by
  obtain ⟨before, later, hsplit, -⟩ := m.mem_trace h
  rw [hsplit]
  exact List.mem_append_right _ List.mem_cons_self

/-- The steps of a run are steps of each longer run. -/
theorem mem_trace_append {s : σ} {is : List ι} {e : Step σ ι ο} (js : List ι)
    (h : e ∈ m.trace s is) : e ∈ m.trace s (is ++ js) := by
  rw [m.trace_append]
  exact List.mem_append_left _ h

/-- The state a step of a run starts from is the one an initial part of the run ends in. -/
theorem mem_trace_split {s : σ} {is : List ι} {e : Step σ ι ο} (h : e ∈ m.trace s is) :
    ∃ before later, m.trace s is = m.trace s before ++ later ∧ e.pre = m.final s before := by
  obtain ⟨before, later, rfl, he⟩ := m.mem_trace h
  exact ⟨before, _, m.trace_append s before _, congrArg Step.pre he⟩

/-- A run has no step that satisfies `P`, or splits at the last one. -/
theorem exists_last (P : Step σ ι ο → Prop) (s : σ) (is : List ι) :
    (∀ e ∈ m.trace s is, ¬ P e) ∨
      ∃ before i during, is = before ++ i :: during ∧ P (m.stepAt (m.final s before) i) ∧
        ∀ e ∈ m.trace (m.final s (before ++ [i])) during, ¬ P e := by
  induction is using List.reverseRecOn with
  | nil =>
      left
      intro e he
      cases he
  | append_singleton is i ih =>
      by_cases hlast : P (m.stepAt (m.final s is) i)
      · right
        refine ⟨is, i, [], rfl, hlast, ?_⟩
        intro e he
        cases he
      rcases ih with hnone | ⟨before, j, during, rfl, hj, hduring⟩
      · left
        intro e he
        rw [trace_snoc, List.mem_append, List.mem_singleton] at he
        rcases he with he | rfl
        · exact hnone e he
        · exact hlast
      · right
        have hfinal : m.final (m.final s (before ++ [j])) during = m.final s (before ++ j :: during) := by
          rw [← m.final_append, List.append_assoc]
          rfl
        refine ⟨before, j, during ++ [i], List.append_assoc _ _ _, hj, ?_⟩
        intro e he
        rw [trace_snoc, List.mem_append, List.mem_singleton, hfinal] at he
        rcases he with he | rfl
        · exact hduring e he
        · exact hlast

/-! ## Steps that are rolled back when they fail -/

variable {ε : Type} {exec : σ → ι → Except ε (σ × ο)}

/-- The machine that commits what `exec` returns and stays where it was when `exec` fails. -/
def transactional (exec : σ → ι → Except ε (σ × ο)) : Machine σ ι (Except ε ο) where
  step s i :=
    match exec s i with
    | .ok (s', o) => (s', .ok o)
    | .error e => (s, .error e)

theorem transactional_cases (exec : σ → ι → Except ε (σ × ο)) (s : σ) (i : ι) :
    (∃ e, (transactional exec).step s i = (s, .error e)) ∨
      ∃ s' o, (transactional exec).step s i = (s', .ok o) ∧ exec s i = .ok (s', o) := by
  cases h : exec s i with
  | error e =>
      left
      refine ⟨e, ?_⟩
      simp only [transactional, h]
  | ok so =>
      right
      refine ⟨so.1, so.2, ?_, rfl⟩
      simp only [transactional, h]

/-- The invariant rule for such a machine: failed steps and committed ones apart. -/
theorem transactional_invariant_of_steps {P : Step σ ι (Except ε ο) → Prop}
    {I : List (Step σ ι (Except ε ο)) → σ → Prop} {s₀ : σ} (h₀ : I [] s₀)
    (hfail : ∀ t s i e, I t s → P ⟨s, i, .error e⟩ → I (t ++ [⟨s, i, .error e⟩]) s)
    (hok : ∀ t s i s' o, I t s → P ⟨s, i, .ok o⟩ → exec s i = .ok (s', o) →
      I (t ++ [⟨s, i, .ok o⟩]) s')
    (is : List ι) (hP : ∀ e ∈ (transactional exec).trace s₀ is, P e) :
    I ((transactional exec).trace s₀ is) ((transactional exec).final s₀ is) := by
  refine (transactional exec).invariant_of_steps h₀ ?_ is hP
  intro t s i hI hp
  rcases transactional_cases exec s i with ⟨e, hstep⟩ | ⟨s', o, hstep, hexec⟩
  · rw [stepAt, hstep] at hp ⊢
    exact hfail t s i e hI hp
  · rw [stepAt, hstep] at hp ⊢
    exact hok t s i s' o hI hp hexec

theorem transactional_invariant {I : List (Step σ ι (Except ε ο)) → σ → Prop} {s₀ : σ}
    (h₀ : I [] s₀)
    (hfail : ∀ t s i e, I t s → I (t ++ [⟨s, i, .error e⟩]) s)
    (hok : ∀ t s i s' o, I t s → exec s i = .ok (s', o) → I (t ++ [⟨s, i, .ok o⟩]) s')
    (is : List ι) :
    I ((transactional exec).trace s₀ is) ((transactional exec).final s₀ is) :=
  transactional_invariant_of_steps (P := fun _ => True) h₀ (fun t s i e h _ => hfail t s i e h)
    (fun t s i s' o h _ hexec => hok t s i s' o h hexec) is (fun _ _ => trivial)

/-- A property of states alone needs a look at the committed steps only. -/
theorem transactional_stable {J : σ → Prop}
    (hok : ∀ s i s' o, J s → exec s i = .ok (s', o) → J s') {s : σ} (h : J s) (is : List ι) :
    J ((transactional exec).final s is) :=
  transactional_invariant (I := fun _ s => J s) h (fun _ _ _ _ h => h)
    (fun _ s i s' o h hexec => hok s i s' o h hexec) is

end Machine

end OpaqueStellar.Lib
