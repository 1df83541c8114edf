import OpaqueStellar.Lib.Machine

/-! # Code that awaits

Several pieces of asynchronous code work on one shared state and on one thread. Each of them runs
without interruption until it awaits something; what happens before it is answered is up to the
others. `Async` is such a piece of code, as a tree of atomic sections that are cut at the calls.

`System` runs any number of them: an input starts one, answers a call, lets something happen outside
or kills the process. `Safe` is the logic for one piece of code. It may rely on what the others do
while it waits and guarantees what it does itself; `System.run_safe` puts the pieces together. -/

namespace OpaqueStellar.Lib

/-- Code over the state `σ` that awaits calls `κ`, is answered by `ρ` and returns an `α` or throws
an `ε`. -/
inductive Async (σ κ ρ ε α : Type) : Type where
  | done (r : Except ε α)
  | look (k : σ → Async σ κ ρ ε α)
  | put (s : σ) (next : Async σ κ ρ ε α)
  | await (c : κ) (k : ρ → Async σ κ ρ ε α)

namespace Async

variable {σ κ ρ ε α β : Type}

def bind : Async σ κ ρ ε α → (α → Async σ κ ρ ε β) → Async σ κ ρ ε β
  | done (.ok a), f => f a
  | done (.error e), _ => done (.error e)
  | look k, f => look fun s => (k s).bind f
  | put s next, f => put s (next.bind f)
  | await c k, f => await c fun r => (k r).bind f

instance : Monad (Async σ κ ρ ε) where
  pure a := done (.ok a)
  bind := bind

def throw (e : ε) : Async σ κ ρ ε α := done (.error e)

/-- `try … catch`: what the code did before it threw stays done. -/
def tryCatch : Async σ κ ρ ε α → (ε → Async σ κ ρ ε α) → Async σ κ ρ ε α
  | done (.ok a), _ => done (.ok a)
  | done (.error e), h => h e
  | look k, h => look fun s => (k s).tryCatch h
  | put s next, h => put s (next.tryCatch h)
  | await c k, h => await c fun r => (k r).tryCatch h

def get : Async σ κ ρ ε σ := look fun s => done (.ok s)

def gets (f : σ → α) : Async σ κ ρ ε α := look fun s => done (.ok (f s))

def modify (f : σ → σ) : Async σ κ ρ ε Unit := look fun s => put (f s) (done (.ok ()))

/-- Await a call. -/
def call (c : κ) : Async σ κ ρ ε ρ := await c fun r => done (.ok r)

/-- `try … finally`, where the last part awaits nothing. -/
def tryFinally (x : Async σ κ ρ ε α) (f : Except ε α → σ → σ) : Async σ κ ρ ε α :=
  match x with
  | done r => look fun s => put (f r s) (done r)
  | look k => look fun s => (k s).tryFinally f
  | put s next => put s (next.tryFinally f)
  | await c k => await c fun r => (k r).tryFinally f

/-- Where code stops: it has ended, or it awaits a call. -/
inductive Stop (σ κ ρ ε α : Type) : Type where
  | ended (r : Except ε α)
  | waits (c : κ) (k : ρ → Async σ κ ρ ε α)

/-- Run up to the next call. -/
def advance : Async σ κ ρ ε α → σ → σ × Stop σ κ ρ ε α
  | done r, s => (s, .ended r)
  | look k, s => (k s).advance s
  | put s next, _ => next.advance s
  | await c k, s => (s, .waits c k)

/-! ## The logic of one piece of code -/

/-- What the code with this number may assume of the others and owes to them. -/
structure Rules (σ κ ρ : Type) where
  /-- What may happen while it awaits this call. -/
  rely : ℕ → κ → σ → σ → Prop
  /-- What one of its sections may do. -/
  guar : ℕ → σ → σ → Prop
  /-- When it may make this call. -/
  may : ℕ → κ → σ → Prop
  /-- Which answers to this call are considered. -/
  hears : ℕ → κ → ρ → σ → Prop

variable {R : Rules σ κ ρ} {i : ℕ}

/-- From the state `s`, in a section that began in `s₀`, the code keeps to its rules and ends as `Q`
says. -/
def Safe (R : Rules σ κ ρ) (i : ℕ) (Q : Except ε α → σ → σ → Prop) :
    Async σ κ ρ ε α → σ → σ → Prop
  | done r, s₀, s => Q r s₀ s
  | look k, s₀, s => Safe R i Q (k s) s₀ s
  | put s next, s₀, _ => Safe R i Q next s₀ s
  | await c k, s₀, s => R.guar i s₀ s ∧ R.may i c s ∧
      ∀ s', R.rely i c s s' → ∀ r, R.hears i c r s' → Safe R i Q (k r) s' s'

/-- What has to hold after the first part of a sequence. -/
def andThen (R : Rules σ κ ρ) (i : ℕ) (Q : Except ε β → σ → σ → Prop) (f : α → Async σ κ ρ ε β) :
    Except ε α → σ → σ → Prop
  | .ok a, s₀, s => Safe R i Q (f a) s₀ s
  | .error e, s₀, s => Q (.error e) s₀ s

/-- What has to hold after code whose failures are handled. -/
def orElse (R : Rules σ κ ρ) (i : ℕ) (Q : Except ε α → σ → σ → Prop) (h : ε → Async σ κ ρ ε α) :
    Except ε α → σ → σ → Prop
  | .ok a, s₀, s => Q (.ok a) s₀ s
  | .error e, s₀, s => Safe R i Q (h e) s₀ s

section Rules

variable {Q Q' : Except ε α → σ → σ → Prop} {s₀ s : σ}

theorem Safe.mono {x : Async σ κ ρ ε α} (h : Safe R i Q x s₀ s)
    (himp : ∀ r s₀ s, Q r s₀ s → Q' r s₀ s) : Safe R i Q' x s₀ s := by
  induction x generalizing s₀ s with
  | done r => exact himp r s₀ s h
  | look k ih => exact ih s h
  | put s' next ih => exact ih h
  | await c k ih =>
      obtain ⟨hguar, hmay, hnext⟩ := h
      refine ⟨hguar, hmay, ?_⟩
      intro s' hrely r hr
      exact ih r (hnext s' hrely r hr)

/-- What neither the others nor the code itself put an end to can be carried along. -/
theorem Safe.frame {A : σ → Prop} {x : Async σ κ ρ ε α} (h : Safe R i Q x s₀ s)
    (hrely : ∀ c s s', R.rely i c s s' → A s → A s') (hguar : ∀ s s', R.guar i s s' → A s → A s')
    (hA : A s₀) : Safe R i (fun r s₀ s => Q r s₀ s ∧ A s₀) x s₀ s := by
  induction x generalizing s₀ s with
  | done r => exact ⟨h, hA⟩
  | look k ih => exact ih s h hA
  | put s' next ih => exact ih h hA
  | await c k ih =>
      obtain ⟨hs, hmay, hnext⟩ := h
      refine ⟨hs, hmay, ?_⟩
      intro s' hs' r hr
      exact ih r (hnext s' hs' r hr) (hrely c s s' hs' (hguar s₀ s hs hA))

@[simp] theorem safe_bind {Q : Except ε β → σ → σ → Prop} {x : Async σ κ ρ ε α}
    {f : α → Async σ κ ρ ε β} :
    Safe R i Q (x >>= f) s₀ s ↔ Safe R i (andThen R i Q f) x s₀ s := by
  show Safe R i Q (x.bind f) s₀ s ↔ _
  induction x generalizing s₀ s with
  | done r => cases r <;> rfl
  | look k ih => exact ih s
  | put s' next ih => exact ih
  | await c k ih => simp only [bind, Safe, ih]

@[simp] theorem safe_tryCatch {x : Async σ κ ρ ε α} {h : ε → Async σ κ ρ ε α} :
    Safe R i Q (x.tryCatch h) s₀ s ↔ Safe R i (orElse R i Q h) x s₀ s := by
  induction x generalizing s₀ s with
  | done r => cases r <;> rfl
  | look k ih => exact ih s
  | put s' next ih => exact ih
  | await c k ih => simp only [tryCatch, Safe, ih]

@[simp] theorem safe_tryFinally {x : Async σ κ ρ ε α} {f : Except ε α → σ → σ} :
    Safe R i Q (x.tryFinally f) s₀ s ↔ Safe R i (fun r s₀ s => Q r s₀ (f r s)) x s₀ s := by
  induction x generalizing s₀ s with
  | done r => rfl
  | look k ih => exact ih s
  | put s' next ih => exact ih
  | await c k ih => simp only [tryFinally, Safe, ih]

@[simp] theorem safe_pure {a : α} :
    Safe R i Q (pure a : Async σ κ ρ ε α) s₀ s ↔ Q (.ok a) s₀ s := Iff.rfl

@[simp] theorem safe_throw {e : ε} :
    Safe R i Q (throw e : Async σ κ ρ ε α) s₀ s ↔ Q (.error e) s₀ s := Iff.rfl

@[simp] theorem safe_get {Q : Except ε σ → σ → σ → Prop} :
    Safe R i Q (get : Async σ κ ρ ε σ) s₀ s ↔ Q (.ok s) s₀ s := Iff.rfl

@[simp] theorem safe_gets {f : σ → α} :
    Safe R i Q (gets f : Async σ κ ρ ε α) s₀ s ↔ Q (.ok (f s)) s₀ s := Iff.rfl

@[simp] theorem safe_modify {Q : Except ε Unit → σ → σ → Prop} {f : σ → σ} :
    Safe R i Q (modify f : Async σ κ ρ ε Unit) s₀ s ↔ Q (.ok ()) s₀ (f s) := Iff.rfl

@[simp] theorem safe_call {Q : Except ε ρ → σ → σ → Prop} {c : κ} :
    Safe R i Q (call c : Async σ κ ρ ε ρ) s₀ s ↔ R.guar i s₀ s ∧ R.may i c s ∧
      ∀ s', R.rely i c s s' → ∀ r, R.hears i c r s' → Q (.ok r) s' s' := Iff.rfl

@[simp] theorem andThen_ok {Q : Except ε β → σ → σ → Prop} {f : α → Async σ κ ρ ε β} {a : α} :
    andThen R i Q f (.ok a) s₀ s ↔ Safe R i Q (f a) s₀ s := Iff.rfl

@[simp] theorem andThen_error {Q : Except ε β → σ → σ → Prop} {f : α → Async σ κ ρ ε β} {e : ε} :
    andThen R i Q f (.error e) s₀ s ↔ Q (.error e) s₀ s := Iff.rfl

@[simp] theorem orElse_ok {h : ε → Async σ κ ρ ε α} {a : α} :
    orElse R i Q h (.ok a) s₀ s ↔ Q (.ok a) s₀ s := Iff.rfl

@[simp] theorem orElse_error {h : ε → Async σ κ ρ ε α} {e : ε} :
    orElse R i Q h (.error e) s₀ s ↔ Safe R i Q (h e) s₀ s := Iff.rfl

/-- What has thrown has returned nothing. -/
theorem failed_elim {e : ε} {a : α} {P : Prop} (h : (.error e : Except ε α) = .ok a) : P := by
  cases h

end Rules

end Async

namespace Async

variable {σ κ ρ ε α : Type} {R : Rules σ κ ρ} {i : ℕ} {Q : Except ε α → σ → σ → Prop}

/-- Safe code keeps to its rules where it stops. -/
theorem Safe.of_advance {x : Async σ κ ρ ε α} {s₀ s : σ} (h : Safe R i Q x s₀ s) :
    (∀ r, (x.advance s).2 = .ended r → Q r s₀ (x.advance s).1) ∧
      ∀ c k, (x.advance s).2 = .waits c k →
        R.guar i s₀ (x.advance s).1 ∧ R.may i c (x.advance s).1 ∧
          ∀ s', R.rely i c (x.advance s).1 s' → ∀ r, R.hears i c r s' →
            Safe R i Q (k r) s' s' := by
  induction x generalizing s₀ s with
  | done r =>
      refine ⟨?_, ?_⟩
      · intro r' hr'
        cases hr'
        exact h
      · intro c k hstop
        cases hstop
  | look k ih => exact ih s h
  | put s' next ih => exact ih h
  | await c k ih =>
      refine ⟨?_, ?_⟩
      · intro r hr
        cases hr
      · intro c' k' hstop
        cases hstop
        exact h

end Async

/-! ## A system of them -/

/-- A piece of code that awaits a call. Its tag says what it was started for. -/
structure Task (τ σ κ ρ ε α : Type) where
  id : ℕ
  tag : τ
  call : κ
  next : ρ → Async σ κ ρ ε α

structure System (τ σ κ ρ ε α : Type) where
  shared : σ
  tasks : List (Task τ σ κ ρ ε α) := []
  -- the number of the next task
  fresh : ℕ := 0

namespace System

variable {τ σ κ ρ ε α η : Type}

inductive Input (τ ρ η : Type) : Type where
  | start (t : τ)
  | reply (id : ℕ) (r : ρ)
  | outside (e : η)
  -- the process dies and comes up again
  | restart

inductive Output (τ κ ε α : Type) : Type where
  | idle
  | awaits (id : ℕ) (c : κ)
  | ended (t : τ) (r : Except ε α)
  deriving DecidableEq

/-- What a system is made of. -/
structure Setup (τ σ κ ρ ε α η : Type) where
  /-- The code of a task, which knows its own number. -/
  code : ℕ → τ → Async σ κ ρ ε α
  /-- Can the call be answered so, as things stand? -/
  ready : κ → ρ → σ → Bool
  outside : σ → η → σ
  /-- What the next process starts from. -/
  reboot : σ → σ

variable (m : Setup τ σ κ ρ ε α η)

/-- Run a section of a task; the others are `rest`. -/
def advance (x : Async σ κ ρ ε α) (id : ℕ) (t : τ) (s : σ) (rest : List (Task τ σ κ ρ ε α))
    (fresh : ℕ) : System τ σ κ ρ ε α × Output τ κ ε α :=
  match x.advance s with
  | (s', .ended r) => (⟨s', rest, fresh⟩, .ended t r)
  | (s', .waits c k) => (⟨s', rest ++ [⟨id, t, c, k⟩], fresh⟩, .awaits id c)

def step (sys : System τ σ κ ρ ε α) : Input τ ρ η → System τ σ κ ρ ε α × Output τ κ ε α
  | .start t => advance (m.code sys.fresh t) sys.fresh t sys.shared sys.tasks (sys.fresh + 1)
  | .reply id r =>
      match sys.tasks.find? (fun task => task.id = id) with
      | none => (sys, .idle)
      | some task =>
          if m.ready task.call r sys.shared then
            advance (task.next r) id task.tag sys.shared
              (sys.tasks.filter fun task => task.id ≠ id) sys.fresh
          else (sys, .idle)
  | .outside e => ({ sys with shared := m.outside sys.shared e }, .idle)
  | .restart => (⟨m.reboot sys.shared, [], sys.fresh⟩, .idle)

def machine : Machine (System τ σ κ ρ ε α) (Input τ ρ η) (Output τ κ ε α) := ⟨step m⟩

abbrev Step (τ σ κ ρ ε α η : Type) :=
  Machine.Step (System τ σ κ ρ ε α) (Input τ ρ η) (Output τ κ ε α)

/-! ## Putting the pieces together -/

/-- Which steps are considered, besides the answers. -/
structure Terms (τ σ κ η : Type) where
  start : ℕ → τ → σ → Prop
  /-- The calls that are awaited are known. -/
  outside : (ℕ → κ → Prop) → σ → η → Prop
  restart : σ → Prop

/-- The call that the task with this number awaits. -/
def Awaits (sys : System τ σ κ ρ ε α) (id : ℕ) (c : κ) : Prop :=
  ∃ task ∈ sys.tasks, task.id = id ∧ task.call = c

/-- A step on these terms. -/
def Allowed (R : Async.Rules σ κ ρ) (T : Terms τ σ κ η) (e : Step τ σ κ ρ ε α η) : Prop :=
  match e.input with
  | .start t => T.start e.pre.fresh t e.pre.shared
  | .reply id r => ∀ c, e.pre.Awaits id c → m.ready c r e.pre.shared = true →
      R.hears id c r e.pre.shared
  | .outside x => T.outside e.pre.Awaits e.pre.shared x
  | .restart => T.restart e.pre.shared

/-- What a section that runs during a step does. -/
structure Kept (R : Async.Rules σ κ ρ) (Post : τ → Except ε α → σ → Prop) (s : σ)
    (next : System τ σ κ ρ ε α × Output τ κ ε α) : Prop where
  guar : ∃ id, R.guar id s next.1.shared
  may : ∀ id c, next.2 = .awaits id c → R.may id c next.1.shared
  post : ∀ t r, next.2 = .ended t r → Post t r next.1.shared

/-- A task that waits for its answer is safe. -/
def Waiting (R : Async.Rules σ κ ρ) (Post : τ → Except ε α → σ → Prop)
    (s : σ) (task : Task τ σ κ ρ ε α) : Prop :=
  ∀ s', R.rely task.id task.call s s' → ∀ r, R.hears task.id task.call r s' →
    Async.Safe R task.id (fun r s₀ s => R.guar task.id s₀ s ∧ Post task.tag r s) (task.next r) s' s'

section Soundness

variable {m} {R : Async.Rules σ κ ρ} {T : Terms τ σ κ η} {Inv : σ → Prop}
  {Post : τ → Except ε α → σ → Prop}

/-- The pieces fit together. -/
structure Fits (m : Setup τ σ κ ρ ε α η) (R : Async.Rules σ κ ρ) (T : Terms τ σ κ η)
    (Inv : σ → Prop) (Post : τ → Except ε α → σ → Prop) : Prop where
  refl : ∀ i c s, Inv s → R.rely i c s s
  trans : ∀ i c s s' s'', R.rely i c s s' → R.rely i c s' s'' → R.rely i c s s''
  /-- What one does is what the others rely on. -/
  other : ∀ i j c s s', Inv s → i ≠ j → R.guar i s s' → R.rely j c s s'
  inv : ∀ i s s', Inv s → R.guar i s s' → Inv s'
  start : ∀ i t s, Inv s → T.start i t s →
    Async.Safe R i (fun r s₀ s => R.guar i s₀ s ∧ Post t r s) (m.code i t) s s
  outside : ∀ awaits s e, Inv s → T.outside awaits s e →
    Inv (m.outside s e) ∧ ∀ i c, awaits i c → R.rely i c s (m.outside s e)
  restart : ∀ s, Inv s → T.restart s → Inv (m.reboot s)

/-- Between two steps the invariant holds and every task is safe. -/
structure Sound (R : Async.Rules σ κ ρ) (Inv : σ → Prop) (Post : τ → Except ε α → σ → Prop)
    (sys : System τ σ κ ρ ε α) : Prop where
  inv : Inv sys.shared
  waiting : ∀ task ∈ sys.tasks, Waiting R Post sys.shared task
  old : ∀ task ∈ sys.tasks, task.id < sys.fresh

theorem Waiting.mono (hfits : Fits m R T Inv Post) {s s' : σ} {task : Task τ σ κ ρ ε α}
    (h : Waiting R Post s task) (hrely : R.rely task.id task.call s s') :
    Waiting R Post s' task :=
  fun s'' hrely' => h s'' (hfits.trans _ _ _ _ _ hrely hrely')

/-- **A section of one task**, while the others wait. -/
theorem sound_advance (hfits : Fits m R T Inv Post) {x : Async σ κ ρ ε α} {id : ℕ} {t : τ} {s : σ}
    {rest : List (Task τ σ κ ρ ε α)} {fresh : ℕ} (hinv : Inv s)
    (hsafe : Async.Safe R id (fun r s₀ s => R.guar id s₀ s ∧ Post t r s) x s s)
    (hrest : ∀ task ∈ rest, Waiting R Post s task) (hold : ∀ task ∈ rest, task.id < fresh)
    (hid : id < fresh) (hother : ∀ task ∈ rest, id ≠ task.id) :
    Kept R Post s (advance x id t s rest fresh) ∧
      Sound R Inv Post (advance x id t s rest fresh).1 := by
  obtain ⟨hended, hwaits⟩ := hsafe.of_advance
  have hmono : ∀ s', R.guar id s s' → ∀ task ∈ rest, Waiting R Post s' task := by
    intro s' hguar task htask
    exact (hrest task htask).mono hfits (hfits.other id _ _ _ _ hinv (hother task htask) hguar)
  unfold advance
  rcases hstop : x.advance s with ⟨s', r | ⟨c, k⟩⟩
  · rw [hstop] at hended
    obtain ⟨hguar, hpost⟩ := hended r rfl
    refine ⟨⟨⟨id, hguar⟩, ?_, ?_⟩, ⟨hfits.inv _ _ _ hinv hguar, hmono s' hguar, hold⟩⟩
    · intro id' c hc
      cases hc
    · intro t' r' hr'
      cases hr'
      exact hpost
  · rw [hstop] at hwaits
    obtain ⟨hguar, hmay, hnext⟩ := hwaits c k rfl
    refine ⟨⟨⟨id, hguar⟩, ?_, ?_⟩, ⟨hfits.inv _ _ _ hinv hguar, ?_, ?_⟩⟩
    · intro id' c' hc'
      cases hc'
      exact hmay
    · intro t' r hr
      cases hr
    · intro task htask
      rcases List.mem_append.mp htask with htask | htask
      · exact hmono s' hguar task htask
      · rw [List.mem_singleton.mp htask]
        exact hnext
    · intro task htask
      rcases List.mem_append.mp htask with htask | htask
      · exact hold task htask
      · rw [List.mem_singleton.mp htask]
        exact hid

/-- What a step on these terms does: it runs a section that keeps to its rules, or runs none. -/
def StepKept (R : Async.Rules σ κ ρ) (Post : τ → Except ε α → σ → Prop)
    (e : Step τ σ κ ρ ε α η) (next : System τ σ κ ρ ε α × Output τ κ ε α) : Prop :=
  match e.input with
  | .start _ => Kept R Post e.pre.shared next
  | .reply _ _ => next = (e.pre, .idle) ∨ Kept R Post e.pre.shared next
  | .outside _ => next.2 = .idle
  | .restart => next.2 = .idle

/-- A step that calls or ends something runs a section. -/
theorem StepKept.kept {e : Step τ σ κ ρ ε α η} {next : System τ σ κ ρ ε α × Output τ κ ε α}
    (h : StepKept R Post e next) (hout : next.2 ≠ .idle) : Kept R Post e.pre.shared next := by
  unfold StepKept at h
  split at h
  · exact h
  · rcases h with rfl | hkept
    · exact absurd rfl hout
    · exact hkept
  · exact absurd h hout
  · exact absurd h hout

theorem sound_step (hfits : Fits m R T Inv Post) {sys : System τ σ κ ρ ε α} {i : Input τ ρ η}
    (h : Sound R Inv Post sys) (hallowed : Allowed m R T ((machine m).stepAt sys i)) :
    StepKept R Post ((machine m).stepAt sys i) (step m sys i) ∧
      Sound R Inv Post (step m sys i).1 := by
  cases i with
  | start t =>
      refine sound_advance hfits h.inv (hfits.start _ _ _ h.inv hallowed) h.waiting ?_
        (Nat.lt_succ_self _) ?_
      · intro task htask
        exact Nat.lt_succ_of_lt (h.old task htask)
      · intro task htask
        exact Nat.ne_of_gt (h.old task htask)
  | reply id r =>
      have hidle : StepKept R Post ((machine m).stepAt sys (.reply id r)) (sys, .idle) ∧
          Sound R Inv Post sys := ⟨.inl rfl, h⟩
      cases hfind : sys.tasks.find? (fun task => task.id = id) with
      | none => simpa only [step, hfind] using hidle
      | some task =>
          have hmem := List.mem_of_find?_eq_some hfind
          have hid : task.id = id := by simpa using List.find?_some hfind
          subst hid
          by_cases hready : m.ready task.call r sys.shared = true
          · have hhears := hallowed task.call ⟨task, hmem, rfl, rfl⟩ hready
            have hsafe := h.waiting task hmem sys.shared (hfits.refl _ _ _ h.inv) r hhears
            simp only [step, hfind, hready, if_true]
            suffices hkept : Kept R Post sys.shared
                (advance (task.next r) task.id task.tag sys.shared
                  (sys.tasks.filter fun other => other.id ≠ task.id) sys.fresh) ∧ _ from
              ⟨.inr hkept.1, hkept.2⟩
            refine sound_advance hfits h.inv hsafe ?_ ?_ (h.old task hmem) ?_
            · intro other hother
              exact h.waiting other (List.mem_filter.mp hother).1
            · intro other hother
              exact h.old other (List.mem_filter.mp hother).1
            · intro other hother heq
              simpa [heq] using (List.mem_filter.mp hother).2
          · simpa only [step, hfind, if_neg hready] using hidle
  | outside e =>
      obtain ⟨hinv, hrely⟩ := hfits.outside _ _ _ h.inv hallowed
      refine ⟨rfl, ⟨hinv, ?_, h.old⟩⟩
      intro task htask
      exact (h.waiting task htask).mono hfits (hrely _ _ ⟨task, htask, rfl, rfl⟩)
  | restart =>
      refine ⟨rfl, ⟨hfits.restart _ h.inv hallowed, ?_, ?_⟩⟩
      · intro task htask
        cases htask
      · intro task htask
        cases htask

/-- **Every run on these terms**: the invariant holds at each step and in the end, and each step kept
to the rules. -/
theorem run_safe (hfits : Fits m R T Inv Post) {s₀ : σ} (h₀ : Inv s₀) (is : List (Input τ ρ η))
    (hallowed : ∀ e ∈ (machine m).trace ⟨s₀, [], 0⟩ is, Allowed m R T e) :
    Sound R Inv Post ((machine m).final ⟨s₀, [], 0⟩ is) ∧
      ∀ e ∈ (machine m).trace ⟨s₀, [], 0⟩ is,
        Inv e.pre.shared ∧ StepKept R Post e (step m e.pre e.input) := by
  have hempty : Sound R Inv Post (⟨s₀, [], 0⟩ : System τ σ κ ρ ε α) := by
    refine ⟨h₀, ?_, ?_⟩
    · intro task htask
      cases htask
    · intro task htask
      cases htask
  refine (machine m).invariant_of_steps (P := Allowed m R T)
    (I := fun t sys => Sound R Inv Post sys ∧
      ∀ e ∈ t, Inv e.pre.shared ∧ StepKept R Post e (step m e.pre e.input))
    ⟨hempty, fun e he => nomatch he⟩ ?_ is hallowed
  rintro t sys i ⟨hsound, hkept⟩ hi
  obtain ⟨hstep, hnext⟩ := sound_step hfits hsound hi
  refine ⟨hnext, ?_⟩
  intro e he
  rcases List.mem_append.mp he with he | he
  · exact hkept e he
  · rw [List.mem_singleton.mp he]
    exact ⟨hsound.inv, hstep⟩

end Soundness

end System

end OpaqueStellar.Lib
