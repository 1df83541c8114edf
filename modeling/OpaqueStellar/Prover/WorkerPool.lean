import OpaqueStellar.Lib.Binary64
import OpaqueStellar.Lib.Lists
import OpaqueStellar.Lib.Machine
import OpaqueStellar.Schemas.Core
import Mathlib.Data.List.Nodup
import Mathlib.Data.Rat.Floor

/-! # Proving on workers

`runProofJobs` and `WorkerLikePool` of `sdk/src/prove/worker-pool.ts`. The workers answer in any order; an input
of the machine is a worker's next answer.

For each job that it posts the pool attaches two listeners to the worker, one for messages and one for errors.
Each is called once. The listeners of a job share a flag, so that the one that was not called stays attached
without harm: at any time one of a worker's listeners at most is not stale (`Ready`), and it is the one of the
job the worker has.

`postMessage` throws if it cannot clone the job. It is only for the first jobs that the promise of `exec` sees
that; later `pump` runs in a listener, and the job is lost. -/

namespace OpaqueStellar.Prover.WorkerPool

open OpaqueStellar.Lib
open OpaqueStellar.Schemas (Str)

/-! ## The pool -/

section Model

variable {Job R E : Type}

/-- What a promise is rejected with. -/
inductive Reason (E : Type) where
  -- `new Error(msg.error)`
  | workerError (text : Str)
  -- of an error event
  | event (err : E)
  -- by `fullProve`
  | thrown (err : E)
  | dataCloneError
  | rangeError

def reason : Except (Reason E) R → Option (Reason E)
  | .ok _ => none
  | .error reason => some reason

/-- `exec` with the promise that it returns. -/
structure Task (Job : Type) where
  job : Job
  promise : ℕ

/-- What the two listeners of a job share. -/
structure Dispatch (Job : Type) where
  worker : ℕ
  task : Task Job
  settled : Bool

inductive Channel where
  | message
  | error
  deriving DecidableEq

structure Pool (Job R E : Type) where
  idle : List ℕ
  queue : List (Task Job)
  dispatches : List (Dispatch Job)
  listeners : Channel → ℕ → List ℕ
  -- what was posted to a worker, and is not answered yet
  inbox : ℕ → List (Task Job)
  posted : List (Task Job)
  promises : ℕ → Option (Except (Reason E) R)
  -- what `Promise.all` is rejected with
  rejected : Option (Reason E)
  answers : List (Task Job × Except (Reason E) R)
  -- by an exception that nobody catches
  exited : Bool

/-- How a worker fails. -/
inductive Failure (E : Type) where
  | text (error : Str)
  | event (err : E)

structure Env (Job R E : Type) where
  fullProve : Job → Except E R
  -- the structured clone algorithm takes the job
  clonable : Job → Bool
  -- what nobody catches ends the process
  exits : Bool
  -- there is a worker runtime
  workers : Bool
  defaultPoolSize : ℕ

variable (env : Env Job R E)

/-- What a worker answers. -/
def Env.answer (job : Job) (failure : Failure E) : Channel × Except (Reason E) R :=
  match env.fullProve job with
  | .ok result => (.message, .ok result)
  | .error _ =>
    match failure with
    | .text error => (.message, .error (.workerError error))
    | .event err => (.error, .error (.event err))

namespace Pool

def start (workers : ℕ) : Pool Job R E where
  idle := List.range workers
  queue := []
  dispatches := []
  listeners _ _ := []
  inbox _ := []
  posted := []
  promises _ := none
  rejected := none
  answers := []
  exited := false

def listen (p : Pool Job R E) (w : ℕ) (t : Task Job) : Pool Job R E :=
  { p with
    dispatches := p.dispatches ++ [⟨w, t, false⟩]
    listeners := fun c => Function.update (p.listeners c) w (p.listeners c w ++ [p.dispatches.length]) }

def unlisten (p : Pool Job R E) (c : Channel) (w k : ℕ) : Pool Job R E :=
  { p with
    listeners := Function.update p.listeners c (Function.update (p.listeners c) w ((p.listeners c w).erase k)) }

def postMessage (p : Pool Job R E) (w : ℕ) (t : Task Job) : Pool Job R E :=
  { p with inbox := Function.update p.inbox w (p.inbox w ++ [t]), posted := p.posted ++ [t] }

/-- `resolve` and `reject` of a promise; `Promise.all` waits for it. -/
def settle (p : Pool Job R E) (promise : ℕ) (outcome : Except (Reason E) R) : Pool Job R E :=
  match p.promises promise with
  | some _ => p
  | none =>
    { p with
      promises := Function.update p.promises promise (some outcome)
      rejected := p.rejected.or (reason outcome) }

/-- The loop of `pump`, and whether it has thrown. -/
def pumpQueue : List (Task Job) → Pool Job R E → Pool Job R E × Bool
  | [], p => (p, false)
  | t :: queue, p =>
    match p.idle with
    | [] => (p, false)
    | w :: idle =>
      let p := { p with idle := idle, queue := queue }.listen w t
      if env.clonable t.job then pumpQueue queue (p.postMessage w t) else (p, true)

def pump (p : Pool Job R E) : Pool Job R E × Bool := pumpQueue env p.queue p

/-- An exception in the promise's executor rejects it. -/
def exec (p : Pool Job R E) (t : Task Job) : Pool Job R E :=
  match pump env { p with queue := p.queue ++ [t] } with
  | (p, false) => p
  | (p, true) => p.settle t.promise (.error .dataCloneError)

def finish (p : Pool Job R E) (k : ℕ) (outcome : Except (Reason E) R) : Pool Job R E × Bool :=
  match p.dispatches[k]? with
  | none => (p, false)
  | some d =>
    if d.settled then (p, false)
    else
      pump env ({ p with
        dispatches := p.dispatches.set k { d with settled := true }
        idle := p.idle ++ [d.worker] }.settle d.task.promise outcome)

/-- The listeners that are attached when the event is dispatched are called. -/
def emit (c : Channel) (w : ℕ) (outcome : Except (Reason E) R) : List ℕ → Pool Job R E → Pool Job R E
  | [], p => p
  | k :: rest, p =>
    match (p.unlisten c w k).finish env k outcome with
    | (p, threw) => if threw && env.exits then { p with exited := true } else emit c w outcome rest p

def answered (p : Pool Job R E) (w index : ℕ) (t : Task Job) (outcome : Except (Reason E) R) : Pool Job R E :=
  { p with
    inbox := Function.update p.inbox w ((p.inbox w).eraseIdx index)
    answers := p.answers ++ [(t, outcome)] }

/-- A worker answers one of the jobs it has. -/
def reply (p : Pool Job R E) (w index : ℕ) (failure : Failure E) : Pool Job R E :=
  match (p.inbox w)[index]? with
  | none => p
  | some t =>
    match env.answer t.job failure with
    | (c, outcome) => emit env c w outcome (p.listeners c w) (p.answered w index t outcome)

/-- `Promise.all` of so many promises. -/
def outcome (p : Pool Job R E) (count : ℕ) : Option (Except (Reason E) (List R)) :=
  match p.rejected with
  | some reason => some (.error reason)
  | none => ((List.range count).mapM fun i => (p.promises i).bind Except.toOption).map .ok

end Pool

inductive Input (E : Type) where
  | reply (worker index : ℕ) (failure : Failure E)

def machine : Machine (Pool Job R E) (Input E) Unit where
  step p
    | .reply w index failure => (if p.exited then p else p.reply env w index failure, ())

/-! ## `runProofJobs` -/

/-- All jobs, with the promises `Promise.all` waits for. -/
def tasks (jobs : List Job) : List (Task Job) := jobs.zipIdx.map fun e => ⟨e.1, e.2⟩

/-- The execution of all jobs has begun. -/
def begin (jobs : List Job) (workers : ℕ) : Pool Job R E :=
  (tasks jobs).foldl (Pool.exec env) (.start workers)

def runSerial (jobs : List Job) : Except (Reason E) (List R) :=
  jobs.mapM fun job => (env.fullProve job).mapError .thrown

structure ProofPoolOptions where
  size : Option Double
  -- a pool of the caller, with so many workers
  transport : Option ℕ

inductive PoolOption where
  | off
  | on (options : ProofPoolOptions)

/-- `Array.from({ length })` of `Math.max(1, size)`; arrays have less than `2 ^ 32` items. -/
def workersOf (size : Double) : Option ℕ :=
  match size with
  | .nan => some 0
  | .infinity negative => if negative then some 1 else none
  | .finite n => if ⌊max 1 n⌋.toNat < 2 ^ 32 then some ⌊max 1 n⌋.toNat else none

/-- The workers of the pool, unless making them throws. -/
def ProofPoolOptions.workers (options : ProofPoolOptions) : Option ℕ :=
  match options.transport with
  | some workers => some workers
  | none => workersOf (options.size.getD (.finite env.defaultPoolSize))

inductive Run (R E : Type) where
  | settled (outcome : Except (Reason E) (List R))
  | pooled (workers : ℕ)

def runProofJobs (jobs : List Job) (pool : PoolOption) : Run R E :=
  if jobs.length = 0 then .settled (.ok [])
  else
    match pool with
    | .off => .settled (runSerial env jobs)
    | .on options =>
      if jobs.length = 1 then .settled (runSerial env jobs)
      else if options.transport.isNone && !env.workers then .settled (runSerial env jobs)
      else
        match options.workers env with
        | some workers => .pooled workers
        | none => .settled (.error .rangeError)

end Model

/-! ## One job for each worker -/

section Invariant

variable {Job R E : Type} {env : Env Job R E} {n : ℕ} {ts : List (Task Job)} {p : Pool Job R E}
  {t : Task Job} {w k : ℕ} {outcome : Except (Reason E) R}

/-- A worker is free, or it has the job of the only listeners of it that are not stale. -/
def Works (dispatches : List (Dispatch Job)) (w : ℕ) (inbox : List (Task Job)) : Prop :=
  (inbox = [] ∧ ∀ t, Dispatch.mk w t false ∉ dispatches) ∨
    ∃ (k : ℕ) (t : Task Job), dispatches[k]? = some ⟨w, t, false⟩ ∧ inbox = [t] ∧
      ∀ (k' : ℕ) t', dispatches[k']? = some (Dispatch.mk w t' false) → k' = k

structure Listening (p : Pool Job R E) : Prop where
  attached : ∀ (k w : ℕ) t, p.dispatches[k]? = some (Dispatch.mk w t false) → ∀ c, k ∈ p.listeners c w
  own : ∀ c w, ∀ k ∈ p.listeners c w, ∃ d, p.dispatches[k]? = some d ∧ d.worker = w

/-- The promises are settled by the answers to their jobs. -/
structure Settled (env : Env Job R E) (p : Pool Job R E) : Prop where
  settled : ∀ d ∈ p.dispatches, d.settled = (p.promises d.task.promise).isSome
  queued : ∀ t ∈ p.queue, p.promises t.promise = none
  asked : ∀ a ∈ p.answers, a.1 ∈ p.dispatches.map (·.task)
  once : (p.answers.map (·.1.promise)).Nodup
  promises : ∀ i o, p.promises i = some o ↔ ∃ a ∈ p.answers, a.1.promise = i ∧ a.2 = o
  faithful : ∀ a ∈ p.answers, a.2.toOption = (env.fullProve a.1.job).toOption
  rejected : p.rejected.isSome ↔ ∃ a ∈ p.answers, a.2.toOption = none

/-- `pump` may be called. The tasks are those of all calls of `exec`. -/
structure Ready (env : Env Job R E) (n : ℕ) (ts : List (Task Job)) (p : Pool Job R E) : Prop where
  tasks : p.dispatches.map (·.task) ++ p.queue = ts
  distinct : (ts.map (·.promise)).Nodup
  posted : p.posted = p.dispatches.map (·.task)
  idle : p.idle.Nodup
  free : ∀ w, w ∈ p.idle ↔ w < n ∧ p.inbox w = []
  works : ∀ w, Works p.dispatches w (p.inbox w)
  employed : ∀ d ∈ p.dispatches, d.worker < n
  listening : Listening p
  settled : Settled env p
  running : p.exited = false

/-- Nobody waits for a free worker. -/
structure Pumped (env : Env Job R E) (n : ℕ) (ts : List (Task Job)) (p : Pool Job R E) : Prop where
  ready : Ready env n ts p
  full : p.idle = [] ∨ p.queue = []

theorem ready_start (workers : ℕ) : Pumped env workers [] (.start workers) := by
  refine ⟨?_, .inr rfl⟩
  constructor
  case tasks => rfl
  case distinct => exact List.nodup_nil
  case posted => rfl
  case idle => exact List.nodup_range
  case free => simp [Pool.start]
  case works => exact fun w => .inl ⟨rfl, fun t ht => by cases ht⟩
  case employed => simp [Pool.start]
  case listening => constructor <;> simp [Pool.start]
  case settled => constructor <;> simp [Pool.start]
  case running => rfl

theorem Settled.mem_of_promise {i : ℕ} {o : Except (Reason E) R} (h : Settled env p) (hi : p.promises i = some o) :
    i ∈ (p.dispatches.map (·.task)).map (·.promise) := by
  obtain ⟨a, ha, rfl, -⟩ := (h.promises i o).mp hi
  exact List.mem_map_of_mem (h.asked a ha)

theorem Ready.enqueue (h : Ready env n ts p) (hfresh : t.promise ∉ ts.map (·.promise)) :
    Ready env n (ts ++ [t]) { p with queue := p.queue ++ [t] } := by
  have htasks : p.dispatches.map (·.task) ++ (p.queue ++ [t]) = ts ++ [t] := by
    rw [← List.append_assoc, h.tasks]
  constructor
  case tasks => exact htasks
  case distinct =>
    rw [List.map_append]
    refine List.nodup_append.mpr ⟨h.distinct, by simp, ?_⟩
    rintro i hi j hj rfl
    obtain rfl := List.mem_singleton.mp hj
    exact hfresh hi
  case posted => exact h.posted
  case idle => exact h.idle
  case free => exact h.free
  case works => exact h.works
  case employed => exact h.employed
  case listening => exact ⟨h.listening.attached, h.listening.own⟩
  case running => exact h.running
  case settled =>
    refine { h.settled with queued := fun t' ht' => ?_ }
    rcases List.mem_append.mp ht' with ht' | ht'
    · exact h.settled.queued t' ht'
    · obtain rfl := List.mem_singleton.mp ht'
      by_contra hsome
      obtain ⟨o, ho⟩ := Option.ne_none_iff_exists'.mp hsome
      apply hfresh
      rw [← h.tasks, List.map_append]
      exact List.mem_append_left _ (h.settled.mem_of_promise ho)

theorem Listening.listen (h : Listening p) (w : ℕ) (t : Task Job) : Listening (p.listen w t) := by
  constructor
  case attached =>
    intro k w' t' hk c
    show k ∈ Function.update (p.listeners c) w (p.listeners c w ++ [p.dispatches.length]) w'
    rcases getElem?_snoc.mp hk with hk | ⟨rfl, hnew⟩
    · have hold := h.attached k w' t' hk c
      by_cases hw : w' = w
      · subst hw
        rw [Function.update_self]
        exact List.mem_append_left _ hold
      · rwa [Function.update_of_ne hw]
    · cases hnew
      rw [Function.update_self]
      exact List.mem_append_right _ (List.mem_singleton.mpr rfl)
  case own =>
    intro c w' k hk
    change k ∈ Function.update (p.listeners c) w (p.listeners c w ++ [p.dispatches.length]) w' at hk
    have hmono : (∃ d, p.dispatches[k]? = some d ∧ d.worker = w') →
        ∃ d, (p.listen w t).dispatches[k]? = some d ∧ d.worker = w' := by
      rintro ⟨d, hd, hw⟩
      exact ⟨d, getElem?_snoc.mpr (.inl hd), hw⟩
    by_cases hw : w' = w
    · subst hw
      rw [Function.update_self] at hk
      rcases List.mem_append.mp hk with hk | hk
      · exact hmono (h.own c w' k hk)
      · obtain rfl := List.mem_singleton.mp hk
        exact ⟨⟨w', t, false⟩, getElem?_snoc.mpr (.inr ⟨rfl, rfl⟩), rfl⟩
    · rw [Function.update_of_ne hw] at hk
      exact hmono (h.own c w' k hk)

theorem works_listen {dispatches : List (Dispatch Job)} (hfree : Works dispatches w []) :
    Works (dispatches ++ [⟨w, t, false⟩]) w [t] := by
  have hnone : ∀ t', Dispatch.mk w t' false ∉ dispatches := by
    rcases hfree with ⟨-, hnone⟩ | ⟨_, _, -, hbusy, -⟩
    · exact hnone
    · cases hbusy
  refine .inr ⟨dispatches.length, t, getElem?_snoc.mpr (.inr ⟨rfl, rfl⟩), rfl, fun k' t' hk' => ?_⟩
  rcases getElem?_snoc.mp hk' with hold | ⟨hlast, -⟩
  · exact absurd (List.mem_of_getElem? hold) (hnone t')
  · exact hlast

theorem Works.listen_of_ne {dispatches : List (Dispatch Job)} {w' : ℕ} {inbox : List (Task Job)}
    (h : Works dispatches w' inbox) (hw : w' ≠ w) : Works (dispatches ++ [⟨w, t, false⟩]) w' inbox := by
  rcases h with ⟨hinbox, hnone⟩ | ⟨k, t', hk, hinbox, hunique⟩
  · refine .inl ⟨hinbox, fun t' ht' => ?_⟩
    rcases List.mem_append.mp ht' with hold | hlast
    · exact hnone t' hold
    · cases List.mem_singleton.mp hlast
      exact hw rfl
  · refine .inr ⟨k, t', getElem?_snoc.mpr (.inl hk), hinbox, fun k' t'' hk' => ?_⟩
    rcases getElem?_snoc.mp hk' with hold | ⟨-, hlast⟩
    · exact hunique k' t'' hold
    · cases hlast
      exact absurd rfl hw

/-- A turn of the loop: the first free worker gets the first job. -/
theorem Ready.dispatch {idle : List ℕ} {queue : List (Task Job)} (h : Ready env n ts p)
    (hidle : p.idle = w :: idle) (hqueue : p.queue = t :: queue) :
    Ready env n ts (({ p with idle := idle, queue := queue }.listen w t).postMessage w t) := by
  obtain ⟨hw, hinbox⟩ := (h.free w).mp (hidle ▸ List.mem_cons_self)
  obtain ⟨hfirst, hrest⟩ := List.nodup_cons.mp (hidle ▸ h.idle)
  have hnone : p.promises t.promise = none := h.settled.queued t (hqueue ▸ List.mem_cons_self)
  have hpost : (({ p with idle := idle, queue := queue }.listen w t).postMessage w t).inbox =
      Function.update p.inbox w [t] := by
    show Function.update p.inbox w (p.inbox w ++ [t]) = _
    rw [hinbox, List.nil_append]
  constructor
  case tasks =>
    show (p.dispatches ++ [Dispatch.mk w t false]).map (·.task) ++ queue = ts
    rw [← h.tasks, hqueue]
    simp
  case distinct => exact h.distinct
  case posted =>
    show p.posted ++ [t] = (p.dispatches ++ [Dispatch.mk w t false]).map (·.task)
    rw [h.posted]
    simp
  case idle => exact hrest
  case free =>
    intro w'
    rw [hpost]
    have hold := h.free w'
    rw [hidle, List.mem_cons] at hold
    by_cases heq : w' = w
    · subst heq
      rw [Function.update_self]
      exact iff_of_false hfirst (by simp)
    · rw [Function.update_of_ne heq]
      exact (or_iff_right heq).symm.trans hold
  case works =>
    intro w'
    rw [hpost]
    by_cases heq : w' = w
    · subst heq
      rw [Function.update_self]
      exact works_listen (hinbox ▸ h.works w')
    · rw [Function.update_of_ne heq]
      exact (h.works w').listen_of_ne heq
  case employed =>
    intro d hd
    rcases List.mem_append.mp hd with hd | hd
    · exact h.employed d hd
    · obtain rfl := List.mem_singleton.mp hd
      exact hw
  case listening =>
    have hlisten := h.listening.listen w t
    exact ⟨hlisten.attached, hlisten.own⟩
  case running => exact h.running
  case settled =>
    refine { h.settled with settled := ?_, queued := ?_, asked := ?_ }
    · intro d hd
      rcases List.mem_append.mp hd with hd | hd
      · exact h.settled.settled d hd
      · obtain rfl := List.mem_singleton.mp hd
        show false = (p.promises t.promise).isSome
        rw [hnone]
        rfl
    · intro t' ht'
      exact h.settled.queued t' (hqueue ▸ List.mem_cons_of_mem _ ht')
    · intro a ha
      show a.1 ∈ (p.dispatches ++ [Dispatch.mk w t false]).map (·.task)
      rw [List.map_append]
      exact List.mem_append_left _ (h.settled.asked a ha)

theorem Ready.pump (h : Ready env n ts p) (hclonable : ∀ t ∈ ts, env.clonable t.job) :
    Pumped env n ts (p.pump env).1 ∧ (p.pump env).2 = false := by
  suffices hloop : ∀ queue p, p.queue = queue → Ready env n ts p →
      Pumped env n ts (Pool.pumpQueue env queue p).1 ∧ (Pool.pumpQueue env queue p).2 = false from
    hloop p.queue p rfl h
  intro queue
  induction queue with
  | nil =>
    intro p hqueue h
    exact ⟨⟨h, .inr hqueue⟩, rfl⟩
  | cons t queue ih =>
    intro p hqueue h
    have ht : t ∈ ts := by
      rw [← h.tasks, hqueue]
      exact List.mem_append_right _ List.mem_cons_self
    rw [Pool.pumpQueue]
    split
    next hidle => exact ⟨⟨h, .inl hidle⟩, rfl⟩
    next w idle hidle =>
      dsimp only
      rw [if_pos (hclonable t ht)]
      exact ih _ rfl (h.dispatch hidle hqueue)

theorem Pumped.exec (h : Pumped env n ts p) (hfresh : t.promise ∉ ts.map (·.promise))
    (hclonable : ∀ t' ∈ ts ++ [t], env.clonable t'.job) : Pumped env n (ts ++ [t]) (p.exec env t) := by
  obtain ⟨hpumped, hthrew⟩ := (h.ready.enqueue hfresh).pump hclonable
  unfold Pool.exec
  split
  next p' heq => rwa [heq] at hpumped
  next p' heq =>
    rw [heq] at hthrew
    cases hthrew

/-! ### Listeners -/

variable {c c' : Channel} {w' k' : ℕ}

theorem mem_unlisten_of_ne (hk : k' ≠ k) :
    k' ∈ (p.unlisten c w k).listeners c' w' ↔ k' ∈ p.listeners c' w' := by
  unfold Pool.unlisten
  dsimp only
  by_cases hc : c' = c
  · subst hc
    rw [Function.update_self]
    by_cases hw : w' = w
    · subst hw
      rw [Function.update_self]
      exact List.mem_erase_of_ne hk
    · rw [Function.update_of_ne hw]
  · rw [Function.update_of_ne hc]

theorem mem_of_mem_unlisten (h : k' ∈ (p.unlisten c w k).listeners c' w') : k' ∈ p.listeners c' w' := by
  by_cases hk : k' = k
  · subst hk
    unfold Pool.unlisten at h
    dsimp only at h
    by_cases hc : c' = c
    · subst hc
      rw [Function.update_self] at h
      by_cases hw : w' = w
      · subst hw
        rw [Function.update_self] at h
        exact List.mem_of_mem_erase h
      · rwa [Function.update_of_ne hw] at h
    · rwa [Function.update_of_ne hc] at h
  · exact (mem_unlisten_of_ne hk).mp h

/-- A listener that does nothing any more. -/
def Stale (p : Pool Job R E) (k : ℕ) : Prop := ∀ w t, p.dispatches[k]? ≠ some ⟨w, t, false⟩

theorem Listening.unlisten (h : Listening p) (hk : Stale p k) : Listening (p.unlisten c w k) := by
  refine ⟨fun k' w' t hk' c' => ?_, fun c' w' k' hk' => h.own c' w' k' (mem_of_mem_unlisten hk')⟩
  have hne : k' ≠ k := by
    rintro rfl
    exact hk w' t hk'
  exact (mem_unlisten_of_ne hne).mpr (h.attached k' w' t hk' c')

theorem Ready.unlisten (h : Ready env n ts p) (hk : Stale p k) : Ready env n ts (p.unlisten c w k) :=
  { h with listening := h.listening.unlisten hk, settled := { h.settled with } }

theorem finish_stale (hk : Stale p k) : p.finish env k outcome = (p, false) := by
  unfold Pool.finish
  split
  next => rfl
  next d hd =>
    obtain ⟨w, t, settled⟩ := d
    cases settled with
    | true => rfl
    | false => exact absurd hd (hk w t)

theorem emit_stale {rest : List ℕ} (hk : Stale p k) :
    Pool.emit env c w outcome (k :: rest) p = Pool.emit env c w outcome rest (p.unlisten c w k) := by
  have hstale : Stale (p.unlisten c w k) k := hk
  rw [Pool.emit, finish_stale hstale]
  rfl

theorem Pumped.emit_stale {ks : List ℕ} (h : Pumped env n ts p) (hks : ∀ k ∈ ks, Stale p k) :
    Pumped env n ts (Pool.emit env c w outcome ks p) := by
  induction ks generalizing p with
  | nil => exact h
  | cons k ks ih =>
    rw [WorkerPool.emit_stale (hks k List.mem_cons_self)]
    apply ih
    · exact ⟨h.ready.unlisten (hks k List.mem_cons_self), h.full⟩
    · intro k' hk'
      exact hks k' (List.mem_cons_of_mem _ hk')

theorem settle_of_none {i : ℕ} (h : p.promises i = none) : p.settle i outcome =
    { p with
      promises := Function.update p.promises i (some outcome)
      rejected := p.rejected.or (reason outcome) } := by
  unfold Pool.settle
  rw [h]

/-! ### An answer -/

theorem Ready.inbox_eq (h : Ready env n ts p) (hk : p.dispatches[k]? = some ⟨w, t, false⟩) : p.inbox w = [t] := by
  rcases h.works w with ⟨-, hnone⟩ | ⟨k', t', hk', hinbox, hunique⟩
  · exact absurd (List.mem_of_getElem? hk) (hnone t)
  · obtain rfl := hunique k t hk
    rw [hk] at hk'
    cases hk'
    exact hinbox

theorem Ready.unique (h : Ready env n ts p) (hk : p.dispatches[k]? = some ⟨w, t, false⟩) {t' : Task Job}
    (hk' : p.dispatches[k']? = some ⟨w, t', false⟩) : k' = k := by
  rcases h.works w with ⟨-, hnone⟩ | ⟨k₀, t₀, -, -, hunique⟩
  · exact absurd (List.mem_of_getElem? hk) (hnone t)
  · exact (hunique k' t' hk').trans (hunique k t hk).symm

/-- The promises are all different. -/
theorem Ready.promise_ne (h : Ready env n ts p) {d d' : Dispatch Job} (hd : p.dispatches[k]? = some d)
    (hd' : p.dispatches[k']? = some d') (hne : k' ≠ k) : d'.task.promise ≠ d.task.promise := by
  have hdistinct := h.distinct
  rw [← h.tasks, List.map_append, List.nodup_append, List.map_map] at hdistinct
  have hget {i : ℕ} {e : Dispatch Job} (he : p.dispatches[i]? = some e) :
      (p.dispatches.map ((·.promise) ∘ (·.task)))[i]? = some e.task.promise := by
    rw [List.getElem?_map, he]
    rfl
  intro heq
  obtain ⟨hlt, hk⟩ := List.getElem?_eq_some_iff.mp (hget hd)
  obtain ⟨hlt', hk'⟩ := List.getElem?_eq_some_iff.mp (hget hd')
  exact hne ((List.Nodup.getElem_inj_iff hdistinct.1).mp (hk'.trans (heq.trans hk.symm)))

/-- The flag of a job is set. -/
theorem getElem?_set_settled (hk : p.dispatches[k]? = some ⟨w, t, false⟩) {d : Dispatch Job} :
    (p.dispatches.set k ⟨w, t, true⟩)[k']? = some d ↔
      k' = k ∧ d = ⟨w, t, true⟩ ∨ k' ≠ k ∧ p.dispatches[k']? = some d := by
  have hlt : k < p.dispatches.length := (List.getElem?_eq_some_iff.mp hk).1
  by_cases heq : k' = k
  · subst heq
    simp [hlt, eq_comm]
  · simp [heq, Ne.symm heq]

/-- The worker is free, and the promise is settled. -/
def Pool.release (p : Pool Job R E) (k w : ℕ) (t : Task Job) (outcome : Except (Reason E) R) : Pool Job R E :=
  ({ p with dispatches := p.dispatches.set k ⟨w, t, true⟩, idle := p.idle ++ [w] }).settle t.promise outcome

theorem tasks_release (hk : p.dispatches[k]? = some ⟨w, t, false⟩) :
    (p.dispatches.set k ⟨w, t, true⟩).map (·.task) = p.dispatches.map (·.task) := by
  have hget : (p.dispatches.map (·.task))[k]? = some t := by
    rw [List.getElem?_map, hk]
    rfl
  rw [List.map_set]
  show (p.dispatches.map (·.task)).set k t = _
  rw [← (List.getElem?_eq_some_iff.mp hget).2]
  exact List.set_getElem_self _

theorem Settled.pending (h : Settled env p) (hk : p.dispatches[k]? = some ⟨w, t, false⟩) :
    p.promises t.promise = none := by
  have hsettled := h.settled _ (List.mem_of_getElem? hk)
  simpa using hsettled.symm

theorem release_eq (hnone : p.promises t.promise = none) {c : Channel} :
    ((p.answered w 0 t outcome).unlisten c w k).release k w t outcome =
      { ((p.answered w 0 t outcome).unlisten c w k) with
        dispatches := p.dispatches.set k ⟨w, t, true⟩
        idle := p.idle ++ [w]
        promises := Function.update p.promises t.promise (some outcome)
        rejected := p.rejected.or (reason outcome) } := settle_of_none hnone

theorem Settled.release (h : Ready env n ts p) (hk : p.dispatches[k]? = some ⟨w, t, false⟩)
    (hfaithful : outcome.toOption = (env.fullProve t.job).toOption) {c : Channel} :
    Settled env (((p.answered w 0 t outcome).unlisten c w k).release k w t outcome) := by
  have hmem : Dispatch.mk w t false ∈ p.dispatches := List.mem_of_getElem? hk
  have hnone := h.settled.pending hk
  have hfresh : t.promise ∉ p.answers.map (·.1.promise) := by
    intro hanswered
    obtain ⟨a, ha, hpromise⟩ := List.mem_map.mp hanswered
    have hsome := (h.settled.promises t.promise a.2).mpr ⟨a, ha, hpromise, rfl⟩
    rw [hnone] at hsome
    cases hsome
  rw [release_eq hnone]
  constructor
  case settled =>
    intro d hd
    obtain ⟨k', hk'⟩ := List.mem_iff_getElem?.mp hd
    show d.settled = (Function.update p.promises t.promise (some outcome) d.task.promise).isSome
    rcases (getElem?_set_settled hk).mp hk' with ⟨-, rfl⟩ | ⟨hne, hold⟩
    · simp
    · rw [Function.update_of_ne (h.promise_ne hk hold hne)]
      exact h.settled.settled d (List.mem_of_getElem? hold)
  case queued =>
    intro t' ht'
    have hdistinct := h.distinct
    rw [← h.tasks, List.map_append, List.nodup_append] at hdistinct
    have hne : t'.promise ≠ t.promise := by
      have hfirst : t.promise ∈ (p.dispatches.map (·.task)).map (·.promise) :=
        List.mem_map_of_mem (List.mem_map_of_mem (f := (·.task)) hmem)
      exact (hdistinct.2.2 _ hfirst _ (List.mem_map_of_mem ht')).symm
    exact (Function.update_of_ne hne _ _).trans (h.settled.queued t' ht')
  case asked =>
    intro a ha
    show a.1 ∈ (p.dispatches.set k ⟨w, t, true⟩).map (·.task)
    rw [tasks_release hk]
    rcases List.mem_append.mp ha with ha | ha
    · exact h.settled.asked a ha
    · obtain rfl := List.mem_singleton.mp ha
      exact List.mem_map_of_mem (f := (·.task)) hmem
  case once =>
    show ((p.answers ++ [(t, outcome)]).map (·.1.promise)).Nodup
    rw [List.map_append]
    refine List.nodup_append.mpr ⟨h.settled.once, by simp, ?_⟩
    rintro i hi j hj rfl
    obtain rfl := List.mem_singleton.mp hj
    exact hfresh hi
  case promises =>
    intro i o
    show Function.update p.promises t.promise (some outcome) i = some o ↔
      ∃ a ∈ p.answers ++ [(t, outcome)], a.1.promise = i ∧ a.2 = o
    by_cases hi : i = t.promise
    · subst hi
      rw [Function.update_self]
      constructor
      · rintro ⟨⟩
        exact ⟨(t, outcome), by simp, rfl, rfl⟩
      · rintro ⟨a, ha, hpromise, rfl⟩
        rcases List.mem_append.mp ha with ha | ha
        · exact absurd (hpromise ▸ List.mem_map_of_mem (f := (·.1.promise)) ha) hfresh
        · obtain rfl := List.mem_singleton.mp ha
          rfl
    · rw [Function.update_of_ne hi, h.settled.promises]
      constructor
      · rintro ⟨a, ha, hrest⟩
        exact ⟨a, List.mem_append_left _ ha, hrest⟩
      · rintro ⟨a, ha, hpromise, ho⟩
        rcases List.mem_append.mp ha with ha | ha
        · exact ⟨a, ha, hpromise, ho⟩
        · obtain rfl := List.mem_singleton.mp ha
          exact absurd hpromise.symm hi
  case faithful =>
    intro a ha
    rcases List.mem_append.mp ha with ha | ha
    · exact h.settled.faithful a ha
    · obtain rfl := List.mem_singleton.mp ha
      exact hfaithful
  case rejected =>
    show (p.rejected.or (reason outcome)).isSome ↔ ∃ a ∈ p.answers ++ [(t, outcome)], a.2.toOption = none
    rw [Option.isSome_or, Bool.or_eq_true, h.settled.rejected]
    simp only [List.mem_append, List.mem_singleton, or_and_right, exists_or, exists_eq_left]
    refine or_congr_right ?_
    cases outcome <;> simp [reason, Except.toOption]

theorem Works.release {dispatches : List (Dispatch Job)} {inbox : List (Task Job)} {w' : ℕ}
    (h : Works dispatches w' inbox) (hk : dispatches[k]? = some ⟨w, t, false⟩) (hw : w' ≠ w) :
    Works (dispatches.set k ⟨w, t, true⟩) w' inbox := by
  have hget {k' : ℕ} {t' : Task Job} : (dispatches.set k ⟨w, t, true⟩)[k']? = some ⟨w', t', false⟩ ↔
      dispatches[k']? = some ⟨w', t', false⟩ := by
    rw [List.getElem?_set]
    split_ifs with heq hlt
    · subst heq
      simp [hk, Ne.symm hw]
    · subst heq
      exact absurd (List.getElem?_eq_some_iff.mp hk).1 hlt
    · rfl
  rcases h with ⟨hinbox, hnone⟩ | ⟨k₀, t₀, hk₀, hinbox, hunique⟩
  · refine .inl ⟨hinbox, fun t' ht' => ?_⟩
    obtain ⟨k', hk'⟩ := List.mem_iff_getElem?.mp ht'
    exact hnone t' (List.mem_of_getElem? (hget.mp hk'))
  · exact .inr ⟨k₀, t₀, hget.mpr hk₀, hinbox, fun k' t' hk' => hunique k' t' (hget.mp hk')⟩

theorem Ready.release (h : Ready env n ts p) (hk : p.dispatches[k]? = some ⟨w, t, false⟩)
    (hfaithful : outcome.toOption = (env.fullProve t.job).toOption) (c : Channel) :
    Ready env n ts (((p.answered w 0 t outcome).unlisten c w k).release k w t outcome) := by
  have hsettled := Settled.release h hk hfaithful (c := c)
  have hinbox : p.inbox w = [t] := h.inbox_eq hk
  have hupdate : (p.answered w 0 t outcome).inbox = Function.update p.inbox w [] := by
    show Function.update p.inbox w ((p.inbox w).eraseIdx 0) = _
    rw [hinbox]
    rfl
  have hfree : ∀ w', Function.update p.inbox w [] w' = [] ↔ w' = w ∨ p.inbox w' = [] := by
    intro w'
    by_cases hw : w' = w
    · subst hw
      simp
    · simp [hw]
  rw [release_eq (h.settled.pending hk)] at hsettled ⊢
  constructor
  case tasks =>
    show (p.dispatches.set k ⟨w, t, true⟩).map (·.task) ++ p.queue = ts
    rw [tasks_release hk]
    exact h.tasks
  case distinct => exact h.distinct
  case posted => exact h.posted.trans (tasks_release hk).symm
  case idle =>
    refine List.nodup_append.mpr ⟨h.idle, by simp, ?_⟩
    rintro w' hw' v hv rfl
    obtain rfl := List.mem_singleton.mp hv
    have hempty := ((h.free w').mp hw').2
    rw [hinbox] at hempty
    cases hempty
  case free =>
    intro w'
    show w' ∈ p.idle ++ [w] ↔ w' < n ∧ (p.answered w 0 t outcome).inbox w' = []
    rw [hupdate, hfree, List.mem_append, List.mem_singleton, h.free]
    have hw : w < n := h.employed _ (List.mem_of_getElem? hk)
    constructor
    · rintro (⟨hlt, hempty⟩ | rfl)
      · exact ⟨hlt, .inr hempty⟩
      · exact ⟨hw, .inl rfl⟩
    · rintro ⟨hlt, rfl | hempty⟩
      · exact .inr rfl
      · exact .inl ⟨hlt, hempty⟩
  case works =>
    intro w'
    show Works (p.dispatches.set k ⟨w, t, true⟩) w' ((p.answered w 0 t outcome).inbox w')
    rw [hupdate]
    by_cases hw : w' = w
    · subst hw
      rw [Function.update_self]
      refine .inl ⟨rfl, fun t' ht' => ?_⟩
      obtain ⟨k', hk'⟩ := List.mem_iff_getElem?.mp ht'
      rcases (getElem?_set_settled hk).mp hk' with ⟨-, hnew⟩ | ⟨hne, hold⟩
      · cases hnew
      · exact hne (h.unique hk hold)
    · rw [Function.update_of_ne hw]
      exact (h.works w').release hk hw
  case employed =>
    intro d hd
    obtain ⟨k', hk'⟩ := List.mem_iff_getElem?.mp hd
    rcases (getElem?_set_settled hk).mp hk' with ⟨-, rfl⟩ | ⟨-, hold⟩
    · exact h.employed ⟨w, t, false⟩ (List.mem_of_getElem? hk)
    · exact h.employed d (List.mem_of_getElem? hold)
  case listening =>
    constructor
    case attached =>
      intro k' w' t' hk' c'
      rcases (getElem?_set_settled hk).mp hk' with ⟨-, hnew⟩ | ⟨hne, hold⟩
      · cases hnew
      · exact (mem_unlisten_of_ne hne).mpr (h.listening.attached k' w' t' hold c')
    case own =>
      intro c' w' k' hk'
      obtain ⟨d, hd, hw⟩ := h.listening.own c' w' k' (mem_of_mem_unlisten hk')
      by_cases heq : k' = k
      · subst heq
        rw [hk] at hd
        cases hd
        exact ⟨⟨w, t, true⟩, (getElem?_set_settled hk).mpr (.inl ⟨rfl, rfl⟩), hw⟩
      · exact ⟨d, (getElem?_set_settled hk).mpr (.inr ⟨heq, hd⟩), hw⟩
  case settled => exact hsettled
  case running => exact h.running

theorem pump_dispatches (env : Env Job R E) (p : Pool Job R E) : p.dispatches <+: (p.pump env).1.dispatches := by
  suffices hloop : ∀ queue (p : Pool Job R E), p.dispatches <+: (Pool.pumpQueue env queue p).1.dispatches from
    hloop p.queue p
  intro queue
  induction queue with
  | nil => exact fun p => List.prefix_rfl
  | cons t queue ih =>
    intro p
    rw [Pool.pumpQueue]
    split
    next => exact List.prefix_rfl
    next w idle _ =>
      have hlisten : p.dispatches <+: p.dispatches ++ [⟨w, t, false⟩] := List.prefix_append _ _
      dsimp only
      split_ifs
      · have hnext := ih (({ p with idle := idle, queue := queue }.listen w t).postMessage w t)
        exact hlisten.trans hnext
      · exact hlisten

/-- What is stale stays stale. -/
theorem Stale.pump (hk : Stale p k) (hlt : k < p.dispatches.length) (env : Env Job R E) :
    Stale (p.pump env).1 k := by
  intro w t
  obtain ⟨rest, hrest⟩ := pump_dispatches env p
  rw [← hrest, List.getElem?_append_left hlt]
  exact hk w t

theorem finish_eq (hk : p.dispatches[k]? = some ⟨w, t, false⟩) :
    p.finish env k outcome = (p.release k w t outcome).pump env := by
  unfold Pool.finish
  rw [hk]
  rfl

theorem answer_toOption (env : Env Job R E) (job : Job) (failure : Failure E) :
    (env.answer job failure).2.toOption = (env.fullProve job).toOption := by
  unfold Env.answer
  cases env.fullProve job with
  | ok result => rfl
  | error err => cases failure <;> rfl

/-- Only the listener of the job that is answered does something. -/
theorem Pumped.emit {ks rest : List ℕ} (h : Pumped env n ts p) (hclonable : ∀ t ∈ ts, env.clonable t.job)
    (hk : p.dispatches[k]? = some ⟨w, t, false⟩) (hfaithful : outcome.toOption = (env.fullProve t.job).toOption)
    (hks : ∀ k' ∈ ks, Stale p k')
    (hrest : ∀ k' ∈ rest, k' < p.dispatches.length ∧ (k' = k ∨ Stale p k')) :
    Pumped env n ts (Pool.emit env c w outcome (ks ++ k :: rest) (p.answered w 0 t outcome)) := by
  induction ks generalizing p with
  | nil =>
    have hk' : ((p.answered w 0 t outcome).unlisten c w k).dispatches[k]? = some ⟨w, t, false⟩ := hk
    obtain ⟨hpumped, hthrew⟩ := (h.ready.release hk hfaithful c).pump hclonable
    rw [List.nil_append, Pool.emit, finish_eq hk']
    set q := ((p.answered w 0 t outcome).unlisten c w k).release k w t outcome with hq
    have hdispatches : q.dispatches = p.dispatches.set k ⟨w, t, true⟩ := by
      rw [hq, release_eq (h.ready.settled.pending hk)]
    rcases hresult : q.pump env with ⟨q', threw⟩
    rw [hresult] at hpumped hthrew
    obtain rfl : threw = false := hthrew
    refine hpumped.emit_stale fun k' hk' => ?_
    obtain ⟨hlt, hor⟩ := hrest k' hk'
    have hstale : Stale q k' := by
      intro w' t' hget
      rw [hdispatches] at hget
      rcases (getElem?_set_settled hk).mp hget with ⟨-, hnew⟩ | ⟨hne, hold⟩
      · cases hnew
      · exact hor.resolve_left hne w' t' hold
    have hlength : k' < q.dispatches.length := by rwa [hdispatches, List.length_set]
    have hfinal := hstale.pump hlength env
    rwa [hresult] at hfinal
  | cons k' ks ih =>
    have hstale := hks k' List.mem_cons_self
    have hstale' : Stale (p.answered w 0 t outcome) k' := hstale
    rw [List.cons_append, WorkerPool.emit_stale hstale']
    refine ih ⟨h.ready.unlisten hstale, h.full⟩ hk ?_ hrest
    intro k'' hk''
    exact hks k'' (List.mem_cons_of_mem _ hk'')

/-- **An answer reaches the job it belongs to.** -/
theorem Pumped.reply (h : Pumped env n ts p) (hclonable : ∀ t ∈ ts, env.clonable t.job) (w index : ℕ)
    (failure : Failure E) : Pumped env n ts (p.reply env w index failure) := by
  unfold Pool.reply
  split
  next => exact h
  next t ht =>
    rcases h.ready.works w with ⟨hempty, -⟩ | ⟨k, t', hk, hinbox, -⟩
    · rw [hempty] at ht
      cases ht
    · obtain ⟨rfl, rfl⟩ : index = 0 ∧ t' = t := by
        rw [hinbox] at ht
        simpa [List.getElem?_singleton] using ht
      have hfaithful := answer_toOption env t'.job failure
      generalize env.answer t'.job failure = answer at hfaithful
      obtain ⟨c, outcome⟩ := answer
      obtain ⟨ks, rest, hlisteners, hfirst⟩ := List.eq_append_cons_of_mem (h.ready.listening.attached k w t' hk c)
      have hlistener : ∀ k' ∈ p.listeners c w, k' < p.dispatches.length ∧ (k' = k ∨ Stale p k') := by
        intro k' hk'
        obtain ⟨d, hd, hw⟩ := h.ready.listening.own c w k' hk'
        refine ⟨(List.getElem?_eq_some_iff.mp hd).1, or_iff_not_imp_left.mpr fun hne w' t'' hget => ?_⟩
        rw [hd] at hget
        cases hget
        obtain rfl : w' = w := hw
        exact hne (h.ready.unique hk hd)
      dsimp only
      rw [hlisteners]
      refine h.emit hclonable hk hfaithful ?_ ?_
      · intro k' hk'
        have hmem : k' ∈ p.listeners c w := hlisteners ▸ List.mem_append_left _ hk'
        refine (hlistener k' hmem).2.resolve_left ?_
        rintro rfl
        exact hfirst hk'
      · intro k' hk'
        exact hlistener k' (hlisteners ▸ List.mem_append_right _ (List.mem_cons_of_mem _ hk'))

end Invariant

/-! ## Runs -/

section Runs

variable {Job R E : Type} {env : Env Job R E} {jobs : List Job} {workers : ℕ} {ts : List (Task Job)}
  {p : Pool Job R E}

theorem promise_tasks (jobs : List Job) : (tasks jobs).map (·.promise) = List.range jobs.length := by
  unfold tasks
  rw [List.map_map, List.range_eq_range']
  exact List.zipIdx_map_snd 0 jobs

theorem job_tasks (jobs : List Job) : (tasks jobs).map (·.job) = jobs := by
  unfold tasks
  rw [List.map_map]
  exact List.zipIdx_map_fst 0 jobs

theorem job_mem {t : Task Job} (h : t ∈ tasks jobs) : t.job ∈ jobs :=
  job_tasks jobs ▸ List.mem_map_of_mem (f := (·.job)) h

theorem pumped_foldl {later : List (Task Job)} (h : Pumped env workers ts p)
    (hdistinct : ((ts ++ later).map (·.promise)).Nodup) (hclonable : ∀ t ∈ ts ++ later, env.clonable t.job) :
    Pumped env workers (ts ++ later) (later.foldl (Pool.exec env) p) := by
  induction later generalizing ts p with
  | nil => simpa using h
  | cons t later ih =>
    have hsplit : ts ++ t :: later = ts ++ [t] ++ later := by simp
    rw [hsplit] at hdistinct hclonable ⊢
    have hfresh : t.promise ∉ ts.map (·.promise) := by
      rw [List.map_append, List.map_append, List.nodup_append, List.nodup_append] at hdistinct
      intro hmem
      exact hdistinct.1.2.2 _ hmem _ (by simp) rfl
    refine ih (h.exec hfresh fun t' ht' => hclonable t' (List.mem_append_left _ ht')) hdistinct hclonable

theorem pumped_begin (hclonable : ∀ job ∈ jobs, env.clonable job) (workers : ℕ) :
    Pumped env workers (tasks jobs) (begin env jobs workers) := by
  have hstart : Pumped env workers ([] ++ tasks jobs) (begin env jobs workers) := by
    refine pumped_foldl (ready_start workers) ?_ ?_
    · rw [List.nil_append, promise_tasks]
      exact List.nodup_range
    · intro t ht
      exact hclonable _ (job_mem ht)
  exact hstart

theorem pumped_run (hclonable : ∀ job ∈ jobs, env.clonable job) (workers : ℕ) (inputs : List (Input E)) :
    Pumped env workers (tasks jobs) ((machine env).final (begin env jobs workers) inputs) := by
  have htasks : ∀ t ∈ tasks jobs, env.clonable t.job := fun t ht => hclonable _ (job_mem ht)
  refine (machine env).stable (J := Pumped env workers (tasks jobs)) ?_ (pumped_begin hclonable workers) inputs
  intro p input h
  cases input with
  | reply w index failure =>
    show Pumped env workers (tasks jobs) (if p.exited then p else p.reply env w index failure)
    rw [h.ready.running]
    exact h.reply htasks w index failure

/-! ### What the caller gets -/

/-- Every job is posted once, to a worker that has no other, and its promise gets its own answer. Once nobody has
a job any more, all are done, and the promise of all is what `runSerial` gives. -/
structure EqualsSerial (env : Env Job R E) (jobs : List Job) (p : Pool Job R E) : Prop where
  oneInFlight : ∀ w, (p.inbox w).length ≤ 1
  posted : p.posted <+: tasks jobs
  answered : ∀ a ∈ p.answers, a.1 ∈ p.posted
  answeredOnce : (p.answers.map (·.1.promise)).Nodup
  delivered : ∀ i o, p.promises i = some o ↔ ∃ a ∈ p.answers, a.1.promise = i ∧ a.2 = o
  resolves : ∀ results, p.outcome jobs.length = some (.ok results) → runSerial env jobs = .ok results
  rejects : ∀ reason, p.outcome jobs.length = some (.error reason) → ∃ job ∈ jobs, ∃ err, env.fullProve job = .error err
  allRun : (∀ w, p.inbox w = []) → p.posted = tasks jobs ∧ ∀ t ∈ tasks jobs, ∃ o, (t, o) ∈ p.answers
  allResolve : (∀ w, p.inbox w = []) → ∀ results, runSerial env jobs = .ok results →
    p.outcome jobs.length = some (.ok results)
  allReject : (∀ w, p.inbox w = []) → ∀ reason, runSerial env jobs = .error reason →
    ∃ reason', p.outcome jobs.length = some (.error reason')

theorem runSerial_toOption (env : Env Job R E) (jobs : List Job) :
    (runSerial env jobs).toOption = (tasks jobs).mapM fun t => (env.fullProve t.job).toOption := by
  have hjob : ∀ job, ((env.fullProve job).mapError Reason.thrown).toOption = (env.fullProve job).toOption := by
    intro job
    cases env.fullProve job <;> rfl
  have htasks : (tasks jobs).mapM (fun t => (env.fullProve t.job).toOption) =
      ((tasks jobs).map (·.job)).mapM fun job => (env.fullProve job).toOption := by
    rw [List.mapM_map]
    rfl
  rw [htasks, job_tasks, runSerial, mapM_toOption]
  simp only [hjob]

theorem runSerial_error_iff : (∃ reason, runSerial env jobs = .error reason) ↔
    ∃ job ∈ jobs, ∃ err, env.fullProve job = .error err := by
  unfold runSerial
  induction jobs with
  | nil => simp [pure, Except.pure]
  | cons job jobs ih =>
    rw [List.mapM_cons, List.exists_mem_cons_iff, ← ih]
    cases env.fullProve job with
    | error err => simp [bind, Except.bind, Except.mapError]
    | ok r =>
      cases jobs.mapM fun job => (env.fullProve job).mapError Reason.thrown <;>
        simp [bind, Except.bind, Except.mapError, pure, Except.pure]

theorem outcome_of_not_rejected (h : p.rejected = none) (jobs : List Job) :
    p.outcome jobs.length =
      ((tasks jobs).mapM fun t => (p.promises t.promise).bind Except.toOption).map .ok := by
  unfold Pool.outcome
  rw [h, ← promise_tasks, List.mapM_map]
  rfl

/-- The answer to a job is the one its promise got. -/
theorem Pumped.answer_of_promise (h : Pumped env workers ts p) {t : Task Job} (ht : t ∈ ts)
    {o : Except (Reason E) R} (ho : p.promises t.promise = some o) :
    (t, o) ∈ p.answers ∧ o.toOption = (env.fullProve t.job).toOption := by
  obtain ⟨⟨t', o'⟩, ha, hpromise, rfl⟩ := (h.ready.settled.promises _ _).mp ho
  have hasked : t' ∈ ts := by
    rw [← h.ready.tasks]
    exact List.mem_append_left _ (h.ready.settled.asked _ ha)
  obtain rfl : t' = t := List.inj_on_of_nodup_map h.ready.distinct hasked ht hpromise
  exact ⟨ha, h.ready.settled.faithful _ ha⟩

/-- Nobody has a job any more. -/
theorem Pumped.complete (h : Pumped env workers ts p) (hworkers : 0 < workers) (hempty : ∀ w, p.inbox w = []) :
    p.posted = ts ∧ ∀ t ∈ ts, ∃ o, p.promises t.promise = some o := by
  have hidle : p.idle ≠ [] := List.ne_nil_of_mem ((h.ready.free 0).mpr ⟨hworkers, hempty 0⟩)
  have htasks := h.ready.tasks
  rw [h.full.resolve_left hidle, List.append_nil] at htasks
  refine ⟨h.ready.posted.trans htasks, fun t ht => ?_⟩
  obtain ⟨⟨w, t', settled⟩, hd, rfl⟩ := List.mem_map.mp (htasks ▸ ht)
  have hsettled := h.ready.settled.settled _ hd
  cases settled with
  | true => exact Option.isSome_iff_exists.mp hsettled.symm
  | false =>
    rcases h.ready.works w with ⟨-, hnone⟩ | ⟨_, _, -, hbusy, -⟩
    · exact absurd hd (hnone t')
    · rw [hempty w] at hbusy
      cases hbusy

theorem Pumped.rejected_iff (h : Pumped env workers (tasks jobs) p) (hrejected : p.rejected ≠ none) :
    ∃ job ∈ jobs, ∃ err, env.fullProve job = .error err := by
  obtain ⟨a, ha, hnone⟩ := h.ready.settled.rejected.mp (Option.isSome_iff_ne_none.mpr hrejected)
  have hasked : a.1 ∈ tasks jobs := by
    rw [← h.ready.tasks]
    exact List.mem_append_left _ (h.ready.settled.asked a ha)
  refine ⟨a.1.job, job_mem hasked, ?_⟩
  have hfail := (h.ready.settled.faithful a ha).symm.trans hnone
  cases hprove : env.fullProve a.1.job with
  | ok r =>
    rw [hprove] at hfail
    cases hfail
  | error err => exact ⟨err, rfl⟩

theorem Pumped.resolves (h : Pumped env workers (tasks jobs) p) {results : List R}
    (houtcome : p.outcome jobs.length = some (.ok results)) : runSerial env jobs = .ok results := by
  have hnone : p.rejected = none := by
    by_contra hsome
    obtain ⟨reason, hreason⟩ := Option.ne_none_iff_exists'.mp hsome
    rw [Pool.outcome, hreason] at houtcome
    cases houtcome
  rw [outcome_of_not_rejected hnone] at houtcome
  obtain ⟨_, hmap, ⟨⟩⟩ := Option.map_eq_some_iff.mp houtcome
  apply toOption_eq_some_iff.mp
  rw [runSerial_toOption]
  refine mapM_mono hmap fun t ht r hr => ?_
  obtain ⟨o, ho, hok⟩ := Option.bind_eq_some_iff.mp hr
  exact (h.answer_of_promise ht ho).2.symm.trans hok

theorem Pumped.allResolve (h : Pumped env workers (tasks jobs) p)
    (hall : ∀ t ∈ tasks jobs, ∃ o, p.promises t.promise = some o) {results : List R}
    (hserial : runSerial env jobs = .ok results) : p.outcome jobs.length = some (.ok results) := by
  have hmap := runSerial_toOption env jobs
  rw [hserial] at hmap
  have hnone : p.rejected = none := by
    by_contra hsome
    obtain ⟨reason, hreason⟩ := runSerial_error_iff.mpr (h.rejected_iff hsome)
    rw [hserial] at hreason
    cases hreason
  rw [outcome_of_not_rejected hnone, mapM_mono hmap.symm]
  · rfl
  intro t ht r hr
  obtain ⟨o, ho⟩ := hall t ht
  rw [ho]
  exact (h.answer_of_promise ht ho).2.trans hr

theorem equalsSerial_of_pumped (h : Pumped env workers (tasks jobs) p) (hworkers : 0 < workers) :
    EqualsSerial env jobs p := by
  constructor
  case oneInFlight =>
    intro w
    rcases h.ready.works w with ⟨hempty, -⟩ | ⟨_, _, -, hbusy, -⟩
    · simp [hempty]
    · simp [hbusy]
  case posted =>
    rw [h.ready.posted, ← h.ready.tasks]
    exact List.prefix_append _ _
  case answered =>
    intro a ha
    rw [h.ready.posted]
    exact h.ready.settled.asked a ha
  case answeredOnce => exact h.ready.settled.once
  case delivered => exact h.ready.settled.promises
  case resolves => exact fun results houtcome => h.resolves houtcome
  case rejects =>
    intro reason houtcome
    apply h.rejected_iff
    intro hnone
    rw [outcome_of_not_rejected hnone] at houtcome
    obtain ⟨_, -, ⟨⟩⟩ := Option.map_eq_some_iff.mp houtcome
  case allRun =>
    intro hempty
    obtain ⟨hposted, hall⟩ := h.complete hworkers hempty
    refine ⟨hposted, fun t ht => ?_⟩
    obtain ⟨o, ho⟩ := hall t ht
    exact ⟨o, (h.answer_of_promise ht ho).1⟩
  case allResolve =>
    intro hempty results hserial
    exact h.allResolve (h.complete hworkers hempty).2 hserial
  case allReject =>
    intro hempty reason hserial
    obtain ⟨job, hjob, err, herr⟩ := runSerial_error_iff.mp ⟨reason, hserial⟩
    rw [← job_tasks jobs] at hjob
    obtain ⟨t, ht, rfl⟩ := List.mem_map.mp hjob
    obtain ⟨o, ho⟩ := (h.complete hworkers hempty).2 t ht
    obtain ⟨hanswer, hfail⟩ := h.answer_of_promise ht ho
    rw [herr] at hfail
    obtain ⟨reason', hreason'⟩ := Option.isSome_iff_exists.mp (h.ready.settled.rejected.mpr ⟨_, hanswer, hfail⟩)
    refine ⟨reason', ?_⟩
    rw [Pool.outcome, hreason']

/-- What `runProofJobs` promises its caller. -/
def AsSerial (env : Env Job R E) (jobs : List Job) (pool : PoolOption) (inputs : List (Input E)) : Prop :=
  match runProofJobs env jobs pool with
  | .settled outcome => outcome = runSerial env jobs
  | .pooled workers => EqualsSerial env jobs ((machine env).final (begin env jobs workers) inputs)

/-- The jobs are proved on workers. -/
def UsesPool (env : Env Job R E) (jobs : List Job) (pool : PoolOption) (options : ProofPoolOptions) : Prop :=
  1 < jobs.length ∧ pool = .on options ∧ (options.transport.isSome ∨ env.workers)

theorem runProofJobs_cases (env : Env Job R E) (jobs : List Job) (pool : PoolOption) :
    runProofJobs env jobs pool = .settled (runSerial env jobs) ∨
      ∃ options, UsesPool env jobs pool options ∧
        ∀ workers, options.workers env = some workers → runProofJobs env jobs pool = .pooled workers := by
  unfold runProofJobs
  by_cases hnone : jobs.length = 0
  · obtain rfl := List.eq_nil_of_length_eq_zero hnone
    exact .inl rfl
  rw [if_neg hnone]
  cases pool with
  | off => exact .inl rfl
  | on options =>
    dsimp only
    split_ifs with hone hserial
    · exact .inl rfl
    · exact .inl rfl
    · refine .inr ⟨options, ⟨by omega, rfl, ?_⟩, fun workers hworkers => ?_⟩
      · cases htransport : options.transport <;> simp_all
      · rw [hworkers]

/-- **Proving on workers is proving one after the other**, for every size of the pool and every order of the
answers, provided that there is a worker and that the jobs can be posted. -/
theorem parallel_eq_serial (env : Env Job R E) (jobs : List Job) (pool : PoolOption) (inputs : List (Input E))
    (hpool : ∀ options, UsesPool env jobs pool options →
      (∃ n, options.workers env = some (n + 1)) ∧ ∀ job ∈ jobs, env.clonable job) :
    AsSerial env jobs pool inputs := by
  unfold AsSerial
  rcases runProofJobs_cases env jobs pool with hserial | ⟨options, huses, hpooled⟩
  · rw [hserial]
  · obtain ⟨⟨n, hn⟩, hclonable⟩ := hpool options huses
    rw [hpooled _ hn]
    exact equalsSerial_of_pumped (pumped_run hclonable (n + 1) inputs) (Nat.succ_pos n)

end Runs

/-- Jobs are numbers; an odd one cannot be cloned, and a negative one cannot be proved. -/
def numbers : Env ℤ ℤ Str where
  fullProve job := if job < 0 then .error "not satisfied".toList else .ok (job * 10)
  clonable job := job % 2 = 0
  exits := true
  workers := true
  defaultPoolSize := 3

/-- Three jobs on two workers, of which the second answers first. -/
theorem parallel_eq_serial_two :
    AsSerial numbers [2, 4, 6] (.on ⟨some (.finite 2), none⟩)
      [.reply 1 0 (.text []), .reply 1 0 (.text []), .reply 0 0 (.text [])] ∧
    ((machine numbers).final (begin numbers [2, 4, 6] 2)
      [.reply 1 0 (.text []), .reply 1 0 (.text []), .reply 0 0 (.text [])]).outcome 3 = some (.ok [20, 40, 60]) := by
  refine ⟨parallel_eq_serial _ _ _ _ ?_, rfl⟩
  rintro options ⟨-, ⟨⟩, -⟩
  exact ⟨⟨1, rfl⟩, by decide⟩

/-- There is no worker if the size is NaN; and a job that cannot be cloned is lost once it had to wait. -/
theorem parallel_eq_serial_fails :
    ¬ AsSerial numbers [2, 4] (.on ⟨some .nan, none⟩) [] ∧
    ¬ AsSerial numbers [2, 3] (.on ⟨some (.finite 1), none⟩) [.reply 0 0 (.text [])] := by
  constructor
  · intro h
    have hposted := (h.allRun fun _ => rfl).1
    cases hposted
  · intro h
    have hposted := (h.allRun fun w => ?_).1
    · cases hposted
    · cases w <;> rfl

end OpaqueStellar.Prover.WorkerPool
