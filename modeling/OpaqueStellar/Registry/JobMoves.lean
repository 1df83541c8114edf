import OpaqueStellar.Registry.Unbonding
import OpaqueStellar.Stealth.Events

/-! # The relayer registry: what its events tell

Of what the registry publishes, the registrations and the events about accepted, submitted and slashed jobs tell
who takes part and how that went. A job gets as far as each kind of event at most once, and the events of a part
of a run are the jobs that got that far in it. -/

namespace OpaqueStellar.Registry

open OpaqueStellar.Lib OpaqueStellar.Soroban
open OpaqueStellar.Stealth (EventResponse)

/-! ## Moves -/

inductive RelayerJobEventKind where
  | accepted
  | submitted
  | slashed
  deriving DecidableEq

/-- A job that gets as far as some kind of event. -/
structure JobMove where
  id : BytesN 32
  operator : Address
  fee : I128
  ledger : ℕ
  deriving DecidableEq

/-- The job that a step takes as far as `kind`. -/
def jobMove (kind : RelayerJobEventKind) (e : RegistryStep) : Option JobMove :=
  match kind, e.input, e.output with
  | .accepted, .registry env (.acceptJob operator jobId), .registry (.ok ()) =>
      (e.pre.registry.jobs.lookup jobId).map fun job => ⟨jobId, operator, job.fee, env.sequence⟩
  | .submitted, .registry env (.submitPoolWithdraw operator jobId _), .registry (.ok ()) =>
      (e.pre.registry.jobs.lookup jobId).map fun job => ⟨jobId, operator, job.fee, env.sequence⟩
  | .slashed, .registry env (.slashJob _ jobId), .registry (.ok ()) =>
      (e.pre.registry.jobs.lookup jobId).bind fun job =>
        job.acceptedRelayer.map fun operator => ⟨jobId, operator, job.fee, env.sequence⟩
  | _, _, _ => none

/-- The relayer that a step registers, and its stake. -/
def registration (e : RegistryStep) : Option (Address × I128) :=
  match e.input, e.output with
  | .registry _ (.register operator _ _ stake), .registry (.ok ()) => some (operator, stake)
  | _, _ => none

/-! ## Events -/

def Invocation.sequence : Invocation → ℕ
  | .registry env _ => env.sequence
  | .pool inv => inv.env.sequence

/-- What the directory asks for. -/
inductive RegistryTopic where
  | RelayerRegistered
  | job (kind : RelayerJobEventKind)
  deriving DecidableEq

def RegistryTopic.selects : RegistryTopic → RegistryEvent → Bool
  | .RelayerRegistered, .RelayerRegistered .. => true
  | .job .accepted, .JobAccepted .. => true
  | .job .submitted, .JobSubmitted .. => true
  | .job .slashed, .JobSlashed .. => true
  | _, _ => false

/-- What a step publishes. -/
def published (host : Host) (e : RegistryStep) : List (EventResponse RegistryEvent) :=
  ((step host e.pre e.input).1.events.drop e.pre.events.length).map (⟨e.input.sequence, ·⟩)

/-- The events of a topic. -/
def topicLog (host : Host) (topic : RegistryTopic) (t : List RegistryStep) : List (EventResponse RegistryEvent) :=
  (t.flatMap (published host)).filter fun ev => topic.selects ev.value

def JobMove.event (m : JobMove) : RelayerJobEventKind → RegistryEvent
  | .accepted => .JobAccepted m.id m.operator m.fee
  | .submitted => .JobSubmitted m.id m.operator m.fee
  | .slashed => .JobSlashed m.id m.operator m.fee

/-- The event of the topic that tells of a step. -/
def told (e : RegistryStep) : RegistryTopic → Option RegistryEvent
  | .RelayerRegistered => (registration e).map fun r => .RelayerRegistered r.1 r.2
  | .job kind => (jobMove kind e).map fun m => m.event kind

/-! ## Jobs and relayers -/

/-- Where a job can be when the event of this kind has been published. -/
def RelayerJobEventKind.statuses : RelayerJobEventKind → List JobStatus
  | .accepted => [.ACCEPTED, .SUBMITTED, .SLASHED]
  | .submitted => [.SUBMITTED]
  | .slashed => [.SLASHED]

/-- The operator took the job, for that fee, and it got as far as `kind`. -/
def JobRecord.Reached (kind : RelayerJobEventKind) (operator : Address) (fee : I128) (job : JobRecord) : Prop :=
  job.status ∈ kind.statuses ∧ job.acceptedRelayer = some operator ∧ job.fee = fee

def Reached (jobs : Store (BytesN 32) JobRecord) (kind : RelayerJobEventKind) (id : BytesN 32)
    (operator : Address) (fee : I128) : Prop :=
  ∃ job, jobs.lookup id = some job ∧ job.Reached kind operator fee

/-- Each of the moves takes another job as far as `kind`, and no other job gets there. -/
structure Moves (kind : RelayerJobEventKind) (moves : List JobMove)
    (jobs jobs' : Store (BytesN 32) JobRecord) : Prop where
  ids : (moves.map (·.id)).Nodup
  fresh : ∀ m ∈ moves, ∀ operator fee, ¬ Reached jobs kind m.id operator fee
  reached : ∀ id operator fee, Reached jobs' kind id operator fee ↔
    Reached jobs kind id operator fee ∨ ∃ m ∈ moves, m.id = id ∧ m.operator = operator ∧ m.fee = fee

/-- None of the operators was a relayer before, and all are now. -/
structure Registers (operators : List Address) (relayers relayers' : Store Address RelayerRecord) : Prop where
  fresh : ∀ k ∈ operators, k ∉ relayers
  registered : ∀ k, k ∈ relayers' ↔ k ∈ relayers ∨ k ∈ operators

section Stores

variable {kind : RelayerJobEventKind} {moves moves' : List JobMove}
  {jobs jobs' jobs'' : Store (BytesN 32) JobRecord} {id : BytesN 32} {new : JobRecord} {operator : Address}
  {fee : I128} {operators operators' : List Address} {relayers relayers' relayers'' : Store Address RelayerRecord}

theorem Moves.refl (kind : RelayerJobEventKind) (jobs : Store (BytesN 32) JobRecord) : Moves kind [] jobs jobs where
  ids := List.nodup_nil
  fresh := List.forall_mem_nil _
  reached := by simp

theorem Moves.trans (h : Moves kind moves jobs jobs') (h' : Moves kind moves' jobs' jobs'') :
    Moves kind (moves ++ moves') jobs jobs'' where
  ids := by
    rw [List.map_append, List.nodup_append]
    refine ⟨h.ids, h'.ids, ?_⟩
    intro id hid id' hid' heq
    obtain ⟨m, hm, rfl⟩ := List.mem_map.mp hid
    obtain ⟨m', hm', rfl⟩ := List.mem_map.mp hid'
    -- the job of the first move is where the second one would take it
    apply h'.fresh m' hm' m.operator m.fee
    rw [h.reached]
    exact .inr ⟨m, hm, heq, rfl, rfl⟩
  fresh m hm operator fee hreached := by
    rcases List.mem_append.mp hm with hm | hm
    · exact h.fresh m hm operator fee hreached
    · exact h'.fresh m hm operator fee ((h.reached _ _ _).mpr (.inl hreached))
  reached id operator fee := by
    rw [h'.reached, h.reached, or_assoc]
    simp only [List.mem_append, or_and_right, exists_or]

theorem Registers.refl (relayers : Store Address RelayerRecord) : Registers [] relayers relayers where
  fresh := List.forall_mem_nil _
  registered := by simp

theorem Registers.trans (h : Registers operators relayers relayers')
    (h' : Registers operators' relayers' relayers'') : Registers (operators ++ operators') relayers relayers'' where
  fresh k hk hbefore := by
    rcases List.mem_append.mp hk with hk | hk
    · exact h.fresh k hk hbefore
    · exact h'.fresh k hk ((h.registered k).mpr (.inl hbefore))
  registered k := by rw [h'.registered, h.registered, or_assoc, List.mem_append]

end Stores

/-! ## One step -/

section Steps

variable {host : Host} {env : Env} {w w' : World} {call : Call}

end Steps

/-! ## Runs -/

section Runs

variable {host : Host} {w : World}

end Runs

end OpaqueStellar.Registry
