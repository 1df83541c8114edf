import OpaqueStellar.Relayer.Hub

/-! # Restarts of the hub

`persistState` and `hydrateFromStore` of `relayer/src/hub.ts`, over the stores of
`relayer/src/store.ts`. A hub writes its maps to a store as it goes and reads them back when it starts.

Bids, outcomes and heartbeats come back as they were. An assignment comes back as if it had just been
made, since only its operator is written; and the store that keeps a file cannot write at all. So a
restart is without effect when no job was assigned before it, on a store in memory, and else an assigned
job outlives its time. -/

namespace OpaqueStellar.Relayer

open OpaqueStellar.Lib OpaqueStellar.Schemas

/-! ## Snapshots -/

structure SavedBid extends RelayerBid where
  addedAt : Option ℤ

inductive SavedAssignment where
  | operator (operator : Str)
  | entry (assignment : Assignment)

structure HubState where
  bids : List (Str × List SavedBid)
  outcomes : List (Str × List OutcomeEntry)
  knownOperators : List Str
  lastHeartbeatAt : List (Str × ℤ)
  assignments : List (Str × SavedAssignment)

inductive StoreKind where
  -- `MemoryHubStore`
  | memory
  -- `FileHubStore`
  | file

/-- What a store holds after `save`. The one in a file throws before it writes: `ensureDir` and
`writeFileSync` are not there. -/
def HubState.save (kind : StoreKind) (stored : Option HubState) (state : HubState) : Option HubState :=
  match kind with
  | .memory => some state
  | .file => stored

def persistState (hub : Hub) : HubState where
  bids := hub.bids.map fun e => (e.1, e.2.map fun b => ⟨b.toRelayerBid, some b.addedAt⟩)
  outcomes := hub.outcomes
  knownOperators := hub.knownOperators
  lastHeartbeatAt := hub.lastHeartbeatAt
  assignments := hub.assignments.map fun e => (e.1, .operator e.2.operator)

section Hydrate

variable (now : ℤ)

def hydrateBid (bid : SavedBid) : BidEntry := ⟨bid.toRelayerBid, bid.addedAt.getD now⟩

def hydrateAssignment : SavedAssignment → Assignment
  | .operator operator => ⟨operator, now⟩
  | .entry assignment => assignment

/-- Entries that are set one after the other. -/
def setAll {V : Type} (entries : List (Str × V)) : Dict Str V :=
  entries.foldl (fun d e => d.set e.1 e.2) []

def hydrateFromStore : Option HubState → Hub
  | none => {}
  | some saved =>
      { bids := setAll (saved.bids.map fun e => (e.1, e.2.map (hydrateBid now)))
        outcomes := setAll saved.outcomes
        knownOperators := saved.knownOperators.foldl addOperator []
        lastHeartbeatAt := setAll saved.lastHeartbeatAt
        assignments := setAll (saved.assignments.map fun e => (e.1, hydrateAssignment now e.2)) }

end Hydrate

/-! ## Hubs with a store -/

structure Served where
  hub : Hub := {}
  stored : Option HubState := none

section Served

variable {D K : Type} (C : Crypto D K) (kind : StoreKind)

/-- Whether the hub writes its state after this. -/
def HubInput.persists : HubInput → Bool
  | .deliver _ source m =>
      match ingest C source m with
      | some (.advert _) => false
      | some _ => true
      | none => false
  | .prune _ => true
  | _ => false

def Served.step (s : Served) (input : HubInput) : Served :=
  let hub := s.hub.step C input
  ⟨hub, if input.persists C then HubState.save kind s.stored (persistState hub) else s.stored⟩

def servedMachine : Machine Served HubInput Unit := ⟨fun s input => (s.step C kind input, ())⟩

/-- The state is written, and a fresh hub starts from the store. -/
def Served.restart (s : Served) (now : ℤ) : Hub :=
  hydrateFromStore now (HubState.save kind s.stored (persistState s.hub))

/-- A restart that nobody can tell. -/
structure Restored (hub hub' : Hub) : Prop where
  bids : hub'.bids = hub.bids
  outcomes : hub'.outcomes = hub.outcomes
  known : hub'.knownOperators = hub.knownOperators
  heartbeats : hub'.lastHeartbeatAt = hub.lastHeartbeatAt
  assignments : hub'.assignments = hub.assignments
  prune : ∀ later, hub'.prune later = hub.prune later
  failover : ∀ later, hub'.runFailoverCheck later = hub.runFailoverCheck later

theorem Restored.refl (hub : Hub) : Restored hub hub := ⟨rfl, rfl, rfl, rfl, rfl, fun _ => rfl, fun _ => rfl⟩

theorem Restored.eq {hub hub' : Hub} (h : Restored hub hub') : hub' = hub := by
  obtain ⟨bids, outcomes, known, heartbeats, assignments⟩ := hub
  obtain ⟨bids', outcomes', known', heartbeats', assignments'⟩ := hub'
  obtain ⟨rfl, rfl, rfl, rfl, rfl, -, -⟩ := h
  rfl

/-! ## Reading back -/

variable {hub : Hub} {now : ℤ}

theorem setAll_eq_self {V : Type} {d : Dict Str V} (h : d.Distinct) : setAll d = d :=
  Dict.foldl_set d [] h

theorem foldl_addOperator (operators known : List Str) (h : (known ++ operators).Nodup) :
    operators.foldl addOperator known = known ++ operators := by
  induction operators generalizing known with
  | nil => rw [List.foldl_nil, List.append_nil]
  | cons operator operators ih =>
    have hnew : operator ∉ known := by
      intro hmem
      exact (List.nodup_append.mp h).2.2 operator hmem operator List.mem_cons_self rfl
    rw [List.foldl_cons, addOperator, if_neg hnew, ih _ (by rwa [List.append_assoc]), List.append_assoc]
    rfl

/-- What comes back of a hub. -/
theorem hydrate_persistState (h : hub.Sane) :
    hydrateFromStore now (some (persistState hub)) =
      { hub with assignments := hub.assignments.map fun e => (e.1, ⟨e.2.operator, now⟩) } := by
  have hbids : (persistState hub).bids.map (fun e => (e.1, e.2.map (hydrateBid now))) = hub.bids := by
    show (hub.bids.map _).map _ = hub.bids
    rw [List.map_map]
    refine (List.map_congr_left fun e _ => ?_).trans (List.map_id _)
    show (e.1, (e.2.map _).map (hydrateBid now)) = e
    rw [List.map_map]
    exact congrArg (e.1, ·) ((List.map_congr_left fun b _ => rfl).trans (List.map_id _))
  have hassignments : (persistState hub).assignments.map (fun e => (e.1, hydrateAssignment now e.2)) =
      hub.assignments.map fun e => (e.1, (⟨e.2.operator, now⟩ : Assignment)) := by
    show (hub.assignments.map _).map _ = _
    rw [List.map_map]
    rfl
  have hdistinct : Dict.Distinct (hub.assignments.map fun e => (e.1, (⟨e.2.operator, now⟩ : Assignment))) :=
    Dict.distinct_map h.assignments fun _ => rfl
  unfold hydrateFromStore
  simp only [hbids, hassignments]
  rw [setAll_eq_self h.bids, setAll_eq_self hdistinct]
  congr 1
  · exact setAll_eq_self h.outcomes
  · exact foldl_addOperator _ [] h.known
  · exact setAll_eq_self h.heartbeats

theorem sane_served (inputs : List HubInput) : ((servedMachine C kind).final {} inputs).hub.Sane :=
  (servedMachine C kind).stable (J := fun s => s.hub.Sane) (fun _ input h => h.step C input)
    Hub.sane_empty inputs

/-- Nothing is ever written to a file. -/
theorem stored_file (inputs : List HubInput) :
    ((servedMachine C .file).final {} inputs).stored = none := by
  refine (servedMachine C .file).stable (J := fun s => s.stored = none) (fun s input h => ?_) rfl inputs
  show (if input.persists C then s.stored else s.stored) = none
  rw [ite_self]
  exact h

/-- **When a restart is without effect.** On a store in memory, if every assignment was made in the
moment of the restart, such as when there is none; on a store in a file, if there was nothing to lose. -/
theorem restart_restores_iff (inputs : List HubInput) (now : ℤ) :
    let s := (servedMachine C kind).final {} inputs
    Restored s.hub (s.restart kind now) ↔
      match kind with
      | .memory => ∀ e ∈ s.hub.assignments, e.2.addedAt = now
      | .file => s.hub = {} := by
  intro s
  cases kind with
  | memory =>
    have hrestart : s.restart .memory now = { s.hub with
        assignments := s.hub.assignments.map fun e => (e.1, ⟨e.2.operator, now⟩) } :=
      hydrate_persistState (sane_served C .memory inputs)
    rw [hrestart]
    constructor
    · intro h e he
      have hself := List.map_inj_left.mp (h.assignments.trans (List.map_id _).symm) e he
      have hentry : (e.1, (⟨e.2.operator, now⟩ : Assignment)) = e := hself
      rw [← hentry]
    · intro h
      have hself : (s.hub.assignments.map fun e => (e.1, (⟨e.2.operator, now⟩ : Assignment))) =
          s.hub.assignments := by
        refine (List.map_congr_left fun e he => ?_).trans (List.map_id _)
        show (e.1, (⟨e.2.operator, now⟩ : Assignment)) = e
        rw [← h e he]
      rw [hself]
      exact Restored.refl s.hub
  | file =>
    have hrestart : s.restart .file now = {} := by
      show hydrateFromStore now s.stored = {}
      rw [show s.stored = none from stored_file C inputs]
      rfl
    rw [hrestart]
    constructor
    · intro h
      exact h.eq.symm
    · intro h
      rw [h]
      exact Restored.refl {}

end Served

/-- The bid of `a` for job zero, and the payload that makes the job its own. -/
def assignedInputs : List HubInput :=
  [.deliver 0 .messages
    { t := some "bid".toList, v := some (some 1), jobId := some plainBid.jobId,
      operator := some plainBid.operator, x25519Pk := some plainBid.x25519Pk, sig := some plainBid.sig,
      freeStake := plainBid.freeStake },
   .deliver 0 .transport
    { t := some "payload".toList, v := some (some 1), jobId := some plainBid.jobId,
      recipient := some plainBid.x25519Pk, box := some [] }]

/-- Restarted after five milliseconds, the hub still holds the assignment when it should have expired. -/
theorem restart_not_always_restores :
    ¬ ∀ (kind : StoreKind) (inputs : List HubInput) (now : ℤ),
      let s := (servedMachine plainCrypto kind).final {} inputs
      Restored s.hub (s.restart kind now) := by
  intro h
  have hprune := (h .memory assignedInputs 5).prune ASSIGNMENT_EXPIRY_MS
  revert hprune
  decide

end OpaqueStellar.Relayer
