import OpaqueStellar.Lib.Machine
import OpaqueStellar.Relayer.Messages

/-! # The hub of the job market

`relayer/src/hub.ts` and the routes of `relayer/src/http.ts` that reach it. A hub collects bids,
outcomes and heartbeats, scores operators by the outcomes of the last thirty days and hands the job of
an operator that fell silent to another bidder.

Messages come from any peer, over the transport or over HTTP. Both ways check their shape, and only one
of the HTTP routes checks signatures, those of bids excepted. So what a hub stores for an operator is
its own doing as long as all that comes in happens to be signed, and nobody reports the outcome of a job
that others have bid on. -/

namespace OpaqueStellar.Relayer

open OpaqueStellar.Lib OpaqueStellar.Schemas

/-! ## State -/

def HEARTBEAT_MISS_THRESHOLD_MS : ℤ := 45000

def NEUTRAL_RELAYER_SCORE : ℚ := 1 / 2

def SCORE_WINDOW_MS : ℤ := 30 * 24 * 60 * 60 * 1000

def MAX_JOB_LIFETIME_MS : ℤ := 17280 * 5000

def BID_EXPIRY_MS : ℤ := MAX_JOB_LIFETIME_MS + 60 * 60 * 1000

def ASSIGNMENT_EXPIRY_MS : ℤ := BID_EXPIRY_MS

structure BidEntry extends RelayerBid where
  addedAt : ℤ
  deriving DecidableEq

structure OutcomeEntry where
  result : Settlement
  -- `at`
  settledAt : ℤ
  deriving DecidableEq

structure Assignment where
  operator : Str
  addedAt : ℤ
  deriving DecidableEq

structure RelayerScore where
  operator : Str
  score : ℚ
  completed : ℕ
  failed : ℕ
  windowMs : ℤ
  deriving DecidableEq

structure FailoverEvent where
  jobId : Str
  -- `from` and `to`
  source : Str
  target : Str
  deriving DecidableEq

structure Hub where
  bids : Dict Str (List BidEntry) := []
  outcomes : Dict Str (List OutcomeEntry) := []
  knownOperators : List Str := []
  lastHeartbeatAt : Dict Str ℤ := []
  assignments : Dict Str Assignment := []
  deriving DecidableEq

/-- `knownOperators.add` -/
def addOperator (known : List Str) (operator : Str) : List Str :=
  if operator ∈ known then known else known ++ [operator]

namespace Hub

variable (hub : Hub) (now : ℤ)

def bidsFor (jobId : Str) : List BidEntry := (hub.bids.find (toLowerCase jobId)).getD []

def know (operator : Str) : List Str := addOperator hub.knownOperators operator

/-! ## What messages do -/

def rememberBid (bid : RelayerBid) : Hub :=
  let key := toLowerCase bid.jobId
  let list := (hub.bids.find key).getD []
  { hub with
    bids := if list.any fun b => b.operator = bid.operator then hub.bids
      else hub.bids.set key (list ++ [⟨bid, now⟩])
    knownOperators := hub.know bid.operator }

def recordOutcome (operator : Str) (result : Settlement) : Hub :=
  let list := (hub.outcomes.find operator).getD []
  { hub with
    knownOperators := hub.know operator
    outcomes := hub.outcomes.set operator (list ++ [⟨result, now⟩]) }

def rememberAssignment (payload : EncryptedPayload) : Hub :=
  let key := toLowerCase payload.jobId
  let bid := (hub.bidsFor key).find? fun b => toLowerCase b.x25519Pk = toLowerCase payload.recipient
  match bid with
  | some bid => { hub with assignments := hub.assignments.set key ⟨bid.operator, now⟩ }
  | none => hub

def recordHeartbeat (operator : Str) : Hub :=
  { hub with
    knownOperators := hub.know operator
    lastHeartbeatAt := hub.lastHeartbeatAt.set operator now }

/-- The subscription to the transport, for a message that has passed its checks. -/
def receive : RelayerMessage → Hub
  | .advert _ => hub
  | .bid bid => hub.rememberBid now bid
  | .payload payload => hub.rememberAssignment now payload
  | .outcome outcome =>
      let hub := hub.recordOutcome now outcome.operator outcome.result
      let jobKey := toLowerCase outcome.jobId
      { hub with assignments := hub.assignments.delete jobKey, bids := hub.bids.delete jobKey }
  | .heartbeat heartbeat => hub.recordHeartbeat now heartbeat.operator

/-! ## What time does -/

def isNodeAlive (operator : Str) : Bool :=
  match hub.lastHeartbeatAt.find operator with
  | some last => now - last ≤ HEARTBEAT_MISS_THRESHOLD_MS
  | none => false

/-- Who takes over a job. -/
def reassign (jobId : Str) (assignment : Assignment) : Option Str :=
  if hub.isNodeAlive now assignment.operator then none
  else ((hub.bidsFor jobId).find? fun bid =>
    bid.operator ≠ assignment.operator && hub.isNodeAlive now bid.operator).map fun bid => bid.operator

def runFailoverCheck : Hub × List FailoverEvent :=
  ({ hub with
      assignments := hub.assignments.map fun e =>
        match hub.reassign now e.1 e.2 with
        | some operator => (e.1, ⟨operator, now⟩)
        | none => e },
    hub.assignments.filterMap fun e =>
      (hub.reassign now e.1 e.2).map fun operator => ⟨e.1, e.2.operator, operator⟩)

/-- The entries to keep, if there are any. -/
def fresh {α : Type} (keep : α → Bool) (list : List α) : Option (List α) :=
  if list.filter keep = [] then none else some (list.filter keep)

def unexpired (assignment : Assignment) : Option Assignment :=
  if now - assignment.addedAt ≥ ASSIGNMENT_EXPIRY_MS then none else some assignment

def prune : Hub :=
  { hub with
    bids := hub.bids.filterValues (fresh fun bid => now - bid.addedAt < BID_EXPIRY_MS)
    assignments := hub.assignments.filterValues (unexpired now)
    outcomes := hub.outcomes.filterValues (fresh fun entry => entry.settledAt ≥ now - SCORE_WINDOW_MS) }

def windowedOutcomes (operator : Str) : List OutcomeEntry × Hub :=
  let list := (hub.outcomes.find operator).getD []
  let fresh := list.filter fun entry => entry.settledAt ≥ now - SCORE_WINDOW_MS
  (fresh, if fresh.length ≠ list.length then { hub with outcomes := hub.outcomes.set operator fresh }
    else hub)

/-- Completed jobs over resolved ones. -/
def scoreOf (operator : Str) (entries : List OutcomeEntry) : RelayerScore :=
  let completed := (entries.filter fun entry => entry.result = .completed).length
  let failed := (entries.filter fun entry => entry.result = .failed).length
  let resolved := completed + failed
  ⟨operator, if resolved = 0 then NEUTRAL_RELAYER_SCORE else completed / resolved, completed, failed,
    SCORE_WINDOW_MS⟩

def scoreFor (operator : Str) : RelayerScore × Hub :=
  let windowed := hub.windowedOutcomes now operator
  (scoreOf operator windowed.1, windowed.2)

end Hub

/-! ## Inputs -/

/-- How a message comes in. -/
inductive Source where
  | transport
  -- `POST /v1/gossip/messages`
  | messages
  -- `POST /v1/jobs`
  | jobs
  -- `POST /v1/jobs/:jobId/payload`, with `x-idempotency-key`
  | payload (jobId : Str) (idempotencyKey : Option Str)

section Steps

variable {D K : Type} (C : Crypto D K)

/-- What `POST /v1/gossip/messages` asks of signatures. -/
def authenticated : RelayerMessage → Bool
  | .outcome outcome => verifyOutcome C outcome
  | .heartbeat heartbeat => verifyHeartbeat C heartbeat
  | _ => true

/-- The message that reaches the hub's subscription. Routes publish what they take on the transport, and
the hub hears itself. -/
def ingest : Source → RawMessage → Option RelayerMessage
  | .transport, m => (validateRelayerMessage m).toOption
  | .messages, m => (validateRelayerMessage m).toOption.filter (authenticated C)
  | .jobs, m => (validateAdvert m).toOption.map .advert
  | .payload jobId idempotencyKey, m => do
      let payload ← (validatePayload m).toOption
      if toLowerCase payload.jobId = toLowerCase jobId then
        some (.payload { payload with
          idempotencyKey := (idempotencyKey.filter (· ≠ [])).or payload.idempotencyKey })
      else none

inductive HubInput where
  | deliver (now : ℤ) (source : Source) (m : RawMessage)
  -- a look at a score; a look at all of them is one at each
  | score (now : ℤ) (operator : Str)
  | prune (now : ℤ)
  | failover (now : ℤ)

def Hub.step (hub : Hub) : HubInput → Hub
  | .deliver now source m =>
      match ingest C source m with
      | some message => hub.receive now message
      | none => hub
  | .score now operator => (hub.scoreFor now operator).2
  | .prune now => hub.prune now
  | .failover now => (hub.runFailoverCheck now).1

def hubMachine : Machine Hub HubInput Unit := ⟨fun hub input => (hub.step C input, ())⟩

/-! ## Maps with each key once -/

structure Hub.Sane (hub : Hub) : Prop where
  bids : hub.bids.Distinct
  outcomes : hub.outcomes.Distinct
  known : hub.knownOperators.Nodup
  heartbeats : hub.lastHeartbeatAt.Distinct
  assignments : hub.assignments.Distinct

namespace Hub

variable {hub : Hub} {now : ℤ}

theorem Sane.know (h : hub.Sane) (operator : Str) : (hub.know operator).Nodup := by
  unfold Hub.know addOperator
  split_ifs with hmem
  · exact h.known
  · rw [List.nodup_append]
    refine ⟨h.known, by simp, ?_⟩
    intro a ha b hb
    rintro rfl
    exact hmem (List.mem_singleton.mp hb ▸ ha)

theorem Sane.receive (h : hub.Sane) (m : RelayerMessage) : (hub.receive now m).Sane := by
  cases m with
  | advert m => exact h
  | bid bid =>
    refine ⟨?_, h.outcomes, h.know _, h.heartbeats, h.assignments⟩
    show Dict.Distinct (if _ then _ else _)
    split_ifs
    · exact h.bids
    · exact Dict.distinct_set h.bids _ _
  | payload payload =>
    show (hub.rememberAssignment now payload).Sane
    unfold rememberAssignment
    dsimp only
    split
    · exact ⟨h.bids, h.outcomes, h.known, h.heartbeats, Dict.distinct_set h.assignments _ _⟩
    · exact h
  | outcome outcome =>
    exact ⟨Dict.distinct_delete h.bids _, Dict.distinct_set h.outcomes _ _, h.know _, h.heartbeats,
      Dict.distinct_delete h.assignments _⟩
  | heartbeat heartbeat =>
    exact ⟨h.bids, h.outcomes, h.know _, Dict.distinct_set h.heartbeats _ _, h.assignments⟩

theorem Sane.failover (h : hub.Sane) : (hub.runFailoverCheck now).1.Sane := by
  refine ⟨h.bids, h.outcomes, h.known, h.heartbeats, Dict.distinct_map h.assignments fun e => ?_⟩
  split <;> rfl

theorem Sane.prune (h : hub.Sane) : (hub.prune now).Sane where
  bids := Dict.distinct_filterValues h.bids _
  outcomes := Dict.distinct_filterValues h.outcomes _
  known := h.known
  heartbeats := h.heartbeats
  assignments := Dict.distinct_filterValues h.assignments _

theorem Sane.score (h : hub.Sane) (operator : Str) : (hub.scoreFor now operator).2.Sane := by
  show (hub.windowedOutcomes now operator).2.Sane
  unfold windowedOutcomes
  dsimp only
  split_ifs
  · exact ⟨h.bids, Dict.distinct_set h.outcomes _ _, h.known, h.heartbeats, h.assignments⟩
  · exact h

theorem Sane.step (h : hub.Sane) (input : HubInput) : (hub.step C input).Sane := by
  cases input with
  | deliver now source m =>
    simp only [Hub.step]
    split
    · exact h.receive _
    · exact h
  | score now operator => exact h.score operator
  | prune now => exact h.prune
  | failover now => exact h.failover

theorem sane_empty : Sane {} :=
  ⟨List.nodup_nil, List.nodup_nil, List.nodup_nil, List.nodup_nil, List.nodup_nil⟩

/-- **Every hub that was started empty has each key once.** -/
theorem sane_run (inputs : List HubInput) : ((hubMachine C).final {} inputs).Sane :=
  (hubMachine C).stable (fun _ input h => h.step C input) sane_empty inputs

/-! ## What is stored for an operator -/

def bidsOf (hub : Hub) (operator jobKey : Str) : List BidEntry :=
  ((hub.bids.find jobKey).getD []).filter fun e => e.operator = operator

def outcomesOf (hub : Hub) (operator : Str) : List OutcomeEntry := (hub.outcomes.find operator).getD []

/-- Nothing has changed for this operator. -/
structure Same (hub hub' : Hub) (operator : Str) : Prop where
  bids : ∀ jobKey, hub'.bidsOf operator jobKey = hub.bidsOf operator jobKey
  outcomes : hub'.outcomesOf operator = hub.outcomesOf operator
  heartbeat : hub'.lastHeartbeatAt.find operator = hub.lastHeartbeatAt.find operator
  score : ∀ now, (hub'.scoreFor now operator).1 = (hub.scoreFor now operator).1

/-- Nothing has changed for this operator, but that some of what was too old is gone. -/
structure Aged (now : ℤ) (hub hub' : Hub) (operator : Str) : Prop where
  bids : ∀ jobKey, ∃ keep : BidEntry → Bool,
    hub'.bidsOf operator jobKey = (hub.bidsOf operator jobKey).filter keep ∧
      ∀ e, keep e = false → BID_EXPIRY_MS ≤ now - e.addedAt
  outcomes : ∃ keep : OutcomeEntry → Bool,
    hub'.outcomesOf operator = (hub.outcomesOf operator).filter keep ∧
      ∀ e, keep e = false → SCORE_WINDOW_MS < now - e.settledAt
  heartbeat : hub'.lastHeartbeatAt.find operator = hub.lastHeartbeatAt.find operator

theorem same_of {hub hub' : Hub} {operator : Str}
    (hbids : ∀ jobKey, hub'.bidsOf operator jobKey = hub.bidsOf operator jobKey)
    (houtcomes : hub'.outcomesOf operator = hub.outcomesOf operator)
    (hheartbeat : hub'.lastHeartbeatAt.find operator = hub.lastHeartbeatAt.find operator) :
    Same hub hub' operator := by
  refine ⟨hbids, houtcomes, hheartbeat, fun now => ?_⟩
  show scoreOf operator (List.filter _ (hub'.outcomesOf operator)) =
    scoreOf operator (List.filter _ (hub.outcomesOf operator))
  rw [houtcomes]

theorem Same.refl (hub : Hub) (operator : Str) : Same hub hub operator :=
  same_of (fun _ => rfl) rfl rfl

/-- What this operator has signed. -/
def SignedBy (operator : Str) : RelayerMessage → Prop
  | .bid bid => bid.operator = operator ∧ verifyBid C bid = true
  | .outcome outcome => outcome.operator = operator ∧ verifyOutcome C outcome = true
  | .heartbeat heartbeat => heartbeat.operator = operator ∧ verifyHeartbeat C heartbeat = true
  | _ => False

/-- Operators speak for themselves, and else it is their age that entries go by. -/
def Authentic (hub : Hub) : HubInput → Prop
  | .deliver now source m => ∀ operator, Same hub (hub.step C (.deliver now source m)) operator ∨
      ∃ message ∈ ingest C source m, SignedBy C operator message
  | .score now operator' => ∀ operator, Aged now hub (hub.step C (.score now operator')) operator
  | .prune now => ∀ operator, Aged now hub (hub.step C (.prune now)) operator
  | .failover now => ∀ operator, Same hub (hub.step C (.failover now)) operator

/-- A bid that is signed or comes too late; an outcome that is signed, of a job that nobody else has bid
on; a heartbeat that is signed or says nothing new. -/
def GenuineMessage (hub : Hub) (now : ℤ) : RelayerMessage → Prop
  | .bid bid => verifyBid C bid = true ∨ ∃ e ∈ hub.bidsFor bid.jobId, e.operator = bid.operator
  | .outcome outcome => verifyOutcome C outcome = true ∧
      ∀ e ∈ hub.bidsFor outcome.jobId, e.operator = outcome.operator
  | .heartbeat heartbeat => verifyHeartbeat C heartbeat = true ∨
      hub.lastHeartbeatAt.find heartbeat.operator = some now
  | _ => True

def Genuine (hub : Hub) : HubInput → Prop
  | .deliver now source m => ∀ message ∈ ingest C source m, GenuineMessage C hub now message
  | _ => True

/-! ### Messages -/

theorem rememberBid_of_taken {bid : RelayerBid}
    (h : ∃ e ∈ hub.bidsFor bid.jobId, e.operator = bid.operator) :
    (hub.rememberBid now bid).bids = hub.bids := by
  have hany : ((hub.bids.find (toLowerCase bid.jobId)).getD []).any
      (fun b => b.operator = bid.operator) = true := by
    obtain ⟨e, he, hoperator⟩ := h
    exact List.any_eq_true.mpr ⟨e, he, by simpa using hoperator⟩
  unfold rememberBid
  simp only [hany, if_true]

theorem rememberBid_of_free {bid : RelayerBid}
    (h : ¬ ∃ e ∈ hub.bidsFor bid.jobId, e.operator = bid.operator) :
    (hub.rememberBid now bid).bids =
      hub.bids.set (toLowerCase bid.jobId) (hub.bidsFor bid.jobId ++ [⟨bid, now⟩]) := by
  have hany : ¬ ((hub.bids.find (toLowerCase bid.jobId)).getD []).any
      (fun b => b.operator = bid.operator) = true := by
    intro hany
    obtain ⟨e, he, hoperator⟩ := List.any_eq_true.mp hany
    exact h ⟨e, he, by simpa using hoperator⟩
  unfold rememberBid
  simp only [hany]
  rfl

/-- A bid is stored for who it says it is from. -/
theorem bidsOf_rememberBid {bid : RelayerBid} {operator : Str} (h : operator ≠ bid.operator)
    (jobKey : Str) : (hub.rememberBid now bid).bidsOf operator jobKey = hub.bidsOf operator jobKey := by
  unfold bidsOf
  by_cases htaken : ∃ e ∈ hub.bidsFor bid.jobId, e.operator = bid.operator
  · rw [rememberBid_of_taken htaken]
  · rw [rememberBid_of_free htaken]
    by_cases hkey : jobKey = toLowerCase bid.jobId
    · subst hkey
      rw [Dict.find_set_self, Option.getD_some, List.filter_append,
        List.filter_cons_of_neg (by simpa using Ne.symm h), List.filter_nil, List.append_nil]
      rfl
    · rw [Dict.find_set_of_ne _ _ hkey]

theorem same_of_bid {bid : RelayerBid} {operator : Str} (h : operator ≠ bid.operator) :
    Same hub (hub.receive now (.bid bid)) operator :=
  same_of (bidsOf_rememberBid h) rfl rfl

theorem not_same_of_bid {bid : RelayerBid}
    (h : ¬ ∃ e ∈ hub.bidsFor bid.jobId, e.operator = bid.operator) :
    ¬ Same hub (hub.receive now (.bid bid)) bid.operator := by
  intro hsame
  have hbids : (hub.rememberBid now bid).bidsOf bid.operator (toLowerCase bid.jobId) =
      hub.bidsOf bid.operator (toLowerCase bid.jobId) := hsame.bids _
  unfold bidsOf at hbids
  rw [rememberBid_of_free h, Dict.find_set_self, Option.getD_some, List.filter_append,
    List.filter_cons_of_pos (by simp), List.filter_nil] at hbids
  have hlength := congrArg List.length hbids
  rw [List.length_append, List.length_singleton] at hlength
  unfold bidsFor at hlength
  omega

/-- Nobody else has bid on this job. -/
theorem bidsOf_eq_nil {jobId : Str} {operator operator' : Str} (hne : operator ≠ operator')
    (h : ∀ e ∈ hub.bidsFor jobId, e.operator = operator') :
    hub.bidsOf operator (toLowerCase jobId) = [] := by
  refine List.filter_eq_nil_iff.mpr fun e he => ?_
  have hoperator : e.operator = operator' := h e he
  simpa [hoperator] using Ne.symm hne

theorem same_of_outcome {outcome : RelayerOutcome} {operator : Str} (hne : operator ≠ outcome.operator)
    (h : ∀ e ∈ hub.bidsFor outcome.jobId, e.operator = outcome.operator) :
    Same hub (hub.receive now (.outcome outcome)) operator := by
  refine same_of (fun jobKey => ?_) ?_ rfl
  · show ((Dict.delete hub.bids _).find jobKey |>.getD []).filter _ = _
    by_cases hkey : jobKey = toLowerCase outcome.jobId
    · subst hkey
      rw [Dict.find_delete_self, bidsOf_eq_nil hne h]
      rfl
    · rw [Dict.find_delete_of_ne _ hkey]
      rfl
  · show ((Dict.set hub.outcomes _ _).find operator).getD [] = _
    rw [Dict.find_set_of_ne _ _ hne]
    rfl

theorem not_same_of_outcome {outcome : RelayerOutcome} :
    ¬ Same hub (hub.receive now (.outcome outcome)) outcome.operator := by
  intro hsame
  have houtcomes : ((Dict.set hub.outcomes outcome.operator
      (hub.outcomesOf outcome.operator ++ [⟨outcome.result, now⟩])).find outcome.operator).getD [] =
        hub.outcomesOf outcome.operator := hsame.outcomes
  rw [Dict.find_set_self, Option.getD_some] at houtcomes
  have hlength := congrArg List.length houtcomes
  rw [List.length_append, List.length_singleton] at hlength
  omega

/-- An outcome drops the bids of everybody. -/
theorem bidsOf_receive_outcome {outcome : RelayerOutcome} (operator : Str) :
    (hub.receive now (.outcome outcome)).bidsOf operator (toLowerCase outcome.jobId) = [] := by
  show ((Dict.delete hub.bids _).find _ |>.getD []).filter _ = _
  rw [Dict.find_delete_self]
  rfl

theorem same_of_heartbeat {heartbeat : RelayerHeartbeat} {operator : Str}
    (h : operator ≠ heartbeat.operator ∨
      hub.lastHeartbeatAt.find heartbeat.operator = some now) :
    Same hub (hub.receive now (.heartbeat heartbeat)) operator := by
  refine same_of (fun _ => rfl) rfl ?_
  show (Dict.set hub.lastHeartbeatAt heartbeat.operator now).find operator = _
  by_cases hne : operator = heartbeat.operator
  · rw [hne, Dict.find_set_self, h.resolve_left (not_not_intro hne)]
  · exact Dict.find_set_of_ne _ _ hne

theorem same_of_payload {payload : EncryptedPayload} (operator : Str) :
    Same hub (hub.receive now (.payload payload)) operator := by
  show Same hub (hub.rememberAssignment now payload) operator
  unfold rememberAssignment
  dsimp only
  split
  · exact same_of (fun _ => rfl) rfl rfl
  · exact Same.refl hub operator

/-- **When a message speaks for its operator alone.** -/
theorem receive_authentic_iff (m : RelayerMessage) :
    (∀ operator, Same hub (hub.receive now m) operator ∨ SignedBy C operator m) ↔
      GenuineMessage C hub now m := by
  cases m with
  | advert m => exact iff_of_true (fun operator => .inl (Same.refl hub operator)) trivial
  | payload m => exact iff_of_true (fun operator => .inl (same_of_payload operator)) trivial
  | bid bid =>
    constructor
    · intro h
      rcases h bid.operator with hsame | hsigned
      · by_contra hgenuine
        exact not_same_of_bid (fun htaken => hgenuine (.inr htaken)) hsame
      · exact .inl hsigned.2
    · intro hgenuine operator
      by_cases hne : operator = bid.operator
      · rcases hgenuine with hverified | htaken
        · exact .inr ⟨hne.symm, hverified⟩
        · refine .inl (same_of (fun jobKey => ?_) rfl rfl)
          show List.filter _ (((hub.rememberBid now bid).bids.find jobKey).getD []) = _
          rw [rememberBid_of_taken htaken]
          rfl
      · exact .inl (same_of_bid hne)
  | outcome outcome =>
    constructor
    · intro h
      refine ⟨((h outcome.operator).resolve_left not_same_of_outcome).2, fun e he => ?_⟩
      rcases h e.operator with hsame | hsigned
      · have hempty : hub.bidsOf e.operator (toLowerCase outcome.jobId) = [] := by
          rw [← hsame.bids, bidsOf_receive_outcome]
        have hmem : e ∈ hub.bidsOf e.operator (toLowerCase outcome.jobId) :=
          List.mem_filter.mpr ⟨he, by simp⟩
        rw [hempty] at hmem
        cases hmem
      · exact hsigned.1.symm
    · rintro ⟨hverified, hbids⟩ operator
      by_cases hne : operator = outcome.operator
      · exact .inr ⟨hne.symm, hverified⟩
      · exact .inl (same_of_outcome hne hbids)
  | heartbeat heartbeat =>
    constructor
    · intro h
      rcases h heartbeat.operator with hsame | hsigned
      · have hlast : (Dict.set hub.lastHeartbeatAt heartbeat.operator now).find heartbeat.operator =
          hub.lastHeartbeatAt.find heartbeat.operator := hsame.heartbeat
        rw [Dict.find_set_self] at hlast
        exact .inr hlast.symm
      · exact .inl hsigned.2
    · intro hgenuine operator
      by_cases hne : operator = heartbeat.operator
      · rcases hgenuine with hverified | hlast
        · exact .inr ⟨hne.symm, hverified⟩
        · exact .inl (same_of_heartbeat (.inr hlast))
      · exact .inl (same_of_heartbeat (.inl hne))

/-! ### Age -/

theorem getD_bind_fresh {α : Type} (keep : α → Bool) (list : Option (List α)) :
    (list.bind (fresh keep)).getD [] = (list.getD []).filter keep := by
  cases list with
  | none => rfl
  | some list =>
    show (fresh keep list).getD [] = list.filter keep
    unfold fresh
    split_ifs with hempty
    · exact hempty.symm
    · rfl

theorem Sane.aged_prune (h : hub.Sane) (operator : Str) : Aged now hub (hub.prune now) operator := by
  refine ⟨fun jobKey => ⟨fun bid => now - bid.addedAt < BID_EXPIRY_MS, ?_, ?_⟩,
    ⟨fun entry => entry.settledAt ≥ now - SCORE_WINDOW_MS, ?_, ?_⟩, rfl⟩
  · show (((Dict.filterValues _ hub.bids).find jobKey).getD []).filter _ = _
    rw [Dict.find_filterValues h.bids, getD_bind_fresh, List.filter_comm]
    rfl
  · intro e he
    simpa using he
  · show ((Dict.filterValues _ hub.outcomes).find operator).getD [] = _
    rw [Dict.find_filterValues h.outcomes, getD_bind_fresh]
    rfl
  · intro e he
    have hold : ¬ e.settledAt ≥ now - SCORE_WINDOW_MS := of_decide_eq_false he
    omega

theorem aged_score (operator' operator : Str) :
    Aged now hub (hub.scoreFor now operator').2 operator := by
  have hself : ∀ list : List BidEntry, list = list.filter fun _ => true := by simp
  -- nothing is dropped, so nothing dropped is young
  have hkept : ∀ {P : Prop}, true = false → P := fun h => absurd h Bool.noConfusion
  show Aged now hub (hub.windowedOutcomes now operator').2 operator
  unfold windowedOutcomes
  dsimp only
  split_ifs
  · refine ⟨fun jobKey => ⟨fun _ => true, hself _, fun _ => hkept⟩, ?_, rfl⟩
    by_cases hne : operator = operator'
    · subst hne
      refine ⟨fun entry => entry.settledAt ≥ now - SCORE_WINDOW_MS, ?_, ?_⟩
      · show ((Dict.set hub.outcomes _ _).find operator).getD [] = _
        rw [Dict.find_set_self]
        rfl
      · intro e he
        have hold : ¬ e.settledAt ≥ now - SCORE_WINDOW_MS := of_decide_eq_false he
        omega
    · refine ⟨fun _ => true, ?_, fun _ => hkept⟩
      show ((Dict.set hub.outcomes _ _).find operator).getD [] = _
      rw [Dict.find_set_of_ne _ _ hne]
      simp [outcomesOf]
  · exact ⟨fun jobKey => ⟨fun _ => true, hself _, fun _ => hkept⟩,
      ⟨fun _ => true, by simp, fun _ => hkept⟩, rfl⟩

theorem Sane.authentic_iff (h : hub.Sane) (input : HubInput) :
    Authentic C hub input ↔ Genuine C hub input := by
  cases input with
  | deliver now source m =>
    rcases hingest : ingest C source m with - | message
    · refine iff_of_true (fun operator => .inl ?_) ?_
      · simp only [Hub.step, hingest]
        exact Same.refl hub operator
      · intro message hmessage
        rw [hingest] at hmessage
        cases hmessage
    · have hstep : hub.step C (.deliver now source m) = hub.receive now message := by
        simp only [Hub.step, hingest]
      have hgenuine : Genuine C hub (.deliver now source m) ↔ GenuineMessage C hub now message := by
        simp [Genuine, hingest]
      rw [hgenuine, ← receive_authentic_iff]
      simp [Authentic, hstep, hingest]
  | score now operator' => exact iff_of_true (fun operator => aged_score operator' operator) trivial
  | prune now => exact iff_of_true (fun operator => h.aged_prune operator) trivial
  | failover now => exact iff_of_true (fun operator => same_of (fun _ => rfl) rfl rfl) trivial

end Hub

/-- **When operators speak for themselves.** In any run, what a hub stores for an operator changes by
age or by the operator's own messages alone, just if whatever comes in is genuine: no bid without a
signature finds its slot free, and no outcome or heartbeat goes without one, nor does any outcome meet the
bids of others. -/
theorem hub_authentic_iff (inputs : List HubInput) :
    (∀ e ∈ (hubMachine C).trace {} inputs, Hub.Authentic C e.pre e.input) ↔
      ∀ e ∈ (hubMachine C).trace {} inputs, Hub.Genuine C e.pre e.input := by
  have hiff : ∀ e ∈ (hubMachine C).trace {} inputs,
      (Hub.Authentic C e.pre e.input ↔ Hub.Genuine C e.pre e.input) := by
    intro e he
    obtain ⟨before, later, -, hstep⟩ := (hubMachine C).mem_trace he
    have hsane : e.pre.Sane := by
      rw [hstep]
      exact Hub.sane_run C before
    exact hsane.authentic_iff C e.input
  constructor
  · intro h e he
    exact (hiff e he).mp (h e he)
  · intro h e he
    exact (hiff e he).mpr (h e he)

end Steps

/-- A bid for job zero that `a` has not signed, as anybody may post it. -/
def forgedMessage : RawMessage :=
  { t := some "bid".toList, v := some (some 1), jobId := some (bytesToHex (List.replicate 32 0)),
    operator := some ['a'], x25519Pk := some (bytesToHex (List.replicate 32 2)), sig := some [] }

def forgedBid : RelayerBid :=
  { jobId := bytesToHex (List.replicate 32 0)
    chain := RELAY_CHAIN_STELLAR
    operator := ['a']
    x25519Pk := bytesToHex (List.replicate 32 2)
    sig := [] }

/-- A hub takes the forged bid, and the slot of `a` is gone. -/
theorem hub_not_always_authentic :
    ¬ ∀ (inputs : List HubInput), ∀ e ∈ (hubMachine plainCrypto).trace {} inputs,
      Hub.Authentic plainCrypto e.pre e.input := by
  intro h
  have hfirst : Hub.Authentic plainCrypto {} (.deliver 0 .messages forgedMessage) :=
    h [.deliver 0 .messages forgedMessage] _ List.mem_cons_self
  have hingest : ingest plainCrypto .messages forgedMessage = some (.bid forgedBid) := by decide
  have hgenuine := (Hub.sane_empty.authentic_iff plainCrypto _).mp hfirst _ hingest
  rcases hgenuine with hverified | ⟨e, he, -⟩
  · revert hverified
    decide
  · cases he

end OpaqueStellar.Relayer
