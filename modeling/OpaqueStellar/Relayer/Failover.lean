import OpaqueStellar.Relayer.Hub

/-! # Failover

`runFailoverCheck` of `relayer/src/hub.ts` goes through the map of assignments and sets entries of it as it
goes. A turn sets the entry that it is at and no other, and looks at bids and heartbeats, which no turn
changes. So the loop comes to what one look at all the assignments comes to.

Whoever takes over is alive, so that a second check at the same time finds nothing to do. -/

namespace OpaqueStellar.Relayer

open OpaqueStellar.Lib
open OpaqueStellar.Schemas (Str)

namespace Hub

/-! ## The loop -/

/-- One turn, at the entry of this job. -/
def failoverTurn (now : ℤ) (s : Hub × List FailoverEvent) (jobId : Str) : Hub × List FailoverEvent :=
  match s.1.assignments.find jobId with
  | none => s
  | some assignment =>
      match s.1.reassign now jobId assignment with
      | none => s
      | some operator =>
          ({ s.1 with assignments := s.1.assignments.set jobId ⟨operator, now⟩ },
            s.2 ++ [⟨jobId, assignment.operator, operator⟩])

def failoverLoop (hub : Hub) (now : ℤ) : Hub × List FailoverEvent :=
  (hub.assignments.map (·.1)).foldl (failoverTurn now) (hub, [])

/-- What becomes of an entry. -/
def handOver (hub : Hub) (now : ℤ) (e : Str × Assignment) : Str × Assignment :=
  match hub.reassign now e.1 e.2 with
  | some operator => (e.1, ⟨operator, now⟩)
  | none => e

def eventOf (hub : Hub) (now : ℤ) (e : Str × Assignment) : Option FailoverEvent :=
  (hub.reassign now e.1 e.2).map fun operator => ⟨e.1, e.2.operator, operator⟩

variable {hub : Hub} {now : ℤ}

theorem handOver_fst (hub : Hub) (now : ℤ) (e : Str × Assignment) : (hub.handOver now e).1 = e.1 := by
  unfold handOver
  split <;> rfl

/-- One turn in the middle of the loop. -/
theorem failoverTurn_eq {before after : Dict Str Assignment} {e : Str × Assignment}
    (h : Dict.Distinct (before ++ e :: after)) (events : List FailoverEvent) :
    failoverTurn now ({ hub with assignments := before ++ e :: after }, events) e.1 =
      ({ hub with assignments := before ++ hub.handOver now e :: after },
        events ++ (hub.eventOf now e).toList) := by
  obtain ⟨jobId, assignment⟩ := e
  have hfind : Dict.find (before ++ (jobId, assignment) :: after) jobId = some assignment :=
    Dict.find_of_mem h (by simp)
  unfold Dict.Distinct at h
  rw [List.map_append, List.map_cons, List.nodup_append, List.nodup_cons] at h
  have hbefore : jobId ∉ before.map (·.1) := fun hmem => h.2.2 jobId hmem jobId List.mem_cons_self rfl
  have hset := @Dict.set_middle _ _ _ before after jobId assignment hbefore h.2.1.1
  -- neither bids nor heartbeats are those of another hub
  have hsame : reassign { hub with assignments := before ++ (jobId, assignment) :: after } now jobId assignment =
      hub.reassign now jobId assignment := rfl
  simp only [failoverTurn, hfind, hsame, handOver, eventOf]
  cases hub.reassign now jobId assignment with
  | none => simp
  | some operator => simp [hset]

/-- **The loop is one look at all the assignments.** -/
theorem failoverLoop_eq (h : hub.assignments.Distinct) : hub.failoverLoop now = hub.runFailoverCheck now := by
  -- the entries before the one that the loop is at have been handed over
  have hrest : ∀ (rest before : Dict Str Assignment) (events : List FailoverEvent),
      Dict.Distinct (before ++ rest) →
      (rest.map (·.1)).foldl (failoverTurn now) ({ hub with assignments := before ++ rest }, events) =
        ({ hub with assignments := before ++ rest.map (hub.handOver now) },
          events ++ rest.filterMap (hub.eventOf now)) := by
    intro rest
    induction rest with
    | nil => simp
    | cons e rest ih =>
        intro before events hdistinct
        have hturn := @failoverTurn_eq hub now before rest e hdistinct events
        have hnext : Dict.Distinct ((before ++ [hub.handOver now e]) ++ rest) := by
          unfold Dict.Distinct at hdistinct ⊢
          simpa [handOver_fst] using hdistinct
        have htail := ih _ (events ++ (hub.eventOf now e).toList) hnext
        rw [List.append_assoc, List.singleton_append] at htail
        rw [List.map_cons, List.foldl_cons, hturn, htail, List.map_cons]
        cases heq : hub.eventOf now e with
        | none => simp [heq]
        | some event => simp [heq]
  exact hrest hub.assignments [] [] h

/-! ## What a check does -/

/-- Another bidder for the job that is alive. -/
def Candidate (hub : Hub) (now : ℤ) (jobId : Str) (assignment : Assignment) (operator : Str) : Prop :=
  (∃ bid ∈ hub.bidsFor jobId, bid.operator = operator) ∧ operator ≠ assignment.operator ∧
    hub.isNodeAlive now operator = true

/-- The operator of the job is not alive, and somebody else could do it. -/
def Stalled (hub : Hub) (now : ℤ) (jobId : Str) : Prop :=
  ∃ assignment, hub.assignments.find jobId = some assignment ∧
    hub.isNodeAlive now assignment.operator = false ∧ ∃ operator, hub.Candidate now jobId assignment operator

structure FailedOver (hub : Hub) (now : ℤ) (hub' : Hub) (events : List FailoverEvent) : Prop where
  stalled : ∀ jobId, hub.Stalled now jobId → ∃ assignment operator,
    hub.assignments.find jobId = some assignment ∧ hub.Candidate now jobId assignment operator ∧
      hub'.assignments.find jobId = some ⟨operator, now⟩ ∧
      events.filter (fun event => event.jobId = jobId) = [⟨jobId, assignment.operator, operator⟩]
  others : ∀ jobId, ¬ hub.Stalled now jobId → hub'.assignments.find jobId = hub.assignments.find jobId ∧
    events.filter (fun event => event.jobId = jobId) = []
  -- bids, heartbeats and all the rest
  rest : hub' = { hub with assignments := hub'.assignments }
  again : hub'.failoverLoop now = (hub', [])

theorem reassign_eq_some {jobId operator : Str} {assignment : Assignment}
    (h : hub.reassign now jobId assignment = some operator) :
    hub.isNodeAlive now assignment.operator = false ∧ hub.Candidate now jobId assignment operator := by
  unfold reassign at h
  split at h
  next => cases h
  next hdead =>
    obtain ⟨bid, hfind, rfl⟩ := Option.map_eq_some_iff.mp h
    have hbid := List.find?_some hfind
    simp only [Bool.and_eq_true, decide_eq_true_eq] at hbid
    exact ⟨Bool.eq_false_of_not_eq_true hdead, ⟨bid, List.mem_of_find?_eq_some hfind, rfl⟩, hbid.1, hbid.2⟩

theorem reassign_eq_none {jobId : Str} {assignment : Assignment}
    (h : hub.reassign now jobId assignment = none) (hdead : hub.isNodeAlive now assignment.operator = false)
    (operator : Str) : ¬ hub.Candidate now jobId assignment operator := by
  rintro ⟨⟨bid, hbid, rfl⟩, hne, halive⟩
  unfold reassign at h
  rw [if_neg (by simp [hdead]), Option.map_eq_none_iff, List.find?_eq_none] at h
  exact h bid hbid (by simp [hne, halive])

theorem stalled_iff {jobId : Str} : hub.Stalled now jobId ↔
    ∃ assignment operator, hub.assignments.find jobId = some assignment ∧
      hub.reassign now jobId assignment = some operator := by
  constructor
  · rintro ⟨assignment, hfind, hdead, operator, hcandidate⟩
    cases hreassign : hub.reassign now jobId assignment with
    | none => exact absurd hcandidate (reassign_eq_none hreassign hdead operator)
    | some operator' => exact ⟨assignment, operator', hfind, hreassign⟩
  · rintro ⟨assignment, operator, hfind, hreassign⟩
    obtain ⟨hdead, hcandidate⟩ := reassign_eq_some hreassign
    exact ⟨assignment, hfind, hdead, operator, hcandidate⟩

/-- Who is handed over is at a live operator, and who is not stays. -/
theorem reassign_handOver (e : Str × Assignment) :
    hub.reassign now (hub.handOver now e).1 (hub.handOver now e).2 = none := by
  unfold handOver
  cases hreassign : hub.reassign now e.1 e.2 with
  | none => exact hreassign
  | some operator =>
      obtain ⟨-, -, -, halive⟩ := reassign_eq_some hreassign
      show (if hub.isNodeAlive now operator then none else _) = none
      rw [if_pos halive]

theorem find_handOver (jobId : Str) : Dict.find (hub.assignments.map (hub.handOver now)) jobId =
    (hub.assignments.find jobId).map fun assignment => (hub.handOver now (jobId, assignment)).2 := by
  induction hub.assignments with
  | nil => rfl
  | cons e d ih =>
      obtain ⟨k, v⟩ := e
      have hkey : hub.handOver now (k, v) = (k, (hub.handOver now (k, v)).2) :=
        Prod.ext (handOver_fst hub now (k, v)) rfl
      rw [List.map_cons, hkey]
      by_cases hk : k = jobId
      · subst hk
        rw [Dict.find_cons_self, Dict.find_cons_self, Option.map_some]
      · rw [Dict.find_cons_of_ne hk, Dict.find_cons_of_ne hk, ih]

theorem jobId_of_eventOf {e : Str × Assignment} {event : FailoverEvent} (h : hub.eventOf now e = some event) :
    event.jobId = e.1 := by
  obtain ⟨operator, -, rfl⟩ := Option.map_eq_some_iff.mp h
  rfl

/-- The events of one job are those of its entry. -/
theorem filter_events {d : Dict Str Assignment} (h : d.Distinct) (jobId : Str) :
    (d.filterMap (hub.eventOf now)).filter (fun event => event.jobId = jobId) =
      ((d.find jobId).bind fun assignment => hub.eventOf now (jobId, assignment)).toList := by
  induction d with
  | nil => rfl
  | cons e d ih =>
      obtain ⟨k, v⟩ := e
      obtain ⟨hnew, hd⟩ := List.nodup_cons.mp h
      by_cases hk : k = jobId
      · subst hk
        have hnone : (d.filterMap (hub.eventOf now)).filter (fun event => event.jobId = k) = [] := by
          rw [ih hd, Dict.find_eq_none.mpr hnew]
          rfl
        rw [Dict.find_cons_self, Option.bind_some]
        cases hevent : hub.eventOf now (k, v) with
        | none => rw [List.filterMap_cons_none hevent, hnone, Option.toList_none]
        | some event =>
            have hkey := jobId_of_eventOf hevent
            rw [List.filterMap_cons_some hevent, List.filter_cons_of_pos (by simpa using hkey), hnone,
              Option.toList_some]
      · rw [Dict.find_cons_of_ne hk, ← ih hd]
        cases hevent : hub.eventOf now (k, v) with
        | none => rw [List.filterMap_cons_none hevent]
        | some event =>
            have hkey : event.jobId ≠ jobId := fun heq => hk ((jobId_of_eventOf hevent).symm.trans heq)
            rw [List.filterMap_cons_some hevent, List.filter_cons_of_neg (by simpa using hkey)]

/-- A second check at the same time. -/
theorem runFailoverCheck_again :
    (hub.runFailoverCheck now).1.runFailoverCheck now = ((hub.runFailoverCheck now).1, []) := by
  have hdone : ∀ e ∈ hub.assignments.map (hub.handOver now),
      (hub.runFailoverCheck now).1.reassign now e.1 e.2 = none := by
    intro e he
    obtain ⟨e, -, rfl⟩ := List.mem_map.mp he
    exact reassign_handOver e
  show (Hub.mk _ _ _ _ (List.map _ (hub.assignments.map (hub.handOver now))),
    List.filterMap _ (hub.assignments.map (hub.handOver now))) = _
  refine Prod.ext ?_ ?_
  · refine congrArg (fun assignments => { hub with assignments := assignments }) ?_
    refine (List.map_congr_left fun e he => ?_).trans (List.map_id _)
    rw [hdone e he]
    rfl
  · refine List.filterMap_eq_nil_iff.mpr fun e he => ?_
    rw [hdone e he, Option.map_none]

/-- **A check hands over exactly the jobs that are stalled**, each to another bidder that is alive and with
one event, and leaves everything else as it is. For every hub, whose assignments are a map, and every
time. -/
theorem failover_exact (h : hub.assignments.Distinct) :
    FailedOver hub now (hub.failoverLoop now).1 (hub.failoverLoop now).2 := by
  have hafter : (hub.runFailoverCheck now).1.assignments.Distinct :=
    Dict.distinct_map h (hub.handOver_fst now)
  have hfind : ∀ jobId, (hub.runFailoverCheck now).1.assignments.find jobId =
      (hub.assignments.find jobId).map fun assignment => (hub.handOver now (jobId, assignment)).2 :=
    find_handOver
  rw [failoverLoop_eq h]
  refine ⟨?_, ?_, rfl, ?_⟩
  · intro jobId hstalled
    obtain ⟨assignment, operator, hassigned, hreassign⟩ := stalled_iff.mp hstalled
    refine ⟨assignment, operator, hassigned, (reassign_eq_some hreassign).2, ?_, ?_⟩
    · simp only [hfind, hassigned, Option.map_some, handOver, hreassign]
    · refine (filter_events h jobId).trans ?_
      simp only [hassigned, Option.bind_some, eventOf, hreassign, Option.map_some, Option.toList_some]
  · intro jobId hstays
    cases hassigned : hub.assignments.find jobId with
    | none =>
        refine ⟨by rw [hfind, hassigned, Option.map_none], ?_⟩
        refine (filter_events h jobId).trans ?_
        rw [hassigned]
        rfl
    | some assignment =>
        have hreassign : hub.reassign now jobId assignment = none := by
          refine Option.eq_none_iff_forall_ne_some.mpr ?_
          intro operator hsome
          exact hstays (stalled_iff.mpr ⟨assignment, operator, hassigned, hsome⟩)
        refine ⟨?_, ?_⟩
        · simp only [hfind, hassigned, Option.map_some, handOver, hreassign]
        · refine (filter_events h jobId).trans ?_
          simp only [hassigned, Option.bind_some, eventOf, hreassign, Option.map_none, Option.toList_none]
  · rw [failoverLoop_eq hafter, runFailoverCheck_again]

/-- The operator of a job has fallen silent, and a second bidder has not. -/
theorem failover_exact_silent :
    let hub : Hub := {
      bids := [(['7'], [⟨{ plainBid with operator := ['a'] }, 0⟩, ⟨{ plainBid with operator := ['b'] }, 0⟩])]
      lastHeartbeatAt := [(['a'], 0), (['b'], 60000)]
      assignments := [(['7'], ⟨['a'], 0⟩)] }
    FailedOver hub 60000 (hub.failoverLoop 60000).1 (hub.failoverLoop 60000).2 :=
  failover_exact (by simp [Dict.Distinct])

end Hub

end OpaqueStellar.Relayer
