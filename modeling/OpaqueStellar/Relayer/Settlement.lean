import OpaqueStellar.Relayer.Durability

/-! # How deliveries end

A job is finished by the delivery that accepted it or by a recovery pass, and finished once: one
outcome is reported and one entry recorded. What a delivery answers is the result of the job it names,
even if it is remembered from an earlier delivery.

Nothing in the code keeps two of its tasks from working on one job, and what it remembers goes by the
key that the client chose, whatever the job. -/

namespace OpaqueStellar.Relayer

open OpaqueStellar.Lib OpaqueStellar.Soroban OpaqueStellar.Registry
open OpaqueStellar.Schemas (Str)

/-- The node at the end of a run. -/
def engineFinal {P W : Type} (cfg : EngineConfig P W) (ledger : ℕ) (is : List EngineInput) : Node W :=
  ((System.machine (engine cfg)).final ⟨Node.init ledger, [], 0⟩ is).shared

/-! ## Settlement -/

section Settlement

variable {P W : Type} (cfg : EngineConfig P W)

/-- No task begins to work on a job on which another is at work, or which is done with. -/
def SettlementInput (sys : EngineSystem W) : EngineInput → Prop
  | .reply id r => ∀ task ∈ sys.tasks, task.id = id → sys.shared.ready task.call r = true →
      SettlementReply sys.shared task.call r
  | _ => True

theorem allowed_of_settlement {e : EngineStep W} (h : SettlementInput e.pre e.input) :
    System.Allowed (engine cfg) (rules cfg .settlement) (terms cfg .settlement) e := by
  unfold System.Allowed
  split
  · exact nofun
  · next id r heq =>
      rw [heq] at h
      rintro call ⟨task, htask, hid, rfl⟩ hready
      exact ⟨hready, nofun, nofun, fun _ => h task htask hid hready⟩
  · exact nofun
  · trivial

/-- **A job is settled once.** After every run, whatever the deliveries, recovery passes and restarts,
at most one outcome has been reported of a job and at most one entry recorded. -/
theorem settled_once (ledger : ℕ) (is : List EngineInput)
    (h : ∀ e ∈ engineTrace cfg ledger is, SettlementInput e.pre e.input) (key : BytesN 32) :
    ((engineFinal cfg ledger is).reportsOf key).length ≤ 1 ∧
      ((engineFinal cfg ledger is).recordsOf key).length ≤ 1 := by
  have hsound := (System.run_safe (engine_fits cfg .settlement) (ok_init ledger) is
    fun e he => allowed_of_settlement cfg (h e he)).1
  have honce : Once (engineFinal cfg ledger is) := hsound.inv.once rfl
  exact ⟨honce.report key, honce.record key⟩

instance (n : Node W) (call : EngineCall) (r : Reply) : Decidable (SettlementReply n call r) :=
  inferInstanceAs (Decidable (
    (∀ jobId ∈ call.delivers, r = .ok → ∀ key ∈ jobKey jobId, ∀ job ∈ n.chain.jobs.lookup key,
      job.status = .OPEN →
        (∀ w ∈ n.working, w.1 ≠ key) ∧
          ∀ k ∈ n.keys, jobKey k = some key → k = toLowerCase jobId) ∧
    ∀ x ∈ call.recovers, ∀ key ∈ jobKey x.2,
      (∀ w ∈ n.working, w.1 ≠ key) ∧ toLowerCase x.2 ∈ n.keys ∧
        ∀ r ∈ n.reports, r.2 = .failed → jobKey r.1 ≠ some key))

instance (sys : EngineSystem W) : (i : EngineInput) → Decidable (SettlementInput sys i)
  | .reply id r => inferInstanceAs (Decidable (∀ task ∈ sys.tasks, task.id = id →
      sys.shared.ready task.call r = true → SettlementReply sys.shared task.call r))
  | .outside _ => .isTrue trivial
  | .start _ => .isTrue trivial
  | .restart => .isTrue trivial

end Settlement

/-- The delivery goes on: its accept and its submit land and are confirmed. -/
def demoSubmit : List EngineInput :=
  [.outside (.chain (.land 0 true)), .reply 0 .ok, .reply 0 .ok, .reply 0 .ok,
    .outside (.chain (.land 1 true)), .reply 0 .ok, .reply 0 .ok, .reply 0 .ok]

/-- The intent of a process that died is finished by the next one, and reported once. -/
theorem settled_once_crash :
    (engineFinal demoConfig 1 (demoCrash ++ [.reply 1 .ok, .reply 1 .ok, .reply 1 .ok, .reply 1 .ok,
        .outside (.chain (.land 1 true)), .reply 1 .ok, .reply 1 .ok])).reportsOf demoKey =
      [(demoId, .completed)] ∧
    ((engineFinal demoConfig 1 (demoCrash ++ [.reply 1 .ok, .reply 1 .ok, .reply 1 .ok, .reply 1 .ok,
        .outside (.chain (.land 1 true)), .reply 1 .ok, .reply 1 .ok])).recordsOf demoKey).length ≤
      1 :=
  ⟨by decide +kernel, (settled_once demoConfig 1 _ (by decide +kernel) demoKey).2⟩

/-- The watch looks at the intent while the delivery is at work. -/
def demoRace : List EngineInput :=
  demoDelivery (.ofNat 10 I128.ten_lt) ++
    [.outside (.chain (.land 0 true)), .reply 0 .ok, .reply 0 .ok, .start .watch, .reply 1 .ok,
      .reply 0 .ok, .outside (.chain (.land 1 true)), .reply 0 .ok, .reply 1 .ok, .reply 0 .ok,
      .reply 1 .ok]

/-- Both of them report the job. -/
theorem not_always_settled_once :
    ¬ ∀ is key, ((engineFinal demoConfig 1 is).reportsOf key).length ≤ 1 ∧
      ((engineFinal demoConfig 1 is).recordsOf key).length ≤ 1 := by
  intro h
  have hboth : (engineFinal demoConfig 1 demoRace).reportsOf demoKey =
      [(demoId, .completed), (demoId, .completed)] := by decide +kernel
  have hle := (h demoRace demoKey).1
  rw [hboth] at hle
  exact absurd hle (by decide)

/-! ## Idempotency -/

/-- The job that the transaction submits. -/
def Tx.submits : Tx → Option (BytesN 32)
  | .submit jobId _ => some jobId
  | .accept _ => none

section Idempotency

variable {P W : Type} (cfg : EngineConfig P W)

/-- The key of a delivery stands for its job, in what is remembered and in what is under way. -/
def IdempotencyInput (sys : EngineSystem W) : EngineInput → Prop
  | .start (.deliver msg) => IdempotencyStart sys.shared msg
  | _ => True

theorem allowed_of_idempotency {e : EngineStep W} (h : IdempotencyInput e.pre e.input) :
    System.Allowed (engine cfg) (rules cfg .idempotency) (terms cfg .idempotency) e := by
  unfold System.Allowed
  split
  · next job heq =>
      rw [heq] at h
      rintro - msg rfl
      exact h
  · intro call _ hready
    exact ⟨hready, nofun, nofun, nofun⟩
  · exact nofun
  · trivial

/-- **A delivery answers for its own job.** In every run, whenever a delivery returns a result, the
operator itself has submitted the withdrawal of the job that the delivery names, and the two
transactions of the result are those that accepted and submitted that job. -/
theorem result_is_own (ledger : ℕ) (is : List EngineInput)
    (h : ∀ e ∈ engineTrace cfg ledger is, IdempotencyInput e.pre e.input) :
    ∀ e ∈ engineTrace cfg ledger is, ∀ msg result,
      e.output = .ended (.deliver msg) (.ok (.delivered (some result))) →
        ResultOf (e.post cfg).chain msg.jobId result := by
  intro e he msg result hout
  obtain ⟨-, hkept⟩ := engine_run_safe cfg .idempotency
    (fun e he => allowed_of_idempotency cfg (h e he)) e he
  have hnext := (output_eq cfg he).symm.trans hout
  have hkept := hkept.kept (by rw [hnext]; simp)
  exact hkept.post _ _ hnext rfl result rfl

instance (c : Chain) (jobId : Str) : Decidable (SubmittedByUs c jobId) :=
  decidable_of_iff (∃ key ∈ jobKey jobId, ∃ tx ∈ c.txs, tx.2 = .success ∧ tx.1.submits = some key) <| by
    constructor
    · rintro ⟨key, hkey, ⟨tx, status⟩, htx, rfl, hsubmits⟩
      cases tx with
      | accept jobId => cases hsubmits
      | submit jobId payloadHash =>
          cases hsubmits
          exact ⟨key, payloadHash, hkey, htx⟩
    · rintro ⟨key, payloadHash, hkey, htx⟩
      exact ⟨key, hkey, _, htx, rfl, rfl⟩

instance (sys : EngineSystem W) : (i : EngineInput) → Decidable (IdempotencyInput sys i)
  | .start (.deliver msg) => inferInstanceAs (Decidable (∀ key ∈ msg.idempotencyKey,
      (∀ entry ∈ sys.shared.live key, jobKey entry.jobId = jobKey msg.jobId) ∧
        ∀ p ∈ sys.shared.pendingIdempotency.find key, jobKey p.jobId = jobKey msg.jobId))
  | .start .watch => .isTrue trivial
  | .reply _ _ => .isTrue trivial
  | .outside _ => .isTrue trivial
  | .restart => .isTrue trivial

end Idempotency

/-- A delivery under a key, all the way. -/
def demoKeyed : List EngineInput :=
  [.outside (.chain (.other demoKey (demoJob (.ofNat 10 I128.ten_lt)))),
    .start (.deliver (demoMessage (some ['k']))), .reply 0 .ok, .reply 0 .ok, .reply 0 .ok,
    .reply 0 .ok] ++ demoSubmit

/-- Another job is created. -/
def demoKeyedOther : List EngineInput :=
  demoKeyed ++ [.outside (.chain (.other ⟨List.replicate 32 6, rfl⟩
    (demoJob (.ofNat 10 I128.ten_lt))))]

/-- The client uses the same key for it. -/
def demoOther : EncryptedPayload :=
  { demoMessage (some ['k']) with jobId := bytesToHex (List.replicate 32 6) }

/-- The same delivery once more is answered with the result of the first. -/
theorem result_is_own_again :
    (demoStep demoKeyed (.start (.deliver (demoMessage (some ['k']))))).output =
        .ended (.deliver (demoMessage (some ['k']))) (.ok (.delivered (some ⟨.hash 0, .hash 1⟩))) ∧
      ResultOf ((demoStep demoKeyed (.start (.deliver (demoMessage (some ['k']))))).post
        demoConfig).chain demoId ⟨.hash 0, .hash 1⟩ := by
  refine ⟨by decide, result_is_own demoConfig 1 _ ?_ _
    (demoStep_mem demoKeyed (.start (.deliver (demoMessage (some ['k'])))))
    (demoMessage (some ['k'])) ⟨.hash 0, .hash 1⟩ (by decide)⟩
  decide

/-- A delivery of the other job is, too. -/
theorem result_not_always_own :
    ¬ ∀ is, ∀ e ∈ engineTrace demoConfig 1 is, ∀ msg result,
      e.output = .ended (.deliver msg) (.ok (.delivered (some result))) →
        ResultOf (e.post demoConfig).chain msg.jobId result := by
  intro h
  have hown := h _ _ (demoStep_mem demoKeyedOther (.start (.deliver demoOther))) demoOther
    ⟨.hash 0, .hash 1⟩ (by decide)
  exact absurd hown.submitted (by decide)

end OpaqueStellar.Relayer
