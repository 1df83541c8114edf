import OpaqueStellar.Relayer.Tasks

/-! # Jobs that a relayer has accepted

An accept puts stake at risk until the withdrawal of the job is submitted. The node writes the intent
down first, so that neither a crash nor a lost confirmation makes it forget the job, and it accepts
only jobs that are worth the risk.

Neither holds without further ado. A recovery pass takes an intent for somebody else's if it cannot
read the job, and a store that cannot be written forgets everything. Fees are looked at in adverts
only, and of the deadline a delivery looks at an earlier moment than that of the accept, and a
recovery pass at a later one. -/

namespace OpaqueStellar.Relayer

open OpaqueStellar.Lib OpaqueStellar.Soroban OpaqueStellar.Registry
open OpaqueStellar.Schemas (Str)

section Runs

variable {P W : Type} (cfg : EngineConfig P W)

abbrev EngineSystem (W : Type) := System Job (Node W) EngineCall Reply EngineError Outcome

abbrev EngineInput := System.Input Job Reply Outside

abbrev EngineStep (W : Type) := System.Step Job (Node W) EngineCall Reply EngineError Outcome Outside

/-- The steps of a node that starts at this ledger and is given these inputs. -/
def engineTrace (ledger : ℕ) (is : List EngineInput) : List (EngineStep W) :=
  (System.machine (engine cfg)).trace ⟨Node.init ledger, [], 0⟩ is

/-- The node after a step. -/
def EngineStep.post (e : EngineStep W) : Node W := (System.step (engine cfg) e.pre e.input).1.shared

theorem output_eq {ledger : ℕ} {is : List EngineInput} {e : EngineStep W}
    (he : e ∈ engineTrace cfg ledger is) :
    e.output = (System.step (engine cfg) e.pre e.input).2 := by
  obtain ⟨before, later, -, hstep⟩ := (System.machine (engine cfg)).mem_trace he
  rw [hstep]
  rfl

/-- The rules that every step of a run keeps, on whichever topic. -/
theorem engine_run_safe (about : Topic) {ledger : ℕ} {is : List EngineInput}
    (h : ∀ e ∈ engineTrace cfg ledger is,
      System.Allowed (engine cfg) (rules cfg about) (terms cfg about) e) :
    ∀ e ∈ engineTrace cfg ledger is, e.pre.shared.Ok cfg about ∧
      System.StepKept (rules cfg about) (Ended about) e (System.step (engine cfg) e.pre e.input) :=
  (System.run_safe (engine_fits cfg about) (ok_init ledger) is h).2

end Runs

/-! ## Durability -/

section Durability

variable {P W : Type} (cfg : EngineConfig P W)

/-- A recovery pass that cannot read the job of an unconfirmed intent has not a bonded one before
it, and the queue was written, or holds no bonded job, when the process ends. -/
def DurableInput (sys : EngineSystem W) : EngineInput → Prop
  | .reply id r => ∀ task ∈ sys.tasks, task.id = id → sys.shared.ready task.call r = true →
      DurableReply cfg sys.shared task.call r
  | .restart => sys.shared.saved = true ∨
      ∀ k ∈ sys.shared.keys, ∀ key ∈ jobKey k, ¬ Bonded cfg sys.shared.chain key
  | .start _ => True
  | .outside _ => True

theorem allowed_of_durable {e : EngineStep W} (h : DurableInput cfg e.pre e.input) :
    System.Allowed (engine cfg) (rules cfg .durability) (terms cfg .durability) e := by
  unfold System.Allowed
  split
  · exact nofun
  · next id r heq =>
      rw [heq] at h
      rintro call ⟨task, htask, hid, rfl⟩ hready
      exact ⟨hready, fun _ => h task htask hid hready, nofun, nofun⟩
  · exact nofun
  · trivial

/-- **Bonded jobs stay queued.** In every run, whatever fails or crashes, no step takes an intent from
the queue while its job is accepted by the operator with more than the margin left. -/
theorem bonded_stays_queued (ledger : ℕ) (is : List EngineInput)
    (h : ∀ e ∈ engineTrace cfg ledger is, DurableInput cfg e.pre e.input) :
    ∀ e ∈ engineTrace cfg ledger is, ∀ k ∈ e.pre.shared.keys, ∀ key, jobKey k = some key →
      Bonded cfg e.pre.shared.chain key → k ∈ (e.post cfg).keys := by
  intro e he k hk key hkey hbonded
  obtain ⟨hok, hkept⟩ := engine_run_safe cfg .durability (fun e he => allowed_of_durable cfg (h e he))
    e he
  have hsection : System.Kept (rules cfg .durability) (Ended .durability) e.pre.shared
      (System.step (engine cfg) e.pre e.input) → k ∈ (e.post cfg).keys := by
    intro hkept
    obtain ⟨i, hguar⟩ := hkept.guar
    exact Guar.queue hguar rfl k hk key hkey hbonded
  have hstep := h e he
  unfold System.StepKept at hkept
  cases hinput : e.input with
  | start job =>
      rw [hinput] at hkept
      exact hsection (hinput ▸ hkept)
  | reply id r =>
      rw [hinput] at hkept
      rcases hkept with hidle | hkept
      · rw [EngineStep.post, hinput, hidle]
        exact hk
      · exact hsection (hinput ▸ hkept)
  | outside x =>
      rw [EngineStep.post, hinput]
      cases x with
      | chain x => exact hk
      | tick ms => exact hk
      | disk works => exact hk
      | prune => exact hk
  | restart =>
      rw [hinput] at hstep
      rw [EngineStep.post, hinput]
      refine keys_reboot.mpr ?_
      rcases hstep with hsaved | hnone
      · exact hok.saved hsaved k hk
      · exact absurd hbonded (hnone k hk key hkey)

instance (c : Chain) (key : BytesN 32) : Decidable (Bonded cfg c key) :=
  inferInstanceAs (Decidable (∃ job ∈ c.jobs.lookup key, job.status = .ACCEPTED ∧
    job.acceptedRelayer = some cfg.operator ∧ c.ledger + cfg.margin < job.deadlineLedger))

instance (n : Node W) (call : EngineCall) (r : Reply) : Decidable (DurableReply cfg n call r) :=
  inferInstanceAs (Decidable (∀ x ∈ call.recovers, r = .ok ∨
    (∃ e ∈ n.objects[x.1]?, e.unconfirmed = false) ∨
      ∀ key ∈ jobKey x.2, ¬ Bonded cfg n.chain key))

instance (sys : EngineSystem W) : (i : EngineInput) → Decidable (DurableInput cfg sys i)
  | .reply id r => inferInstanceAs (Decidable (∀ task ∈ sys.tasks, task.id = id →
      sys.shared.ready task.call r = true → DurableReply cfg sys.shared task.call r))
  | .restart => inferInstanceAs (Decidable (sys.shared.saved = true ∨
      ∀ k ∈ sys.shared.keys, ∀ key ∈ jobKey k, ¬ Bonded cfg sys.shared.chain key))
  | .start _ => .isTrue trivial
  | .outside _ => .isTrue trivial

end Durability

/-! ### A node and its job -/

section Demo

def demoKey : BytesN 32 := ⟨List.replicate 32 1, rfl⟩

/-- A node whose payloads are all alike. -/
def demoConfig : EngineConfig Unit Unit where
  operator := .account ⟨List.replicate 32 2, rfl⟩
  x25519PublicKey := ⟨List.replicate 32 3, rfl⟩
  minFee := 5
  openBox _ _ := some ()
  hashPoolWithdrawPayload _ := ⟨List.replicate 32 4, rfl⟩
  serializePoolWithdrawPayload _ := ()
  parsePoolWithdrawPayload _ := some ()

def demoId : Str := bytesToHex demoKey.1

/-- An open job that pays the fee, until ledger 100. -/
def demoJob (fee : I128) : JobRecord where
  creator := .account ⟨List.replicate 32 5, rfl⟩
  payloadHash := ⟨List.replicate 32 4, rfl⟩
  fee := fee
  deadlineLedger := 100
  acceptedRelayer := none
  status := .OPEN
  createdLedger := 1
  submittedLedger := 0

def demoMessage (idempotencyKey : Option Str) : EncryptedPayload where
  jobId := demoId
  recipient := bytesToHex demoConfig.x25519PublicKey.1
  box := []
  idempotencyKey := idempotencyKey

/-- The job is created and delivered, and the delivery is answered until it has sent its accept. -/
def demoDelivery (fee : I128) : List EngineInput :=
  [.outside (.chain (.other demoKey (demoJob fee))), .start (.deliver (demoMessage none)),
    .reply 0 .ok, .reply 0 .ok, .reply 0 .ok, .reply 0 .ok]

/-- The accept lands, the process dies before it hears of it, and the next one looks at its queue. -/
def demoCrash : List EngineInput :=
  demoDelivery (.ofNat 10 I128.ten_lt) ++
    [.outside (.chain (.land 0 true)), .restart, .start .watch, .reply 1 .ok]

def demoSystem (is : List EngineInput) : EngineSystem Unit :=
  (System.machine (engine demoConfig)).final ⟨Node.init 1, [], 0⟩ is

/-- The last step of a run. -/
def demoStep (is : List EngineInput) (i : EngineInput) :
    EngineStep Unit := (System.machine (engine demoConfig)).stepAt (demoSystem is) i

theorem demoStep_mem (is : List EngineInput)
    (i : EngineInput) :
    demoStep is i ∈ engineTrace demoConfig 1 (is ++ [i]) :=
  (System.machine (engine demoConfig)).stepAt_mem_trace

end Demo

/-- A recovery pass that can read the job keeps the intent of the earlier process. -/
theorem bonded_stays_queued_crash :
    Bonded demoConfig (demoSystem demoCrash).shared.chain demoKey ∧
      demoId ∈ ((demoStep demoCrash (.reply 1 .ok)).post demoConfig).keys := by
  refine ⟨by decide +kernel, bonded_stays_queued demoConfig 1 (demoCrash ++ [.reply 1 .ok]) ?_ _
    (demoStep_mem demoCrash (.reply 1 .ok)) demoId (by decide +kernel) demoKey (by decide +kernel)
    (by decide +kernel)⟩
  decide +kernel

/-- One that cannot read it gives the bonded job up. -/
theorem bonded_not_always_queued :
    ¬ ∀ is, ∀ e ∈ engineTrace demoConfig 1 is, ∀ k ∈ e.pre.shared.keys, ∀ key,
      jobKey k = some key → Bonded demoConfig e.pre.shared.chain key →
        k ∈ (e.post demoConfig).keys := by
  intro h
  have hkept := h (demoCrash ++ [.reply 1 .fail]) _ (demoStep_mem demoCrash (.reply 1 .fail)) demoId
    (by decide +kernel) demoKey (by decide +kernel) (by decide +kernel)
  exact absurd hkept (by decide +kernel)

/-! ## Accepting -/

section Bonding

variable {P W : Type} (cfg : EngineConfig P W)

/-- Delivered jobs pay enough, the head can be read when a delivery asks for it, a recovery pass finds
open jobs with time left, and no ledger closes the margin between the check of a delivery and its
accept. -/
def BondingInput (sys : EngineSystem W) : EngineInput → Prop
  | .reply id r => ∀ task ∈ sys.tasks, task.id = id → sys.shared.ready task.call r = true →
      BondingReply cfg sys.shared task.call r
  | .outside (.chain (.close ledgers)) => ∀ task ∈ sys.tasks, ∀ deadline ∈ task.call.checked,
      sys.shared.chain.ledger + cfg.margin ≤ deadline →
      sys.shared.chain.ledger + ledgers + cfg.margin ≤ deadline
  | _ => True

theorem allowed_of_bonding {e : EngineStep W} (h : BondingInput cfg e.pre e.input) :
    System.Allowed (engine cfg) (rules cfg .bonding) (terms cfg .bonding) e := by
  unfold System.Allowed
  split
  · exact nofun
  · next id r heq =>
      rw [heq] at h
      rintro call ⟨task, htask, hid, rfl⟩ hready
      exact ⟨hready, nofun, fun _ => h task htask hid hready, nofun⟩
  · next x heq =>
      rw [heq] at h
      rintro - ledgers rfl i call ⟨task, htask, -, rfl⟩
      exact h task htask
  · trivial

/-- **Only jobs that are worth it are accepted.** In every run, each accept that is sent, by a delivery
or by a recovery pass, is for a job that at that moment has the margin left and pays the fee. -/
theorem accepts_worthwhile (ledger : ℕ) (is : List EngineInput)
    (h : ∀ e ∈ engineTrace cfg ledger is, BondingInput cfg e.pre e.input) :
    ∀ e ∈ engineTrace cfg ledger is, ∀ i jobId tx, e.output = .awaits i (.acceptJob jobId tx) →
      Worthwhile cfg (e.post cfg).chain jobId := by
  intro e he i jobId tx hout
  obtain ⟨-, hkept⟩ := engine_run_safe cfg .bonding (fun e he => allowed_of_bonding cfg (h e he)) e he
  have hnext := (output_eq cfg he).symm.trans hout
  have hkept := hkept.kept (by rw [hnext]; simp)
  exact hkept.may i _ hnext rfl jobId tx rfl

instance (c : Chain) (jobId : Str) : Decidable (Worthwhile cfg c jobId) :=
  decidable_of_iff (∃ key ∈ jobKey jobId, ∃ job ∈ c.jobs.lookup key,
      cfg.minFee ≤ job.fee.val ∧ c.ledger + cfg.margin ≤ job.deadlineLedger)
    ⟨fun ⟨key, hkey, job, hjob, h⟩ => ⟨key, job, hkey, hjob, h⟩,
      fun ⟨key, job, hkey, hjob, h⟩ => ⟨key, hkey, job, hjob, h⟩⟩

instance (n : Node W) (call : EngineCall) (r : Reply) : Decidable (BondingReply cfg n call r) :=
  inferInstanceAs (Decidable (
    (∀ jobId ∈ call.delivers, r = .ok → ∀ key ∈ jobKey jobId, ∀ job ∈ n.chain.jobs.lookup key,
      job.status = .OPEN → cfg.minFee ≤ job.fee.val) ∧
    (∀ deadline ∈ call.checks, r = .ok ∨ n.chain.ledger + cfg.margin ≤ deadline) ∧
    ∀ x ∈ call.recovers, r = .ok → (∃ e ∈ n.objects[x.1]?, e.unconfirmed = false) ∨
      ∀ key ∈ jobKey x.2, ∀ job ∈ n.chain.jobs.lookup key,
        job.status = .OPEN → n.chain.ledger + cfg.margin ≤ job.deadlineLedger))

instance (sys : EngineSystem W) : (i : EngineInput) → Decidable (BondingInput cfg sys i)
  | .reply id r => inferInstanceAs (Decidable (∀ task ∈ sys.tasks, task.id = id →
      sys.shared.ready task.call r = true → BondingReply cfg sys.shared task.call r))
  | .outside (.chain (.close ledgers)) => inferInstanceAs (Decidable (∀ task ∈ sys.tasks,
      ∀ deadline ∈ task.call.checked, sys.shared.chain.ledger + cfg.margin ≤ deadline →
        sys.shared.chain.ledger + ledgers + cfg.margin ≤ deadline))
  | .outside (.chain (.land _ _)) => .isTrue trivial
  | .outside (.chain (.other _ _)) => .isTrue trivial
  | .outside (.tick _) => .isTrue trivial
  | .outside (.disk _) => .isTrue trivial
  | .outside .prune => .isTrue trivial
  | .start _ => .isTrue trivial
  | .restart => .isTrue trivial

end Bonding

theorem accepts_worthwhile_demo :
    (demoStep (demoDelivery (.ofNat 10)).dropLast (.reply 0 .ok)).output =
        .awaits 0 (.acceptJob demoId 0) ∧
      Worthwhile demoConfig
        ((demoStep (demoDelivery (.ofNat 10)).dropLast (.reply 0 .ok)).post demoConfig).chain
        demoId := by
  refine ⟨by decide, accepts_worthwhile demoConfig 1 (demoDelivery (.ofNat 10)) ?_ _
    (demoStep_mem _ _) 0 demoId 0 (by decide)⟩
  decide

/-- A job that pays less than the operator asks for is accepted as well. -/
theorem accepts_not_always_worthwhile :
    ¬ ∀ is, ∀ e ∈ engineTrace demoConfig 1 is, ∀ i jobId tx,
      e.output = .awaits i (.acceptJob jobId tx) →
        Worthwhile demoConfig (e.post demoConfig).chain jobId := by
  intro h
  have hworth := h (demoDelivery (.ofNat 1)) _
    (demoStep_mem (demoDelivery (.ofNat 1)).dropLast (.reply 0 .ok)) 0 demoId 0 (by decide)
  exact absurd hworth (by decide)

end OpaqueStellar.Relayer
