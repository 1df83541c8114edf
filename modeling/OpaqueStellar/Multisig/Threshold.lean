import OpaqueStellar.Multisig.Invariant

/-! # The threshold admin: executions and the threshold

An approval stays on a proposal when a rotation takes its author out of the signer set, so that an
execution may rest on approvals of former signers. Between two rotations a pending proposal gathers
approvals of members only; whether those suffice in the end is decided when the rotation executes, by
the approvals that it finds. -/

namespace OpaqueStellar.Multisig

open OpaqueStellar.Lib OpaqueStellar.Soroban

variable {host : Host} {env : Env} {callees : Callees}

/-- The approvals of a proposal by current signers. -/
def Proposal.current (p : Proposal) (cfg : MultisigConfig) : List Address :=
  p.approvals.filter (· ∈ cfg.signers)

/-- The approvals of a proposal by addresses that are no signers. -/
def Proposal.stale (p : Proposal) (cfg : MultisigConfig) : List Address :=
  p.approvals.filter (· ∉ cfg.signers)

theorem Proposal.length_approvals (p : Proposal) (cfg : MultisigConfig) :
    p.approvals.length = (p.current cfg).length + (p.stale cfg).length := by
  rw [List.length_eq_length_filter_add (fun a => decide (a ∈ cfg.signers))]
  simp [Proposal.current, Proposal.stale]

theorem Proposal.length_current_le (p : Proposal) (cfg : MultisigConfig) :
    (p.current cfg).length ≤ p.approvals.length := List.length_filter_le _ _

/-- The one approval that a proposal starts with is below every valid threshold. -/
theorem Drafted.below {w w₀ : World} {call : Call} {draft : Proposal} {cfg : MultisigConfig}
    (h : Drafted host w call draft w₀) (hvalid : cfg.Valid) :
    draft.approvals.length < cfg.threshold := by
  have htwo := hvalid.two_le
  have hone : draft.approvals.length = 1 := by rw [h.approvals, List.length_singleton]
  omega

/-! ## Executions and the threshold -/

/-- At least the threshold of distinct signers approved the proposal, by the steps `t`. -/
def ThresholdMet (host : Host) (t : List MultisigStep) (cfg : MultisigConfig) (id : BytesN 32) :
    Prop :=
  ∃ approvers : List Address, approvers.Nodup ∧ cfg.threshold ≤ approvers.length ∧
    ∀ a ∈ approvers, a ∈ cfg.signers ∧ ∃ e ∈ t, Approves host e id a

/-- Whatever the step from `w` to `w'` executed was approved by enough of the signers before it. -/
def ExecutedByThreshold (host : Host) (t : List MultisigStep) (w w' : World) : Prop :=
  ∀ p, w'.performed = w.performed ++ [p] →
    ∃ cfg, w.multisig.config = some cfg ∧ ThresholdMet host t cfg p.id

/-- Every step of the run executes only what enough of the signers before it approved. -/
def ThresholdSafe (host : Host) (invs : List Invocation) : Prop :=
  ∀ before inv later, invs = before ++ inv :: later →
    ExecutedByThreshold host ((machine host).trace {} (before ++ [inv]))
      ((machine host).final {} before) ((machine host).final {} (before ++ [inv]))

/-- This step is an approval that passes its checks, reaches the threshold and executes the stored
proposal `p`. A call has to return. -/
structure Executes (host : Host) (e : MultisigStep) (signer : Address) (id : BytesN 32)
    (cfg : MultisigConfig) (p : Proposal) : Prop where
  call : e.input.call = .approve signer id
  signed : Signed host e.input.env signer
  stored : e.pre.multisig.config = some cfg
  isSigner : signer ∈ cfg.signers
  read : e.pre.multisig.proposals.lookup id = some p
  pending : p.executed = false
  first : signer ∉ p.approvals
  enough : cfg.threshold ≤ p.approvals.length + 1
  returned : p.isRotation = false → p.target ≠ host.self ∧
    e.input.callees p.target p.fnName ((e.pre.multisig.args.lookup p.id).getD []) = true

def ExecutesRotation (host : Host) (e : MultisigStep) : Prop :=
  ∃ signer id cfg p, Executes host e signer id cfg p ∧ p.isRotation = true

/-- All approvals are by members of the signer set, or the members' approvals lack at most one. -/
def Proposal.Covered (p : Proposal) (cfg : MultisigConfig) : Prop :=
  p.stale cfg = [] ∨ cfg.threshold ≤ (p.current cfg).length + 1

/-- What a rotation of the run finds pending, and what is executed later with no further rotation in
between, is covered under the signers and the threshold that the rotation installs. -/
def RotationsCover (host : Host) (invs : List Invocation) : Prop :=
  ∀ before rotation during last later,
    invs = before ++ rotation :: (during ++ last :: later) →
    ∀ signer id cfg r, Executes host ((machine host).stepAt ((machine host).final {} before) rotation)
      signer id cfg r → r.isRotation = true →
    (∀ e ∈ (machine host).trace ((machine host).final {} (before ++ [rotation])) during,
      ¬ ExecutesRotation host e) →
    ∀ id' q, ((machine host).final {} before).multisig.proposals.lookup id' = some q →
      q.executed = false → id' ≠ id →
    ∀ signer' cfg' p, Executes host
      ((machine host).stepAt ((machine host).final {} (before ++ rotation :: during)) last)
      signer' id' cfg' p →
    q.Covered ⟨r.newSigners, r.newThreshold⟩

/-! ### One approval -/

section Approval

variable {p : Proposal} {cfg : MultisigConfig} {signer : Address}

theorem Proposal.current_approved (h : signer ∈ cfg.signers) :
    Proposal.current { p with approvals := p.approvals ++ [signer] } cfg =
      p.current cfg ++ [signer] := by
  simp [Proposal.current, h]

theorem Proposal.stale_approved (h : signer ∈ cfg.signers) :
    Proposal.stale { p with approvals := p.approvals ++ [signer] } cfg = p.stale cfg := by
  simp [Proposal.stale, h]

/-- An approval that leaves the proposal below the threshold does not change whether it is
covered. -/
theorem Proposal.covered_approved (h : signer ∈ cfg.signers)
    (hfew : p.approvals.length + 1 < cfg.threshold) :
    Proposal.Covered { p with approvals := p.approvals ++ [signer] } cfg ↔ p.Covered cfg := by
  have hcount := p.length_approvals cfg
  rw [Proposal.Covered, Proposal.Covered, p.stale_approved h, p.current_approved h,
    List.length_append, List.length_singleton]
  constructor
  · rintro (hnone | hlack)
    · exact .inl hnone
    · left
      apply List.eq_nil_of_length_eq_zero
      omega
  · rintro (hnone | hlack)
    · exact .inl hnone
    · exact .inr (by omega)

/-- At the approval that reaches the threshold, a proposal is covered if the members of the signer
set alone reach it. -/
theorem Proposal.covered_iff (henough : cfg.threshold ≤ p.approvals.length + 1) :
    p.Covered cfg ↔ cfg.threshold ≤ (p.current cfg).length + 1 := by
  have hcount := p.length_approvals cfg
  constructor
  · rintro (hnone | hlack)
    · rw [hnone, List.length_nil] at hcount
      omega
    · exact hlack
  · exact .inr

end Approval

/-! ### Executions are approvals that pass -/

/-- An approval that reaches the threshold executes the proposal and touches no other. -/
theorem Executes.exec {e : MultisigStep} {signer : Address} {id : BytesN 32} {cfg : MultisigConfig}
    {p : Proposal} (h : Executes host e signer id cfg p) :
    ∃ w' r, exec host e.input.env e.input.callees e.pre e.input.call = .ok (w', r) ∧
      w'.performed = e.pre.performed ++ [{ p with approvals := p.approvals ++ [signer] }] ∧
      w'.multisig.config =
        (if p.isRotation then some ⟨p.newSigners, p.newThreshold⟩ else some cfg) ∧
      w'.multisig.proposals.lookup id =
        some { p with approvals := p.approvals ++ [signer], executed := true } ∧
      ∀ id', id' ≠ id → w'.multisig.proposals.lookup id' = e.pre.multisig.proposals.lookup id' := by
  let q : Proposal := { p with approvals := p.approvals ++ [signer] }
  have hreached : Reached host e.input.callees e.pre cfg q (e.pre.perform q)
      { q with executed := true } := by
    refine .executed ?_ h.returned
    simpa [q] using h.enough
  refine ⟨World.publish (writeProposal (e.pre.perform q) id { q with executed := true })
    (.Approved id signer true), .executed true, ?_, rfl, ?_, ?_, ?_⟩
  · rw [h.call]
    simp only [Multisig.exec, approve, loadConfig, bind_eq_ok, requireAuth_eq_ok, exists_const,
      okOr_eq_ok, ensure_eq_ok, Prod.exists, executeIfReached_eq_ok, pure_eq_ok, Prod.mk.injEq]
    exact ⟨_, _, ⟨h.signed, cfg, h.stored, h.isSigner, p, h.read, h.pending, h.first, _, _,
      hreached, rfl, rfl⟩, rfl, rfl⟩
  · show (if p.isRotation then _ else e.pre.multisig.config) = _
    rw [h.stored]
  · exact lookup_writeProposal_self _ _ _
  · intro id' hne
    exact lookup_writeProposal_of_ne _ _ hne

theorem Executes.done {w : World} {inv : Invocation} {signer : Address} {id : BytesN 32}
    {cfg : MultisigConfig} {p : Proposal}
    (h : Executes host ((machine host).stepAt w inv) signer id cfg p) :
    let w' := ((machine host).step w inv).1
    w'.performed = w.performed ++ [{ p with approvals := p.approvals ++ [signer] }] ∧
      w'.multisig.config =
        (if p.isRotation then some ⟨p.newSigners, p.newThreshold⟩ else some cfg) ∧
      w'.multisig.proposals.lookup id =
        some { p with approvals := p.approvals ++ [signer], executed := true } ∧
      ∀ id', id' ≠ id → w'.multisig.proposals.lookup id' = w.multisig.proposals.lookup id' := by
  obtain ⟨w', r, hexec, hdone⟩ := h.exec
  have hstep : ((machine host).step w inv).1 = w' := by
    show (step host w inv).1 = w'
    have hexec' : Multisig.exec host inv.env inv.callees w inv.call = .ok (w', r) := hexec
    simp only [step, hexec']
  rw [hstep]
  exact hdone

/-! ### Between rotations -/

/-- What is pending in `w` was made since `w₀` and has no approvals of former signers, or it was
pending in `w₀` already, under the same configuration, and is covered if it was covered there. -/
def Since (host : Host) (w₀ w : World) : Prop :=
  ∀ cfg id p, w.multisig.config = some cfg → w.multisig.proposals.lookup id = some p →
    p.executed = false →
    (p.stale cfg = [] ∧ (CountersHashed host → w₀.multisig.proposals.lookup id = none)) ∨
      ∃ q, w₀.multisig.config = some cfg ∧ w₀.multisig.proposals.lookup id = some q ∧
        q.executed = false ∧ (q.Covered cfg ↔ p.Covered cfg)

theorem Since.refl (w : World) : Since host w w := by
  intro cfg id p hconfig hread hpending
  exact .inr ⟨p, hconfig, hread, hpending, Iff.rfl⟩

theorem since_effect {t : List MultisigStep} {w₀ w w' : World} {inv : Invocation} {r : Returned}
    (hnumbered : Numbered host t w) (hlawful : Lawful host t w)
    (hknown : ∀ id q, w₀.multisig.proposals.lookup id = some q → id ∈ created t)
    (h : Since host w₀ w) (hrotation : ¬ ExecutesRotation host ⟨w, inv, .ok r⟩)
    (heffect : Effect host inv.env inv.callees w inv.call w' r) : Since host w₀ w' := by
  obtain ⟨env, callees, call⟩ := inv
  cases heffect with
  | started hfresh hvalid =>
      intro cfg id p hconfig hread hpending
      have hcreated := hnumbered.known id p hread
      rw [hnumbered.untouched hfresh] at hcreated
      cases hcreated
  | @proposed _ cfg draft proposal w₁ w₂ hsigned hstored hsigner hdrafted hreached =>
      intro cfg' id p hconfig hread hpending
      cases hreached with
      | below hfew =>
          have hconfig' : w.multisig.config = some cfg' := hdrafted.config.symm.trans hconfig
          obtain rfl := Option.some.inj (hstored.symm.trans hconfig')
          rcases Store.lookup_insert_cases hread with ⟨rfl, rfl⟩ | hold
          · left
            refine ⟨?_, ?_⟩
            · simp [Proposal.stale, hdrafted.approvals, hsigner]
            · intro hsha
              by_contra hsome
              obtain ⟨q, hq⟩ := Option.ne_none_iff_exists'.mp hsome
              have hcreated := hknown _ q hq
              rw [hdrafted.id] at hcreated
              exact hnumbered.next_fresh hsha hcreated
          · rw [hdrafted.proposals] at hold
            exact h cfg id p hstored hold hpending
      | executed henough hreturned =>
          exact absurd henough (hdrafted.below (hlawful.config cfg hstored)).not_ge
  | @approved signer id cfg p proposal w₁ hsigned hstored hsigner hread hpending₀ hfirst hreached =>
      intro cfg' id' q hconfig hread' hpending
      cases hreached with
      | below hfew =>
          obtain rfl := Option.some.inj (hstored.symm.trans hconfig)
          rcases Store.lookup_insert_cases hread' with ⟨rfl, rfl⟩ | hold
          · have hcovered := p.covered_approved hsigner (by simpa using hfew)
            rcases h cfg id' p hstored hread hpending₀ with
              ⟨hstale, hmade⟩ | ⟨q, hconfig₀, hread₀, hq, hiff⟩
            · exact .inl ⟨(p.stale_approved hsigner).trans hstale, hmade⟩
            · exact .inr ⟨q, hconfig₀, hread₀, hq, hiff.trans hcovered.symm⟩
          · exact h cfg id' q hstored hold hpending
      | executed henough hreturned =>
          have hcall : p.isRotation = false := by
            by_contra hkind
            exact hrotation ⟨signer, id, cfg, p, ⟨rfl, hsigned, hstored, hsigner, hread, hpending₀,
              hfirst, by simpa using henough, hreturned⟩, by simpa using hkind⟩
          have hconfig' : (if p.isRotation then some ⟨p.newSigners, p.newThreshold⟩
              else w.multisig.config) = some cfg' := hconfig
          rw [hcall, if_neg Bool.false_ne_true] at hconfig'
          rcases Store.lookup_insert_cases hread' with ⟨-, rfl⟩ | hold
          · cases hpending
          · exact h cfg' id' q hconfig' hold hpending

theorem since_run (host : Host) (before during : List Invocation)
    (hnone : ∀ e ∈ (machine host).trace ((machine host).final {} before) during,
      ¬ ExecutesRotation host e) :
    Since host ((machine host).final {} before) ((machine host).final {} (before ++ during)) := by
  have h₀ := numbered_run host before
  rw [Machine.final_append]
  refine (run_invariant_of_steps (P := fun e => ¬ ExecutesRotation host e)
    (I := fun t w => (Numbered host ((machine host).trace {} before ++ t) w ∧
      Lawful host ((machine host).trace {} before ++ t) w) ∧
        Since host ((machine host).final {} before) w) ?_ ?_ ?_ during hnone).2
  · rw [List.append_nil]
    exact ⟨⟨h₀, lawful_run host before⟩, Since.refl _⟩
  · intro t w inv e h
    rw [← List.append_assoc]
    exact ⟨⟨h.1.1.of_none rfl, h.1.2.mono⟩, h.2⟩
  · intro t w inv w' r h hrotation heffect
    rw [← List.append_assoc]
    refine ⟨⟨numbered_effect h.1.1 heffect, lawful_effect h.1.2 heffect⟩,
      since_effect h.1.1 h.1.2 ?_ h.2 hrotation heffect⟩
    intro id q hread
    rw [created, List.filterMap_append]
    exact List.mem_append_left _ (h₀.known id q hread)

/-! ### Approvals are counted -/

/-- Every approval given is among those of the stored proposal. -/
def Tallied (host : Host) (t : List MultisigStep) (w : World) : Prop :=
  ∀ e ∈ t, ∀ id a, Approves host e id a →
    ∃ p, w.multisig.proposals.lookup id = some p ∧ a ∈ p.approvals

theorem Tallied.of_failed {t : List MultisigStep} {w : World} {inv : Invocation}
    {e : Failure MultisigError} (h : Tallied host t w) : Tallied host (t ++ [⟨w, inv, .error e⟩]) w := by
  intro e' he' id a happroves
  rcases List.mem_append.mp he' with hold | hnew
  · exact h e' hold id a happroves
  · obtain rfl := List.mem_singleton.mp hnew
    obtain ⟨-, -, ⟨executed, -, houtput⟩ | ⟨-, houtput⟩⟩ := happroves <;> cases houtput

theorem Reached.returned {w w₁ : World} {cfg : MultisigConfig} {p proposal : Proposal}
    (h : Reached host callees w cfg p w₁ proposal) (henough : cfg.threshold ≤ p.approvals.length) :
    p.isRotation = false → p.target ≠ host.self ∧
      callees p.target p.fnName ((w.multisig.args.lookup p.id).getD []) = true := by
  cases h with
  | below hfew => exact absurd henough hfew.not_ge
  | executed henough hreturned => exact hreturned

theorem Reached.approvals {w w₁ : World} {cfg : MultisigConfig} {p proposal : Proposal}
    (h : Reached host callees w cfg p w₁ proposal) : proposal.approvals = p.approvals := by
  cases h with
  | below hfew => rfl
  | executed henough hreturned => rfl

theorem tallied_effect {t : List MultisigStep} {w w' : World} {inv : Invocation} {r : Returned}
    (hsha : CountersHashed host) (hnumbered : Numbered host t w) (h : Tallied host t w)
    (heffect : Effect host inv.env inv.callees w inv.call w' r) :
    Tallied host (t ++ [⟨w, inv, .ok r⟩]) w' := by
  obtain ⟨env, callees, call⟩ := inv
  intro e he id a happroves
  rw [List.mem_append, List.mem_singleton] at he
  cases heffect with
  | started hfresh hvalid =>
      rcases he with hold | rfl
      · exact h e hold id a happroves
      · obtain ⟨-, -, ⟨executed, -, houtput⟩ | ⟨-, houtput⟩⟩ := happroves <;> cases houtput
  | @proposed _ cfg draft proposal w₁ w₂ hsigned hstored hsigner hdrafted hreached =>
      obtain ⟨-, hproposals, -⟩ := hreached.kept
      rcases he with hold | rfl
      · obtain ⟨p, hread, ha⟩ := h e hold id a happroves
        have hne : id ≠ draft.id := by
          rintro rfl
          have hcreated := hnumbered.known _ p hread
          rw [hdrafted.id] at hcreated
          exact hnumbered.next_fresh hsha hcreated
        refine ⟨p, (lookup_writeProposal_of_ne _ _ hne).trans ?_, ha⟩
        rw [hproposals, hdrafted.proposals]
        exact hread
      · obtain ⟨-, -, ⟨executed, -, houtput⟩ | ⟨hproposer, houtput⟩⟩ := happroves
        · cases houtput
        · cases houtput
          refine ⟨proposal, lookup_writeProposal_self _ _ _, ?_⟩
          rw [hreached.approvals, hdrafted.approvals, List.mem_singleton]
          rcases hdrafted.kind with ⟨-, args, hcall⟩ | ⟨-, hcall, -⟩ <;>
            · rw [hcall] at hproposer
              exact (Option.some.inj hproposer).symm
  | @approved signer id' cfg p proposal w₁ hsigned hstored hsigner hread hpending hfirst hreached =>
      obtain ⟨-, hproposals, -⟩ := hreached.kept
      rcases he with hold | rfl
      · obtain ⟨q, hread', ha⟩ := h e hold id a happroves
        by_cases hid : id = id'
        · subst hid
          obtain rfl := Option.some.inj (hread.symm.trans hread')
          refine ⟨proposal, lookup_writeProposal_self _ _ _, ?_⟩
          rw [hreached.approvals]
          exact List.mem_append_left _ ha
        · refine ⟨q, (lookup_writeProposal_of_ne _ _ hid).trans ?_, ha⟩
          rw [hproposals]
          exact hread'
      · obtain ⟨-, -, ⟨executed, hcall, -⟩ | ⟨hproposer, -⟩⟩ := happroves
        · cases hcall
          refine ⟨proposal, lookup_writeProposal_self _ _ _, ?_⟩
          rw [hreached.approvals]
          exact List.mem_append_right _ (List.mem_singleton.mpr rfl)
        · cases hproposer

theorem tallied_run (hsha : CountersHashed host) (invs : List Invocation) :
    Tallied host ((machine host).trace {} invs) ((machine host).final {} invs) := by
  refine (run_invariant (I := fun t w => Numbered host t w ∧ Tallied host t w)
    ⟨numbered_run host [], ?_⟩ ?_ ?_ invs).2
  · intro e he
    cases he
  · intro t w inv e h
    exact ⟨h.1.of_none rfl, h.2.of_failed⟩
  · intro t w inv w' r h heffect
    exact ⟨numbered_effect h.1 heffect, tallied_effect hsha h.1 h.2 heffect⟩

/-! ### Threshold safety -/

theorem executedByThreshold_effect {t : List MultisigStep} {w w' : World} {inv : Invocation}
    {r : Returned} (h : Lawful host t w)
    (hcovered : ∀ signer id cfg p, Executes host ⟨w, inv, .ok r⟩ signer id cfg p → p.Covered cfg)
    (heffect : Effect host inv.env inv.callees w inv.call w' r) :
    ExecutedByThreshold host (t ++ [⟨w, inv, .ok r⟩]) w w' := by
  have hafter := lawful_effect h heffect
  obtain ⟨env, callees, call⟩ := inv
  intro q hq
  cases heffect with
  | started hfresh hvalid => simp at hq
  | @proposed _ cfg draft proposal w₀ w₁ hsigned hstored hsigner hdrafted hreached =>
      rw [← hdrafted.performed] at hq
      obtain ⟨-, -, -, henough⟩ := hreached.of_performed hq
      exact absurd henough (hdrafted.below (h.config cfg hstored)).not_ge
  | @approved signer id cfg p proposal w₁ hsigned hstored hsigner hread hpending hfirst hreached =>
      obtain ⟨rfl, -⟩ := h.proposals id p hread
      obtain ⟨rfl, rfl, rfl, henough⟩ := hreached.of_performed hq
      have hcount : cfg.threshold ≤ p.approvals.length + 1 := by simpa using henough
      obtain ⟨-, hlawful⟩ := hafter.proposals p.id _ (lookup_writeProposal_self _ _ _)
      refine ⟨cfg, hstored, p.current cfg ++ [signer], ?_, ?_, ?_⟩
      · rw [← p.current_approved hsigner]
        exact hlawful.distinct.filter _
      · rw [List.length_append, List.length_singleton]
        refine (p.covered_iff hcount).mp (hcovered signer p.id cfg p ?_)
        refine ⟨rfl, hsigned, hstored, hsigner, hread, hpending, hfirst, hcount, ?_⟩
        exact hreached.returned henough
      · intro a ha
        rw [← p.current_approved hsigner] at ha
        obtain ⟨hmem, hcurrent⟩ := List.mem_filter.mp ha
        exact ⟨of_decide_eq_true hcurrent, hlawful.approvers a hmem⟩

/-- Where every rotation covers what it finds pending, whatever is executed is covered. -/
theorem RotationsCover.covered {invs before later : List Invocation} {inv : Invocation}
    (h : RotationsCover host invs) (hinvs : invs = before ++ inv :: later) {signer : Address}
    {id : BytesN 32} {cfg : MultisigConfig} {p : Proposal}
    (hexec : Executes host ((machine host).stepAt ((machine host).final {} before) inv) signer id cfg
      p) : p.Covered cfg := by
  rcases (machine host).exists_last (ExecutesRotation host) {} before with
    hnone | ⟨earlier, rotation, during, rfl, ⟨signer', id', cfg', r, hrotation, hkind⟩, hduring⟩
  · rcases since_run host [] before hnone cfg id p hexec.stored hexec.read hexec.pending with
      ⟨hstale, -⟩ | ⟨q, -, hread, -, -⟩
    · exact .inl hstale
    · cases hread
  · have hsplit : earlier ++ rotation :: during = (earlier ++ [rotation]) ++ during := by simp
    have hsince := since_run host (earlier ++ [rotation]) during hduring
    rw [← hsplit] at hsince
    rcases hsince cfg id p hexec.stored hexec.read hexec.pending with
      ⟨hstale, -⟩ | ⟨q, hconfig, hread, hpending, hiff⟩
    · exact .inl hstale
    · obtain ⟨-, hinstalled, hdone, hkept⟩ := hrotation.done
      rw [Machine.final_snoc] at hconfig hread
      rw [hinstalled, hkind, if_pos rfl, Option.some.injEq] at hconfig
      have hne : id ≠ id' := by
        rintro rfl
        rw [hdone] at hread
        cases hread
        cases hpending
      rw [hkept id hne] at hread
      rw [← hiff, ← hconfig]
      refine h earlier rotation during inv later ?_ signer' id' cfg' r hrotation hkind hduring id q hread
        hpending hne signer cfg p hexec
      rw [hinvs, List.append_assoc]
      rfl

/-- What was executed with enough approvals of the signers is covered. -/
theorem Executes.covered (hsha : CountersHashed host) {before : List Invocation} {inv : Invocation}
    {signer : Address} {id : BytesN 32} {cfg : MultisigConfig} {p : Proposal}
    (h : Executes host ((machine host).stepAt ((machine host).final {} before) inv) signer id cfg p)
    (hsafe : ExecutedByThreshold host ((machine host).trace {} (before ++ [inv]))
      ((machine host).final {} before) ((machine host).final {} (before ++ [inv]))) :
    p.Covered cfg := by
  have htallied := tallied_run hsha (before ++ [inv])
  rw [Machine.final_snoc] at hsafe htallied
  obtain ⟨hperformed, -, hread, -⟩ := h.done
  obtain ⟨hid, -⟩ := (lawful_run host before).proposals id p h.read
  obtain ⟨cfg', hconfig, approvers, hnodup, hthreshold, happroved⟩ := hsafe _ hperformed
  obtain rfl := Option.some.inj (h.stored.symm.trans hconfig)
  have hsub : approvers ⊆ p.current cfg ++ [signer] := by
    intro a ha
    obtain ⟨hsigner, e, he, happroves⟩ := happroved a ha
    obtain ⟨q, hq, hmem⟩ := htallied e he p.id a happroves
    rw [hid, hread] at hq
    cases hq
    rw [← p.current_approved h.isSigner]
    exact List.mem_filter.mpr ⟨hmem, decide_eq_true hsigner⟩
  have hlength := (hnodup.subperm hsub).length_le
  rw [List.length_append, List.length_singleton] at hlength
  exact .inr (hthreshold.trans hlength)

/-- **Threshold safety.** In every run whose rotations cover what they find pending, whatever is
executed was approved by at least the threshold of distinct signers of that moment. Where the hashes
of different counters differ, these are the only runs of which that is true. -/
theorem threshold_safe (host : Host) (invs : List Invocation) :
    (RotationsCover host invs → ThresholdSafe host invs) ∧
      (CountersHashed host → ThresholdSafe host invs → RotationsCover host invs) := by
  refine ⟨?_, ?_⟩
  · intro hcover before inv later hinvs
    have hcovered : ∀ signer id cfg p, Executes host
        ((machine host).stepAt ((machine host).final {} before) inv) signer id cfg p → p.Covered cfg :=
      fun signer id cfg p => hcover.covered hinvs
    have h := lawful_run host before
    rw [Machine.trace_snoc, Machine.final_snoc]
    rcases step_cases host ((machine host).final {} before) inv with
      ⟨e, hstep⟩ | ⟨w', r, hstep, heffect⟩
    · intro p hp
      rw [hstep] at hp
      simp at hp
    · rw [Machine.stepAt, hstep] at hcovered ⊢
      exact executedByThreshold_effect h hcovered heffect
  · intro hsha hsafe before rotation during last later hinvs signer id cfg r hrotation hkind hduring
      id' q hread hpending hne signer' cfg' p hexec
    have hinvs' : invs = (before ++ rotation :: during) ++ last :: later := by
      rw [hinvs, List.append_assoc]
      rfl
    have hcovered := hexec.covered hsha (hsafe _ last later hinvs')
    have hsplit : before ++ rotation :: during = (before ++ [rotation]) ++ during := by simp
    have hsince := since_run host (before ++ [rotation]) during hduring
    rw [← hsplit] at hsince
    obtain ⟨-, hinstalled, -, hkept⟩ := hrotation.done
    have hread' : ((machine host).final {} (before ++ [rotation])).multisig.proposals.lookup id' =
        some q := by
      rw [Machine.final_snoc, hkept id' hne]
      exact hread
    rcases hsince cfg' id' p hexec.stored hexec.read hexec.pending with
      ⟨-, hmade⟩ | ⟨q', hconfig, hread₀, -, hiff⟩
    · rw [hmade hsha] at hread'
      cases hread'
    · obtain rfl := Option.some.inj (hread'.symm.trans hread₀)
      rw [Machine.final_snoc, hinstalled, hkind, if_pos rfl, Option.some.injEq] at hconfig
      rw [hconfig]
      exact hiff.mpr hcovered

/-- While the first signer's call is pending, a rotation replaces the second signer. -/
def Demo.replacing : List Invocation := Demo.setup 2 ++ [Demo.callProposed,
  Demo.invocation (Demo.account 2) (.proposeRotation (Demo.account 2)
    [Demo.account 1, Demo.account 3, Demo.account 4] 2)]

/-- The third signer approves both. -/
def Demo.replaced : List Invocation := Demo.replacing ++ [
  Demo.invocation (Demo.account 3) (.approve (Demo.account 3) (Demo.proposal 1)),
  Demo.invocation (Demo.account 3) (.approve (Demo.account 3) (Demo.proposal 0))]

/-- The rotation and the call are executed, by two signers each. -/
theorem threshold_safe_replaced :
    ((machine Demo.host).final {} Demo.replaced).performed.length = 2 ∧
      ThresholdSafe Demo.host Demo.replaced := by
  refine ⟨by decide +kernel, (threshold_safe Demo.host Demo.replaced).1 ?_⟩
  intro before rotation during last later hinvs signer id cfg r hrotation hkind hduring id' q hread
    hpending hne signer' cfg' p hexec
  -- both steps are approvals, and the run has two
  have hsplit : before = Demo.replacing ∧
      rotation = Demo.invocation (Demo.account 3) (.approve (Demo.account 3) (Demo.proposal 1)) ∧
      last = Demo.invocation (Demo.account 3) (.approve (Demo.account 3) (Demo.proposal 0)) := by
    have hcall := hrotation.call
    have hlength := congrArg List.length hinvs
    simp only [Demo.replaced, Demo.replacing, Demo.setup, List.length_cons, List.length_nil,
      List.length_append] at hlength
    rcases before with _ | ⟨a, _ | ⟨b, _ | ⟨c, before⟩⟩⟩
    · obtain ⟨rfl, -⟩ := List.cons.inj hinvs
      cases hcall
    · obtain ⟨-, hinvs⟩ := List.cons.inj hinvs
      obtain ⟨rfl, -⟩ := List.cons.inj hinvs
      cases hcall
    · obtain ⟨-, hinvs⟩ := List.cons.inj hinvs
      obtain ⟨-, hinvs⟩ := List.cons.inj hinvs
      obtain ⟨rfl, -⟩ := List.cons.inj hinvs
      cases hcall
    · obtain rfl := List.eq_nil_of_length_eq_zero (l := before) (by simp at hlength; omega)
      obtain rfl := List.eq_nil_of_length_eq_zero (l := during) (by simp at hlength; omega)
      obtain ⟨ha, hinvs⟩ := List.cons.inj hinvs
      obtain ⟨hb, hinvs⟩ := List.cons.inj hinvs
      obtain ⟨hc, hinvs⟩ := List.cons.inj hinvs
      obtain ⟨hrot, hinvs⟩ := List.cons.inj hinvs
      obtain ⟨hlast, -⟩ := List.cons.inj hinvs
      rw [← ha, ← hb, ← hc]
      exact ⟨rfl, hrot.symm, hlast.symm⟩
  obtain ⟨rfl, rfl, rfl⟩ := hsplit
  have hid : id = Demo.proposal 1 := by
    cases hrotation.call
    rfl
  have hid' : id' = Demo.proposal 0 := by
    cases hexec.call
    rfl
  rw [hid'] at hread
  have happrovals : (((machine Demo.host).final {} Demo.replacing).multisig.proposals.lookup
      (Demo.proposal 0)).map (·.approvals) = some [Demo.account 1] := by
    decide
  have hsigners : (((machine Demo.host).final {} Demo.replacing).multisig.proposals.lookup
      (Demo.proposal 1)).map (·.newSigners) =
        some [Demo.account 1, Demo.account 3, Demo.account 4] := by
    decide
  have hread' := hrotation.read
  rw [hid] at hread'
  have hread' : ((machine Demo.host).final {} Demo.replacing).multisig.proposals.lookup
    (Demo.proposal 1) = some r := hread'
  rw [hread] at happrovals
  rw [hread'] at hsigners
  left
  have happrovals : q.approvals = _ := Option.some.inj happrovals
  have hsigners : r.newSigners = _ := Option.some.inj hsigners
  rw [Proposal.stale, happrovals, hsigners]
  show [Demo.account 1].filter (· ∉ [Demo.account 1, Demo.account 3, Demo.account 4]) = []
  decide

/-- While the first signer's call is pending, a rotation replaces the first two signers. -/
def Demo.departed : List Invocation := Demo.setup 2 ++ [Demo.callProposed,
  Demo.invocation (Demo.account 2) (.proposeRotation (Demo.account 2)
    [Demo.account 3, Demo.account 4, Demo.account 5] 2),
  Demo.invocation (Demo.account 3) (.approve (Demo.account 3) (Demo.proposal 1))]

/-- The signer that stayed approves the call. -/
def Demo.lateApproval : Invocation :=
  Demo.invocation (Demo.account 3) (.approve (Demo.account 3) (Demo.proposal 0))

/-- The call is executed with one approval by a signer, where two are required. -/
theorem threshold_not_safe : ¬ ThresholdSafe Demo.host (Demo.departed ++ [Demo.lateApproval]) := by
  intro hsafe
  have h := hsafe Demo.departed Demo.lateApproval [] rfl
  have hexecuted : ∃ p,
      ((machine Demo.host).final {} (Demo.departed ++ [Demo.lateApproval])).performed =
        ((machine Demo.host).final {} Demo.departed).performed ++ [p] ∧
      p.id = Demo.proposal 0 := by
    refine ⟨⟨Demo.proposal 0, false, .contract (BytesN.ofNat 32 7), "pause", [], 0, Demo.account 1,
      [Demo.account 1, Demo.account 3], false, 1⟩, ?_, rfl⟩
    decide +kernel
  obtain ⟨p, hp, hid⟩ := hexecuted
  obtain ⟨cfg, hconfig, approvers, hnodup, hthreshold, happroved⟩ := h p hp
  have hconfig' : ((machine Demo.host).final {} Demo.departed).multisig.config =
      some ⟨[Demo.account 3, Demo.account 4, Demo.account 5], 2⟩ := by
    decide +kernel
  obtain rfl := Option.some.inj (hconfig'.symm.trans hconfig)
  rw [hid] at happroved
  -- of the signers now in the set only the third called for this proposal
  have honly : ∀ a ∈ approvers, a = Demo.account 3 := by
    intro a ha
    obtain ⟨hsigner, e, he, -, -, hcall⟩ := happroved a ha
    have hmem : e.input.call ∈ (Demo.departed ++ [Demo.lateApproval]).map (·.call) :=
      List.mem_map_of_mem (Machine.input_mem_of_mem_trace _ he)
    have hproposers : ∀ b ∈ [Demo.account 3, Demo.account 4, Demo.account 5],
        b ≠ Demo.account 1 ∧ b ≠ Demo.account 2 := by
      decide
    obtain ⟨hne₁, hne₂⟩ := hproposers a hsigner
    have hother : Demo.proposal 0 ≠ Demo.proposal 1 := by decide
    rcases hcall with ⟨executed, hcall, -⟩ | ⟨hcall, -⟩
    · rw [hcall] at hmem
      simp [Demo.departed, Demo.lateApproval, Demo.setup, Demo.callProposed, Demo.invocation,
        hother] at hmem
      exact hmem
    · simp only [Demo.departed, Demo.lateApproval, Demo.setup, Demo.callProposed, Demo.invocation,
        List.map_cons, List.map_nil, List.cons_append, List.nil_append, List.mem_cons,
        List.not_mem_nil, or_false] at hmem
      rcases hmem with heq | heq | heq | heq | heq
      · rw [heq] at hcall
        cases hcall
      · rw [heq] at hcall
        exact absurd (Option.some.inj hcall).symm hne₁
      · rw [heq] at hcall
        exact absurd (Option.some.inj hcall).symm hne₂
      · rw [heq] at hcall
        cases hcall
      · rw [heq] at hcall
        cases hcall
  have hshort : approvers.length ≤ 1 := by
    have hsub : approvers ⊆ [Demo.account 3] := by
      intro a ha
      rw [honly a ha]
      exact List.mem_singleton.mpr rfl
    exact (hnodup.subperm hsub).length_le
  simp only at hthreshold
  omega

end OpaqueStellar.Multisig
