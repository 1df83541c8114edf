import OpaqueStellar.Multisig.Threshold

/-! # The threshold admin: proposals left pending

A rotation does not look at the proposals that are pending, and an approval is the only call that
executes one. So a rotation may leave a proposal pending that has the approvals it needs. -/

namespace OpaqueStellar.Multisig

open OpaqueStellar.Lib OpaqueStellar.Soroban

variable {host : Host} {env : Env} {callees : Callees}

/-- No pending proposal has enough approvals by current signers. -/
def NoneOverdue (w : World) : Prop :=
  ∀ cfg id p, w.multisig.config = some cfg → w.multisig.proposals.lookup id = some p →
    p.executed = false → (p.current cfg).length < cfg.threshold

/-- An approval that is accepted and executes a rotation leaves every other pending proposal with
fewer approvals by the new signers than the new threshold. -/
def RotationLeavesPending (host : Host) (e : MultisigStep) : Prop :=
  ∀ signer id cfg p, e.input.call = .approve signer id → Signed host e.input.env signer →
    e.pre.multisig.config = some cfg → signer ∈ cfg.signers →
    e.pre.multisig.proposals.lookup id = some p → p.executed = false → signer ∉ p.approvals →
    cfg.threshold ≤ p.approvals.length + 1 → p.isRotation = true →
    ∀ id' q, id' ≠ id → e.pre.multisig.proposals.lookup id' = some q → q.executed = false →
      (q.current ⟨p.newSigners, p.newThreshold⟩).length < p.newThreshold

theorem noneOverdue_effect {t : List MultisigStep} {w w' : World} {inv : Invocation} {r : Returned}
    (hnumbered : Numbered host t w) (hlawful : Lawful host t w) (h : NoneOverdue w)
    (hrotation : RotationLeavesPending host ⟨w, inv, .ok r⟩)
    (heffect : Effect host inv.env inv.callees w inv.call w' r) : NoneOverdue w' := by
  obtain ⟨env, callees, call⟩ := inv
  cases heffect with
  | started hfresh hvalid =>
      intro cfg id p hconfig hread hpending
      have hknown := hnumbered.known id p hread
      rw [hnumbered.untouched hfresh] at hknown
      cases hknown
  | @proposed _ cfg draft proposal w₀ w₁ hsigned hstored hsigner hdrafted hreached =>
      intro cfg' id q hconfig hread hpending
      cases hreached with
      | below hfew =>
          have hconfig' : w.multisig.config = some cfg' := hdrafted.config.symm.trans hconfig
          obtain rfl := Option.some.inj (hstored.symm.trans hconfig')
          rcases Store.lookup_insert_cases hread with ⟨-, rfl⟩ | hold
          · exact lt_of_le_of_lt (q.length_current_le cfg) hfew
          · rw [hdrafted.proposals] at hold
            exact h cfg id q hstored hold hpending
      | executed henough hreturned =>
          exact absurd henough (hdrafted.below (hlawful.config cfg hstored)).not_ge
  | @approved signer id cfg p proposal w₁ hsigned hstored hsigner hread hpending₀ hfirst hreached =>
      intro cfg' id' q hconfig hread' hpending
      cases hreached with
      | below hfew =>
          obtain rfl := Option.some.inj (hstored.symm.trans hconfig)
          rcases Store.lookup_insert_cases hread' with ⟨-, rfl⟩ | hold
          · exact lt_of_le_of_lt (Proposal.length_current_le _ cfg) hfew
          · exact h cfg id' q hstored hold hpending
      | executed henough hreturned =>
          by_cases hother : id' = id
          · subst hother
            have hwritten := (lookup_writeProposal_self _ _ _).symm.trans hread'
            cases hwritten
            cases hpending
          · have hold : w.multisig.proposals.lookup id' = some q :=
              (lookup_writeProposal_of_ne _ _ hother).symm.trans hread'
            have hconfig' : (if p.isRotation then some ⟨p.newSigners, p.newThreshold⟩
                else w.multisig.config) = some cfg' := hconfig
            split at hconfig'
            · next hkind =>
                cases hconfig'
                exact hrotation signer id cfg p rfl hsigned hstored hsigner hread hpending₀ hfirst
                  (by simpa using henough) hkind id' q hother hold hpending
            · exact h cfg' id' q hconfig' hold hpending

theorem noneOverdue_run (host : Host) (invs : List Invocation)
    (hrotation : ∀ e ∈ (machine host).trace {} invs, RotationLeavesPending host e) :
    NoneOverdue ((machine host).final {} invs) := by
  refine (run_invariant_of_steps (P := RotationLeavesPending host)
    (I := fun t w => (Numbered host t w ∧ Lawful host t w) ∧ NoneOverdue w)
    ⟨⟨numbered_run host [], lawful_run host []⟩, ?_⟩ ?_ ?_ invs hrotation).2
  · intro cfg id p hconfig
    cases hconfig
  · intro t w inv e h
    exact ⟨⟨h.1.1.of_none rfl, h.1.2.mono⟩, h.2⟩
  · intro t w inv w' r h hp heffect
    exact ⟨⟨numbered_effect h.1.1 heffect, lawful_effect h.1.2 heffect⟩,
      noneOverdue_effect h.1.1 h.1.2 h.2 hp heffect⟩

/-- An approval that reaches the threshold of a rotation goes through and installs it. -/
theorem exists_rotation (callees : Callees) {w : World} {signer : Address} {id : BytesN 32}
    {cfg : MultisigConfig} {p : Proposal} (hsigned : Signed host env signer)
    (hstored : w.multisig.config = some cfg)
    (hsigner : signer ∈ cfg.signers) (hread : w.multisig.proposals.lookup id = some p)
    (hpending : p.executed = false) (hfirst : signer ∉ p.approvals)
    (henough : cfg.threshold ≤ p.approvals.length + 1) (hrotation : p.isRotation = true) :
    ∃ w' r, exec host env callees w (.approve signer id) = .ok (w', r) ∧
      w'.multisig.config = some ⟨p.newSigners, p.newThreshold⟩ ∧
      ∀ id', id' ≠ id → w'.multisig.proposals.lookup id' = w.multisig.proposals.lookup id' := by
  have hexecutes : Executes host ⟨w, ⟨env, callees, .approve signer id⟩, .ok (.executed true)⟩ signer
      id cfg p :=
    ⟨rfl, hsigned, hstored, hsigner, hread, hpending, hfirst, henough,
      fun hcall => absurd (hrotation.symm.trans hcall) (by simp)⟩
  obtain ⟨w', r, hexec, -, hconfig, -, hkept⟩ := hexecutes.exec
  rw [hrotation, if_pos rfl] at hconfig
  exact ⟨w', r, hexec, hconfig, hkept⟩

/-- A step that leaves nothing overdue meets the condition. -/
theorem rotationLeavesPending_of_noneOverdue {w : World} {inv : Invocation}
    (hafter : NoneOverdue ((machine host).step w inv).1) :
    RotationLeavesPending host ((machine host).stepAt w inv) := by
  intro signer id cfg p hcall hsigned hstored hsigner hread hpending hfirst henough hrotation id' q
    hne hother hqpending
  obtain ⟨env, callees, call⟩ := inv
  obtain rfl : call = .approve signer id := hcall
  obtain ⟨w', r, hexec, hconfig, hkept⟩ := exists_rotation callees hsigned hstored
    hsigner hread hpending hfirst henough hrotation
  have hstep : ((machine host).step w ⟨env, callees, .approve signer id⟩).1 = w' := by
    show (step host w _).1 = w'
    simp only [step]
    rw [show exec host env callees w (.approve signer id) = .ok (w', r) from hexec]
  rw [hstep] at hafter
  exact hafter _ id' q hconfig ((hkept id' hne).trans hother) hqpending

/-- **Automatic execution.** No state of a run has a pending proposal with enough approvals by
current signers, if and only if every rotation the run executes leaves the others without. -/
theorem none_overdue_iff (host : Host) (invs : List Invocation) :
    (∀ before later, invs = before ++ later → NoneOverdue ((machine host).final {} before)) ↔
      ∀ e ∈ (machine host).trace {} invs, RotationLeavesPending host e := by
  constructor
  · intro hnone e he
    obtain ⟨before, later, hinvs, hstep⟩ := (machine host).mem_trace he
    have hafter := hnone (before ++ [e.input]) later (by rw [hinvs, List.append_assoc]; rfl)
    rw [Machine.final_snoc] at hafter
    rw [hstep]
    exact rotationLeavesPending_of_noneOverdue hafter
  · intro hrotation before later hinvs
    apply noneOverdue_run
    intro e he
    apply hrotation
    rw [hinvs]
    exact Machine.mem_trace_append _ later he

/-- Under a threshold of three, a call with two approvals is pending when the threshold is lowered to
two. -/
def Demo.lowered : List Invocation := Demo.setup 3 ++ [Demo.callProposed,
  Demo.invocation (Demo.account 2) (.approve (Demo.account 2) (Demo.proposal 0)),
  Demo.invocation (Demo.account 1) (.proposeRotation (Demo.account 1)
    [Demo.account 1, Demo.account 2, Demo.account 3] 2),
  Demo.invocation (Demo.account 2) (.approve (Demo.account 2) (Demo.proposal 1)),
  Demo.invocation (Demo.account 3) (.approve (Demo.account 3) (Demo.proposal 1))]

/-- The call stays pending with the approvals it needs. -/
theorem call_overdue : ¬ NoneOverdue ((machine Demo.host).final {} Demo.lowered) := by
  intro h
  have hconfig : ((machine Demo.host).final {} Demo.lowered).multisig.config =
      some ⟨[Demo.account 1, Demo.account 2, Demo.account 3], 2⟩ := by
    decide +kernel
  have hread : (((machine Demo.host).final {} Demo.lowered).multisig.proposals.lookup
      (Demo.proposal 0)).map (fun p => (p.executed, p.approvals)) =
        some (false, [Demo.account 1, Demo.account 2]) := by
    decide
  obtain ⟨p, hread, hpair⟩ := Option.map_eq_some_iff.mp hread
  obtain ⟨hpending, happrovals⟩ := Prod.mk.inj hpair
  have hfew := h _ _ p hconfig hread hpending
  rw [Proposal.current, happrovals] at hfew
  revert hfew
  decide

end OpaqueStellar.Multisig
