import OpaqueStellar.Multisig.Effect

/-! # The threshold admin: what holds in every state

`Lawful` is about the configuration and the proposals: their approvals and what a rotation was
proposed with. `Numbered` is about identifiers: they are the hashes of the counters used so far, so
they differ when these hashes do. `Recorded` is about execution, and needs identifiers to differ. -/

namespace OpaqueStellar.Multisig

open OpaqueStellar.Lib OpaqueStellar.Soroban

variable {host : Host} {env : Env} {callees : Callees}

/-! ## Reading a history -/

def Call.proposer : Call → Option Address
  | .proposeCall proposer _ _ _ => some proposer
  | .proposeRotation proposer _ _ => some proposer
  | _ => none

/-- In this step `a`, a signer at that moment, approved the proposal: by an approval of its own, or
by proposing it. -/
def Approves (host : Host) (e : MultisigStep) (id : BytesN 32) (a : Address) : Prop :=
  Signed host e.input.env a ∧ (∃ cfg, e.pre.multisig.config = some cfg ∧ a ∈ cfg.signers) ∧
    ((∃ executed, e.input.call = .approve a id ∧ e.output = .ok (.executed executed)) ∨
      (e.input.call.proposer = some a ∧ e.output = .ok (.id id)))

/-- This step proposed the rotation that `p` carries. -/
def ProposesRotation (e : MultisigStep) (p : Proposal) : Prop :=
  e.input.call = .proposeRotation p.proposer p.newSigners p.newThreshold ∧ e.output = .ok (.id p.id)

def createdBy (e : MultisigStep) : Option (BytesN 32) :=
  match e.output with
  | .ok (.id id) => some id
  | _ => none

/-- The identifiers given out so far, oldest first. -/
def created (t : List MultisigStep) : List (BytesN 32) := t.filterMap createdBy

theorem created_snoc_none {t : List MultisigStep} {e : MultisigStep} (h : createdBy e = none) :
    created (t ++ [e]) = created t := by
  simp [created, List.filterMap_append, h]

theorem created_snoc_some {t : List MultisigStep} {e : MultisigStep} {id : BytesN 32}
    (h : createdBy e = some id) : created (t ++ [e]) = created t ++ [id] := by
  simp [created, List.filterMap_append, h]

/-! ## Proposals and their execution -/

structure ProposalLawful (host : Host) (t : List MultisigStep) (p : Proposal) : Prop where
  distinct : p.approvals.Nodup
  approvers : ∀ a ∈ p.approvals, ∃ e ∈ t, Approves host e p.id a
  rotation : p.isRotation = true →
    MultisigConfig.Valid ⟨p.newSigners, p.newThreshold⟩ ∧ ∃ e ∈ t, ProposesRotation e p

theorem ProposalLawful.mono {t : List MultisigStep} {p : Proposal} {e : MultisigStep}
    (h : ProposalLawful host t p) : ProposalLawful host (t ++ [e]) p := by
  refine ⟨h.distinct, ?_, ?_⟩
  · intro a ha
    obtain ⟨e', he', happroves⟩ := h.approvers a ha
    exact ⟨e', List.mem_append_left _ he', happroves⟩
  · intro hrotation
    obtain ⟨hvalid, e', he', hproposes⟩ := h.rotation hrotation
    exact ⟨hvalid, e', List.mem_append_left _ he', hproposes⟩

theorem ProposalLawful.flagged {t : List MultisigStep} {p : Proposal}
    (h : ProposalLawful host t p) (executed : Bool) :
    ProposalLawful host t { p with executed := executed } :=
  ⟨h.distinct, h.approvers, h.rotation⟩

structure Lawful (host : Host) (t : List MultisigStep) (w : World) : Prop where
  config : ∀ cfg, w.multisig.config = some cfg → cfg.Valid
  proposals : ∀ id p, w.multisig.proposals.lookup id = some p →
    p.id = id ∧ ProposalLawful host t p

theorem Lawful.mono {t : List MultisigStep} {w : World} {e : MultisigStep}
    (h : Lawful host t w) : Lawful host (t ++ [e]) w := by
  refine ⟨h.config, ?_⟩
  intro id p hread
  obtain ⟨hid, hlawful⟩ := h.proposals id p hread
  exact ⟨hid, hlawful.mono⟩

/-- Only these parts of the world matter. -/
theorem Lawful.congr {t : List MultisigStep} {w w' : World} (h : Lawful host t w)
    (hconfig : w'.multisig.config = w.multisig.config)
    (hproposals : w'.multisig.proposals = w.multisig.proposals) : Lawful host t w' := by
  refine ⟨?_, ?_⟩
  · rw [hconfig]
    exact h.config
  · rw [hproposals]
    exact h.proposals

/-- Writing a lawful proposal, executed or not. -/
theorem Lawful.reached {t : List MultisigStep} {w w₁ : World} {cfg : MultisigConfig}
    {p proposal : Proposal} (h : Lawful host t w) (hlawful : ProposalLawful host t p)
    (hreached : Reached host callees w cfg p w₁ proposal) :
    Lawful host t (writeProposal w₁ p.id proposal) := by
  cases hreached with
  | below hfew =>
      refine ⟨h.config, ?_⟩
      intro id q hread
      rcases Store.lookup_insert_cases hread with ⟨rfl, rfl⟩ | hold
      · exact ⟨rfl, hlawful⟩
      · exact h.proposals id q hold
  | executed henough hreturned =>
      refine ⟨?_, ?_⟩
      · intro cfg' hconfig
        have hconfig' : (if p.isRotation then some ⟨p.newSigners, p.newThreshold⟩
            else w.multisig.config) = some cfg' := hconfig
        split at hconfig'
        · next hrotation =>
            cases hconfig'
            exact (hlawful.rotation hrotation).1
        · exact h.config cfg' hconfig'
      · intro id q hread
        rcases Store.lookup_insert_cases hread with ⟨rfl, rfl⟩ | hold
        · exact ⟨rfl, hlawful.flagged true⟩
        · exact h.proposals id q hold

/-- The proposal that a call makes is lawful. -/
theorem Drafted.lawful {t : List MultisigStep} {w w₀ : World} {inv : Invocation}
    {cfg : MultisigConfig} {draft : Proposal} (h : Drafted host w inv.call draft w₀)
    (hsigned : Signed host inv.env draft.proposer) (hstored : w.multisig.config = some cfg)
    (hsigner : draft.proposer ∈ cfg.signers) :
    ProposalLawful host (t ++ [⟨w, inv, .ok (.id draft.id)⟩]) draft := by
  have hlast : (⟨w, inv, .ok (.id draft.id)⟩ : MultisigStep) ∈
      t ++ [⟨w, inv, .ok (.id draft.id)⟩] := List.mem_append_right _ (List.mem_singleton.mpr rfl)
  have hproposer : inv.call.proposer = some draft.proposer := by
    rcases h.kind with ⟨-, args, hcall⟩ | ⟨-, hcall, -⟩
    · rw [hcall]
      rfl
    · rw [hcall]
      rfl
  refine ⟨?_, ?_, ?_⟩
  · rw [h.approvals]
    exact List.nodup_singleton _
  · intro a ha
    rw [h.approvals] at ha
    obtain rfl := List.mem_singleton.mp ha
    exact ⟨_, hlast, hsigned, ⟨cfg, hstored, hsigner⟩, .inr ⟨hproposer, rfl⟩⟩
  · intro hrotation
    rcases h.kind with ⟨hcall, -⟩ | ⟨-, hcall, hvalid⟩
    · rw [hcall] at hrotation
      cases hrotation
    · exact ⟨hvalid, _, hlast, hcall, rfl⟩

/-- A lawful proposal with one more approval, by a signer that had not approved it, is lawful. -/
theorem ProposalLawful.approved {t : List MultisigStep} {w : World} {inv : Invocation}
    {cfg : MultisigConfig} {p : Proposal} {signer : Address} {executed : Bool}
    (h : ProposalLawful host t p) (hcall : inv.call = .approve signer p.id)
    (hsigned : Signed host inv.env signer) (hstored : w.multisig.config = some cfg)
    (hsigner : signer ∈ cfg.signers) (hfirst : signer ∉ p.approvals) :
    ProposalLawful host (t ++ [⟨w, inv, .ok (.executed executed)⟩])
      { p with approvals := p.approvals ++ [signer] } := by
  refine ⟨?_, ?_, h.mono.rotation⟩
  · apply List.Nodup.append h.distinct (List.nodup_singleton _)
    simpa using hfirst
  · intro a ha
    rcases List.mem_append.mp ha with hold | hnew
    · exact h.mono.approvers a hold
    · obtain rfl := List.mem_singleton.mp hnew
      exact ⟨_, List.mem_append_right _ (List.mem_singleton.mpr rfl), hsigned,
        ⟨cfg, hstored, hsigner⟩, .inl ⟨_, hcall, rfl⟩⟩

theorem lawful_effect {t : List MultisigStep} {w w' : World} {inv : Invocation} {r : Returned}
    (h : Lawful host t w) (heffect : Effect host inv.env inv.callees w inv.call w' r) :
    Lawful host (t ++ [⟨w, inv, .ok r⟩]) w' := by
  have hmono := h.mono (e := ⟨w, inv, .ok r⟩)
  obtain ⟨env, callees, call⟩ := inv
  cases heffect with
  | started hfresh hvalid =>
      refine ⟨?_, hmono.proposals⟩
      intro cfg hconfig
      cases hconfig
      exact hvalid
  | @proposed _ cfg draft proposal w₀ w₁ hsigned hstored hsigner hdrafted hreached =>
      have hlawful : ProposalLawful host
          (t ++ [⟨w, ⟨env, callees, call⟩, .ok (.id draft.id)⟩]) draft :=
        hdrafted.lawful hsigned hstored hsigner
      have h₀ := hmono.congr hdrafted.config hdrafted.proposals
      exact (h₀.reached hlawful hreached).congr rfl rfl
  | @approved signer id cfg p proposal w₁ hsigned hstored hsigner hread hpending hfirst hreached =>
      obtain ⟨rfl, hlawful₀⟩ := h.proposals id p hread
      have hlawful : ProposalLawful host
          (t ++ [⟨w, ⟨env, callees, .approve signer p.id⟩, .ok (.executed proposal.executed)⟩])
          { p with approvals := p.approvals ++ [signer] } :=
        hlawful₀.approved rfl hsigned hstored hsigner hfirst
      exact (hmono.reached hlawful hreached).congr rfl rfl

theorem lawful_run (host : Host) (invs : List Invocation) :
    Lawful host ((machine host).trace {} invs) ((machine host).final {} invs) := by
  refine run_invariant (I := Lawful host) ⟨?_, ?_⟩ ?_ ?_ invs
  · intro cfg hconfig
    cases hconfig
  · intro id p hread
    cases hread
  · intro t w inv e h
    exact h.mono
  · intro t w inv w' r h heffect
    exact lawful_effect h heffect

/-! ## Execution -/

/-- Proposals are marked as executed exactly when they were, and that at most once. -/
structure Recorded (w : World) : Prop where
  executed : ∀ id p, w.multisig.proposals.lookup id = some p →
    (p.executed = true ↔ id ∈ w.performed.map (·.id))
  stored : ∀ id ∈ w.performed.map (·.id), ∃ p, w.multisig.proposals.lookup id = some p
  once : (w.performed.map (·.id)).Nodup

theorem Recorded.congr {w w' : World} (h : Recorded w)
    (hproposals : w'.multisig.proposals = w.multisig.proposals)
    (hperformed : w'.performed = w.performed) : Recorded w' := by
  refine ⟨?_, ?_, ?_⟩
  · rw [hproposals, hperformed]
    exact h.executed
  · rw [hproposals, hperformed]
    exact h.stored
  · rw [hperformed]
    exact h.once

/-- Writing a proposal that is still pending. -/
theorem Recorded.write {w : World} {p : Proposal} (h : Recorded w) (hpending : p.executed = false)
    (hfresh : p.id ∉ w.performed.map (·.id)) : Recorded (writeProposal w p.id p) := by
  refine ⟨?_, ?_, h.once⟩
  · intro id q hread
    rcases Store.lookup_insert_cases hread with ⟨rfl, rfl⟩ | hold
    · rw [hpending]
      exact ⟨fun himpossible => absurd himpossible (by simp), fun hmem => absurd hmem hfresh⟩
    · exact h.executed id q hold
  · intro id hmem
    obtain ⟨q, hread⟩ := h.stored id hmem
    by_cases hid : id = p.id
    · exact absurd (hid ▸ hmem) hfresh
    · exact ⟨q, (lookup_writeProposal_of_ne _ _ hid).trans hread⟩

/-- Executing a pending proposal and writing it as executed. -/
theorem Recorded.perform {w : World} {p : Proposal} (h : Recorded w)
    (hfresh : p.id ∉ w.performed.map (·.id)) :
    Recorded (writeProposal (w.perform p) p.id { p with executed := true }) := by
  have hperformed : (w.perform p).performed.map (·.id) = w.performed.map (·.id) ++ [p.id] := by
    simp [World.perform]
  refine ⟨?_, ?_, ?_⟩
  · intro id q hread
    show _ ↔ id ∈ (w.perform p).performed.map (·.id)
    rw [hperformed, List.mem_append, List.mem_singleton]
    by_cases hid : id = p.id
    · subst hid
      rw [lookup_writeProposal_self] at hread
      cases hread
      simp
    · have hold : w.multisig.proposals.lookup id = some q :=
        (lookup_writeProposal_of_ne _ _ hid).symm.trans hread
      rw [h.executed id q hold]
      simp [hid]
  · intro id hmem
    have hmem' : id ∈ (w.perform p).performed.map (·.id) := hmem
    rw [hperformed, List.mem_append, List.mem_singleton] at hmem'
    by_cases hid : id = p.id
    · subst hid
      exact ⟨_, lookup_writeProposal_self _ _ _⟩
    · obtain ⟨q, hread⟩ := h.stored id (hmem'.resolve_right hid)
      exact ⟨q, (lookup_writeProposal_of_ne _ _ hid).trans hread⟩
  · show ((w.perform p).performed.map (·.id)).Nodup
    rw [hperformed]
    apply List.Nodup.append h.once (List.nodup_singleton _)
    simpa using hfresh

theorem Recorded.reached {w w₁ : World} {cfg : MultisigConfig} {p proposal : Proposal}
    (h : Recorded w) (hpending : p.executed = false) (hfresh : p.id ∉ w.performed.map (·.id))
    (hreached : Reached host callees w cfg p w₁ proposal) :
    Recorded (writeProposal w₁ p.id proposal) := by
  cases hreached with
  | below hfew => exact h.write hpending hfresh
  | executed henough hreturned => exact h.perform hfresh

/-! ## Identifiers -/

/-- The hashes of different counters differ. -/
def CountersHashed (host : Host) : Prop :=
  ∀ m n, m < 2 ^ 64 → n < 2 ^ 64 → proposalId host m = proposalId host n → m = n

structure Numbered (host : Host) (t : List MultisigStep) (w : World) : Prop where
  ids : created t = (List.range (w.multisig.nextId.getD 0)).map (proposalId host)
  counter : w.multisig.nextId.getD 0 < 2 ^ 64
  untouched : w.multisig.config = none → created t = []
  known : ∀ id p, w.multisig.proposals.lookup id = some p → id ∈ created t

theorem Numbered.nodup {t : List MultisigStep} {w : World} (h : Numbered host t w)
    (hsha : CountersHashed host) : (created t).Nodup := by
  rw [h.ids]
  refine List.Nodup.map_on ?_ List.nodup_range
  intro m hm n hn heq
  have hcounter := h.counter
  have hm' := List.mem_range.mp hm
  have hn' := List.mem_range.mp hn
  exact hsha m n (by omega) (by omega) heq

/-- The next identifier was not given out before. -/
theorem Numbered.next_fresh {t : List MultisigStep} {w : World} (h : Numbered host t w)
    (hsha : CountersHashed host) : proposalId host (w.multisig.nextId.getD 0) ∉ created t := by
  rw [h.ids, List.mem_map]
  rintro ⟨n, hn, heq⟩
  have hlt := List.mem_range.mp hn
  have hcounter := h.counter
  have hsame := hsha n _ (by omega) hcounter heq
  omega

theorem Numbered.of_none {t : List MultisigStep} {w : World} {e : MultisigStep}
    (h : Numbered host t w) (he : createdBy e = none) : Numbered host (t ++ [e]) w := by
  have hcreated := created_snoc_none (t := t) he
  refine ⟨?_, h.counter, ?_, ?_⟩
  · rw [hcreated]
    exact h.ids
  · rw [hcreated]
    exact h.untouched
  · rw [hcreated]
    exact h.known

theorem numbered_effect {t : List MultisigStep} {w w' : World} {inv : Invocation} {r : Returned}
    (h : Numbered host t w) (heffect : Effect host inv.env inv.callees w inv.call w' r) :
    Numbered host (t ++ [⟨w, inv, .ok r⟩]) w' := by
  obtain ⟨env, callees, call⟩ := inv
  cases heffect with
  | started hfresh hvalid =>
      have hnone := h.untouched hfresh
      refine ⟨?_, by simp, ?_, ?_⟩
      · rw [created_snoc_none rfl, hnone]
        rfl
      · intro _
        rw [created_snoc_none rfl, hnone]
      · intro id p hread
        rw [created_snoc_none rfl]
        exact h.known id p hread
  | @proposed _ cfg draft proposal w₀ w₁ hsigned hstored hsigner hdrafted hreached =>
      obtain ⟨hnext, hproposals, hconfig⟩ := hreached.kept
      have hcounter : w₁.multisig.nextId = some (w.multisig.nextId.getD 0 + 1) :=
        hnext.trans hdrafted.counter
      have hcreated : created (t ++ [⟨w, ⟨env, callees, call⟩, .ok (.id draft.id)⟩]) =
          created t ++ [draft.id] := created_snoc_some rfl
      refine ⟨?_, ?_, ?_, ?_⟩
      · show _ = (List.range (w₁.multisig.nextId.getD 0)).map _
        rw [hcreated, h.ids, hcounter, hdrafted.id, Option.getD_some, List.range_succ,
          List.map_append]
        rfl
      · show w₁.multisig.nextId.getD 0 < _
        rw [hcounter]
        exact hdrafted.room
      · intro hnone
        have hw := hconfig hnone
        rw [hdrafted.config, hstored] at hw
        cases hw
      · intro id p hread
        rw [hcreated, List.mem_append, List.mem_singleton]
        rcases Store.lookup_insert_cases hread with ⟨rfl, -⟩ | hold
        · exact .inr rfl
        · rw [hproposals, hdrafted.proposals] at hold
          exact .inl (h.known id p hold)
  | approved hsigned hstored hsigner hread hpending hfirst hreached =>
      obtain ⟨hnext, hproposals, hconfig⟩ := hreached.kept
      refine Numbered.of_none ⟨?_, ?_, ?_, ?_⟩ rfl
      · show _ = (List.range (Option.getD (World.multisig _).nextId 0)).map _
        rw [World.publish, writeProposal, hnext]
        exact h.ids
      · rw [World.publish, writeProposal]
        show Option.getD (World.multisig _).nextId 0 < _
        rw [hnext]
        exact h.counter
      · intro hnone
        exact h.untouched (hconfig hnone)
      · intro id' p' hread'
        rcases Store.lookup_insert_cases hread' with ⟨rfl, -⟩ | hold
        · exact h.known _ _ hread
        · rw [hproposals] at hold
          exact h.known id' p' hold

/-! ## One step -/

theorem recorded_effect {t : List MultisigStep} {w w' : World} {inv : Invocation} {r : Returned}
    (hsha : CountersHashed host) (hnumbered : Numbered host t w) (hlawful : Lawful host t w)
    (h : Recorded w) (heffect : Effect host inv.env inv.callees w inv.call w' r) : Recorded w' := by
  obtain ⟨env, callees, call⟩ := inv
  cases heffect with
  | started hfresh hvalid => exact h.congr rfl rfl
  | @proposed _ cfg draft proposal w₀ w₁ hsigned hstored hsigner hdrafted hreached =>
      have hfresh : draft.id ∉ w₀.performed.map (·.id) := by
        intro hmem
        rw [hdrafted.performed] at hmem
        obtain ⟨p, hread⟩ := h.stored _ hmem
        have hknown := hnumbered.known _ p hread
        rw [hdrafted.id] at hknown
        exact hnumbered.next_fresh hsha hknown
      have h₀ := h.congr hdrafted.proposals hdrafted.performed
      exact (h₀.reached hdrafted.pending hfresh hreached).congr rfl rfl
  | @approved signer id cfg p proposal w₁ hsigned hstored hsigner hread hpending hfirst hreached =>
      obtain ⟨rfl, -⟩ := hlawful.proposals id p hread
      have hfresh : p.id ∉ w.performed.map (·.id) := by
        rw [← h.executed _ _ hread, hpending]
        simp
      have hwritten := h.reached (p := { p with approvals := p.approvals ++ [signer] }) hpending
        hfresh hreached
      exact hwritten.congr rfl rfl

/-- What a step does: it leaves executed proposals alone, and a rotation it executes installs what
was proposed. `t` are the steps up to and including this one. -/
structure StepLawful (t : List MultisigStep) (w w' : World) : Prop where
  settled : ∀ id p, w.multisig.proposals.lookup id = some p → p.executed = true →
    w'.multisig.proposals.lookup id = some p
  rotation : ∀ p, w'.performed = w.performed ++ [p] → p.isRotation = true →
    w'.multisig.config = some ⟨p.newSigners, p.newThreshold⟩ ∧ ∃ e ∈ t, ProposesRotation e p

/-- A proposal that was executed is stored as such, so what is known of stored proposals holds of
it. -/
theorem rotation_of_performed {t : List MultisigStep} {w w₁ : World} {cfg : MultisigConfig}
    {p q proposal : Proposal} (hreached : Reached host callees w cfg p w₁ proposal)
    (hafter : Lawful host t (writeProposal w₁ p.id proposal))
    (hq : w₁.performed = w.performed ++ [q]) (hrotation : q.isRotation = true) :
    w₁.multisig.config = some ⟨q.newSigners, q.newThreshold⟩ ∧ ∃ e ∈ t, ProposesRotation e q := by
  obtain ⟨rfl, rfl, rfl, -⟩ := hreached.of_performed hq
  refine ⟨?_, ?_⟩
  · show (if q.isRotation then _ else _) = _
    rw [if_pos hrotation]
  · obtain ⟨-, hlawful⟩ := hafter.proposals q.id _ (lookup_writeProposal_self _ _ _)
    exact (hlawful.rotation hrotation).2

theorem stepLawful_effect {t : List MultisigStep} {w w' : World} {inv : Invocation} {r : Returned}
    (hsha : CountersHashed host) (hnumbered : Numbered host t w) (h : Lawful host t w)
    (heffect : Effect host inv.env inv.callees w inv.call w' r) :
    StepLawful (t ++ [⟨w, inv, .ok r⟩]) w w' := by
  have hafter := lawful_effect h heffect
  obtain ⟨env, callees, call⟩ := inv
  cases heffect with
  | started hfresh hvalid =>
      refine ⟨fun id p hread _ => hread, ?_⟩
      intro p hperformed
      simp at hperformed
  | @proposed _ cfg draft proposal w₀ w₁ hsigned hstored hsigner hdrafted hreached =>
      obtain ⟨-, hproposals, -⟩ := hreached.kept
      refine ⟨?_, ?_⟩
      · intro id p hread _
        have hne : id ≠ draft.id := by
          rintro rfl
          have hknown := hnumbered.known _ p hread
          rw [hdrafted.id] at hknown
          exact hnumbered.next_fresh hsha hknown
        have hkept : w₁.multisig.proposals.lookup id = some p := by
          rw [hproposals, hdrafted.proposals]
          exact hread
        exact (lookup_writeProposal_of_ne _ _ hne).trans hkept
      · intro q hq hrotation
        rw [← hdrafted.performed] at hq
        have hwritten : Lawful host _ (writeProposal w₁ draft.id proposal) := hafter.congr rfl rfl
        have hinstalled := rotation_of_performed hreached hwritten hq hrotation
        exact hinstalled
  | @approved signer id cfg p proposal w₁ hsigned hstored hsigner hread hpending hfirst hreached =>
      obtain ⟨-, hproposals, -⟩ := hreached.kept
      obtain ⟨rfl, -⟩ := h.proposals id p hread
      refine ⟨?_, ?_⟩
      · intro id' p' hread' hexecuted
        have hne : id' ≠ p.id := by
          rintro rfl
          obtain rfl := Option.some.inj (hread.symm.trans hread')
          rw [hpending] at hexecuted
          cases hexecuted
        have hkept : w₁.multisig.proposals.lookup id' = some p' := by
          rw [hproposals]
          exact hread'
        exact (lookup_writeProposal_of_ne _ _ hne).trans hkept
      · intro q hq hrotation
        have hwritten : Lawful host _ (writeProposal w₁ p.id proposal) := hafter.congr rfl rfl
        have hinstalled := rotation_of_performed hreached hwritten hq hrotation
        exact hinstalled

theorem stepLawful_refl (t : List MultisigStep) (w : World) : StepLawful t w w := by
  refine ⟨fun id p hread _ => hread, ?_⟩
  intro p hperformed
  simp at hperformed

/-! ## Every run -/

theorem numbered_run (host : Host) (invs : List Invocation) :
    Numbered host ((machine host).trace {} invs) ((machine host).final {} invs) := by
  refine run_invariant (I := Numbered host) ?_ ?_ ?_ invs
  · refine ⟨rfl, by decide, fun _ => rfl, ?_⟩
    intro id p hread
    cases hread
  · intro t w inv e h
    exact h.of_none rfl
  · intro t w inv w' r h heffect
    exact numbered_effect h heffect

theorem recorded_run (hsha : CountersHashed host) (invs : List Invocation) :
    Recorded ((machine host).final {} invs) := by
  refine (run_invariant (I := fun t w => (Numbered host t w ∧ Lawful host t w) ∧ Recorded w)
    ⟨⟨numbered_run host [], lawful_run host []⟩, ?_⟩ ?_ ?_ invs).2
  · refine ⟨?_, ?_, List.nodup_nil⟩
    · intro id p hread
      cases hread
    · intro id hmem
      cases hmem
  · intro t w inv e h
    exact ⟨⟨h.1.1.of_none rfl, h.1.2.mono⟩, h.2⟩
  · intro t w inv w' r h heffect
    exact ⟨⟨numbered_effect h.1.1 heffect, lawful_effect h.1.2 heffect⟩,
      recorded_effect hsha h.1.1 h.1.2 h.2 heffect⟩

/-- What holds of the state after the steps `t`. -/
structure StateLawful (host : Host) (t : List MultisigStep) (w : World) : Prop where
  config : ∀ cfg, w.multisig.config = some cfg → 2 ≤ cfg.threshold ∧
    cfg.threshold ≤ cfg.signers.length ∧ cfg.signers.length ≤ 20 ∧ cfg.signers.Nodup
  approvals : ∀ id p, w.multisig.proposals.lookup id = some p →
    p.approvals.Nodup ∧ ∀ a ∈ p.approvals, ∃ e ∈ t, Approves host e id a
  executed : ∀ id p, w.multisig.proposals.lookup id = some p →
    (p.executed = true ↔ id ∈ w.performed.map (·.id))
  once : (w.performed.map (·.id)).Nodup
  identified : ∀ id p, w.multisig.proposals.lookup id = some p → p.id = id ∧ id ∈ created t
  ids : (created t).Nodup

/-- **The threshold admin in every state.** Where the hashes of different counters differ, the
configuration is valid, approvals are distinct and were made by signers, a proposal is executed at
most once and not touched afterwards, no identifier is given out twice, and an executed rotation
installs what was proposed. -/
theorem multisig_invariants (host : Host) (hsha : CountersHashed host) (invs : List Invocation) :
    StateLawful host ((machine host).trace {} invs) ((machine host).final {} invs) ∧
      ∀ before inv later, invs = before ++ inv :: later →
        StepLawful ((machine host).trace {} (before ++ [inv])) ((machine host).final {} before)
          ((machine host).final {} (before ++ [inv])) := by
  refine ⟨?_, ?_⟩
  · have hnumbered := numbered_run host invs
    have h := lawful_run host invs
    have hrecorded := recorded_run hsha invs
    refine ⟨?_, ?_, hrecorded.executed, hrecorded.once, ?_, hnumbered.nodup hsha⟩
    · intro cfg hconfig
      have hvalid := h.config cfg hconfig
      exact ⟨hvalid.two_le, hvalid.le_length, hvalid.length_le, hvalid.nodup⟩
    · intro id p hread
      obtain ⟨rfl, hlawful⟩ := h.proposals id p hread
      exact ⟨hlawful.distinct, hlawful.approvers⟩
    · intro id p hread
      exact ⟨(h.proposals id p hread).1, hnumbered.known id p hread⟩
  · intro before inv later _
    have hnumbered := numbered_run host before
    have h := lawful_run host before
    rw [Machine.trace_snoc, Machine.final_snoc]
    rcases step_cases host ((machine host).final {} before) inv with
      ⟨e, hstep⟩ | ⟨w', r, hstep, heffect⟩
    · rw [hstep]
      exact stepLawful_refl _ _
    · rw [Machine.stepAt, hstep]
      exact stepLawful_effect hsha hnumbered h heffect

/-- Two of three signers replace the third. -/
def Demo.rotated : List Invocation := Demo.setup 2 ++ [
  Demo.invocation (Demo.account 1) (.proposeRotation (Demo.account 1)
    [Demo.account 1, Demo.account 2, Demo.account 4] 2),
  Demo.invocation (Demo.account 2) (.approve (Demo.account 2) (Demo.proposal 0))]

theorem Demo.countersHashed : CountersHashed Demo.host := by
  intro m n hm hn heq
  have hbytes := congrArg BytesN.toNat heq
  simp only [proposalId, Demo.host, BytesN.toNat, BytesN.ofNat, beNat_beBytes] at hbytes
  omega

/-- After the rotation the third signer is gone and the rotation is marked as executed. -/
theorem multisig_invariants_rotated :
    ((machine Demo.host).final {} Demo.rotated).multisig.config =
        some ⟨[Demo.account 1, Demo.account 2, Demo.account 4], 2⟩ ∧
      StateLawful Demo.host ((machine Demo.host).trace {} Demo.rotated)
        ((machine Demo.host).final {} Demo.rotated) :=
  ⟨by decide +kernel, (multisig_invariants Demo.host Demo.countersHashed Demo.rotated).1⟩

end OpaqueStellar.Multisig
