import OpaqueStellar.Attestations.Effect

/-! # The attestation store in every run

A counter is kept for each schema and stealth address, and the `k`-th attestation issued for the two
is stored under the hash of `k`. `Lawful` ties the history to the store: which identifiers were given
out and in what order, what was stored under them, and who revoked what. It needs nothing of the
hash: a repeated identifier is refused, and so is the one at which the counter saturates. -/

namespace OpaqueStellar.Attestations

open OpaqueStellar.Lib OpaqueStellar.Soroban OpaqueStellar.Schemas

variable {host : Host} {env : Env}

/-! ## Reading a history -/

def issuedBy (e : EngineStep) : Option (BytesN 32) :=
  match e.output with
  | .ok (.uid uid) => some uid
  | _ => none

/-- The identifiers given out so far, oldest first. -/
def issued (t : List EngineStep) : List (BytesN 32) := t.filterMap issuedBy

/-- The identifier that this step gave out for a schema and a stealth address. -/
def issuedForBy (schemaId stealthHash : BytesN 32) (e : EngineStep) : Option (BytesN 32) :=
  match e.input.call with
  | .attest args =>
      if args.schemaId = schemaId ∧ args.stealthAddressHash = stealthHash then issuedBy e else none
  | _ => none

def issuedFor (t : List EngineStep) (schemaId stealthHash : BytesN 32) : List (BytesN 32) :=
  t.filterMap (issuedForBy schemaId stealthHash)

/-- The ledger at which this step revoked the attestation. -/
def revokedBy (uid : BytesN 32) (e : EngineStep) : Option ℕ :=
  match e.input.call, e.output with
  | .revokeAttestation _ uid', .ok _ => if uid' = uid then some e.input.env.sequence else none
  | _, _ => none

/-- The ledgers of the successful revocations of one attestation. -/
def revocations (t : List EngineStep) (uid : BytesN 32) : List ℕ := t.filterMap (revokedBy uid)

/-- What the record says about these. -/
def Attestation.revocations (a : Attestation) : List ℕ :=
  if a.revocationLedger = 0 then [] else [a.revocationLedger]

/-- In this step the data of `a` was checked against the fields of its schema, as the configured
registry had them, and `a` was stored under `uid`. -/
def Accepts (e : EngineStep) (uid : BytesN 32) (a : Attestation) : Prop :=
  ∃ args cfg s fields, e.input.call = .attest args ∧ e.output = .ok (.uid uid) ∧
    args.schemaId = a.schemaId ∧ args.data = a.data ∧ e.pre.engine.config = some cfg ∧
    (e.pre.registries cfg.schemaRegistry).registry.schemas.lookup a.schemaId = some s ∧
    schemaFields s = .ok fields ∧ validateAttestationData fields a.data = .ok ()

section Snoc

variable (t : List EngineStep) (e : EngineStep)

theorem issued_snoc : issued (t ++ [e]) = issued t ++ (issuedBy e).toList := by
  cases h : issuedBy e <;> simp [issued, List.filterMap_append, h]

theorem issuedFor_snoc (schemaId stealthHash : BytesN 32) :
    issuedFor (t ++ [e]) schemaId stealthHash =
      issuedFor t schemaId stealthHash ++ (issuedForBy schemaId stealthHash e).toList := by
  cases h : issuedForBy schemaId stealthHash e <;> simp [issuedFor, List.filterMap_append, h]

theorem revocations_snoc (uid : BytesN 32) :
    revocations (t ++ [e]) uid = revocations t uid ++ (revokedBy uid e).toList := by
  cases h : revokedBy uid e <;> simp [revocations, List.filterMap_append, h]

end Snoc

theorem issuedForBy_eq_none {e : EngineStep} (h : issuedBy e = none)
    (schemaId stealthHash : BytesN 32) : issuedForBy schemaId stealthHash e = none := by
  unfold issuedForBy
  split
  · split
    · exact h
    · rfl
  · rfl

theorem issued_snoc_none {t : List EngineStep} {e : EngineStep} (h : issuedBy e = none) :
    issued (t ++ [e]) = issued t := by
  rw [issued_snoc, h, Option.toList_none, List.append_nil]

theorem issuedFor_snoc_none {t : List EngineStep} {e : EngineStep} (h : issuedBy e = none)
    (schemaId stealthHash : BytesN 32) :
    issuedFor (t ++ [e]) schemaId stealthHash = issuedFor t schemaId stealthHash := by
  rw [issuedFor_snoc, issuedForBy_eq_none h, Option.toList_none, List.append_nil]

/-! ## The invariant -/

structure Lawful (host : Host) (t : List EngineStep) (w : World) : Prop where
  counted : ∀ schemaId stealthHash,
    sequenceOf w schemaId stealthHash = (issuedFor t schemaId stealthHash).length
  bounded : ∀ schemaId stealthHash, sequenceOf w schemaId stealthHash ≤ 2 ^ 64 - 1
  numbered : ∀ schemaId stealthHash k uid, (issuedFor t schemaId stealthHash)[k]? = some uid →
    uid = computeAttestationUid host schemaId stealthHash (k + 1) ∧
      ∃ a, w.engine.attestations.lookup uid = some a ∧ a.schemaId = schemaId ∧
        a.stealthAddressHash = stealthHash ∧ a.issuanceSequence = k + 1
  stored : ∀ uid a, w.engine.attestations.lookup uid = some a → a.uid = uid ∧
    uid ∈ issuedFor t a.schemaId a.stealthAddressHash ∧ ∃ e ∈ t, Accepts e uid a
  known : ∀ uid ∈ issued t, (w.engine.attestations.lookup uid).isSome = true
  nodup : (issued t).Nodup
  revoked : ∀ uid, revocations t uid =
    ((w.engine.attestations.lookup uid).map Attestation.revocations).getD []

theorem lawful_initial (host : Host) : Lawful host [] {} where
  counted _ _ := rfl
  bounded _ _ := Nat.zero_le _
  numbered _ _ k uid h := by simp [issuedFor] at h
  stored uid a h := by cases h
  known uid h := by cases h
  nodup := List.nodup_nil
  revoked _ := rfl

/-- A step that neither issues nor revokes. -/
theorem Lawful.quiet {t : List EngineStep} {w w' : World} {e : EngineStep} (h : Lawful host t w)
    (hissued : issuedBy e = none) (hrevoked : ∀ uid, revokedBy uid e = none)
    (hattestations : w'.engine.attestations = w.engine.attestations)
    (hsequences : w'.engine.sequences = w.engine.sequences) : Lawful host (t ++ [e]) w' := by
  have hfor := issuedFor_snoc_none (t := t) hissued
  have hall := issued_snoc_none (t := t) hissued
  have hsequence : ∀ schemaId stealthHash,
      sequenceOf w' schemaId stealthHash = sequenceOf w schemaId stealthHash := by
    intro schemaId stealthHash
    rw [sequenceOf, hsequences, sequenceOf]
  refine ⟨?_, ?_, ?_, ?_, ?_, ?_, ?_⟩
  · intro schemaId stealthHash
    rw [hsequence, hfor]
    exact h.counted schemaId stealthHash
  · intro schemaId stealthHash
    rw [hsequence]
    exact h.bounded schemaId stealthHash
  · intro schemaId stealthHash k uid hget
    rw [hfor] at hget
    rw [hattestations]
    exact h.numbered schemaId stealthHash k uid hget
  · intro uid a hread
    rw [hattestations] at hread
    obtain ⟨huid, hmem, e', he', haccepts⟩ := h.stored uid a hread
    rw [hfor]
    exact ⟨huid, hmem, e', List.mem_append_left _ he', haccepts⟩
  · intro uid hmem
    rw [hall] at hmem
    rw [hattestations]
    exact h.known uid hmem
  · rw [hall]
    exact h.nodup
  · intro uid
    rw [revocations_snoc, hrevoked, Option.toList_none, List.append_nil, hattestations]
    exact h.revoked uid

/-! ## Issuing -/

/-- The counter has not saturated: the identifier it would repeat is taken. -/
theorem Lawful.nextSequence_eq {t : List EngineStep} {w : World} {args : AttestArgs}
    (h : Lawful host t w) (hfresh : w.engine.attestations.lookup (nextUid host w args) = none) :
    nextSequence w args = sequenceOf w args.schemaId args.stealthAddressHash + 1 ∧
      nextSequence w args ≤ 2 ^ 64 - 1 := by
  set n := sequenceOf w args.schemaId args.stealthAddressHash with hn
  have hnext : nextSequence w args = min (n + 1) (2 ^ 64 - 1) := rfl
  have hbound := h.bounded args.schemaId args.stealthAddressHash
  rw [← hn] at hbound
  rcases Nat.lt_or_ge n (2 ^ 64 - 1) with hlt | hge
  · omega
  · exfalso
    -- the counter stands at its last value, which was given out already
    have hfull : n = 2 ^ 64 - 1 := by omega
    have hlast : nextSequence w args = (n - 1) + 1 := by omega
    have hlen := h.counted args.schemaId args.stealthAddressHash
    rw [← hn] at hlen
    have hlt : n - 1 < (issuedFor t args.schemaId args.stealthAddressHash).length := by omega
    obtain ⟨huid, a, hread, -⟩ := h.numbered _ _ _ _ (List.getElem?_eq_getElem hlt)
    rw [huid, ← hlast] at hread
    exact Option.some_ne_none a (hread.symm.trans hfresh)

theorem sequenceOf_issue (w : World) (args : AttestArgs) (schemaId stealthHash : BytesN 32) :
    sequenceOf (w.issue host env args) schemaId stealthHash =
      if args.schemaId = schemaId ∧ args.stealthAddressHash = stealthHash then nextSequence w args
      else sequenceOf w schemaId stealthHash := by
  unfold sequenceOf World.issue
  split
  · next hpair =>
      obtain ⟨rfl, rfl⟩ := hpair
      simp [Finmap.lookup_insert]
  · next hpair =>
      have hne : (schemaId, stealthHash) ≠ (args.schemaId, args.stealthAddressHash) := by
        intro heq
        cases heq
        exact hpair ⟨rfl, rfl⟩
      simp [Finmap.lookup_insert_of_ne _ hne]

theorem lookup_issue_self (w : World) (args : AttestArgs) :
    (w.issue host env args).engine.attestations.lookup (nextUid host w args) =
      some (args.attestation host env w) := Finmap.lookup_insert _

theorem lookup_issue_of_some {w : World} {args : AttestArgs} {uid : BytesN 32} {a : Attestation}
    (hfresh : w.engine.attestations.lookup (nextUid host w args) = none)
    (hread : w.engine.attestations.lookup uid = some a) :
    (w.issue host env args).engine.attestations.lookup uid = some a := by
  have hne : uid ≠ nextUid host w args := by
    rintro rfl
    exact Option.some_ne_none a (hread.symm.trans hfresh)
  exact (Finmap.lookup_insert_of_ne _ hne).trans hread

/-- The new attestation is the last of those for its schema and stealth address. -/
theorem Lawful.numbered_issue {t : List EngineStep} {w : World} {args : AttestArgs}
    {schemaId stealthHash : BytesN 32} {k : ℕ} {uid : BytesN 32} (h : Lawful host t w)
    (hfresh : w.engine.attestations.lookup (nextUid host w args) = none)
    (hget : (issuedFor t schemaId stealthHash ++
      if args.schemaId = schemaId ∧ args.stealthAddressHash = stealthHash then
        [nextUid host w args] else [])[k]? = some uid) :
    uid = computeAttestationUid host schemaId stealthHash (k + 1) ∧
      ∃ a, (w.issue host env args).engine.attestations.lookup uid = some a ∧
        a.schemaId = schemaId ∧ a.stealthAddressHash = stealthHash ∧ a.issuanceSequence = k + 1 := by
  have hearlier : (issuedFor t schemaId stealthHash)[k]? = some uid →
      uid = computeAttestationUid host schemaId stealthHash (k + 1) ∧
        ∃ a, (w.issue host env args).engine.attestations.lookup uid = some a ∧
          a.schemaId = schemaId ∧ a.stealthAddressHash = stealthHash ∧
          a.issuanceSequence = k + 1 := by
    intro hold
    obtain ⟨huid, a, hread, hfields⟩ := h.numbered schemaId stealthHash k uid hold
    exact ⟨huid, a, lookup_issue_of_some hfresh hread, hfields⟩
  split at hget
  · next hpair =>
      obtain ⟨rfl, rfl⟩ := hpair
      rcases Nat.lt_or_ge k (issuedFor t args.schemaId args.stealthAddressHash).length with hlt | hge
      · rw [List.getElem?_append_left hlt] at hget
        exact hearlier hget
      · rw [List.getElem?_append_right hge, List.getElem?_singleton] at hget
        split at hget
        · next hzero =>
            cases hget
            have hk : nextSequence w args = k + 1 := by
              have hlen := h.counted args.schemaId args.stealthAddressHash
              have hnext := (h.nextSequence_eq hfresh).1
              omega
            rw [← hk]
            exact ⟨rfl, args.attestation host env w, lookup_issue_self w args, rfl, rfl, rfl⟩
        · cases hget
  · rw [List.append_nil] at hget
    exact hearlier hget

/-- The invariant after an attestation. -/
theorem Lawful.issue {t : List EngineStep} {w : World} {args : AttestArgs} {e : EngineStep}
    (h : Lawful host t w) (hfresh : w.engine.attestations.lookup (nextUid host w args) = none)
    (hcall : e.input.call = .attest args) (hout : e.output = .ok (.uid (nextUid host w args)))
    (haccepts : Accepts e (nextUid host w args) (args.attestation host env w)) :
    Lawful host (t ++ [e]) (w.issue host env args) := by
  obtain ⟨hnext, hbound⟩ := h.nextSequence_eq hfresh
  have hby : issuedBy e = some (nextUid host w args) := by simp [issuedBy, hout]
  have hfor : ∀ schemaId stealthHash, issuedFor (t ++ [e]) schemaId stealthHash =
      issuedFor t schemaId stealthHash ++
        if args.schemaId = schemaId ∧ args.stealthAddressHash = stealthHash then
          [nextUid host w args] else [] := by
    intro schemaId stealthHash
    rw [issuedFor_snoc, issuedForBy, hcall]
    simp only [hby]
    split <;> rfl
  refine ⟨?_, ?_, ?_, ?_, ?_, ?_, ?_⟩
  · intro schemaId stealthHash
    rw [sequenceOf_issue, hfor]
    split
    · next hpair =>
        obtain ⟨rfl, rfl⟩ := hpair
        rw [hnext, h.counted, List.length_append, List.length_singleton]
    · rw [List.append_nil]
      exact h.counted schemaId stealthHash
  · intro schemaId stealthHash
    rw [sequenceOf_issue]
    split
    · exact hbound
    · exact h.bounded schemaId stealthHash
  · intro schemaId stealthHash k uid hget
    rw [hfor] at hget
    exact h.numbered_issue hfresh hget
  · intro uid a hread
    rcases Store.lookup_insert_cases hread with ⟨rfl, rfl⟩ | hread
    · refine ⟨rfl, ?_, e, List.mem_append_right _ (List.mem_singleton.mpr rfl), haccepts⟩
      rw [hfor, if_pos ⟨rfl, rfl⟩]
      exact List.mem_append_right _ (List.mem_singleton.mpr rfl)
    · obtain ⟨huid, hmem, e', he', haccepts'⟩ := h.stored uid a hread
      refine ⟨huid, ?_, e', List.mem_append_left _ he', haccepts'⟩
      rw [hfor]
      exact List.mem_append_left _ hmem
  · intro uid hmem
    rw [issued_snoc, hby, Option.toList_some, List.mem_append, List.mem_singleton] at hmem
    rcases hmem with hmem | rfl
    · obtain ⟨a, hread⟩ := Option.isSome_iff_exists.mp (h.known uid hmem)
      rw [lookup_issue_of_some hfresh hread]
      rfl
    · rw [lookup_issue_self]
      rfl
  · rw [issued_snoc, hby, Option.toList_some]
    apply List.Nodup.append h.nodup (List.nodup_singleton _)
    rw [List.disjoint_singleton]
    intro hmem
    have hknown := h.known _ hmem
    rw [hfresh] at hknown
    cases hknown
  · intro uid
    have hnone : revokedBy uid e = none := by simp [revokedBy, hcall]
    rw [revocations_snoc, hnone, Option.toList_none, List.append_nil, h.revoked uid]
    by_cases huid : uid = nextUid host w args
    · subst huid
      rw [lookup_issue_self, hfresh]
      rfl
    · have hread : (w.issue host env args).engine.attestations.lookup uid =
          w.engine.attestations.lookup uid := Finmap.lookup_insert_of_ne _ huid
      rw [hread]

/-! ## Revoking -/

theorem lookup_revoke (w : World) (uid uid' : BytesN 32) (a : Attestation) (sequence : ℕ)
    (revoker : Address) :
    (w.revoke uid a sequence revoker).engine.attestations.lookup uid' =
      if uid' = uid then some { a with revocationLedger := sequence }
      else w.engine.attestations.lookup uid' := by
  split
  · next huid =>
      subst huid
      exact Finmap.lookup_insert _
  · next huid => exact Finmap.lookup_insert_of_ne _ huid

/-- The invariant after a revocation, at a positive ledger. -/
theorem Lawful.revoke {t : List EngineStep} {w : World} {uid : BytesN 32} {a : Attestation}
    {revoker : Address} {e : EngineStep} (h : Lawful host t w)
    (hread : w.engine.attestations.lookup uid = some a) (hunrevoked : a.revocationLedger = 0)
    (hpositive : 0 < e.input.env.sequence) (hcall : e.input.call = .revokeAttestation revoker uid)
    (hout : e.output = .ok .unit) :
    Lawful host (t ++ [e]) (w.revoke uid a e.input.env.sequence revoker) := by
  have hby : issuedBy e = none := by simp [issuedBy, hout]
  have hfor := issuedFor_snoc_none (t := t) hby
  have hall := issued_snoc_none (t := t) hby
  refine ⟨?_, h.bounded, ?_, ?_, ?_, ?_, ?_⟩
  · intro schemaId stealthHash
    rw [hfor]
    exact h.counted schemaId stealthHash
  · intro schemaId stealthHash k uid' hget
    rw [hfor] at hget
    obtain ⟨huid, a', hread', hfields⟩ := h.numbered schemaId stealthHash k uid' hget
    rw [lookup_revoke]
    split
    · next heq =>
        subst heq
        obtain rfl := Option.some.inj (hread.symm.trans hread')
        exact ⟨huid, _, rfl, hfields⟩
    · exact ⟨huid, a', hread', hfields⟩
  · intro uid' a' hread'
    rw [lookup_revoke] at hread'
    rw [hfor]
    split at hread'
    · next heq =>
        subst heq
        cases hread'
        obtain ⟨huid, hmem, e', he', haccepts⟩ := h.stored _ a hread
        exact ⟨huid, hmem, e', List.mem_append_left _ he', haccepts⟩
    · obtain ⟨huid, hmem, e', he', haccepts⟩ := h.stored uid' a' hread'
      exact ⟨huid, hmem, e', List.mem_append_left _ he', haccepts⟩
  · intro uid' hmem
    rw [hall] at hmem
    rw [lookup_revoke]
    split
    · rfl
    · exact h.known uid' hmem
  · rw [hall]
    exact h.nodup
  · intro uid'
    rw [revocations_snoc, h.revoked uid', lookup_revoke]
    have hby' : revokedBy uid' e = if uid = uid' then some e.input.env.sequence else none := by
      simp [revokedBy, hcall, hout]
    rw [hby']
    by_cases huid : uid' = uid
    · subst huid
      simp [hread, Attestation.revocations, hunrevoked, hpositive.ne']
    · rw [if_neg (Ne.symm huid), if_neg huid, Option.toList_none, List.append_nil]

/-! ## Every run -/

theorem lawful_effect {t : List EngineStep} {w w' : World} {inv : Invocation} {r : Returned}
    (h : Lawful host t w) (hpositive : 0 < inv.env.sequence)
    (heffect : Effect host inv.env w inv.call w' r) :
    Lawful host (t ++ [⟨w, inv, .ok r⟩]) w' := by
  obtain ⟨env, call⟩ := inv
  cases heffect with
  | @attested args cfg s fields hsigned hstored hunpaused hunexpired hauthorised hread hvalidated
      hfresh =>
      exact h.issue hfresh rfl rfl
        ⟨args, cfg, s, fields, rfl, rfl, rfl, rfl, hstored, hread, hvalidated.parsed,
          hvalidated.accepted⟩
  | revoked hsigned hstored hread hunrevoked hrevocable hasked hauthorised =>
      exact h.revoke hread hunrevoked hpositive rfl rfl
  | configured hwritten =>
      rw [hwritten]
      exact h.quiet rfl (fun _ => rfl) rfl rfl
  | registry hcalled => exact h.quiet rfl (fun _ => rfl) rfl rfl

theorem lawful_run (host : Host) (invs : List Invocation)
    (hpositive : ∀ inv ∈ invs, 0 < inv.env.sequence) :
    Lawful host ((machine host).trace {} invs) ((machine host).final {} invs) := by
  refine run_invariant_of_steps (P := fun e => 0 < e.input.env.sequence) (lawful_initial host) ?_ ?_
    invs ?_
  · intro t w inv e h
    refine h.quiet rfl ?_ rfl rfl
    intro uid
    unfold revokedBy
    split
    · next heq => cases heq
    · rfl
  · intro t w inv w' r h hp heffect
    exact lawful_effect h hp heffect
  · intro e he
    exact hpositive e.input ((machine host).input_mem_of_mem_trace he)

/-- What becomes of a stored record. -/
structure Kept (a a' : Attestation) : Prop where
  same : a' = { a with revocationLedger := a'.revocationLedger }
  revoked : a.revocationLedger ≠ 0 → a' = a

theorem Kept.refl (a : Attestation) : Kept a a := ⟨rfl, fun _ => rfl⟩

theorem Kept.trans {a a' a'' : Attestation} (h : Kept a a') (h' : Kept a' a'') : Kept a a'' := by
  refine ⟨?_, ?_⟩
  · rw [h'.same, h.same]
  · intro hne
    obtain rfl := h.revoked hne
    exact h'.revoked hne

theorem kept_effect {w w' : World} {call : Call} {r : Returned} {uid : BytesN 32} {a : Attestation}
    (hread : w.engine.attestations.lookup uid = some a) (heffect : Effect host env w call w' r) :
    ∃ a', w'.engine.attestations.lookup uid = some a' ∧ Kept a a' := by
  cases heffect with
  | attested hsigned hstored hunpaused hunexpired hauthorised hread' hvalidated hfresh =>
      exact ⟨a, lookup_issue_of_some hfresh hread, .refl a⟩
  | @revoked revoker uid' cfg a' _ hsigned hstored hread' hunrevoked hrevocable hasked hauthorised =>
      rw [lookup_revoke]
      split
      · next heq =>
          subst heq
          obtain rfl := Option.some.inj (hread.symm.trans hread')
          exact ⟨_, rfl, rfl, fun hne => absurd hunrevoked hne⟩
      · exact ⟨a, hread, .refl a⟩
  | configured hwritten =>
      rw [hwritten]
      exact ⟨a, hread, .refl a⟩
  | registry hcalled => exact ⟨a, hread, .refl a⟩

theorem kept_run (host : Host) {w : World} {uid : BytesN 32} {a : Attestation}
    (hread : w.engine.attestations.lookup uid = some a) (invs : List Invocation) :
    ∃ a', ((machine host).final w invs).engine.attestations.lookup uid = some a' ∧ Kept a a' := by
  refine run_stable (J := fun w => ∃ a', w.engine.attestations.lookup uid = some a' ∧ Kept a a') ?_
    ⟨a, hread, .refl a⟩ invs
  rintro w inv w' r ⟨a', hread', hkept⟩ heffect
  obtain ⟨a'', hread'', hkept'⟩ := kept_effect hread' heffect
  exact ⟨a'', hread'', hkept.trans hkept'⟩

/-- What holds after the run `before` and from there on. -/
structure StoreLawful (host : Host) (before later : List Invocation) : Prop where
  uids : (issued ((machine host).trace {} before)).Nodup
  kept : ∀ uid a, ((machine host).final {} before).engine.attestations.lookup uid = some a →
    ∃ a', ((machine host).final {} (before ++ later)).engine.attestations.lookup uid = some a' ∧
      a' = { a with revocationLedger := a'.revocationLedger } ∧
      (a.revocationLedger ≠ 0 → a' = a)
  revoked : ∀ uid a, ((machine host).final {} before).engine.attestations.lookup uid = some a →
    (a.revocationLedger = 0 ∧ revocations ((machine host).trace {} before) uid = []) ∨
      revocations ((machine host).trace {} before) uid = [a.revocationLedger]
  sequences : ∀ schemaId stealthHash k uid,
    (issuedFor ((machine host).trace {} before) schemaId stealthHash)[k]? = some uid →
    ∃ a, ((machine host).final {} before).engine.attestations.lookup uid = some a ∧
      a.schemaId = schemaId ∧ a.stealthAddressHash = stealthHash ∧ a.issuanceSequence = k + 1
  accepted : ∀ uid a, ((machine host).final {} before).engine.attestations.lookup uid = some a →
    uid ∈ issuedFor ((machine host).trace {} before) a.schemaId a.stealthAddressHash ∧
      ∃ e ∈ (machine host).trace {} before, Accepts e uid a

/-- **The attestation store over every run.** At positive ledgers, no identifier is given out twice,
a stored record changes only by its one revocation, the attestations for a schema and a stealth
address are numbered from one without gaps, and the data of each was accepted for the fields its
schema had when it was issued. -/
theorem attestation_store_lawful (host : Host) (before later : List Invocation)
    (hpositive : ∀ inv ∈ before ++ later, 0 < inv.env.sequence) :
    StoreLawful host before later := by
  have h := lawful_run host before fun inv hinv => hpositive inv (List.mem_append_left _ hinv)
  refine ⟨h.nodup, ?_, ?_, ?_, ?_⟩
  · intro uid a hread
    obtain ⟨a', hread', hkept⟩ := kept_run host hread later
    rw [← Machine.final_append] at hread'
    exact ⟨a', hread', hkept.same, hkept.revoked⟩
  · intro uid a hread
    have hrevoked := h.revoked uid
    rw [hread, Option.map_some, Option.getD_some, Attestation.revocations] at hrevoked
    split at hrevoked
    · next hzero => exact .inl ⟨hzero, hrevoked⟩
    · exact .inr hrevoked
  · intro schemaId stealthHash k uid hget
    exact (h.numbered schemaId stealthHash k uid hget).2
  · intro uid a hread
    exact (h.stored uid a hread).2

/-! ## A small setting

One registry with one schema, of the account that issues under it. -/

namespace Demo

def engineHost : Host where
  self := .contract (BytesN.ofNat 32 9)
  sha256 := Schemas.Demo.host.sha256

def account (n : ℕ) : Address := Schemas.Demo.account n

def registryAddress : Address := Schemas.Demo.host.self

def invocation (signer : Address) (sequence : ℕ) (call : Call) : Invocation where
  env := ⟨sequence, 1, [signer], fun _ _ _ => false⟩
  call := call

def setup : List Invocation := [
  invocation (account 8) 1 (.config (.initializeEngine (account 8) (account 8) registryAddress 1)),
  invocation (account 1) 1
    (.registry registryAddress (.registerSchema (Schemas.Demo.args (account 1))))]

/-- An attestation of `passed` and a level for one stealth address. -/
def attests (level : UInt8) : Invocation :=
  invocation (account 1) 2
    (.attest ⟨account 1, Schemas.Demo.schemaId, BytesN.ofNat 32 5, [1, level], 0, BytesN.ofNat 32 0⟩)

def uid (n : ℕ) : BytesN 32 :=
  computeAttestationUid engineHost Schemas.Demo.schemaId (BytesN.ofNat 32 5) n

/-- Two attestations for the same stealth address; the first is revoked. -/
def run : List Invocation := setup ++ [attests 3, attests 4,
  invocation (account 1) 7 (.revokeAttestation (account 1) (uid 1))]

end Demo

theorem attestation_store_lawful_revoked :
    issued ((machine Demo.engineHost).trace {} Demo.run) = [Demo.uid 1, Demo.uid 2] ∧
      revocations ((machine Demo.engineHost).trace {} Demo.run) (Demo.uid 1) = [7] ∧
      StoreLawful Demo.engineHost Demo.run [] := by
  refine ⟨by decide +kernel, by decide +kernel, ?_⟩
  apply attestation_store_lawful Demo.engineHost Demo.run []
  decide +kernel

end OpaqueStellar.Attestations
