import OpaqueStellar.Attestations.Lawful
import OpaqueStellar.Publisher.Dedup
import OpaqueStellar.Reputation.Soundness

/-! # Pruning

A tick drops the leaves whose attestations no longer stand, and archives submissions whose
attestations do not. The adapter answers `null` for an attestation that does not exist, and also when
the simulation of the read fails; the publisher takes both for a reason to drop the leaf.

`removed_for_cause`: without failed simulations of reads of attestations in good standing, leaves are
dropped only for cause. So are submissions, unless they come while a tick runs, under an identifier
that it has read: a tick archives by identifier. -/

namespace OpaqueStellar.Reputation

open OpaqueStellar.Lib OpaqueStellar.Soroban OpaqueStellar.Circuit OpaqueStellar.Publisher
open OpaqueStellar.Pool (fieldOf)

variable {F : Type} [CommRing F]

/-- The attestation is revoked or has expired, or its record contradicts the leaf: it has another
schema, or the signature is not the holder's. -/
def Contradicts (crypto : Crypto) (ledger : ℕ) (c : LeafCommitment)
    (a : Attestations.Attestation) : Prop :=
  a.revocationLedger ≠ 0 ∨ (a.expirationLedger ≠ 0 ∧ a.expirationLedger ≤ ledger) ∨
    a.schemaId ≠ c.schemaId ∨
    verifyHolderSignature crypto c.attestationUid c.schemaId c.leaf c.holderSignature
      a.stealthAddressHash = false

/-- What the adapter makes of an attestation. -/
def record (a : Attestations.Attestation) : OnChainAttestation :=
  ⟨a.schemaId, a.stealthAddressHash, a.expirationLedger, a.revocationLedger⟩

theorem contradicts_iff {crypto : Crypto} {ledger : ℕ} {c : LeafCommitment}
    {a : Attestations.Attestation} :
    Contradicts crypto ledger c a ↔ acceptable crypto ledger c (record a) = false := by
  have hexpired : (a.expirationLedger ≠ 0 ∧ a.expirationLedger ≤ ledger) ↔
      ¬ (a.expirationLedger = 0 ∨ ledger < a.expirationLedger) := by
    rw [not_or, not_lt]
  unfold Contradicts acceptable record
  rw [hexpired]
  simp only [Bool.and_eq_false_iff, Bool.or_eq_false_iff, beq_eq_false_iff_ne, ne_eq, not_or,
    decide_eq_false_iff_not, or_assoc]

/-- The engine has a record for the leaf, which speaks against it at this ledger. -/
def Contradicted (S : Setting F) (s : System) (ledger : ℕ) (c : LeafCommitment) : Prop :=
  ∃ a, s.engine.engine.attestations.lookup c.attestationUid = some a ∧
    Contradicts S.crypto ledger c a

/-- The engine has a record for the leaf, and it may be published at this ledger. -/
def InGoodStanding (S : Setting F) (s : System) (ledger : ℕ) (c : LeafCommitment) : Prop :=
  ∃ a, s.engine.engine.attestations.lookup c.attestationUid = some a ∧
    acceptable S.crypto ledger c (record a) = true

/-- The condition on a step: no read of a tick is answered with `null` for a leaf in good standing. -/
def NullsHonest (S : Setting F) (e : SystemStep) : Prop :=
  ∀ i ledger k c, e.input = .tick i → i.ledger = some ledger →
    e.pre.loaded.commitments[k]? = some c → i.reads k = .null →
      ¬ InGoodStanding S e.pre ledger c

/-- The condition about submissions that came while a tick ran: the tick has read what is in the inbox
under an identifier that it has read. -/
def ArchivesRead (e : SystemStep) : Prop :=
  ∀ i, e.input = .tick i → ∀ c ∈ e.pre.publisher.inbox,
    c.id ∈ e.pre.loaded.inbox.map (·.id) → c ∈ e.pre.loaded.inbox

theorem archivesRead_of_eq {e : SystemStep} (h : e.pre.loaded.inbox = e.pre.publisher.inbox) :
    ArchivesRead e := by
  intro i _ c hc _
  rwa [h]

/-! ## Everything submitted has a record -/

/-- The attestation of everything in the publisher's hands is on the chain. -/
def Recorded (s : System) : Prop :=
  ∀ c ∈ s.held, ∃ a, s.engine.engine.attestations.lookup c.attestationUid = some a

section Step

variable {S : Setting F} {s : System}

theorem postLeaf_found {crypto : Crypto} {attestation : Option OnChainAttestation} {ledger : ℕ}
    {st st' : Publisher.Store} {c : LeafCommitment}
    (h : postLeaf crypto attestation ledger st c = .ok st') : ∃ a, attestation = some a := by
  cases attestation with
  | none => cases h
  | some a => exact ⟨a, rfl⟩

/-- A call of the verifier contract changes nothing else. -/
theorem callVerifier_only_verifier (env : Env) (call : Call) :
    (callVerifier S s env call).1 = { s with verifier := (callVerifier S s env call).1.verifier } := by
  unfold callVerifier
  split
  · rfl
  · rfl

theorem land_only_verifier (env : Env) (p : Posted) :
    land S s env p = { s with verifier := (land S s env p).verifier } := by
  unfold land
  split
  · exact callVerifier_only_verifier env _
  · rfl

/-- What a submission does: nothing, or a commitment is queued whose attestation is on the chain. -/
theorem submit_cases (S : Setting F) (s : System) (ledger : ℕ) (commitment : LeafCommitment) :
    (submit S s ledger commitment).1 = s ∨
      (∃ a, s.engine.engine.attestations.lookup commitment.attestationUid = some a) ∧
        (submit S s ledger commitment).1 =
          { s with publisher := { s.publisher with inbox := s.publisher.inbox ++ [commitment] } } := by
  unfold submit
  split
  · next st hposted =>
      obtain ⟨r, hr⟩ := postLeaf_found hposted
      obtain ⟨a, ha, -⟩ := Option.map_eq_some_iff.mp hr
      exact .inr ⟨⟨a, ha⟩, congrArg (fun st => { s with publisher := st }) (postLeaf_queued hposted)⟩
  · exact .inl rfl

/-- What is in the publisher's hands after a step was there before, or was queued by it. -/
theorem held_step {input : Input} {c : LeafCommitment} (hc : c ∈ (step S s input).1.held) :
    c ∈ s.held ∨ ∃ a, s.engine.engine.attestations.lookup c.attestationUid = some a := by
  cases input with
  | engine inv => exact .inl hc
  | verifier inv =>
      have hsame := callVerifier_only_verifier (S := S) (s := s) inv.env inv.call
      rw [show (step S s (.verifier inv)).1 = _ from hsame] at hc
      exact .inl hc
  | submit ledger commitment =>
      replace hc : c ∈ (submit S s ledger commitment).1.held := hc
      rcases submit_cases S s ledger commitment with hsame | ⟨hfound, hqueued⟩
      · exact .inl (hsame ▸ hc)
      · rw [hqueued] at hc
        rcases mem_held.mp hc with hc | hread
        · rw [Publisher.Store.commitments, ← List.append_assoc] at hc
          rcases List.mem_append.mp hc with hc | hc
          · exact .inl (mem_held.mpr (.inl hc))
          · rw [List.mem_singleton.mp hc]
            exact .inr hfound
        · exact .inl (mem_held.mpr (.inr hread))
  | begins => exact .inl (held_begins hc)
  | tick i => exact .inl (held_finish hc)
  | lands env p =>
      rw [show (step S s (.lands env p)).1 = _ from land_only_verifier env p] at hc
      exact .inl hc

/-- No step takes a record away. -/
theorem lookup_step {uid : BytesN 32} {a : Attestations.Attestation}
    (h : s.engine.engine.attestations.lookup uid = some a) (input : Input) :
    ∃ a', (step S s input).1.engine.engine.attestations.lookup uid = some a' := by
  cases input with
  | engine inv =>
      obtain ⟨a', hread, -⟩ := Attestations.kept_run S.engineHost h [inv]
      exact ⟨a', hread⟩
  | verifier inv =>
      rw [show (step S s (.verifier inv)).1 = _ from callVerifier_only_verifier inv.env inv.call]
      exact ⟨a, h⟩
  | submit ledger commitment =>
      show ∃ a', (submit S s ledger commitment).1.engine.engine.attestations.lookup uid = _
      rcases submit_cases S s ledger commitment with hsame | ⟨-, hqueued⟩
      · rw [hsame]
        exact ⟨a, h⟩
      · rw [hqueued]
        exact ⟨a, h⟩
  | begins => exact ⟨a, h⟩
  | tick i => exact ⟨a, h⟩
  | lands env p =>
      rw [show (step S s (.lands env p)).1 = _ from land_only_verifier env p]
      exact ⟨a, h⟩

theorem recorded_step (h : Recorded s) (input : Input) : Recorded (step S s input).1 := by
  intro c hc
  obtain ⟨a, ha⟩ := (held_step hc).elim (h c) id
  exact lookup_step ha input

theorem recorded_run (S : Setting F) (inputs : List Input) :
    Recorded ((machine S).final {} inputs) := by
  refine (machine S).stable (J := Recorded) ?_ ?_ inputs
  · intro s input h
    exact recorded_step h input
  · intro c hc
    cases hc

/-! ## What a tick drops -/

/-- A read that spoke against a leaf was `null`, or the engine's record does. -/
theorem contradicted_of_read {i : TickInput} {ledger k : ℕ} {c : LeafCommitment}
    (hrecorded : ∃ a, s.engine.engine.attestations.lookup c.attestationUid = some a)
    (h : isValidLeaf S.crypto (adapter s i) ledger k c = .ok false) :
    i.reads k = .null ∨ Contradicted S s ledger c := by
  obtain ⟨a, ha⟩ := hrecorded
  have hchain : onChain s c.attestationUid = some (record a) := by
    unfold onChain
    rw [ha]
    rfl
  cases hread : i.reads k with
  | null => exact .inl rfl
  | throws =>
      simp only [isValidLeaf, adapter, hread, Reply.reply] at h
      cases h
  | answers =>
      simp only [isValidLeaf, adapter, hread, Reply.reply, hchain] at h
      exact .inr ⟨a, ha, contradicts_iff.mpr (Except.ok.inj h)⟩

/-- What a tick with honest reads drops, the record speaks against, or it came with the inbox and
clashes with a leaf of the tree. -/
theorem tick_drops {i : TickInput} (hrecorded : Recorded s)
    (hhonest : NullsHonest S ((machine S).stepAt s (.tick i))) {k : ℕ} {c : LeafCommitment}
    (hc : s.loaded.commitments[k]? = some c) (hsaved : (tickOf S s i).store ≠ s.loaded)
    (hdropped : c ∉ (tickOf S s i).store.leaves) :
    (∃ ledger, i.ledger = some ledger ∧ Contradicted S s ledger c) ∨
      s.loaded.leaves.length ≤ k ∧ ∃ x ∈ (tickOf S s i).store.leaves, Clash x c := by
  rcases tick_cases S.crypto (fieldOf F) S.tree S.minLeavesToPublish (adapter s i) s.loaded with
    ⟨hsame, -⟩ | ⟨screened, hsaves⟩
  · exact absurd hsame hsaved
  · have hafter : (tickOf S s i).store.leaves = screened.leaves := hsaves.leaves_eq
    rw [hafter] at hdropped ⊢
    obtain ⟨ledger, hledger, hread | hclash⟩ := screenAll_dropped hsaves.screened hc hdropped
    · have hheld : c ∈ s.held := loaded_held (List.mem_of_getElem? hc)
      rcases contradicted_of_read (hrecorded c hheld) hread with hnull | hcontradicted
      · -- an honest `null` is for a leaf that is not in good standing, and it has a record
        obtain ⟨a, ha⟩ := hrecorded c hheld
        refine .inl ⟨ledger, hledger, a, ha, contradicts_iff.mpr ?_⟩
        have hnot := hhonest i ledger k c rfl hledger hc hnull
        exact Bool.eq_false_of_not_eq_true fun hok => hnot ⟨a, ha, hok⟩
      · exact .inl ⟨ledger, hledger, hcontradicted⟩
    · exact .inr hclash

/-- **A tick drops a leaf of the tree for cause.** -/
theorem leaf_dropped {i : TickInput} (hrecorded : Recorded s)
    (hhonest : NullsHonest S ((machine S).stepAt s (.tick i))) {c : LeafCommitment}
    (hc : c ∈ s.publisher.leaves) (hdropped : c ∉ (tickOf S s i).store.leaves) :
    ∃ ledger, i.ledger = some ledger ∧ Contradicted S s ledger c := by
  obtain ⟨k, hk⟩ := List.mem_iff_getElem?.mp hc
  have hlt : k < s.publisher.leaves.length := (List.getElem?_eq_some_iff.mp hk).1
  have hk' : s.loaded.commitments[k]? = some c := by
    rw [Publisher.Store.commitments]
    exact (List.getElem?_append_left hlt).trans hk
  have hsaved : (tickOf S s i).store ≠ s.loaded := by
    intro hsame
    rw [hsame] at hdropped
    exact hdropped hc
  rcases tick_drops hrecorded hhonest hk' hsaved hdropped with hcause | ⟨hge, -⟩
  · exact hcause
  · exact absurd (lt_of_lt_of_le hlt hge) (lt_irrefl _)

/-- A tick takes out of the inbox what has an identifier that it read. -/
theorem read_of_archived {i : TickInput} {c : LeafCommitment} (hc : c ∈ s.publisher.inbox)
    (hgone : c ∉ (s.finish (tickOf S s i)).publisher.inbox) :
    (tickOf S s i).store ≠ s.loaded ∧ c.id ∈ s.loaded.inbox.map (·.id) := by
  have harchived : c.id ∈ (tickOf S s i).store.archived := by
    by_contra hnot
    exact hgone (List.mem_filter.mpr ⟨hc, by simpa using hnot⟩)
  refine ⟨?_, ?_⟩
  · intro hsame
    rw [hsame] at harchived
    cases harchived
  · rcases tick_cases S.crypto (fieldOf F) S.tree S.minLeavesToPublish (adapter s i) s.loaded with
      ⟨hsame, -⟩ | ⟨screened, hsaves⟩
    · rw [show (tickOf S s i).store = s.loaded from hsame] at harchived
      cases harchived
    · obtain ⟨state, -, hstore⟩ := hsaves.store
      rwa [show (tickOf S s i).store = s.loaded.finish state from hstore] at harchived

/-- **A tick drops a submission that it read for cause**, or because it clashes with a leaf of the
tree. -/
theorem submission_dropped {i : TickInput} (hrecorded : Recorded s)
    (hhonest : NullsHonest S ((machine S).stepAt s (.tick i)))
    (hread : ArchivesRead ((machine S).stepAt s (.tick i))) {c : LeafCommitment}
    (hc : c ∈ s.publisher.inbox) (hgone : c ∉ (s.finish (tickOf S s i)).publisher.inbox)
    (hdropped : c ∉ (tickOf S s i).store.leaves) :
    (∃ ledger, i.ledger = some ledger ∧ Contradicted S s ledger c) ∨
      ∃ x ∈ (tickOf S s i).store.leaves, Clash x c := by
  obtain ⟨hsaved, hid⟩ := read_of_archived hc hgone
  obtain ⟨j, hj⟩ := List.mem_iff_getElem?.mp (hread i rfl c hc hid)
  have hk : s.loaded.commitments[s.loaded.leaves.length + j]? = some c := by
    rw [Publisher.Store.commitments, List.getElem?_append_right (Nat.le_add_right _ _),
      Nat.add_sub_cancel_left]
    exact hj
  rcases tick_drops hrecorded hhonest hk hsaved hdropped with hcause | ⟨-, hclash⟩
  · exact .inl hcause
  · exact .inr hclash

/-- Only ticks change the tree. -/
theorem leaves_step (S : Setting F) (s : System) (input : Input) :
    (step S s input).1.publisher.leaves = s.publisher.leaves ∨ ∃ i, input = .tick i := by
  cases input with
  | engine inv => exact .inl rfl
  | verifier inv =>
      rw [show (step S s (.verifier inv)).1 = _ from callVerifier_only_verifier inv.env inv.call]
      exact .inl rfl
  | submit ledger commitment =>
      show (submit S s ledger commitment).1.publisher.leaves = _ ∨ _
      rcases submit_cases S s ledger commitment with hsame | ⟨-, hqueued⟩
      · exact .inl (congrArg (fun s => s.publisher.leaves) hsame)
      · rw [hqueued]
        exact .inl rfl
  | begins => exact .inl rfl
  | tick i => exact .inr ⟨i, rfl⟩
  | lands env p =>
      rw [show (step S s (.lands env p)).1 = _ from land_only_verifier env p]
      exact .inl rfl

/-- A leaf that is gone after some inputs was dropped by one of the ticks among them. -/
theorem dropped_at {before later : List Input} {c : LeafCommitment}
    (hc : c ∈ ((machine S).final {} before).publisher.leaves)
    (hgone : c ∉ ((machine S).final {} (before ++ later)).publisher.leaves) :
    ∃ mid i rest, later = mid ++ .tick i :: rest ∧
      c ∈ ((machine S).final {} (before ++ mid)).publisher.leaves ∧
      c ∉ ((machine S).final {} (before ++ mid ++ [.tick i])).publisher.leaves := by
  induction later generalizing before with
  | nil =>
      rw [List.append_nil] at hgone
      exact absurd hc hgone
  | cons input rest ih =>
      by_cases hnext : c ∈ ((machine S).final {} (before ++ [input])).publisher.leaves
      · rw [List.append_cons] at hgone
        obtain ⟨mid, i, rest', hsplit, hthere, hafter⟩ := ih hnext hgone
        refine ⟨input :: mid, i, rest', congrArg (input :: ·) hsplit, ?_, ?_⟩
        · rwa [List.append_cons before input mid]
        · rwa [List.append_cons before input mid]
      · have hstep : c ∉ (step S ((machine S).final {} before) input).1.publisher.leaves := by
          rwa [Machine.final_snoc] at hnext
        rcases leaves_step S ((machine S).final {} before) input with hsame | ⟨i, rfl⟩
        · rw [hsame] at hstep
          exact absurd hc hstep
        · refine ⟨[], i, rest, rfl, ?_, ?_⟩
          · rwa [List.append_nil]
          · rwa [List.append_nil]

end Step

/-- **Leaves are dropped only for cause**, in every run in which no tick is answered with `null` for
an attestation in good standing. A leaf that was in the tree and no longer is was dropped by a tick
at which its attestation was revoked, had expired or contradicted it. And where no submission comes
under an identifier that a running tick has read, a submission that a tick archived without including
it had such an attestation, or clashes with a leaf of the tree. -/
theorem removed_for_cause (S : Setting F) (inputs : List Input)
    (h : ∀ e ∈ (machine S).trace {} inputs, NullsHonest S e) :
    let final := (machine S).final {}
    (∀ before later c, inputs = before ++ later → c ∈ (final before).publisher.leaves →
      c ∉ (final inputs).publisher.leaves →
      ∃ mid i rest ledger, later = mid ++ .tick i :: rest ∧ i.ledger = some ledger ∧
        c ∈ (final (before ++ mid)).publisher.leaves ∧
        c ∉ (final (before ++ mid ++ [.tick i])).publisher.leaves ∧
        Contradicted S (final (before ++ mid)) ledger c) ∧
    ((∀ e ∈ (machine S).trace {} inputs, ArchivesRead e) →
      ∀ before i later c, inputs = before ++ .tick i :: later → c ∈ (final before).publisher.inbox →
      c ∉ (final (before ++ [.tick i])).publisher.inbox →
      c ∉ (final (before ++ [.tick i])).publisher.leaves →
      (∃ ledger, i.ledger = some ledger ∧ Contradicted S (final before) ledger c) ∨
        ∃ x ∈ (final (before ++ [.tick i])).publisher.leaves, Clash x c) := by
  intro final
  have hmem : ∀ before i later, inputs = before ++ .tick i :: later →
      (machine S).stepAt (final before) (.tick i) ∈ (machine S).trace {} inputs := by
    intro before i later hsplit
    rw [hsplit]
    exact (machine S).stepAt_mem_trace
  have htick : ∀ before i, final (before ++ [.tick i]) = (step S (final before) (.tick i)).1 :=
    fun before i => (machine S).final_snoc {} before (.tick i)
  refine ⟨?_, ?_⟩
  · intro before later c hsplit hc hgone
    rw [hsplit] at hgone
    obtain ⟨mid, i, rest, hlater, hthere, hafter⟩ := dropped_at hc hgone
    have hsplit' : inputs = (before ++ mid) ++ .tick i :: rest := by
      rw [hsplit, hlater, List.append_assoc]
    have hdropped : c ∉ (tickOf S (final (before ++ mid)) i).store.leaves := by
      have := hafter
      rwa [Machine.final_snoc] at this
    obtain ⟨ledger, hledger, hcontradicted⟩ :=
      leaf_dropped (recorded_run S _) (h _ (hmem _ i rest hsplit')) hthere hdropped
    exact ⟨mid, i, rest, ledger, hlater, hledger, hthere, hafter, hcontradicted⟩
  · intro hread before i later c hsplit hc hgone hdropped
    have hstep := hmem before i later hsplit
    rw [htick] at hgone hdropped ⊢
    exact submission_dropped (recorded_run S before) (h _ hstep) (hread _ hstep) hc hgone hdropped

/-! ## A read that fails, and a revocation -/

namespace OneLeaf

/-- During this tick every simulation fails. -/
def failing : TickInput := ⟨some 6, fun _ => .null, .null, some none⟩

/-- During this one none does. -/
def answering : TickInput := ⟨some 9, fun _ => .answers, .null, some none⟩

/-- The attestation of the leaf is revoked. -/
def revocation : Input := .engine (Attestations.Demo.invocation (Attestations.Demo.account 1) 8
  (.revokeAttestation (Attestations.Demo.account 1) uid))

def revoked : List Input := inputs ++ [revocation, .tick answering]

/-- The attestation is revoked once a tick has read the submission. -/
def overtaken : List Input := inputs.take 5 ++ [.begins, revocation]

/-- Ticks whose reads are never `null` are honest. -/
theorem honest_of_answers {S : Setting F} {is : List Input}
    (h : ∀ i, .tick i ∈ is → ∀ k, i.reads k ≠ .null) :
    ∀ e ∈ (machine S).trace {} is, NullsHonest S e := by
  intro e he i ledger k c hinput _ _ hnull
  exact absurd hnull (h i (hinput ▸ (machine S).input_mem_of_mem_trace he) k)

end OneLeaf

/-- The second tick drops the leaf, whose attestation is neither revoked nor expired nor contradicts
it. -/
theorem removed_without_cause :
    OneLeaf.commitment ∈ ((machine (OneLeaf.setting Schemas.Demo.schemaId)).final {}
      OneLeaf.inputs).publisher.leaves ∧
    OneLeaf.commitment ∉ ((machine (OneLeaf.setting Schemas.Demo.schemaId)).final {}
      (OneLeaf.inputs ++ [.tick OneLeaf.failing])).publisher.leaves ∧
    ¬ Contradicted (OneLeaf.setting Schemas.Demo.schemaId)
      ((machine (OneLeaf.setting Schemas.Demo.schemaId)).final {} OneLeaf.inputs) 6
      OneLeaf.commitment := by
  refine ⟨by decide +kernel, by decide +kernel, ?_⟩
  rintro ⟨a, ha, hcontradicts⟩
  have hgood : (((machine (OneLeaf.setting Schemas.Demo.schemaId)).final {}
      OneLeaf.inputs).engine.engine.attestations.lookup OneLeaf.commitment.attestationUid).map
        (fun a => acceptable (OneLeaf.setting Schemas.Demo.schemaId).crypto 6 OneLeaf.commitment
          (record a)) = some true := by decide +kernel
  rw [ha, Option.map_some, contradicts_iff.mp hcontradicts] at hgood
  cases hgood

/-- The leaf is dropped by a tick after the revocation, and the submission by a tick that had read it
before. -/
theorem removed_for_cause_revoked :
    (∃ mid i rest ledger, [OneLeaf.revocation, .tick OneLeaf.answering] = mid ++ .tick i :: rest ∧
      i.ledger = some ledger ∧
      Contradicted (OneLeaf.setting Schemas.Demo.schemaId)
        ((machine (OneLeaf.setting Schemas.Demo.schemaId)).final {} (OneLeaf.inputs ++ mid)) ledger
        OneLeaf.commitment) ∧
    ∃ ledger, OneLeaf.answering.ledger = some ledger ∧
      Contradicted (OneLeaf.setting Schemas.Demo.schemaId)
        ((machine (OneLeaf.setting Schemas.Demo.schemaId)).final {} OneLeaf.overtaken) ledger
        OneLeaf.commitment := by
  have hanswered : ∀ is : List Input, (∀ i, .tick i ∈ is →
      i = ⟨some 3, fun _ => .answers, .answers, some none⟩ ∨ i = OneLeaf.answering) →
      ∀ i, .tick i ∈ is → ∀ k, i.reads k ≠ .null := by
    intro is h i hi k
    have hne : Reply.answers ≠ .null := by decide
    rcases h i hi with rfl | rfl
    · exact hne
    · exact hne
  refine ⟨?_, ?_⟩
  · obtain ⟨mid, i, rest, ledger, hlater, hledger, -, -, hcontradicted⟩ :=
      (removed_for_cause (OneLeaf.setting Schemas.Demo.schemaId) OneLeaf.revoked
        (OneLeaf.honest_of_answers (hanswered _ (by simp [OneLeaf.revoked, OneLeaf.inputs,
          OneLeaf.revocation, Attestations.Demo.setup])))).1 OneLeaf.inputs
        [OneLeaf.revocation, .tick OneLeaf.answering] OneLeaf.commitment rfl (by decide +kernel)
        (by decide +kernel)
    exact ⟨mid, i, rest, ledger, hlater, hledger, hcontradicted⟩
  · have hread : ∀ e ∈ (machine (OneLeaf.setting Schemas.Demo.schemaId)).trace {}
        (OneLeaf.overtaken ++ [.tick OneLeaf.answering]),
        e.pre.loaded.inbox = e.pre.publisher.inbox := by decide +kernel
    have hempty : ((machine (OneLeaf.setting Schemas.Demo.schemaId)).final {}
        (OneLeaf.overtaken ++ [.tick OneLeaf.answering])).publisher.leaves = [] := by decide +kernel
    rcases (removed_for_cause (OneLeaf.setting Schemas.Demo.schemaId)
        (OneLeaf.overtaken ++ [.tick OneLeaf.answering])
        (OneLeaf.honest_of_answers (hanswered _ (by simp [OneLeaf.overtaken, OneLeaf.inputs,
          OneLeaf.revocation, Attestations.Demo.setup])))).2
        (fun e he => archivesRead_of_eq (hread e he)) OneLeaf.overtaken OneLeaf.answering []
        OneLeaf.commitment rfl (by decide +kernel) (by decide +kernel) (by decide +kernel) with
      hcause | ⟨x, hx, -⟩
    · exact hcause
    · rw [hempty] at hx
      cases hx

end OpaqueStellar.Reputation
