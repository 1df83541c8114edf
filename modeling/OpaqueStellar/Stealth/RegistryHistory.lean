import OpaqueStellar.Stealth.Registry

/-! # The history of the registry

Over any sequence of calls. The registrations of one registrant have ascending nonces, so that no entry
of the history is written twice and the last entry for a scheme is the one with the greatest nonce. -/

namespace OpaqueStellar.StealthRegistry

open OpaqueStellar.Lib OpaqueStellar.Soroban

/-! ## The registrations of a run -/

/-- What the step registered, with the nonce that it moved to. -/
def registration (e : RegistryStep) : Option RegistryEntry :=
  match e.input.call, e.output with
  | .registerKeys r s m, .ok _ => some (e.pre.entryFor r s m)
  | _, _ => none

/-- Oldest first. -/
def registrations (t : List RegistryStep) : List RegistryEntry := t.filterMap registration

/-- The calls that name the registrant, whoever makes them and however they end. -/
def callsOf (r : Address) (t : List RegistryStep) : ℕ := t.countP fun e => e.input.call.registrant = r

def RegisteredFor (r : Address) (s : ℕ) (e : RegistryEntry) : Prop :=
  e.registrant = r ∧ e.schemeId = s

/-- The entry goes back to a call that its registrant signed. -/
def Authorised (t : List RegistryStep) (e : RegistryEntry) : Prop :=
  ∃ step ∈ t, step.input.call = .registerKeys e.registrant e.schemeId e.stealthMetaAddress ∧
    step.output = .ok .unit ∧ e.registrant ∈ step.input.env.auths

theorem callsOf_snoc (r : Address) (t : List RegistryStep) (e : RegistryStep) :
    callsOf r (t ++ [e]) = callsOf r t + if e.input.call.registrant = r then 1 else 0 := by
  simp [callsOf, List.countP_append, List.countP_singleton]

theorem Authorised.append {t : List RegistryStep} {e : RegistryEntry} (h : Authorised t e)
    (t' : List RegistryStep) : Authorised (t ++ t') e := by
  obtain ⟨step, hstep, hcall⟩ := h
  exact ⟨step, List.mem_append_left _ hstep, hcall⟩

/-! ## The nonces -/

section Nonces

variable (w : World) (r r' : Address) (s : ℕ) (m : List UInt8)

theorem newNonce_le : w.newNonce r ≤ w.nonceOf r + 1 := Nat.min_le_left _ _

theorem lt_newNonce (hroom : w.nonceOf r < 2 ^ 64 - 1) : w.nonceOf r < w.newNonce r := by
  rw [World.newNonce]
  omega

theorem nonceOf_setNonce (n : ℕ) :
    (w.setNonce r n).nonceOf r' = if r' = r then n else w.nonceOf r' := by
  unfold World.nonceOf World.setNonce
  split
  · next heq =>
      rw [heq, Finmap.lookup_insert, Option.getD_some]
  · next hne =>
      rw [Finmap.lookup_insert_of_ne _ hne]

theorem nonceOf_bump : (w.bump r).nonceOf r' = if r' = r then w.newNonce r else w.nonceOf r' :=
  nonceOf_setNonce w r r' _

theorem nonceOf_register :
    (w.register r s m).nonceOf r' = if r' = r then w.newNonce r else w.nonceOf r' :=
  nonceOf_setNonce w r r' _

end Nonces

/-! ## What the storage keeps of the calls -/

structure Recorded (t : List RegistryStep) (w : World) : Prop where
  counted : ∀ r, w.nonceOf r ≤ callsOf r t
  bounded : ∀ e ∈ registrations t, e.nonce ≤ w.nonceOf e.registrant
  ascending : (registrations t).Pairwise fun e e' => e.registrant = e'.registrant → e.nonce < e'.nonce
  hist : ∀ r s n e, w.registry.hist.lookup (r, s, n) = some e ↔
    e ∈ registrations t ∧ RegisteredFor r s e ∧ e.nonce = n
  latest : ∀ r s e, w.registry.latest.lookup (r, s) = some e ↔
    Latest (RegisteredFor r s) (registrations t) e
  lawful : ∀ e ∈ registrations t, WellFormedMetaAddress e.stealthMetaAddress ∧ Authorised t e

namespace Recorded

variable {self : Address} {t : List RegistryStep} {w w' : World} {step : RegistryStep}

/-- A step that registers nothing. -/
theorem quiet (h : Recorded t w) (hnone : registration step = none)
    (hcounted : ∀ r, w'.nonceOf r ≤ callsOf r (t ++ [step]))
    (hnonce : ∀ r, w.nonceOf r ≤ w'.nonceOf r) (hhist : w'.registry.hist = w.registry.hist)
    (hlatest : w'.registry.latest = w.registry.latest) : Recorded (t ++ [step]) w' := by
  have hsame : registrations (t ++ [step]) = registrations t := by
    simp [registrations, List.filterMap_append, hnone]
  refine ⟨hcounted, ?_, ?_, ?_, ?_, ?_⟩
  · rw [hsame]
    intro e he
    exact (h.bounded e he).trans (hnonce _)
  · rw [hsame]
    exact h.ascending
  · rw [hsame, hhist]
    exact h.hist
  · rw [hsame, hlatest]
    exact h.latest
  · rw [hsame]
    intro e he
    obtain ⟨hwell, hauth⟩ := h.lawful e he
    exact ⟨hwell, hauth.append _⟩

theorem callsOf_le (h : Recorded t w) (r : Address) : w.nonceOf r ≤ callsOf r (t ++ [step]) := by
  rw [callsOf_snoc]
  exact (h.counted r).trans (Nat.le_add_right _ _)

/-- The nonce moves by at most the one call. -/
theorem counted_move (h : Recorded t w) {r : Address} (hcall : step.input.call.registrant = r)
    (hmove : ∀ r', w'.nonceOf r' = if r' = r then w.newNonce r else w.nonceOf r') (r' : Address) :
    w'.nonceOf r' ≤ callsOf r' (t ++ [step]) := by
  rw [hmove]
  split
  · next heq =>
      rw [heq, callsOf_snoc, if_pos hcall]
      exact (newNonce_le w r).trans (Nat.add_le_add_right (h.counted r) 1)
  · exact h.callsOf_le r'

theorem registers (h : Recorded t w) {env : Env} {r : Address} {s : ℕ} {m : List UInt8}
    (hroom : callsOf r t < 2 ^ 64 - 1) (hsigned : r ∈ env.auths) (hwell : WellFormedMetaAddress m) :
    Recorded (t ++ [⟨w, ⟨env, .registerKeys r s m⟩, .ok .unit⟩]) (w.register r s m) := by
  have hmore : registrations (t ++ [⟨w, ⟨env, .registerKeys r s m⟩, .ok .unit⟩]) =
      registrations t ++ [w.entryFor r s m] := by
    simp [registrations, List.filterMap_append, registration]
  have hlt : w.nonceOf r < w.newNonce r := lt_newNonce w r (lt_of_le_of_lt (h.counted r) hroom)
  -- the new nonce is greater than that of every registration so far
  have hnew : ∀ e ∈ registrations t, e.registrant = r → e.nonce < w.newNonce r := by
    intro e he hr
    have hle := h.bounded e he
    rw [hr] at hle
    exact lt_of_le_of_lt hle hlt
  have hmove := fun r' => nonceOf_register w r r' s m
  refine ⟨h.counted_move rfl hmove, ?_, ?_, ?_, ?_, ?_⟩
  · rw [hmore]
    intro e he
    rw [hmove]
    rcases List.mem_append.mp he with he | he
    · split
      · next hr => exact (hnew e he hr).le
      · exact h.bounded e he
    · rw [List.mem_singleton.mp he]
      simp [World.entryFor]
  · rw [hmore, List.pairwise_append]
    refine ⟨h.ascending, List.pairwise_singleton _ _, ?_⟩
    intro e he e' he' hr
    rw [List.mem_singleton.mp he'] at hr ⊢
    exact hnew e he hr
  · rw [hmore]
    intro r' s' n' e
    show Finmap.lookup (r', s', n')
      (w.registry.hist.insert (r, s, w.newNonce r) (w.entryFor r s m)) = some e ↔ _
    rw [List.mem_append, List.mem_singleton, or_and_right]
    by_cases hkey : (r', s', n') = (r, s, w.newNonce r)
    · obtain ⟨rfl, rfl, rfl⟩ := by simpa using hkey
      have hold : ¬ (e ∈ registrations t ∧ RegisteredFor r' s' e ∧ e.nonce = w.newNonce r') := by
        rintro ⟨he, ⟨hr, -⟩, hn⟩
        exact absurd hn (hnew e he hr).ne
      rw [Finmap.lookup_insert, or_iff_right hold]
      constructor
      · intro heq
        cases heq
        exact ⟨rfl, ⟨rfl, rfl⟩, rfl⟩
      · rintro ⟨rfl, -⟩
        rfl
    · have hentry : ¬ (e = w.entryFor r s m ∧ RegisteredFor r' s' e ∧ e.nonce = n') := by
        rintro ⟨rfl, ⟨rfl, rfl⟩, rfl⟩
        exact hkey rfl
      rw [Finmap.lookup_insert_of_ne _ hkey, or_iff_left hentry]
      exact h.hist r' s' n' e
  · rw [hmore]
    intro r' s' e
    show Finmap.lookup (r', s') (w.registry.latest.insert (r, s) (w.entryFor r s m)) = some e ↔ _
    by_cases hkey : (r', s') = (r, s)
    · obtain ⟨rfl, rfl⟩ := Prod.mk.inj hkey
      have hthis : RegisteredFor r' s' (w.entryFor r' s' m) := ⟨rfl, rfl⟩
      rw [Finmap.lookup_insert, latest_snoc_of_pos hthis, Option.some.injEq, eq_comm]
    · have hother : ¬ RegisteredFor r' s' (w.entryFor r s m) := by
        rintro ⟨rfl, rfl⟩
        exact hkey rfl
      rw [Finmap.lookup_insert_of_ne _ hkey, latest_snoc_of_neg hother]
      exact h.latest r' s' e
  · rw [hmore]
    intro e he
    rcases List.mem_append.mp he with he | he
    · obtain ⟨hwell', hauth⟩ := h.lawful e he
      exact ⟨hwell', hauth.append _⟩
    · rw [List.mem_singleton.mp he]
      exact ⟨hwell, _, List.mem_append_right _ (List.mem_singleton.mpr rfl), rfl, rfl, hsigned⟩

/-- Every call that goes through. -/
theorem step_ok (h : Recorded t w) {inv : Invocation} {o : Answer}
    (hroom : callsOf inv.call.registrant t < 2 ^ 64 - 1)
    (heffect : Effect self inv.env w inv.call w' o) : Recorded (t ++ [⟨w, inv, .ok o⟩]) w' := by
  obtain ⟨env, call⟩ := inv
  cases heffect with
  | registerKeys signed wellFormed => exact h.registers hroom signed wellFormed
  | @incrementNonce r signed =>
      refine h.quiet rfl (h.counted_move rfl fun r' => nonceOf_bump w r r') ?_ rfl rfl
      intro r'
      rw [nonceOf_bump]
      split
      · next heq =>
          rw [heq]
          exact (lt_newNonce w r (lt_of_le_of_lt (h.counted r) hroom)).le
      · exact le_rfl
  | resolve => exact h.quiet rfl h.callsOf_le (fun _ => le_rfl) rfl rfl
  | resolveHistorical => exact h.quiet rfl h.callsOf_le (fun _ => le_rfl) rfl rfl

end Recorded

/-- Nobody has as many calls as there are nonces. -/
def Room (t : List RegistryStep) : Prop := ∀ r, callsOf r t < 2 ^ 64 - 1

theorem Room.init {t : List RegistryStep} {t' : List RegistryStep} (h : Room (t ++ t')) : Room t := by
  intro r
  have hr := h r
  rw [callsOf, List.countP_append] at hr
  exact lt_of_le_of_lt (Nat.le_add_right _ _) hr

theorem recorded_run (self : Address) (invs : List Invocation)
    (hroom : Room ((contract self).trace {} invs)) :
    Recorded ((contract self).trace {} invs) ((contract self).final {} invs) := by
  refine Machine.transactional_invariant (I := fun t w => Room t → Recorded t w) ?_ ?_ ?_ invs hroom
  · intro _
    refine ⟨?_, ?_, List.Pairwise.nil, ?_, ?_, ?_⟩
    · intro r
      exact Nat.zero_le _
    · intro e he
      cases he
    · intro r s n e
      simp [registrations, Finmap.lookup_empty]
    · intro r s e
      simp [registrations, Finmap.lookup_empty, not_latest_nil]
    · intro e he
      cases he
  · intro t w inv e hI hroom'
    have h := hI hroom'.init
    have hnone : registration ⟨w, inv, .error e⟩ = none := by
      obtain ⟨env, call⟩ := inv
      cases call <;> rfl
    exact h.quiet hnone h.callsOf_le (fun _ => le_rfl) rfl rfl
  · intro t w inv w' o hI hexec hroom'
    exact (hI hroom'.init).step_ok (hroom'.init _) (effect_of_exec hexec)

/-! ## The laws of the registry -/

/-- The nonces with which the registrant has registered keys for the scheme. -/
def registeredNonces (t : List RegistryStep) (r : Address) (s : ℕ) : Set ℕ :=
  {n | ∃ e ∈ registrations t, RegisteredFor r s e ∧ e.nonce = n}

namespace Recorded

variable {t : List RegistryStep} {w : World}

theorem mem_registeredNonces (h : Recorded t w) {r : Address} {s n : ℕ} :
    n ∈ registeredNonces t r s ↔ (resolveHistorical w r s n).isSome = true := by
  rw [resolveHistorical, Option.isSome_map, Option.isSome_iff_exists]
  constructor
  · rintro ⟨e, he, hfor, hn⟩
    exact ⟨e, (h.hist r s n e).mpr ⟨he, hfor, hn⟩⟩
  · rintro ⟨e, he⟩
    exact ⟨e, (h.hist r s n e).mp he⟩

theorem lawful_of_resolveHistorical (h : Recorded t w) {r : Address} {s n : ℕ} {m : List UInt8}
    (hm : resolveHistorical w r s n = some m) :
    WellFormedMetaAddress m ∧ ∃ e, Authorised t e ∧ RegisteredFor r s e ∧ e.stealthMetaAddress = m := by
  obtain ⟨e, he, rfl⟩ := Option.map_eq_some_iff.mp hm
  obtain ⟨hmem, hfor, -⟩ := (h.hist r s n e).mp he
  obtain ⟨hwell, hauth⟩ := h.lawful e hmem
  exact ⟨hwell, e, hauth, hfor, rfl⟩

/-- The latest entry is the one with the greatest nonce. -/
theorem resolve_greatest (h : Recorded t w) {r : Address} {s : ℕ} {m : List UInt8}
    (hm : resolve w r s = some m) :
    ∃ n, IsGreatest (registeredNonces t r s) n ∧ resolveHistorical w r s n = some m := by
  obtain ⟨e, he, rfl⟩ := Option.map_eq_some_iff.mp hm
  have hlatest := (h.latest r s e).mp he
  refine ⟨e.nonce, ⟨⟨e, hlatest.mem, hlatest.holds, rfl⟩, ?_⟩, ?_⟩
  · rintro n ⟨e', he', hfor, rfl⟩
    rcases hlatest.eq_or_of_pairwise h.ascending he' hfor with rfl | hlt
    · exact le_rfl
    · exact (hlt (hfor.1.trans hlatest.holds.1.symm)).le
  · exact Option.map_eq_some_iff.mpr
      ⟨e, (h.hist r s e.nonce e).mpr ⟨hlatest.mem, hlatest.holds, rfl⟩, rfl⟩

theorem resolve_eq_none (h : Recorded t w) {r : Address} {s : ℕ} (hnone : resolve w r s = none) :
    registeredNonces t r s = ∅ := by
  rw [resolve, Option.map_eq_none_iff] at hnone
  rw [Set.eq_empty_iff_forall_notMem]
  rintro n ⟨e, he, hfor, -⟩
  obtain ⟨e', he'⟩ := exists_latest he hfor
  rw [(h.latest r s e').mpr he'] at hnone
  cases hnone

end Recorded

/-- Nothing is left of a call that fails. -/
theorem unchanged_of_error {self : Address} {w : World} {inv : Invocation}
    {e : Failure RegistryError} (h : ((contract self).step w inv).2 = .error e) :
    ((contract self).step w inv).1 = w := by
  rcases Machine.transactional_cases (exec self) w inv with ⟨e', hstep⟩ | ⟨w', o, hstep, -⟩
  · exact congrArg Prod.fst hstep
  · have hok := (congrArg Prod.snd hstep).symm.trans h
    cases hok

/-- **History of the registry.** Over every sequence of calls in which nobody has as many calls as
there are nonces: an entry of the history stays as it is; the registrations of one registrant have
different nonces; `resolve` is the entry of the history with the greatest nonce registered for the
scheme; what either query returns has the form of two different compressed keys and was registered by
a call that the registrant signed; and a registration goes through exactly when it is signed and has
that form, while a rejected one leaves the state as it was. -/
theorem registry_history (self : Address) (invs : List Invocation)
    (hroom : ∀ r, callsOf r ((contract self).trace {} invs) < 2 ^ 64 - 1) :
    let t := (contract self).trace {} invs
    let w := (contract self).final {} invs
    (∀ before later, invs = before ++ later → ∀ key e,
      ((contract self).final {} before).registry.hist.lookup key = some e →
        w.registry.hist.lookup key = some e) ∧
    ((registrations t).Pairwise fun e e' => e.registrant = e'.registrant → e.nonce ≠ e'.nonce) ∧
    (∀ r s n, n ∈ registeredNonces t r s ↔ (resolveHistorical w r s n).isSome = true) ∧
    (∀ r s, resolve w r s = none → registeredNonces t r s = ∅) ∧
    (∀ r s m, resolve w r s = some m →
      ∃ n, IsGreatest (registeredNonces t r s) n ∧ resolveHistorical w r s n = some m) ∧
    (∀ r s m, (resolve w r s = some m ∨ ∃ n, resolveHistorical w r s n = some m) →
      WellFormedMetaAddress m ∧
        ∃ e, Authorised t e ∧ RegisteredFor r s e ∧ e.stealthMetaAddress = m) ∧
    (∀ env r s m, (∃ w', registerKeys self env w r s m = .ok w') ↔
      (r ∈ env.auths ∧ r ≠ self) ∧ WellFormedMetaAddress m) ∧
    ∀ env r s m e, ((contract self).step w ⟨env, .registerKeys r s m⟩).2 = .error e →
      ((contract self).step w ⟨env, .registerKeys r s m⟩).1 = w := by
  intro t w
  have h : Recorded t w := recorded_run self invs hroom
  refine ⟨?_, ?_, ?_, ?_, ?_, ?_, ?_, ?_⟩
  · rintro before later rfl ⟨r, s, n⟩ e he
    have htrace : t = (contract self).trace {} before ++
        (contract self).trace ((contract self).final {} before) later :=
      (contract self).trace_append {} before later
    have hall : Room t := hroom
    rw [htrace] at hall
    obtain ⟨hmem, hfor, hn⟩ := ((recorded_run self before hall.init).hist r s n e).mp he
    refine (h.hist r s n e).mpr ⟨?_, hfor, hn⟩
    rw [htrace, registrations, List.filterMap_append]
    exact List.mem_append_left _ hmem
  · exact h.ascending.imp fun hlt hr => (hlt hr).ne
  · intro r s n
    exact h.mem_registeredNonces
  · intro r s
    exact h.resolve_eq_none
  · intro r s m
    exact h.resolve_greatest
  · rintro r s m (hm | ⟨n, hm⟩)
    · obtain ⟨n, -, hn⟩ := h.resolve_greatest hm
      exact h.lawful_of_resolveHistorical hn
    · exact h.lawful_of_resolveHistorical hm
  · intro env r s m
    simp only [registerKeys_eq_ok]
    constructor
    · rintro ⟨-, hsigned, hwell, -⟩
      exact ⟨hsigned, hwell⟩
    · rintro ⟨hsigned, hwell⟩
      exact ⟨_, hsigned, hwell, rfl⟩
  · intro env r s m e
    exact unchanged_of_error

namespace TwoSchemes

def owner : Address := .account (BytesN.ofNat 32 1)

def env : Env := ⟨10, 1, [owner], fun _ _ _ => false⟩

def metaAddress (n : ℕ) : List UInt8 := (0x02 :: beBytes 32 n) ++ (0x03 :: beBytes 32 n)

/-- Two schemes, with the nonce moved in between; the third registration has too few bytes. -/
def invs : List Invocation := [
  ⟨env, .registerKeys owner 1 (metaAddress 5)⟩,
  ⟨env, .incrementNonce owner⟩,
  ⟨env, .registerKeys owner 2 (metaAddress 6)⟩,
  ⟨env, .registerKeys owner 1 []⟩,
  ⟨env, .registerKeys owner 1 (metaAddress 7)⟩,
  ⟨env, .resolve owner 1⟩,
  ⟨env, .resolveHistorical owner 1 1⟩]

end TwoSchemes

set_option maxRecDepth 100000 in
/-- Scheme 1 resolves to the registration with nonce 4, and the one with nonce 1 is still there. -/
theorem registry_history_two_schemes :
    let self : Address := .contract (BytesN.ofNat 32 0)
    ((contract self).trace {} TwoSchemes.invs).map (·.output) =
      [.ok .unit, .ok (.nonce 2), .ok .unit, .error (.err .InvalidMetaAddress), .ok .unit,
        .ok (.metaAddress (some (TwoSchemes.metaAddress 7))),
        .ok (.metaAddress (some (TwoSchemes.metaAddress 5)))] ∧
    ∃ n, IsGreatest (registeredNonces ((contract self).trace {} TwoSchemes.invs) TwoSchemes.owner 1) n
      ∧ resolveHistorical ((contract self).final {} TwoSchemes.invs) TwoSchemes.owner 1 n =
        some (TwoSchemes.metaAddress 7) := by
  intro self
  refine ⟨by decide, ?_⟩
  have hroom : ∀ r, callsOf r ((contract self).trace {} TwoSchemes.invs) < 2 ^ 64 - 1 := by
    intro r
    exact lt_of_le_of_lt List.countP_le_length (by decide)
  obtain ⟨-, -, -, -, hgreatest, -⟩ := registry_history self TwoSchemes.invs hroom
  exact hgreatest _ _ _ (by decide)

end OpaqueStellar.StealthRegistry
