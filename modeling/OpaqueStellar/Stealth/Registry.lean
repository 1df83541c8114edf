import Mathlib.Order.Bounds.Basic
import OpaqueStellar.Lib.History
import OpaqueStellar.Lib.Machine
import OpaqueStellar.Lib.Store
import OpaqueStellar.Soroban.Basic

/-! # The registry of stealth meta-addresses

`contracts/stealth-registry/src/lib.rs`. A registrant has one nonce for all schemes; registering keys
moves it and so does `increment_nonce`. The latest entry is kept for each scheme, and every entry under
the nonce it was registered with. -/

namespace OpaqueStellar.StealthRegistry

open OpaqueStellar.Lib OpaqueStellar.Soroban

/-! ## Storage -/

def EVENT_VERSION : ℕ := 1

structure RegistryEntry where
  registrant : Address
  schemeId : ℕ
  stealthMetaAddress : List UInt8
  nonce : ℕ
  deriving DecidableEq

inductive RegistryError where
  | InvalidMetaAddress
  | InvalidPrefix
  | SameKeys
  deriving DecidableEq

/-- The three families of keys, each under a symbol of its own. -/
structure RegistryState where
  nonce : Store Address ℕ := ∅
  latest : Store (Address × ℕ) RegistryEntry := ∅
  hist : Store (Address × ℕ × ℕ) RegistryEntry := ∅

inductive RegistryEvent where
  | StealthMetaAddressSet (version : ℕ) (registrant : Address) (schemeId : ℕ)
      (stealthMetaAddress : List UInt8)
  | NonceIncremented (version : ℕ) (registrant : Address) (nonce : ℕ)
  deriving DecidableEq

structure World where
  registry : RegistryState := {}
  events : List RegistryEvent := []

def World.publish (w : World) (e : RegistryEvent) : World := { w with events := w.events ++ [e] }

/-! ## Helpers -/

/-- The length and the first byte only: the point may be off the curve. -/
def isValidSecp256k1Pubkey (bytes : List UInt8) : Bool :=
  if bytes.length ≠ 33 then false
  else
    let first := bytes.head?.getD 0
    first == 0x02 || first == 0x03

def World.nonceOf (w : World) (registrant : Address) : ℕ :=
  (w.registry.nonce.lookup registrant).getD 0

/-- The nonce, `saturating_add(1)`. -/
def World.newNonce (w : World) (registrant : Address) : ℕ :=
  min (w.nonceOf registrant + 1) (2 ^ 64 - 1)

def World.setNonce (w : World) (registrant : Address) (nonce : ℕ) : World :=
  { w with registry.nonce := w.registry.nonce.insert registrant nonce }

/-- The latest and the historical record of an entry. -/
def World.record (w : World) (entry : RegistryEntry) : World :=
  { w with
    registry.latest := w.registry.latest.insert (entry.registrant, entry.schemeId) entry
    registry.hist := w.registry.hist.insert (entry.registrant, entry.schemeId, entry.nonce) entry }

/-! ## Entry points -/

section EntryPoints

variable (self : Address) (env : Env)

def registerKeys (w : World) (registrant : Address) (schemeId : ℕ)
    (stealthMetaAddress : List UInt8) : Result RegistryError World := do
  env.requireAuth self registrant
  ensure (stealthMetaAddress.length = 66) (.err .InvalidMetaAddress)
  let viewKey := stealthMetaAddress.extract 0 33
  let spendKey := stealthMetaAddress.extract 33 66
  ensure (isValidSecp256k1Pubkey viewKey = true ∧ isValidSecp256k1Pubkey spendKey = true)
    (.err .InvalidPrefix)
  ensure (viewKey ≠ spendKey) (.err .SameKeys)
  let newNonce := w.newNonce registrant
  let w := w.setNonce registrant newNonce
  let w := w.record ⟨registrant, schemeId, stealthMetaAddress, newNonce⟩
  pure (w.publish (.StealthMetaAddressSet EVENT_VERSION registrant schemeId stealthMetaAddress))

def incrementNonce (w : World) (registrant : Address) : Result RegistryError (World × ℕ) := do
  env.requireAuth self registrant
  let newNonce := w.newNonce registrant
  let w := w.setNonce registrant newNonce
  pure (w.publish (.NonceIncremented EVENT_VERSION registrant newNonce), newNonce)

end EntryPoints

def resolve (w : World) (registrant : Address) (schemeId : ℕ) : Option (List UInt8) :=
  (w.registry.latest.lookup (registrant, schemeId)).map (·.stealthMetaAddress)

def resolveHistorical (w : World) (registrant : Address) (schemeId nonce : ℕ) :
    Option (List UInt8) :=
  (w.registry.hist.lookup (registrant, schemeId, nonce)).map (·.stealthMetaAddress)

inductive Call where
  | registerKeys (registrant : Address) (schemeId : ℕ) (stealthMetaAddress : List UInt8)
  | incrementNonce (registrant : Address)
  | resolve (registrant : Address) (schemeId : ℕ)
  | resolveHistorical (registrant : Address) (schemeId nonce : ℕ)

def Call.registrant : Call → Address
  | .registerKeys r _ _ | .incrementNonce r | .resolve r _ | .resolveHistorical r _ _ => r

inductive Answer where
  | unit
  | nonce (n : ℕ)
  | metaAddress (bytes : Option (List UInt8))
  deriving DecidableEq

structure Invocation where
  env : Env
  call : Call

def exec (self : Address) (w : World) (inv : Invocation) : Result RegistryError (World × Answer) :=
  match inv.call with
  | .registerKeys r s m => (registerKeys self inv.env w r s m).map fun w' => (w', .unit)
  | .incrementNonce r => (incrementNonce self inv.env w r).map fun (w', n) => (w', .nonce n)
  | .resolve r s => .ok (w, .metaAddress (resolve w r s))
  | .resolveHistorical r s n => .ok (w, .metaAddress (resolveHistorical w r s n))

/-- An invocation that fails is rolled back. -/
def contract (self : Address) : Machine World Invocation (Except (Failure RegistryError) Answer) :=
  Machine.transactional (exec self)

abbrev RegistryStep := Machine.Step World Invocation (Except (Failure RegistryError) Answer)

/-! ## Meta-addresses -/

/-- The bytes have the form of a compressed key. -/
structure CompressedKey (key : List UInt8) : Prop where
  length_eq : key.length = 33
  first : key.head? = some 0x02 ∨ key.head? = some 0x03

def WellFormedMetaAddress (m : List UInt8) : Prop :=
  ∃ viewKey spendKey, m = viewKey ++ spendKey ∧ CompressedKey viewKey ∧ CompressedKey spendKey ∧
    viewKey ≠ spendKey

theorem isValidSecp256k1Pubkey_eq_true {key : List UInt8} :
    isValidSecp256k1Pubkey key = true ↔ CompressedKey key := by
  cases key with
  | nil =>
      simp only [isValidSecp256k1Pubkey, List.length_nil]
      constructor
      · intro h
        cases h
      · intro h
        cases h.length_eq
  | cons b rest =>
      simp only [isValidSecp256k1Pubkey, ite_not]
      split
      · next hlength =>
          rw [Bool.or_eq_true, beq_iff_eq, beq_iff_eq]
          constructor
          · intro h
            exact ⟨hlength, by simpa using h⟩
          · intro h
            simpa using h.first
      · next hlength =>
          constructor
          · intro h
            cases h
          · intro h
            exact absurd h.length_eq hlength

theorem WellFormedMetaAddress.length_eq {m : List UInt8} (h : WellFormedMetaAddress m) :
    m.length = 66 := by
  obtain ⟨viewKey, spendKey, rfl, hview, hspend, -⟩ := h
  rw [List.length_append, hview.length_eq, hspend.length_eq]

/-- The three checks of `register_keys`. -/
theorem wellFormedMetaAddress_iff {m : List UInt8} :
    WellFormedMetaAddress m ↔ m.length = 66 ∧
      (isValidSecp256k1Pubkey (m.extract 0 33) = true ∧
        isValidSecp256k1Pubkey (m.extract 33 66) = true) ∧
      m.extract 0 33 ≠ m.extract 33 66 := by
  simp only [isValidSecp256k1Pubkey_eq_true]
  constructor
  · intro h
    refine ⟨h.length_eq, ?_⟩
    obtain ⟨viewKey, spendKey, rfl, hview, hspend, hne⟩ := h
    have hfirst : (viewKey ++ spendKey).extract 0 33 = viewKey := by
      rw [List.extract_eq_take_drop, List.drop_zero, List.take_left' hview.length_eq]
    have hsecond : (viewKey ++ spendKey).extract 33 66 = spendKey := by
      rw [List.extract_eq_take_drop, List.drop_left' hview.length_eq,
        List.take_of_length_le hspend.length_eq.le]
    rw [hfirst, hsecond]
    exact ⟨⟨hview, hspend⟩, hne⟩
  · rintro ⟨hlength, ⟨hview, hspend⟩, hne⟩
    have hall : m.extract 0 33 ++ m.extract 33 66 = m := by
      have hrest : (m.drop 33).length ≤ 66 - 33 := by rw [List.length_drop, hlength]
      rw [List.extract_eq_take_drop, List.extract_eq_take_drop, List.drop_zero,
        List.take_of_length_le hrest, List.take_append_drop]
    exact ⟨_, _, hall.symm, hview, hspend, hne⟩

/-! ## What a successful call has done -/

/-- The entry that registering keys writes. -/
def World.entryFor (w : World) (registrant : Address) (schemeId : ℕ) (m : List UInt8) :
    RegistryEntry := ⟨registrant, schemeId, m, w.newNonce registrant⟩

def World.register (w : World) (registrant : Address) (schemeId : ℕ) (m : List UInt8) : World :=
  ((w.setNonce registrant (w.newNonce registrant)).record (w.entryFor registrant schemeId m)).publish
    (.StealthMetaAddressSet EVENT_VERSION registrant schemeId m)

def World.bump (w : World) (registrant : Address) : World :=
  (w.setNonce registrant (w.newNonce registrant)).publish
    (.NonceIncremented EVENT_VERSION registrant (w.newNonce registrant))

section Effect

variable {self : Address} {env : Env} {w w' : World}

theorem registerKeys_eq_ok {r : Address} {s : ℕ} {m : List UInt8} :
    registerKeys self env w r s m = .ok w' ↔
      (r ∈ env.auths ∧ r ≠ self) ∧ WellFormedMetaAddress m ∧ w' = w.register r s m := by
  simp only [registerKeys, bind_eq_ok, Env.requireAuth_eq_ok, ensure_eq_ok, exists_const, pure_eq_ok,
    wellFormedMetaAddress_iff, and_assoc]
  simp only [World.register, World.entryFor, eq_comm]

theorem incrementNonce_eq_ok {r : Address} {n : ℕ} :
    incrementNonce self env w r = .ok (w', n) ↔
      (r ∈ env.auths ∧ r ≠ self) ∧ w' = w.bump r ∧ n = w.newNonce r := by
  simp only [incrementNonce, bind_eq_ok, Env.requireAuth_eq_ok, exists_const, pure_eq_ok,
    Prod.mk.injEq]
  simp only [World.bump, eq_comm]

inductive Effect (self : Address) (env : Env) (w : World) : Call → World → Answer → Prop
  | registerKeys {r : Address} {s : ℕ} {m : List UInt8} (signed : r ∈ env.auths)
      (wellFormed : WellFormedMetaAddress m) :
      Effect self env w (.registerKeys r s m) (w.register r s m) .unit
  | incrementNonce {r : Address} (signed : r ∈ env.auths) :
      Effect self env w (.incrementNonce r) (w.bump r) (.nonce (w.newNonce r))
  | resolve {r : Address} {s : ℕ} :
      Effect self env w (.resolve r s) w (.metaAddress (resolve w r s))
  | resolveHistorical {r : Address} {s n : ℕ} :
      Effect self env w (.resolveHistorical r s n) w (.metaAddress (resolveHistorical w r s n))

theorem effect_of_exec {inv : Invocation} {o : Answer} (h : exec self w inv = .ok (w', o)) :
    Effect self inv.env w inv.call w' o := by
  obtain ⟨env, call⟩ := inv
  cases call with
  | registerKeys r s m =>
      cases hcall : registerKeys self env w r s m with
      | error e =>
          simp [exec, hcall, Except.map] at h
      | ok w₁ =>
          simp only [exec, hcall, Except.map, Except.ok.injEq, Prod.mk.injEq] at h
          obtain ⟨rfl, rfl⟩ := h
          obtain ⟨⟨hsigned, -⟩, hwell, rfl⟩ := registerKeys_eq_ok.mp hcall
          exact .registerKeys hsigned hwell
  | incrementNonce r =>
      cases hcall : incrementNonce self env w r with
      | error e =>
          simp [exec, hcall, Except.map] at h
      | ok p =>
          simp only [exec, hcall, Except.map, Except.ok.injEq, Prod.mk.injEq] at h
          obtain ⟨rfl, rfl⟩ := h
          obtain ⟨⟨hsigned, -⟩, hw, hn⟩ := incrementNonce_eq_ok.mp hcall
          rw [hw, hn]
          exact .incrementNonce hsigned
  | resolve r s =>
      simp only [exec, Except.ok.injEq, Prod.mk.injEq] at h
      obtain ⟨rfl, rfl⟩ := h
      exact .resolve
  | resolveHistorical r s n =>
      simp only [exec, Except.ok.injEq, Prod.mk.injEq] at h
      obtain ⟨rfl, rfl⟩ := h
      exact .resolveHistorical

end Effect

end OpaqueStellar.StealthRegistry
