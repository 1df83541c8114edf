import OpaqueStellar.Web.Delegates
import OpaqueStellar.Web.StealthScanner

/-! # Scans of events in the web client

The pool's prover follows the cursor until it stops advancing, because pages before the ones with events are
empty. The scans for schemas and for announcements stop at the first short page. -/

namespace OpaqueStellar.Web.EventScans

open OpaqueStellar.Lib
open OpaqueStellar.Soroban (Address)
open OpaqueStellar.Schemas (Str Host Invocation delegatesOf)
open OpaqueStellar.Web.ChainSync (Native Rpc RpcEvent Page Setting Manifest)

/-- A scan for a contract's events returns them all exactly when no page before an event is short and the
pages that are left after the refusals have them all; the delegates that are rebuilt from such a scan are the
registry's; and in a run of the scanner whose fetches start behind what was recorded and end with nothing
left, what is recorded as processed has been seen. -/
theorem event_scans_exhaustive {V : Type} :
    (∀ (scValToNative : V → Option Native) (rpc : Rpc V) (deploymentLedger fromLedger : Option ℕ)
      (contractId : Str) (n start : ℕ) (history : List (RpcEvent V)) (pages : ℕ → Page V), contractId ≠ [] →
      ChainSync.Starts rpc 0
        (ChainSync.clampToRetention rpc (fromLedger.getD (ChainSync.startLedgerFor deploymentLedger))) n start →
      ChainSync.Serves rpc n start history pages →
      ∃ out, ChainSync.scanContractEvents scValToNative rpc deploymentLedger contractId fromLedger = .ok out ∧
        (out = (ChainSync.eventsFrom start history).map (ChainSync.decodeEvent scValToNative) ↔
          Paging.Gapless ChainSync.PAGE_LIMIT (fun k => (pages k).events) (ChainSync.PAGE_CAP - n))) ∧
    (∀ (host : Host) (invs : List Invocation) (S : Setting V) (rpc : Rpc V) (manifest : Manifest)
      (registryId : Str) (sourcePublicKey : Option Str) (n start : ℕ) (history : List (RpcEvent V))
      (pages : ℕ → Page V) (addressText : Address → Str) (nameText : List UInt8 → Native), registryId ≠ [] →
      ChainSync.Starts rpc 0
        (ChainSync.clampToRetention rpc (ChainSync.startLedgerFor manifest.deploymentLedger)) n start →
      ChainSync.Serves rpc n start history pages → (∀ ev ∈ history, start ≤ ev.ledger) →
      Function.Injective addressText →
      List.Forall₂ (ChainSync.Shows addressText nameText) ((Schemas.machine host).final {} invs).events
        (history.map (ChainSync.decodeEvent S.scValToNative)) →
      Paging.Gapless ChainSync.PAGE_LIMIT (fun k => (pages k).events) (ChainSync.PAGE_CAP - n) →
      ∃ schemas, ChainSync.fetchSchemasFromChain S rpc (some manifest) registryId sourcePublicKey = .ok schemas ∧
        (∀ schema ∈ schemas, ∃ id, schema.schemaId = ChainSync.schemaIdText id ∧
          schema.delegates = (delegatesOf ((Schemas.machine host).final {} invs) id).map addressText) ∧
        ∀ id s, ((Schemas.machine host).final {} invs).registry.schemas.lookup id = some s →
          ∃ schema ∈ schemas, schema.schemaId = ChainSync.schemaIdText id) ∧
    (∀ (history : List (RpcEvent V)) (place : Str → ℕ) (inputs : List (StealthScanner.Input V)),
      (∀ ev ∈ history, 0 < ev.ledger) →
      (∀ e ∈ StealthScanner.machine.trace {} inputs, StealthScanner.Served history place e) →
      (∀ e ∈ StealthScanner.machine.trace {} inputs, StealthScanner.Whole history place e) →
      (∀ ledger, (StealthScanner.machine.final {} inputs).progress.lastProcessedLedger = some ledger →
        ∀ ev ∈ history, ev.ledger ≤ ledger → ev ∈ (StealthScanner.machine.final {} inputs).seen) ∧
      ∀ ev ∈ history, ev.ledger ≤ (StealthScanner.machine.final {} inputs).lastLedger →
        ev ∈ (StealthScanner.machine.final {} inputs).seen) := by
  refine ⟨?_, ?_, ?_⟩
  · intro scValToNative rpc deploymentLedger fromLedger contractId n start history pages hcontract hstarts hserves
    exact ChainSync.scan_complete_iff scValToNative deploymentLedger fromLedger hcontract hstarts hserves
  · intro host invs S rpc manifest registryId sourcePublicKey n start history pages addressText nameText
      hregistry hstarts hserves hretained haddress hshows hgapless
    exact ChainSync.delegates_eq hregistry hstarts hserves hgapless hretained haddress
      (ChainSync.announced_run host invs) hshows sourcePublicKey
  · intro history place inputs hpositive hserved hwhole
    have hseen := StealthScanner.processed_seen hpositive inputs hserved hwhole
    exact ⟨hseen.processed, hseen.recorded⟩

/-! ## A delegate that was removed -/

namespace Demo

open OpaqueStellar.Schemas.Demo (account host schemaId registers name)

def addressText : Address → Str
  | .account key => 'G' :: Hex.encode key.1
  | .contract id => 'C' :: Hex.encode id.1

/-- The first account registers its schema, appoints the second account and removes it again. -/
def invs : List Invocation := [
  registers (account 1),
  ⟨⟨2, 2, [account 1], fun _ _ _ => false⟩, .addDelegate (account 1) schemaId (account 2)⟩,
  ⟨⟨3, 3, [account 1], fun _ _ _ => false⟩, .removeDelegate (account 1) schemaId (account 2)⟩]

def event (ledger : ℕ) (topic : String) (last : Native) : RpcEvent Native where
  id := (toString ledger).toList
  ledger := ledger
  txHash := []
  topic := [.str topic.toList]
  value := .array [.bytes schemaId.1, .str (addressText (account 1)), last]

def history : List (RpcEvent Native) := [
  event 1 "SchemaRegistered" (.bytes name),
  event 2 "DelegateAdded" (.str (addressText (account 2))),
  event 3 "DelegateRemoved" (.str (addressText (account 2)))]

/-- The first `m` events on the first page, the others on the second. -/
def pages (m : ℕ) : ℕ → Page Native
  | 0 => ⟨history.take m, "2".toList⟩
  | 1 => ⟨history.drop m, "3".toList⟩
  | _ => ⟨[], "3".toList⟩

def rpc (m : ℕ) : Rpc Native where
  getHealth := none
  getEvents := fun _ request => match request with
    | .fromLedger _ _ => .ok (pages m 0)
    | .fromCursor cursor _ => .ok (pages m (if cursor = "2".toList then 1 else 2))

def setting : Setting Native := ⟨some, fun _ => true, fun _ _ => none⟩

theorem id_ne : ∀ ev ∈ history, ev.id ≠ [] := by simp [history, event]

theorem serves (m : ℕ) : ChainSync.Serves (rpc m) 0 1 history (pages m) := by
  have hlength : history.length = 3 := rfl
  refine ⟨rfl, ?_, ?_, ⟨?_, 2, ?_, ?_⟩⟩
  · intro k _
    match k with
    | 0 => rfl
    | 1 => rfl
    | k + 2 => rfl
  · intro k ev hev
    match k with
    | 0 => exact id_ne ev (List.mem_of_mem_take hev)
    | 1 => exact id_ne ev (List.mem_of_mem_drop hev)
    | k + 2 => cases hev
  · intro k
    match k with
    | 0 => exact (List.length_take_le' m history).trans (by decide)
    | 1 =>
        show (history.drop m).length ≤ 200
        rw [List.length_drop]
        omega
    | k + 2 => exact Nat.zero_le _
  · have hall : ChainSync.eventsFrom 1 history = history := rfl
    rw [hall, Paging.firstPages_succ, Paging.firstPages_succ]
    exact List.take_append_drop m history
  · intro j hj
    match j, hj with
    | j + 2, _ => rfl

/-- The scanner updates the vault; the first page is empty and leaves the announcement of ledger 50. -/
def inputs : List (StealthScanner.Input Native) := [
  .call .updateVault,
  .latestLedger 0 (.ok 100),
  .events 0 (.ok ⟨[], "0".toList⟩)]

def announcements : List (RpcEvent Native) := [event 50 "announce" .null]

theorem served : ∀ e ∈ StealthScanner.machine.trace {} inputs,
    StealthScanner.Served announcements (fun _ => 0) e := by
  intro e he i call startLedger endLedger cursor pages page hinput htask
  rcases List.mem_cons.mp he with rfl | he
  · cases hinput
  rcases List.mem_cons.mp he with rfl | he
  · cases hinput
  obtain rfl := List.mem_singleton.mp he
  cases hinput
  cases htask
  exact ⟨List.nil_prefix, fun _ => rfl⟩

end Demo

/-- Where one page has all the events, the scan returns them. -/
theorem event_scans_exhaustive_one_page : ∃ out,
    ChainSync.scanContractEvents some (Demo.rpc 3) none "C".toList none = .ok out ∧
      out = Demo.history.map (ChainSync.decodeEvent some) := by
  obtain ⟨out, hscan, hout⟩ := event_scans_exhaustive.1 some (Demo.rpc 3) none none "C".toList 0 1 Demo.history
    (Demo.pages 3) (by decide) .here (Demo.serves 3)
  refine ⟨out, hscan, hout.mpr ⟨?_, ?_⟩⟩
  · intro k j hkj hne
    match j, hkj with
    | 1, _ => exact absurd rfl hne
    | j + 2, _ => exact absurd rfl hne
  · intro j hj
    match j, hj with
    | j + 2, _ => rfl

/-- The scan stops before the removal, so the removed delegate is listed still; and the scanner records ledger
100 as processed without having seen the announcement of ledger 50. -/
theorem short_page_hides_events :
    (ChainSync.Serves (Demo.rpc 2) 0 1 Demo.history (Demo.pages 2) ∧
      ∀ out, ChainSync.scanContractEvents some (Demo.rpc 2) none "C".toList none = .ok out →
        out ≠ Demo.history.map (ChainSync.decodeEvent some)) ∧
    (List.Forall₂ (ChainSync.Shows Demo.addressText .bytes)
        ((Schemas.machine Schemas.Demo.host).final {} Demo.invs).events
        (Demo.history.map (ChainSync.decodeEvent some)) ∧
      (ChainSync.fetchSchemasFromChain Demo.setting (Demo.rpc 2) (some ⟨none, none⟩) "C".toList none).toOption.map
        (fun schemas => schemas.map fun schema => (schema.schemaId, schema.delegates)) =
          some [(ChainSync.schemaIdText Schemas.Demo.schemaId, [Demo.addressText (Schemas.Demo.account 2)])] ∧
      delegatesOf ((Schemas.machine Schemas.Demo.host).final {} Demo.invs) Schemas.Demo.schemaId = []) ∧
    (∀ e ∈ StealthScanner.machine.trace {} Demo.inputs,
        StealthScanner.Served Demo.announcements (fun _ => 0) e) ∧
      (StealthScanner.machine.final {} Demo.inputs).progress.lastProcessedLedger = some 100 ∧
      (StealthScanner.machine.final {} Demo.inputs).seen = [] := by
  refine ⟨⟨Demo.serves 2, ?_⟩, ⟨?_, ?_, ?_⟩, Demo.served, rfl, rfl⟩
  · intro out hout heq
    have hlength := congrArg List.length heq
    cases hout
    cases hlength
  · have hevents : ((Schemas.machine Schemas.Demo.host).final {} Demo.invs).events = [
        .SchemaRegistered Schemas.Demo.schemaId (Schemas.Demo.account 1) Schemas.Demo.name,
        .DelegateAdded Schemas.Demo.schemaId (Schemas.Demo.account 1) (Schemas.Demo.account 2),
        .DelegateRemoved Schemas.Demo.schemaId (Schemas.Demo.account 1) (Schemas.Demo.account 2)] := by
      decide +kernel
    rw [hevents]
    exact .cons ⟨rfl, rfl⟩ (.cons ⟨rfl, rfl⟩ (.cons ⟨rfl, rfl⟩ .nil))
  · decide +kernel
  · decide +kernel

end OpaqueStellar.Web.EventScans
