import OpaqueStellar.Lib.Codec
import OpaqueStellar.Lib.Dict
import OpaqueStellar.Lib.Paging
import OpaqueStellar.Lib.Utf8
import OpaqueStellar.Stealth.Events

/-! # Schemas from the chain's events

`scanContractEvents` and `fetchSchemasFromChain` of `frontend/src/lib/chainSync.ts`. The events of a contract
are read page by page and decoded, and the schemas and their delegates are rebuilt from them.

The scan takes a page with less than 200 events for the last one. It returns every event exactly when no
page before an event is short and the pages it may ask for have them all (`scan_complete_iff`). -/

namespace OpaqueStellar.Web.ChainSync

open OpaqueStellar.Lib
open OpaqueStellar.Schemas (Str)
open OpaqueStellar.Stealth (RpcError parseOldestLedgerFromRangeError GetEventsRequest)

/-! ## Values -/

/-- What `scValToNative` makes of a contract's values. -/
inductive Native where
  | null
  | undefined
  | str (s : Str)
  | bytes (b : List UInt8)
  | number (n : ℤ)
  | array (elements : List Native)
  -- any other object, with its `data` if that is an array of numbers
  | object (data : Option (List ℤ))
  -- a bigint or a boolean
  | other (text : Str)

namespace Native

def IsNullish : Native → Prop
  | .null | .undefined => True
  | _ => False

instance : DecidablePred IsNullish
  | .null | .undefined => isTrue trivial
  | .str _ | .bytes _ | .number _ | .array _ | .object _ | .other _ => isFalse id

def str? : Native → Option Str
  | .str s => some s
  | _ => none

def number? : Native → Option ℤ
  | .number n => some n
  | _ => none

mutual

/-- `String(v)` -/
def text : Native → Str
  | .null => "null".toList
  | .undefined => "undefined".toList
  | .str s => s
  | .bytes b => Utf8Decoder.start.run b
  | .number n => (toString n).toList
  | .array elements => joined elements
  | .object _ => "[object Object]".toList
  | .other text => text

/-- `elements.join(",")` -/
def joined : List Native → Str
  | [] => []
  | [v] => if v.IsNullish then [] else v.text
  | v :: w :: rest => (if v.IsNullish then [] else v.text) ++ ',' :: joined (w :: rest)

end

end Native

def toBytes : Native → List UInt8
  | .bytes b => b
  | .array elements => ((elements.mapM Native.number?).getD []).map UInt8.ofInt
  | .object data => (data.getD []).map UInt8.ofInt
  | _ => []

/-- Raw lowercase hex, no 0x. -/
def hexNo0x (v : Native) : Str := Hex.encode (toBytes v)

/-! ## Scanning -/

/-- `V` are the values as the RPC returns them. -/
structure RpcEvent (V : Type) where
  id : Str
  ledger : ℕ
  txHash : Str
  topic : List V
  value : V
  deriving DecidableEq

structure Page (V : Type) where
  events : List (RpcEvent V)
  -- empty if there is none
  cursor : Str

/-- What the RPC answers to requests for the events of one contract; `getEvents` is told how many requests
came before. -/
structure Rpc (V : Type) where
  -- the oldest ledger it has
  getHealth : Option ℕ
  getEvents : ℕ → GetEventsRequest → Except RpcError (Page V)

structure DecodedEvent where
  ledger : ℕ
  txHash : Str
  topic : Str
  data : List Native

section Scan

variable {V : Type} (scValToNative : V → Option Native)

def decodeEvent (ev : RpcEvent V) : DecodedEvent where
  ledger := ev.ledger
  txHash := ev.txHash
  topic := (ev.topic.head?.bind scValToNative).elim [] Native.text
  data := match scValToNative ev.value with
    | some (.array elements) => elements
    | some native => [native]
    | none => []

/-- `resp.cursor || resp.events[resp.events.length - 1]?.id` -/
def Page.next (resp : Page V) : Str :=
  if resp.cursor ≠ [] then resp.cursor else (resp.events.getLast?.map (·.id)).getD []

def PAGE_LIMIT : ℕ := 200

def PAGE_CAP : ℕ := 200

def requestFor (cursor : Option Str) (start : ℕ) : GetEventsRequest :=
  match cursor with
  | none => .fromLedger start PAGE_LIMIT
  | some cursor => .fromCursor cursor PAGE_LIMIT

/-- The loop, with `left` pages to go. There is no cursor until the first answer. -/
def scanFrom (rpc : Rpc V) : (left page : ℕ) → (cursor : Option Str) → (start : ℕ) →
    Except RpcError (List DecodedEvent)
  | 0, _, _, _ => .ok []
  | left + 1, page, cursor, start =>
    match rpc.getEvents page (requestFor cursor start) with
    | .error err =>
      match parseOldestLedgerFromRangeError err with
      | some oldest =>
        if cursor = none ∧ start < oldest then scanFrom rpc left (page + 1) none oldest else .error err
      | none => .error err
    | .ok resp =>
      let out := resp.events.map (decodeEvent scValToNative)
      if resp.events.length < PAGE_LIMIT then .ok out
      else if resp.next = [] then .ok out
      else (scanFrom rpc left (page + 1) (some resp.next) start).map (out ++ ·)

/-- A start ledger that the RPC no longer has is moved. -/
def clampToRetention (rpc : Rpc V) (start : ℕ) : ℕ :=
  match rpc.getHealth with
  | some oldest => if start < oldest then oldest else start
  | none => start

def startLedgerFor (deploymentLedger : Option ℕ) : ℕ :=
  match deploymentLedger with
  | some dep => if dep > 0 then dep else 1
  | none => 1

def scanContractEvents (rpc : Rpc V) (deploymentLedger : Option ℕ) (contractId : Str)
    (fromLedger : Option ℕ) : Except RpcError (List DecodedEvent) :=
  if contractId = [] then .ok []
  else scanFrom scValToNative rpc PAGE_CAP 0 none
    (clampToRetention rpc (fromLedger.getD (startLedgerFor deploymentLedger)))

end Scan

/-! ## The RPC

What is relied on: from the ledger that it starts at on, the RPC hands out the contract's events in pages,
and a page's cursor (or its last event) asks for the next page. -/

section Serving

variable {V : Type} {scValToNative : V → Option Native} {rpc : Rpc V}

/-- The first requests are refused because their ledger is too old, and then one starts at `start`. -/
inductive Starts (rpc : Rpc V) : (page start page' start' : ℕ) → Prop
  | here {page start : ℕ} : Starts rpc page start page start
  | retry {page start page' start' oldest newest : ℕ}
      (refused : rpc.getEvents page (.fromLedger start PAGE_LIMIT) = .error (.range oldest newest))
      (older : start < oldest) (rest : Starts rpc (page + 1) oldest page' start') :
      Starts rpc page start page' start'

/-- The events of the contract from a ledger on. -/
def eventsFrom (start : ℕ) (history : List (RpcEvent V)) : List (RpcEvent V) :=
  history.filter fun ev => start ≤ ev.ledger

/-- The paging schedule `pages`: how the RPC cuts the history into pages. -/
structure Serves (rpc : Rpc V) (n start : ℕ) (history : List (RpcEvent V)) (pages : ℕ → Page V) : Prop where
  first : rpc.getEvents n (.fromLedger start PAGE_LIMIT) = .ok (pages 0)
  next : ∀ k, (pages k).next ≠ [] →
    rpc.getEvents (n + k + 1) (.fromCursor (pages k).next PAGE_LIMIT) = .ok (pages (k + 1))
  identified : ∀ k, ∀ ev ∈ (pages k).events, ev.id ≠ []
  cuts : Paging.Cuts PAGE_LIMIT (fun k => (pages k).events) (eventsFrom start history)

theorem PAGE_LIMIT_pos : 0 < PAGE_LIMIT := by decide

theorem Starts.le {n n' start start' : ℕ} (h : Starts rpc n start n' start') : n ≤ n' := by
  induction h with
  | here => exact le_rfl
  | retry _ _ _ ih => exact (Nat.le_succ _).trans ih

theorem Page.next_ne {resp : Page V} (hids : ∀ ev ∈ resp.events, ev.id ≠ [])
    (hfull : ¬ resp.events.length < PAGE_LIMIT) : resp.next ≠ [] := by
  unfold Page.next
  split
  · assumption
  · cases hlast : resp.events.getLast? with
    | none =>
        rw [List.getLast?_eq_none_iff] at hlast
        rw [hlast] at hfull
        exact absurd PAGE_LIMIT_pos hfull
    | some ev => exact hids ev (List.mem_of_getLast? hlast)

theorem scanFrom_of_starts {n n' start start' : ℕ} (h : Starts rpc n start n' start') :
    scanFrom scValToNative rpc (PAGE_CAP - n) n none start =
      scanFrom scValToNative rpc (PAGE_CAP - n') n' none start' := by
  induction h with
  | here => rfl
  | @retry page start page' start' oldest newest refused older rest ih =>
      have hle := rest.le
      by_cases hcap : page < PAGE_CAP
      · rw [← ih, show PAGE_CAP - page = PAGE_CAP - (page + 1) + 1 by omega, scanFrom]
        simp only [requestFor, refused, parseOldestLedgerFromRangeError, older, and_self, if_true]
      · rw [show PAGE_CAP - page = 0 by omega, show PAGE_CAP - page' = 0 by omega, scanFrom, scanFrom]

/-- The scan goes on until it has a short page or its requests are used up. -/
theorem scanFrom_eq {n start : ℕ} {history : List (RpcEvent V)} {pages : ℕ → Page V}
    (h : Serves rpc n start history pages) (left k : ℕ) (cursor : Option Str)
    (hcursor : rpc.getEvents (n + k) (requestFor cursor start) = .ok (pages k)) :
    scanFrom scValToNative rpc left (n + k) cursor start =
      .ok ((Paging.upToShort PAGE_LIMIT (fun k => (pages k).events) left k).map (decodeEvent scValToNative)) := by
  induction left generalizing k cursor with
  | zero => rfl
  | succ left ih =>
      rw [scanFrom, Paging.upToShort]
      simp only [hcursor]
      by_cases hshort : (pages k).events.length < PAGE_LIMIT
      · rw [if_pos hshort, if_pos hshort]
      · have hnext := Page.next_ne (h.identified k) hshort
        rw [if_neg hshort, if_neg hshort, if_neg hnext, Nat.add_assoc,
          ih (k + 1) (some (pages k).next) (h.next k hnext), List.map_append]
        rfl

/-- **When the scan returns every event of the contract from the start ledger on.** -/
theorem scan_complete_iff (scValToNative : V → Option Native) (deploymentLedger fromLedger : Option ℕ)
    {contractId : Str} (hcontract : contractId ≠ []) {n start : ℕ} {history : List (RpcEvent V)}
    {pages : ℕ → Page V}
    (hstarts : Starts rpc 0 (clampToRetention rpc (fromLedger.getD (startLedgerFor deploymentLedger))) n start)
    (h : Serves rpc n start history pages) :
    ∃ out, scanContractEvents scValToNative rpc deploymentLedger contractId fromLedger = .ok out ∧
      (out = (eventsFrom start history).map (decodeEvent scValToNative) ↔
        Paging.Gapless PAGE_LIMIT (fun k => (pages k).events) (PAGE_CAP - n)) := by
  refine ⟨(Paging.upToShort PAGE_LIMIT (fun k => (pages k).events) (PAGE_CAP - n) 0).map
    (decodeEvent scValToNative), ?_, ?_⟩
  · rw [scanContractEvents, if_neg hcontract]
    exact (scanFrom_of_starts hstarts).trans (scanFrom_eq h (PAGE_CAP - n) 0 none h.first)
  · rw [← Paging.upToShort_eq_iff h.cuts]
    constructor
    · intro heq
      have hlength := congrArg List.length heq
      rw [List.length_map, List.length_map] at hlength
      exact (Paging.upToShort_isPrefix h.cuts _).eq_of_length hlength
    · intro heq
      rw [heq]

end Serving

/-! ## Schemas -/

/-- What the client uses of the manifest of a network. -/
structure Manifest where
  deploymentLedger : Option ℕ
  deployer : Option Str

/-- What `get_schema` answers, decoded. -/
structure SchemaRecord where
  authority : Option Str
  resolver : Option Str
  revocable : Bool
  name : Option Str
  fieldDefinitions : Option Str
  version : ℕ
  createdAt : ℕ
  schemaExpiryLedger : ℕ
  deprecated : Bool

structure SchemaV2 where
  address : Str
  schemaId : Str
  authority : Str
  resolver : Str
  revocable : Bool
  name : Str
  fieldDefinitions : Str
  version : ℕ
  delegates : List Str
  createdAt : ℕ
  schemaExpiryLedger : ℕ
  schemaExpirySlot : ℕ
  deprecated : Bool

/-- What a `SchemaRegistered` event tells of a schema. -/
structure Registration where
  idBytes : List UInt8
  authority : Str
  name : Str
  createdLedger : ℕ

def ZERO_RESOLVER : Str := "GAAAAAAAAAAAAAAAAAAAAAAAAAAAAAAAAAAAAAAAAAAAAAAAAAAAAWHF".toList

def DecodedEvent.datum (ev : DecodedEvent) (i : ℕ) : Native := ev.data.getD i .undefined

/-- The delegates of a schema; none if there is no set for it. -/
def ensure (delegates : Dict Str (List Str)) (id : Str) : List Str := (delegates.find id).getD []

/-- A set lists its elements in the order they came in. -/
def addElement (set : List Str) (element : Str) : List Str :=
  if element ∈ set then set else set ++ [element]

def applyDelegateEvent (delegates : Dict Str (List Str)) (ev : DecodedEvent) : Dict Str (List Str) :=
  match (ev.datum 2).str? with
  | none => delegates
  | some delegate =>
    let id := hexNo0x (ev.datum 0)
    if (ev.datum 0).IsNullish then delegates
    else if ev.topic = "DelegateAdded".toList then
      delegates.set id (addElement (ensure delegates id) delegate)
    else if ev.topic = "DelegateRemoved".toList then
      delegates.set id ((ensure delegates id).erase delegate)
    else delegates

def delegatesFrom (events : List DecodedEvent) : Dict Str (List Str) := events.foldl applyDelegateEvent []

def applyRegistration (registered : Dict Str Registration) (ev : DecodedEvent) : Dict Str Registration :=
  if ev.topic ≠ "SchemaRegistered".toList then registered
  else if (ev.datum 0).IsNullish then registered
  else registered.set (hexNo0x (ev.datum 0)) {
    idBytes := toBytes (ev.datum 0)
    authority := (ev.datum 1).str?.getD []
    name := (ev.datum 2).str?.getD []
    createdLedger := ev.ledger }

def registeredFrom (events : List DecodedEvent) : Dict Str Registration := events.foldl applyRegistration []

/-- `n || d` -/
def orDefault (n d : ℕ) : ℕ := if n = 0 then d else n

def schemaFrom (schemaId : Str) (evt : Registration) (dels : List Str) : Option SchemaRecord → SchemaV2
  | some full => {
      address := schemaId
      schemaId := schemaId
      authority := full.authority.getD evt.authority
      resolver := if full.resolver = some ZERO_RESOLVER then [] else full.resolver.getD []
      revocable := full.revocable
      name := full.name.getD evt.name
      fieldDefinitions := full.fieldDefinitions.getD []
      version := orDefault full.version 1
      delegates := dels
      createdAt := orDefault full.createdAt evt.createdLedger
      schemaExpiryLedger := full.schemaExpiryLedger
      schemaExpirySlot := full.schemaExpiryLedger
      deprecated := full.deprecated }
  -- the read failed
  | none => {
      address := schemaId
      schemaId := schemaId
      authority := evt.authority
      resolver := []
      revocable := false
      name := evt.name
      fieldDefinitions := []
      version := 1
      delegates := dels
      createdAt := evt.createdLedger
      schemaExpiryLedger := 0
      schemaExpirySlot := 0
      deprecated := false }

/-- What the client is told from outside: `readContract` answers for a source account and a schema's id. -/
structure Setting (V : Type) where
  scValToNative : V → Option Native
  isValidEd25519PublicKey : Str → Bool
  readContract : Str → List UInt8 → Option SchemaRecord

def readSourceKey {V : Type} (S : Setting V) (manifest : Manifest) (sourcePublicKey : Option Str) : Option Str :=
  match sourcePublicKey.filter S.isValidEd25519PublicKey with
  | some key => some key
  | none => manifest.deployer.filter S.isValidEd25519PublicKey

def schemasFrom {V : Type} (S : Setting V) (sourceKey : Option Str) (events : List DecodedEvent) :
    List SchemaV2 :=
  (registeredFrom events).map fun entry =>
    schemaFrom entry.1 entry.2 (ensure (delegatesFrom events) entry.1)
      (sourceKey.bind fun key => S.readContract key entry.2.idBytes)

def fetchSchemasFromChain {V : Type} (S : Setting V) (rpc : Rpc V) (manifest : Option Manifest)
    (registryId : Str) (sourcePublicKey : Option Str) : Except RpcError (List SchemaV2) :=
  match manifest with
  | none => .ok []
  | some manifest => do
    let events ← scanContractEvents S.scValToNative rpc manifest.deploymentLedger registryId none
    pure (schemasFrom S (readSourceKey S manifest sourcePublicKey) events)

end OpaqueStellar.Web.ChainSync
