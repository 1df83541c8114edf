import OpaqueStellar.Schemas.Invariant
import OpaqueStellar.Web.ChainSync

/-! # The delegates of a schema, from its registry's events

The registry announces every registration and every change of a list of delegates, and replaying what it has
announced gives its lists (`announced_run`). So the client rebuilds them from a scan that misses nothing
(`delegates_eq`). -/

namespace OpaqueStellar.Web.ChainSync

open OpaqueStellar.Lib
open OpaqueStellar.Soroban (Address)
open OpaqueStellar.Schemas (Str World SchemaEvent Invocation Host delegatesOf)

/-! ## What the registry announces -/

/-- The delegates of a schema after one event. -/
def delegatesAfter (id : BytesN 32) (delegates : List Address) : SchemaEvent → List Address
  | .SchemaRegistered _ _ _ => delegates
  | .DelegateAdded id' _ delegate =>
      if id' = id ∧ delegate ∉ delegates then delegates ++ [delegate] else delegates
  | .DelegateRemoved id' _ delegate => if id' = id then delegates.erase delegate else delegates

def delegatesIn (id : BytesN 32) (events : List SchemaEvent) : List Address :=
  events.foldl (delegatesAfter id) []

structure Announced (w : World) : Prop where
  lawful : Schemas.Lawful w
  delegates : ∀ id, delegatesIn id w.events = delegatesOf w id
  registered : ∀ id s, w.registry.schemas.lookup id = some s →
    ∃ authority name, SchemaEvent.SchemaRegistered id authority name ∈ w.events

theorem delegatesIn_snoc (id : BytesN 32) (events : List SchemaEvent) (e : SchemaEvent) :
    delegatesIn id (events ++ [e]) = delegatesAfter id (delegatesIn id events) e := by
  rw [delegatesIn, List.foldl_append]
  rfl

section Registry

variable {host : Host} {env : Soroban.Env} {w w' : World}

open OpaqueStellar.Schemas OpaqueStellar.Soroban

theorem announced_exec {call : Call} (h : Announced w) (hexec : exec host env w call = .ok w') :
    Announced w' := by
  have hlawful : Lawful w' := lawful_effect h.lawful (effect_of_exec hexec)
  cases call with
  | registerSchema args =>
      obtain ⟨-, -, fields, -, -, hfresh, -, rfl⟩ := registerSchema_eq_ok.mp hexec
      refine ⟨hlawful, ?_, ?_⟩
      · intro id
        rw [delegatesOf_register]
        show delegatesIn id (w.events ++ [_]) = _
        rw [delegatesIn_snoc, delegatesAfter, h.delegates]
        split
        · next heq => rw [heq, h.lawful.unregistered _ hfresh]
        · rfl
      · intro id s hread
        rcases Store.lookup_insert_cases hread with ⟨rfl, rfl⟩ | hread
        · exact ⟨_, _, List.mem_append_right _ (List.mem_singleton.mpr rfl)⟩
        · obtain ⟨authority, name, hmem⟩ := h.registered id s hread
          exact ⟨authority, name, List.mem_append_left _ hmem⟩
  | addDelegate authority id delegate =>
      simp only [exec, addDelegate, bind_eq_ok, requireAuth_eq_ok, exists_const, readSchema_eq_ok,
        ensure_eq_ok, pure_eq_ok] at hexec
      obtain ⟨-, s, -, -, -, hnew, rfl⟩ := hexec
      refine ⟨hlawful, ?_, ?_⟩
      · intro id'
        show delegatesIn id' (w.events ++ [_]) = delegatesOf (writeDelegates w id _) id'
        rw [delegatesIn_snoc, delegatesAfter, h.delegates, delegatesOf_writeDelegates]
        by_cases hid : id' = id
        · subst hid
          rw [if_pos ⟨rfl, hnew⟩, if_pos rfl]
        · rw [if_neg fun hboth => hid hboth.1.symm, if_neg hid]
      · intro id' s' hread
        obtain ⟨authority', name, hmem⟩ := h.registered id' s' hread
        exact ⟨authority', name, List.mem_append_left _ hmem⟩
  | removeDelegate authority id delegate =>
      simp only [exec, removeDelegate, bind_eq_ok, requireAuth_eq_ok, exists_const, readSchema_eq_ok,
        ensure_eq_ok, okOr_eq_ok, pure_eq_ok] at hexec
      obtain ⟨-, s, -, -, idx, hfound, rfl⟩ := hexec
      refine ⟨hlawful, ?_, ?_⟩
      · intro id'
        show delegatesIn id' (w.events ++ [_]) = delegatesOf (writeDelegates w id _) id'
        rw [delegatesIn_snoc, delegatesAfter, h.delegates, delegatesOf_writeDelegates]
        by_cases hid : id' = id
        · subst hid
          rw [if_pos rfl, if_pos rfl, List.erase_eq_eraseIdx, hfound]
        · rw [if_neg (Ne.symm hid), if_neg hid]
      · intro id' s' hread
        obtain ⟨authority', name, hmem⟩ := h.registered id' s' hread
        exact ⟨authority', name, List.mem_append_left _ hmem⟩
  | deprecateSchema authority id =>
      simp only [exec, deprecateSchema, bind_eq_ok, requireAuth_eq_ok, exists_const,
        readSchema_eq_ok, ensure_eq_ok, pure_eq_ok] at hexec
      obtain ⟨-, s, hread, -, rfl⟩ := hexec
      refine ⟨hlawful, h.delegates, ?_⟩
      intro id' s' hread'
      rcases Store.lookup_insert_cases hread' with ⟨rfl, -⟩ | hread'
      · exact h.registered _ s hread
      · exact h.registered id' s' hread'

/-- In every run of the registry. -/
theorem announced_run (host : Host) (invs : List Invocation) : Announced ((machine host).final {} invs) := by
  apply Machine.stable _ _ ⟨lawful_initial, fun _ => rfl, fun id s hread => by cases hread⟩
  intro w inv h
  rcases Machine.transactional_cases (fun w (inv : Invocation) => do
    let w ← exec host inv.env w inv.call
    pure (w, ())) w inv with ⟨e, hstep⟩ | ⟨w', u, hstep, hrun⟩
  · rw [machine, hstep]
    exact h
  · obtain ⟨w₁, hexec, heq⟩ := bind_eq_ok.mp hrun
    cases heq
    rw [machine, hstep]
    exact announced_exec h hexec

end Registry

/-! ## What the client makes of it -/

section Client

variable {addressText : Address → Str} {nameText : List UInt8 → Native}

/-- An event of the registry as it is decoded. -/
def Shows (addressText : Address → Str) (nameText : List UInt8 → Native) (e : SchemaEvent)
    (ev : DecodedEvent) : Prop :=
  match e with
  | .SchemaRegistered id authority name => ev.topic = "SchemaRegistered".toList ∧
      ev.data = [.bytes id.1, .str (addressText authority), nameText name]
  | .DelegateAdded id authority delegate => ev.topic = "DelegateAdded".toList ∧
      ev.data = [.bytes id.1, .str (addressText authority), .str (addressText delegate)]
  | .DelegateRemoved id authority delegate => ev.topic = "DelegateRemoved".toList ∧
      ev.data = [.bytes id.1, .str (addressText authority), .str (addressText delegate)]

def schemaIdText (id : BytesN 32) : Str := Hex.encode id.1

theorem schemaIdText_injective : Function.Injective schemaIdText := by
  intro id id' h
  have hbytes := congrArg Hex.decode h
  rw [schemaIdText, schemaIdText, Hex.decode_encode, Hex.decode_encode] at hbytes
  exact Subtype.ext (Option.some.inj hbytes)

theorem ensure_set (delegates : Dict Str (List Str)) (id id' : Str) (set : List Str) :
    ensure (delegates.set id set) id' = if id' = id then set else ensure delegates id' := by
  unfold ensure
  split
  · next h => rw [h, Dict.find_set_self, Option.getD_some]
  · next h => rw [Dict.find_set_of_ne _ _ h]

theorem addElement_map (haddress : Function.Injective addressText) (set : List Address) (a : Address) :
    addElement (set.map addressText) (addressText a) =
      (if a ∉ set then set ++ [a] else set).map addressText := by
  have hmem : addressText a ∈ set.map addressText ↔ a ∈ set := List.mem_map_of_injective haddress
  by_cases ha : a ∈ set
  · rw [addElement, if_pos (hmem.mpr ha), if_neg (not_not.mpr ha)]
  · rw [addElement, if_neg (mt hmem.mp ha), if_pos ha, List.map_append, List.map_singleton]

/-- One event changes the client's sets as it changes the lists it is about. -/
theorem ensure_applyDelegateEvent (haddress : Function.Injective addressText) {e : SchemaEvent}
    {ev : DecodedEvent} (hshows : Shows addressText nameText e ev) {sets : Dict Str (List Str)}
    {lists : BytesN 32 → List Address}
    (h : ∀ id, ensure sets (schemaIdText id) = (lists id).map addressText) (id : BytesN 32) :
    ensure (applyDelegateEvent sets ev) (schemaIdText id) =
      (delegatesAfter id (lists id) e).map addressText := by
  cases e with
  | SchemaRegistered id' authority name =>
      obtain ⟨htopic, hdata⟩ := hshows
      have hsame : applyDelegateEvent sets ev = sets := by
        unfold applyDelegateEvent
        rw [htopic]
        split <;> simp
      rw [hsame, h id, delegatesAfter]
  | DelegateAdded id' authority delegate =>
      obtain ⟨htopic, hdata⟩ := hshows
      have hset : applyDelegateEvent sets ev = sets.set (schemaIdText id')
          (addElement (ensure sets (schemaIdText id')) (addressText delegate)) := by
        simp [applyDelegateEvent, DecodedEvent.datum, htopic, hdata, Native.str?, Native.IsNullish, hexNo0x,
          toBytes, schemaIdText]
      rw [hset, ensure_set, h id', addElement_map haddress, delegatesAfter]
      by_cases hid : id = id'
      · subst hid
        simp
      · rw [if_neg (schemaIdText_injective.ne hid), if_neg fun hboth => hid hboth.1.symm, h id]
  | DelegateRemoved id' authority delegate =>
      obtain ⟨htopic, hdata⟩ := hshows
      have hset : applyDelegateEvent sets ev = sets.set (schemaIdText id')
          ((ensure sets (schemaIdText id')).erase (addressText delegate)) := by
        simp [applyDelegateEvent, DecodedEvent.datum, htopic, hdata, Native.str?, Native.IsNullish, hexNo0x,
          toBytes, schemaIdText]
      rw [hset, ensure_set, h id', ← List.map_erase haddress, delegatesAfter]
      by_cases hid : id = id'
      · subst hid
        rw [if_pos rfl, if_pos rfl]
      · rw [if_neg (schemaIdText_injective.ne hid), if_neg (Ne.symm hid), h id]

/-- The client's sets after the events are the lists. -/
theorem ensure_delegatesFrom (haddress : Function.Injective addressText) {events : List SchemaEvent}
    {decoded : List DecodedEvent} (hshows : List.Forall₂ (Shows addressText nameText) events decoded)
    (id : BytesN 32) :
    ensure (delegatesFrom decoded) (schemaIdText id) = (delegatesIn id events).map addressText := by
  have hfold : ∀ (sets : Dict Str (List Str)) (lists : BytesN 32 → List Address),
      (∀ id, ensure sets (schemaIdText id) = (lists id).map addressText) →
      ensure (decoded.foldl applyDelegateEvent sets) (schemaIdText id) =
        (events.foldl (delegatesAfter id) (lists id)).map addressText := by
    induction hshows with
    | nil => exact fun sets lists h => h id
    | @cons e ev events decoded hev _ ih =>
        intro sets lists h
        exact ih (applyDelegateEvent sets ev) (fun id => delegatesAfter id (lists id) e)
          (ensure_applyDelegateEvent haddress hev h)
  exact hfold [] (fun _ => []) fun _ => rfl

/-- The schemas that the client lists are those that were registered. -/
theorem mem_keys_registeredFrom {events : List SchemaEvent} {decoded : List DecodedEvent}
    (hshows : List.Forall₂ (Shows addressText nameText) events decoded) (key : Str) :
    key ∈ (registeredFrom decoded).map (·.1) ↔
      ∃ id authority name, SchemaEvent.SchemaRegistered id authority name ∈ events ∧ schemaIdText id = key := by
  have hfold : ∀ registered : Dict Str Registration,
      key ∈ (decoded.foldl applyRegistration registered).map (·.1) ↔
        key ∈ registered.map (·.1) ∨
          ∃ id authority name, SchemaEvent.SchemaRegistered id authority name ∈ events ∧
            schemaIdText id = key := by
    induction hshows with
    | nil => simp
    | @cons e ev events decoded hev _ ih =>
        intro registered
        rw [List.foldl_cons, ih]
        cases e with
        | SchemaRegistered id authority name =>
            obtain ⟨htopic, hdata⟩ := hev
            have hset : ∃ registration, applyRegistration registered ev =
                registered.set (schemaIdText id) registration := by
              simp [applyRegistration, DecodedEvent.datum, htopic, hdata, Native.IsNullish, hexNo0x, toBytes,
                schemaIdText]
            obtain ⟨registration, hset⟩ := hset
            rw [hset, Dict.mem_keys_set]
            simp only [List.mem_cons, SchemaEvent.SchemaRegistered.injEq]
            grind
        | DelegateAdded id authority delegate =>
            have hsame : applyRegistration registered ev = registered := by
              simp [applyRegistration, hev.1]
            simp [hsame]
        | DelegateRemoved id authority delegate =>
            have hsame : applyRegistration registered ev = registered := by
              simp [applyRegistration, hev.1]
            simp [hsame]
  simpa [registeredFrom] using hfold []

theorem schemaFrom_schemaId (schemaId : Str) (evt : Registration) (dels : List Str)
    (full : Option SchemaRecord) :
    (schemaFrom schemaId evt dels full).schemaId = schemaId ∧
      (schemaFrom schemaId evt dels full).delegates = dels := by
  cases full <;> exact ⟨rfl, rfl⟩

/-- From all events, the client lists the registered schemas with their delegates. -/
theorem schemasFrom_eq {V : Type} (S : Setting V) (sourceKey : Option Str)
    (haddress : Function.Injective addressText) {w : World} (h : Announced w) {decoded : List DecodedEvent}
    (hshows : List.Forall₂ (Shows addressText nameText) w.events decoded) :
    (∀ schema ∈ schemasFrom S sourceKey decoded, ∃ id, schema.schemaId = schemaIdText id ∧
      schema.delegates = (delegatesOf w id).map addressText) ∧
    ∀ id s, w.registry.schemas.lookup id = some s →
      ∃ schema ∈ schemasFrom S sourceKey decoded, schema.schemaId = schemaIdText id := by
  constructor
  · intro schema hschema
    obtain ⟨entry, hentry, rfl⟩ := List.mem_map.mp hschema
    obtain ⟨id, -, -, -, hid⟩ := (mem_keys_registeredFrom hshows entry.1).mp (List.mem_map_of_mem hentry)
    refine ⟨id, (schemaFrom_schemaId _ _ _ _).1.trans hid.symm, (schemaFrom_schemaId _ _ _ _).2.trans ?_⟩
    rw [← hid, ensure_delegatesFrom haddress hshows, h.delegates]
  · intro id s hread
    obtain ⟨authority, name, hmem⟩ := h.registered id s hread
    obtain ⟨entry, hentry, hkey⟩ := List.mem_map.mp
      ((mem_keys_registeredFrom hshows (schemaIdText id)).mpr ⟨id, authority, name, hmem, rfl⟩)
    exact ⟨_, List.mem_map_of_mem hentry, (schemaFrom_schemaId _ _ _ _).1.trans hkey⟩

end Client

/-! ## From the scan -/

/-- **A scan that misses nothing gives the registry's delegates.** -/
theorem delegates_eq {V : Type} {S : Setting V} {rpc : Rpc V} {manifest : Manifest} {registryId : Str}
    (hregistry : registryId ≠ []) {n start : ℕ} {history : List (RpcEvent V)} {pages : ℕ → Page V}
    (hstarts : Starts rpc 0 (clampToRetention rpc (startLedgerFor manifest.deploymentLedger)) n start)
    (hserves : Serves rpc n start history pages)
    (hgapless : Paging.Gapless PAGE_LIMIT (fun k => (pages k).events) (PAGE_CAP - n))
    (hretained : ∀ ev ∈ history, start ≤ ev.ledger) {addressText : Address → Str}
    {nameText : List UInt8 → Native} (haddress : Function.Injective addressText) {w : World}
    (h : Announced w)
    (hshows : List.Forall₂ (Shows addressText nameText) w.events (history.map (decodeEvent S.scValToNative)))
    (sourcePublicKey : Option Str) :
    ∃ schemas, fetchSchemasFromChain S rpc (some manifest) registryId sourcePublicKey = .ok schemas ∧
      (∀ schema ∈ schemas, ∃ id, schema.schemaId = schemaIdText id ∧
        schema.delegates = (delegatesOf w id).map addressText) ∧
      ∀ id s, w.registry.schemas.lookup id = some s →
        ∃ schema ∈ schemas, schema.schemaId = schemaIdText id := by
  obtain ⟨out, hscan, hout⟩ :=
    scan_complete_iff S.scValToNative manifest.deploymentLedger none hregistry hstarts hserves
  have hall : eventsFrom start history = history := by
    rw [eventsFrom, List.filter_eq_self]
    simpa using hretained
  have hevents := hout.mpr hgapless
  rw [hall] at hevents
  refine ⟨_, ?_, schemasFrom_eq S (readSourceKey S manifest sourcePublicKey) haddress h hshows⟩
  rw [fetchSchemasFromChain, hscan, hevents]
  rfl

end OpaqueStellar.Web.ChainSync
