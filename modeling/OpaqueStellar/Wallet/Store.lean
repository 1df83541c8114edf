import Mathlib.Data.List.Perm.Subperm
import OpaqueStellar.Lib.Dict
import OpaqueStellar.Lib.Lists
import OpaqueStellar.Lib.Machine
import OpaqueStellar.Schemas.Core

/-! # The encrypted stores of a wallet

`sdk/src/storage/encrypted.ts`. Notes, ghost entries and scan cursors are each kept as one encrypted
text. Every change loads it, makes the change and saves the whole again, and awaits in between: the
backend, the decryption, the encryption and the backend once more.

Calls are not queued, so one that has loaded before another has saved puts back what it loaded. As long
as each call makes of what it has loaded the same as of what is there when its write lands, the store ends
up as if the calls had been made one by one, in the order of their writes. -/

namespace OpaqueStellar.Wallet

open OpaqueStellar.Lib OpaqueStellar.Schemas

/-! ## Contents -/

structure PoolNote where
  cluster : Str
  poolId : Option Str := none
  value : Str
  scope : ℕ
  leafIndex : ℕ
  nullifier : Str
  secret : Str
  commitment : Str
  spent : Bool
  createdAt : ℤ
  deriving DecidableEq

structure GhostEntryLike where
  cluster : Str
  stealthAddress : Str
  ephemeralPrivKeyHex : Option Str := none
  createdAt : ℤ
  deriving DecidableEq

/-- What the scan store may find. Before cursors had keys it was one number. -/
inductive SavedCursors where
  | number (ledger : ℤ)
  | record (cursors : Dict Str ℤ)
  -- `null` and the like
  | other
  deriving DecidableEq

/-- `EncryptedNoteStore.add` -/
def addNote (note : PoolNote) (notes : List PoolNote) : List PoolNote := notes ++ [note]

/-- `EncryptedNoteStore.markSpent` -/
def markNotesSpent (commitment : Str) (notes : List PoolNote) : List PoolNote :=
  notes.map fun n => if n.commitment = commitment then { n with spent := true } else n

/-- `EncryptedVaultStore.saveGhost` -/
def putGhost (entry : GhostEntryLike) (entries : List GhostEntryLike) : List GhostEntryLike :=
  match entries.findIdx? fun e => e.stealthAddress = entry.stealthAddress with
  | some idx => entries.set idx entry
  | none => entries ++ [entry]

/-- `EncryptedScanStore.setCursor` -/
def putCursor (ledger : ℤ) (identity : Str) (cursors : Dict Str ℤ) : Dict Str ℤ :=
  cursors.set identity ledger

/-- Saving a ghost takes no address away. -/
theorem address_mem_putGhost {entry old : GhostEntryLike} {entries : List GhostEntryLike}
    (h : old ∈ entries) : ∃ entry' ∈ putGhost entry entries, entry'.stealthAddress = old.stealthAddress := by
  unfold putGhost
  split
  next idx hidx =>
    obtain ⟨hlt, haddress, -⟩ := List.findIdx?_eq_some_iff_getElem.mp hidx
    obtain ⟨j, hj, rfl⟩ := List.mem_iff_getElem.mp h
    by_cases hij : idx = j
    · -- the entry that is replaced has the same address
      subst hij
      exact ⟨entry, List.mem_set hlt entry, (of_decide_eq_true haddress).symm⟩
    · refine ⟨_, List.mem_iff_getElem?.mpr ⟨j, ?_⟩, rfl⟩
      rw [List.getElem?_set_ne hij]
      exact List.getElem?_eq_some_iff.mpr ⟨hj, rfl⟩
  next => exact ⟨old, List.mem_append_left _ h, rfl⟩

/-- The stores, one for each class. -/
inductive Store where
  -- `EncryptedNoteStore`
  | notes
  -- `EncryptedVaultStore`
  | vault
  -- `EncryptedScanStore`
  | scan

namespace Store

def Content : Store → Type
  | .notes => List PoolNote
  | .vault => List GhostEntryLike
  | .scan => Dict Str ℤ

/-- What is encrypted. -/
def Json : Store → Type
  | .notes => List PoolNote
  | .vault => List GhostEntryLike
  | .scan => SavedCursors

instance : ∀ store : Store, DecidableEq store.Content
  | .notes => inferInstanceAs (DecidableEq (List PoolNote))
  | .vault => inferInstanceAs (DecidableEq (List GhostEntryLike))
  | .scan => inferInstanceAs (DecidableEq (List (Str × ℤ)))

instance : ∀ store : Store, DecidableEq store.Json
  | .notes => inferInstanceAs (DecidableEq (List PoolNote))
  | .vault => inferInstanceAs (DecidableEq (List GhostEntryLike))
  | .scan => inferInstanceAs (DecidableEq SavedCursors)

/-- What `load` returns where there is nothing yet. -/
def empty : ∀ store : Store, store.Content
  | .notes => ([] : List PoolNote)
  | .vault => ([] : List GhostEntryLike)
  | .scan => ([] : List (Str × ℤ))

/-- What `load` makes of what it has decrypted. -/
def decode : ∀ {store : Store}, store.Json → store.Content
  | .notes, list => list
  | .vault, list => list
  | .scan, .number ledger => ([([], ledger)] : List (Str × ℤ))
  | .scan, .record cursors => cursors
  | .scan, .other => ([] : List (Str × ℤ))

def encode : ∀ {store : Store}, store.Content → store.Json
  | .notes, list => list
  | .vault, list => list
  | .scan, cursors => SavedCursors.record cursors

theorem decode_encode {store : Store} (content : store.Content) : decode (encode content) = content := by
  cases store <;> rfl

/-- A call that changes a store. -/
inductive Call : Store → Type where
  | add (note : PoolNote) : Call .notes
  | markSpent (commitment : Str) : Call .notes
  | saveGhost (entry : GhostEntryLike) : Call .vault
  | setCursor (ledger : ℤ) (identity : Str) : Call .scan
  deriving DecidableEq

/-- What happens between `load` and `save`. -/
def Call.apply : ∀ {store : Store}, Call store → store.Content → store.Content
  | _, .add note => addNote note
  | _, .markSpent commitment => markNotesSpent commitment
  | _, .saveGhost entry => putGhost entry
  | _, .setCursor ledger identity => putCursor ledger identity

/-! ## Calls that await -/

section Calls

variable {store : Store} {E : Type} (opens : E → Option store.Json)

/-- Where a call is. -/
inductive Phase (store : Store) (E : Type) : Type where
  -- `await this.backend.read(this.key)`
  | reading
  -- the backend has read, and the call does not know yet
  | fetched (raw : Option E)
  -- `await decryptEnvelope(raw, this.password)`
  | decrypting (raw : E)
  -- `await encryptEnvelope(…, this.password)`, for a change to what was loaded
  | encrypting (loaded : store.Content)
  -- `await this.backend.write(this.key, …)`
  | writing (loaded : store.Content) (raw : E)
  -- the backend has written, and the call does not know yet
  | written
  | returned
  | threw

inductive Event (E : Type) : Type where
  | read
  | write
  | resume
  -- `encryptEnvelope` resolves to this
  | sealed (raw : E)
  -- the backend or the encryption rejects
  | reject

/-- One step of a call; anything that cannot happen where it is leaves it there. `opens` is
`decryptEnvelope` under the password of the store, and undoes `encryptEnvelope`. -/
def Phase.next (call : Call store) (blob : Option E) : Phase store E → Event E → Phase store E
  | .reading, .read => .fetched blob
  | .fetched none, .resume => .encrypting store.empty
  | .fetched (some raw), .resume => .decrypting raw
  | .decrypting raw, .resume =>
      match opens raw with
      | some json => .encrypting (decode json)
      | none => .threw
  | .encrypting loaded, .sealed raw =>
      if opens raw = some (encode (call.apply loaded)) then .writing loaded raw else .encrypting loaded
  | .writing _ _, .write => .written
  | .written, .resume => .returned
  | .returned, _ => .returned
  | _, .reject => .threw
  | phase, _ => phase

/-- What the backend is to write now. -/
def Phase.writes : Phase store E → Event E → Option E
  | .writing _ raw, .write => some raw
  | _, _ => none

/-! ## Any number of them -/

structure State (store : Store) (E : Type) where
  blob : Option E
  -- every call that was made, and where it is
  calls : List (Call store × Phase store E) := []
  -- the calls whose writes have landed, the first one first
  landed : List ℕ := []

inductive Input (store : Store) (E : Type) : Type where
  | call (call : Call store)
  | event (i : ℕ) (event : Event E)

def State.step (s : State store E) : Input store E → State store E
  | .call call => { s with calls := s.calls ++ [(call, .reading)] }
  | .event i event =>
      match s.calls[i]? with
      | none => s
      | some (call, phase) =>
          let calls := s.calls.set i (call, phase.next opens call s.blob event)
          match phase.writes event with
          | some raw => ⟨some raw, calls, s.landed ++ [i]⟩
          | none => { s with calls := calls }

def machine : Machine (State store E) (Input store E) Unit := ⟨fun s input => (s.step opens input, ())⟩

/-- What a `load` would return now; `none` where it would throw. -/
def State.content (s : State store E) : Option store.Content :=
  match s.blob with
  | none => some store.empty
  | some raw => (opens raw).map decode

def State.made (s : State store E) : List (Call store) := s.calls.map (·.1)

/-- The calls in the order of their writes. -/
def State.order (s : State store E) : List (Call store) := s.landed.filterMap fun i => s.made[i]?

def callsOf (inputs : List (Input store E)) : List (Call store) :=
  inputs.filterMap fun
    | .call call => some call
    | .event _ _ => none

/-- The calls made one after the other. -/
def applyAll (calls : List (Call store)) (content : store.Content) : store.Content :=
  calls.foldl (fun content call => call.apply content) content

/-- When its write lands, the call makes of what it has loaded the same as of what is there. -/
def timely (s : State store E) : Input store E → Bool
  | .event i .write =>
      match s.calls[i]? with
      | some (call, .writing loaded _) =>
          (s.content opens).map call.apply = some (call.apply loaded)
      | _ => true
  | _ => true

/-! ## What a step does -/

/-- The write is still to come. -/
def Phase.Early : Phase store E → Prop
  | .reading | .fetched _ | .decrypting _ | .encrypting _ | .writing _ _ => True
  | .written | .returned | .threw => False

/-- The write has landed. -/
def Phase.Late : Phase store E → Prop
  | .written | .returned => True
  | _ => False

variable {opens} {call : Call store} {blob : Option E} {phase : Phase store E} {event : Event E}

theorem Phase.writes_eq_some {raw : E} (h : phase.writes event = some raw) :
    event = .write ∧ ∃ loaded, phase = .writing loaded raw := by
  unfold Phase.writes at h
  split at h
  · obtain rfl := Option.some.inj h
    exact ⟨rfl, _, rfl⟩
  · cases h

/-- A call that does not write now is as far as before, or gives up. -/
theorem Phase.next_stage (opens : E → Option store.Json) (call : Call store) (blob : Option E)
    (h : phase.writes event = none) :
    ((phase.next opens call blob event).Early → phase.Early) ∧
      ((phase.next opens call blob event).Late → phase.Late) := by
  unfold Phase.next
  split
  case h_4 raw =>
    split
    · exact ⟨fun _ => trivial, False.elim⟩
    · exact ⟨False.elim, False.elim⟩
  case h_5 loaded raw =>
    split_ifs
    · exact ⟨fun _ => trivial, False.elim⟩
    · exact ⟨id, id⟩
  case h_6 => cases h
  case h_7 => exact ⟨False.elim, fun _ => trivial⟩
  case h_8 => exact ⟨id, id⟩
  case h_9 => exact ⟨False.elim, False.elim⟩
  case h_10 => exact ⟨id, id⟩
  all_goals exact ⟨fun _ => trivial, False.elim⟩

/-- What a call is about to write is its change to what it has loaded. -/
theorem Phase.next_writing {loaded : store.Content} {raw : E}
    (h : phase.next opens call blob event = .writing loaded raw) :
    phase = .writing loaded raw ∨ opens raw = some (encode (call.apply loaded)) := by
  unfold Phase.next at h
  split at h
  case h_4 =>
    split at h <;> cases h
  case h_5 =>
    split_ifs at h with hsealed
    cases h
    exact .inr hsealed
  case h_10 => exact .inl h
  all_goals cases h

/-- A step makes a call, moves one on or lets a write land, or does nothing. -/
theorem State.step_cases (s : State store E) (opens : E → Option store.Json) (input : Input store E) :
    (∃ call, input = .call call ∧ s.step opens input = { s with calls := s.calls ++ [(call, .reading)] }) ∨
      (callsOf [input] = [] ∧ s.step opens input = s) ∨
      (∃ i call phase event, callsOf [input] = [] ∧ s.calls[i]? = some (call, phase) ∧
        phase.writes event = none ∧
        s.step opens input = { s with calls := s.calls.set i (call, phase.next opens call s.blob event) }) ∨
      ∃ i call loaded raw, input = .event i .write ∧ s.calls[i]? = some (call, .writing loaded raw) ∧
        s.step opens input = ⟨some raw, s.calls.set i (call, .written), s.landed ++ [i]⟩ := by
  cases input with
  | call call => exact .inl ⟨call, rfl, rfl⟩
  | event i event =>
    right
    rcases hcall : s.calls[i]? with - | ⟨call, phase⟩
    · left
      exact ⟨rfl, by simp only [step, hcall]⟩
    · right
      rcases hwrites : phase.writes event with - | raw
      · left
        exact ⟨i, call, phase, event, rfl, hcall, hwrites, by simp only [step, hcall, hwrites]⟩
      · right
        obtain ⟨rfl, loaded, rfl⟩ := Phase.writes_eq_some hwrites
        exact ⟨i, call, loaded, raw, rfl, hcall, by simp only [step, hcall, hwrites, Phase.next]⟩

/-! ## What a run does -/

theorem applyAll_concat (calls : List (Call store)) (call : Call store) (content : store.Content) :
    applyAll (calls ++ [call]) content = call.apply (applyAll calls content) := by
  simp [applyAll]

variable (opens) in
/-- Up to here the calls have been applied one by one, from this content on. -/
structure State.Ok (initial : Option store.Content) (s : State store E) : Prop where
  content : s.content opens = initial.map (applyAll s.order)
  sealed : ∀ call loaded raw, (call, .writing loaded raw) ∈ s.calls →
    opens raw = some (encode (call.apply loaded))
  bounded : ∀ i ∈ s.landed, i < s.calls.length
  nodup : s.landed.Nodup
  early : ∀ i call phase, s.calls[i]? = some (call, phase) → phase.Early → i ∉ s.landed
  late : ∀ i call phase, s.calls[i]? = some (call, phase) → phase.Late → i ∈ s.landed

variable {s : State store E} {initial : Option store.Content}

theorem State.Ok.start (h : s.Ok opens initial) (call : Call store) :
    State.Ok opens initial { s with calls := s.calls ++ [(call, .reading)] } := by
  have hget : ∀ i call' phase, (s.calls ++ [(call, Phase.reading)])[i]? = some (call', phase) →
      s.calls[i]? = some (call', phase) ∨ i = s.calls.length ∧ phase = .reading := by
    intro i call' phase hi
    rcases lt_trichotomy i s.calls.length with hlt | heq | hgt
    · rw [List.getElem?_append_left hlt] at hi
      exact .inl hi
    · subst heq
      rw [List.getElem?_concat_length] at hi
      cases hi
      exact .inr ⟨rfl, rfl⟩
    · rw [List.getElem?_eq_none_iff.mpr (by simp; omega)] at hi
      cases hi
  have horder : State.order { s with calls := s.calls ++ [(call, .reading)] } = s.order := by
    refine List.filterMap_congr fun i hi => ?_
    show (List.map Prod.fst (s.calls ++ [(call, Phase.reading)]))[i]? = (List.map Prod.fst s.calls)[i]?
    rw [List.map_append, List.getElem?_append_left (by simpa using h.bounded i hi)]
  refine ⟨?_, ?_, ?_, h.nodup, ?_, ?_⟩
  · rw [horder]
    exact h.content
  · intro call' loaded raw hmem
    rcases List.mem_append.mp hmem with hmem | hmem
    · exact h.sealed call' loaded raw hmem
    · cases List.mem_singleton.mp hmem
  · intro i hi
    rw [List.length_append]
    exact Nat.lt_add_right _ (h.bounded i hi)
  · intro i call' phase hi hearly hlanded
    rcases hget i call' phase hi with hi | ⟨rfl, -⟩
    · exact h.early i call' phase hi hearly hlanded
    · exact absurd (h.bounded _ hlanded) (lt_irrefl _)
  · intro i call' phase hi hlate
    rcases hget i call' phase hi with hi | ⟨-, rfl⟩
    · exact h.late i call' phase hi hlate
    · cases hlate

theorem State.order_set {i : ℕ} (hi : s.calls[i]? = some (call, phase)) (phase' : Phase store E)
    (landed : List ℕ) :
    State.order { s with calls := s.calls.set i (call, phase'), landed := landed } =
      landed.filterMap fun i => s.made[i]? := by
  unfold State.order State.made
  rw [map_fst_set hi]

theorem State.Ok.move (h : s.Ok opens initial) {i : ℕ} (hi : s.calls[i]? = some (call, phase))
    (hwrites : phase.writes event = none) :
    State.Ok opens initial
      { s with calls := s.calls.set i (call, phase.next opens call s.blob event) } := by
  obtain ⟨hearly, hlate⟩ := Phase.next_stage opens call s.blob hwrites
  refine ⟨?_, ?_, ?_, h.nodup, ?_, ?_⟩
  · rw [State.order_set hi]
    exact h.content
  · intro call' loaded raw hmem
    rcases List.mem_or_eq_of_mem_set hmem with hmem | heq
    · exact h.sealed call' loaded raw hmem
    · obtain ⟨rfl, hnext⟩ := Prod.mk.inj heq
      rcases Phase.next_writing hnext.symm with rfl | hsealed
      · exact h.sealed _ loaded raw (List.mem_of_getElem? hi)
      · exact hsealed
  · intro j hj
    rw [List.length_set]
    exact h.bounded j hj
  · intro j call' phase' hj hphase
    rcases getElem?_set_cases hj with ⟨rfl, heq⟩ | ⟨-, hj⟩
    · obtain ⟨rfl, rfl⟩ := Prod.mk.inj heq
      exact h.early i _ phase hi (hearly hphase)
    · exact h.early j call' phase' hj hphase
  · intro j call' phase' hj hphase
    rcases getElem?_set_cases hj with ⟨rfl, heq⟩ | ⟨-, hj⟩
    · obtain ⟨rfl, rfl⟩ := Prod.mk.inj heq
      exact h.late i _ phase hi (hlate hphase)
    · exact h.late j call' phase' hj hphase

/-- **A write that lands in time** applies its call to what is there. -/
theorem State.Ok.land (h : s.Ok opens initial) {i : ℕ} {loaded : store.Content} {raw : E}
    (hi : s.calls[i]? = some (call, .writing loaded raw))
    (htimely : timely opens s (.event i .write) = true) :
    State.content opens ⟨some raw, s.calls.set i (call, .written), s.landed ++ [i]⟩ =
        (s.content opens).map call.apply ∧
      State.Ok opens initial ⟨some raw, s.calls.set i (call, .written), s.landed ++ [i]⟩ := by
  have hsame : (s.content opens).map call.apply = some (call.apply loaded) := by
    simpa only [timely, hi, decide_eq_true_eq] using htimely
  have hcontent : State.content opens ⟨some raw, s.calls.set i (call, .written), s.landed ++ [i]⟩ =
      (s.content opens).map call.apply := by
    show (opens raw).map decode = _
    rw [h.sealed call loaded raw (List.mem_of_getElem? hi), hsame, Option.map_some, decode_encode]
  have hmade : s.made[i]? = some call := by
    show (List.map Prod.fst s.calls)[i]? = some call
    rw [List.getElem?_map, hi]
    rfl
  have hnew : i ∉ s.landed := h.early i call _ hi trivial
  refine ⟨hcontent, ?_, ?_, ?_, ?_, ?_, ?_⟩
  · have horder : State.order ⟨some raw, s.calls.set i (call, .written), s.landed ++ [i]⟩ =
        s.order ++ [call] := by
      show List.filterMap _ (s.landed ++ [i]) = _
      unfold State.made
      rw [map_fst_set hi, List.filterMap_append]
      show s.order ++ List.filterMap (fun i => s.made[i]?) [i] = _
      rw [List.filterMap_cons, hmade]
      rfl
    rw [hcontent, horder, h.content, Option.map_map]
    refine congrArg (Option.map · initial) (funext fun content => ?_)
    exact (applyAll_concat s.order call content).symm
  · intro call' loaded' raw' hmem
    rcases List.mem_or_eq_of_mem_set hmem with hmem | heq
    · exact h.sealed call' loaded' raw' hmem
    · cases heq
  · intro j hj
    show j < (s.calls.set i (call, .written)).length
    rw [List.length_set]
    rcases List.mem_append.mp hj with hj | hj
    · exact h.bounded j hj
    · rw [List.mem_singleton.mp hj]
      exact (List.getElem?_eq_some_iff.mp hi).1
  · rw [List.nodup_append]
    refine ⟨h.nodup, by simp, ?_⟩
    intro j hj k hk
    rw [List.mem_singleton.mp hk]
    rintro rfl
    exact hnew hj
  · intro j call' phase' hj hphase hlanded
    rcases getElem?_set_cases hj with ⟨-, heq⟩ | ⟨hne, hj⟩
    · cases heq
      cases hphase
    · rcases List.mem_append.mp hlanded with hlanded | hlanded
      · exact h.early j call' phase' hj hphase hlanded
      · exact hne (List.mem_singleton.mp hlanded).symm
  · intro j call' phase' hj hphase
    rcases getElem?_set_cases hj with ⟨rfl, -⟩ | ⟨-, hj⟩
    · exact List.mem_append_right _ (List.mem_singleton.mpr rfl)
    · exact List.mem_append_left _ (h.late j call' phase' hj hphase)

/-! ## Nothing is lost -/

/-- Notes stay, and those that are spent stay spent; ghosts stay, by their addresses; cursors stay. -/
def Grows : ∀ {store : Store}, store.Content → store.Content → Prop
  | .notes, before, after => ∃ kept more : List PoolNote, after = List.append kept more ∧
      List.Forall₂ (fun n n' => n' = n ∨ n' = { n with spent := true }) before kept
  | .vault, before, after => ∀ entry : GhostEntryLike, List.Mem entry before →
      ∃ entry' : GhostEntryLike, List.Mem entry' after ∧ entry'.stealthAddress = entry.stealthAddress
  | .scan, before, after => ∀ identity : Str, identity ∈ List.map Prod.fst before →
      identity ∈ List.map Prod.fst after

theorem grows_refl (content : store.Content) : Grows content content := by
  cases store with
  | notes => exact ⟨content, [], (List.append_nil _).symm, List.forall₂_same.mpr fun _ _ => .inl rfl⟩
  | vault => exact fun entry hentry => ⟨entry, hentry, rfl⟩
  | scan => exact fun _ h => h

theorem grows_apply (call : Call store) (content : store.Content) : Grows content (call.apply content) := by
  cases call with
  | add note => exact ⟨content, [note], rfl, List.forall₂_same.mpr fun _ _ => .inl rfl⟩
  | markSpent commitment =>
    refine ⟨_, [], (List.append_nil _).symm, ?_⟩
    refine List.forall₂_map_right_iff.mpr (List.forall₂_same.mpr fun n _ => ?_)
    split_ifs
    · exact .inr rfl
    · exact .inl rfl
  | saveGhost entry =>
    intro old hold
    exact address_mem_putGhost hold
  | setCursor ledger identity =>
    intro identity' hmem
    exact Dict.mem_keys_set.mpr (.inr hmem)

theorem State.Ok.step (h : s.Ok opens initial) {input : Input store E}
    (htimely : timely opens s input = true) :
    State.Ok opens initial (s.step opens input) ∧ ∀ before, s.content opens = some before →
      ∃ after, (s.step opens input).content opens = some after ∧ Grows before after := by
  rcases s.step_cases opens input with ⟨call, -, hstep⟩ | ⟨-, hstep⟩ |
    ⟨i, call, phase, event, -, hi, hwrites, hstep⟩ | ⟨i, call, loaded, raw, rfl, hi, hstep⟩
  all_goals rw [hstep]
  · exact ⟨h.start call, fun before hbefore => ⟨before, hbefore, grows_refl before⟩⟩
  · exact ⟨h, fun before hbefore => ⟨before, hbefore, grows_refl before⟩⟩
  · exact ⟨h.move hi hwrites, fun before hbefore => ⟨before, hbefore, grows_refl before⟩⟩
  · obtain ⟨hcontent, hok⟩ := h.land hi htimely
    refine ⟨hok, fun before hbefore => ⟨call.apply before, ?_, grows_apply call before⟩⟩
    rw [hcontent, hbefore, Option.map_some]

theorem State.made_step (s : State store E) (input : Input store E) :
    (s.step opens input).made = s.made ++ callsOf [input] := by
  unfold State.made
  rcases s.step_cases opens input with ⟨call, rfl, hstep⟩ | ⟨hcalls, hstep⟩ |
    ⟨i, call, phase, event, hcalls, hi, -, hstep⟩ | ⟨i, call, loaded, raw, rfl, hi, hstep⟩
  · rw [hstep, List.map_append]
    rfl
  · rw [hstep, hcalls, List.append_nil]
  · rw [hstep, hcalls, List.append_nil, map_fst_set hi]
  · rw [hstep, map_fst_set hi]
    exact (List.append_nil _).symm

variable (opens) in
theorem made_run (s : State store E) (inputs : List (Input store E)) :
    ((machine opens).final s inputs).made = s.made ++ callsOf inputs := by
  induction inputs generalizing s with
  | nil => exact (List.append_nil _).symm
  | cons input inputs ih =>
    show ((machine opens).final (s.step opens input) inputs).made = _
    rw [ih, State.made_step, List.append_assoc]
    exact congrArg (s.made ++ ·) (@List.filterMap_append _ _ [input] _ _).symm

/-- No call is applied twice. -/
theorem State.Ok.order_subperm (h : s.Ok opens initial) : s.order.Subperm s.made := by
  have hlanded : s.landed.Subperm (List.range s.made.length) := by
    refine List.subperm_of_subset h.nodup fun i hi => List.mem_range.mpr ?_
    show i < (List.map Prod.fst s.calls).length
    rw [List.length_map]
    exact h.bounded i hi
  obtain ⟨landed, hperm, hsub⟩ := hlanded
  refine ⟨landed.filterMap fun i => s.made[i]?, hperm.filterMap _, ?_⟩
  have hmade := hsub.filterMap fun i => s.made[i]?
  rwa [filterMap_range_getElem?] at hmade

/-- When all calls have returned, all are applied. -/
theorem State.Ok.order_perm (h : s.Ok opens initial) (hreturned : ∀ c ∈ s.calls, c.2 = .returned) :
    s.order.Perm s.made := by
  have hlength : s.made.length = s.calls.length := List.length_map _
  have hlanded : s.landed.Perm (List.range s.made.length) := by
    refine (List.perm_ext_iff_of_nodup h.nodup List.nodup_range).mpr fun i => ?_
    rw [List.mem_range, hlength]
    constructor
    · exact h.bounded i
    · intro hi
      have hget : s.calls[i]? = some s.calls[i] := List.getElem?_eq_getElem hi
      refine h.late i s.calls[i].1 s.calls[i].2 hget ?_
      rw [hreturned _ (List.getElem_mem hi)]
      trivial
  have hmade := hlanded.filterMap fun i => s.made[i]?
  rwa [filterMap_range_getElem?] at hmade

/-! ## Calls that nothing comes between -/

variable (opens) in
/-- What the call has found out is what this blob says. -/
def Phase.Knows (blob : Option E) : Phase store E → Prop
  | .reading | .threw => False
  | .fetched raw => raw = blob
  | .decrypting raw => blob = some raw
  | .encrypting loaded | .writing loaded _ => State.content opens ⟨blob, [], []⟩ = some loaded
  | .written | .returned => True

/-- Once a call has read, it learns nothing from what is there later. -/
theorem Phase.Knows.next {known : Option E} (h : phase.Knows opens known) :
    phase.next opens call blob event = .threw ∨ (phase.next opens call blob event).Knows opens known := by
  unfold Phase.next
  split
  case h_1 => exact h.elim
  case h_2 =>
    obtain rfl : none = known := h
    exact .inr rfl
  case h_3 raw =>
    obtain rfl : some raw = known := h
    exact .inr rfl
  case h_4 raw =>
    obtain rfl : known = some raw := h
    split
    next json hjson =>
      right
      show (opens raw).map decode = some (decode json)
      rw [hjson, Option.map_some]
    next => exact .inl rfl
  case h_5 =>
    split_ifs
    · exact .inr h
    · exact .inr h
  case h_9 => exact .inl rfl
  case h_10 => exact .inr h
  all_goals exact .inr trivial

/-- Where a call is after a step: where it was, or where the step has moved it. -/
theorem State.calls_step {input : Input store E} {i : ℕ}
    (h : (s.step opens input).calls[i]? = some (call, phase)) :
    phase = .reading ∨ s.calls[i]? = some (call, phase) ∨
      ∃ before event, s.calls[i]? = some (call, before) ∧ input = .event i event ∧
        phase = before.next opens call s.blob event := by
  cases input with
  | call new =>
    rcases lt_or_ge i s.calls.length with hlt | hge
    · right; left
      exact (List.getElem?_append_left hlt).symm.trans h
    · left
      have hlast : [(new, Phase.reading)][i - s.calls.length]? = some (call, phase) :=
        (List.getElem?_append_right hge).symm.trans h
      exact congrArg Prod.snd (List.mem_singleton.mp (List.mem_of_getElem? hlast))
  | event j event =>
    right
    rcases hcall : s.calls[j]? with - | ⟨call', before⟩
    · left
      simpa only [step, hcall] using h
    · have hcalls : (s.step opens (.event j event)).calls =
          s.calls.set j (call', before.next opens call' s.blob event) := by
        simp only [step, hcall]
        split
        · rfl
        · rfl
      rw [hcalls] at h
      rcases getElem?_set_cases h with ⟨rfl, heq⟩ | ⟨-, h⟩
      · obtain ⟨rfl, rfl⟩ := Prod.mk.inj heq
        exact .inr ⟨before, event, hcall, rfl, rfl⟩
      · exact .inl h

/-- A call that is past its read has read at some point of the run, and knows what was there then. -/
theorem read_before {inputs : List (Input store E)} {i : ℕ}
    (hi : ((machine opens).final ⟨blob, [], []⟩ inputs).calls[i]? = some (call, phase))
    (hreading : phase ≠ .reading) (hthrew : phase ≠ .threw) :
    ∃ before mid, inputs = before ++ .event i .read :: mid ∧
      ((machine opens).final ⟨blob, [], []⟩ before).calls[i]? = some (call, .reading) ∧
      phase.Knows opens ((machine opens).final ⟨blob, [], []⟩ before).blob := by
  induction inputs using List.reverseRecOn generalizing phase with
  | nil => cases hi
  | append_singleton inputs input ih =>
    rw [Machine.final_snoc] at hi
    rcases State.calls_step hi with rfl | hsame | ⟨start, event, hstart, rfl, rfl⟩
    · exact absurd rfl hreading
    · obtain ⟨before, mid, rfl, hrest⟩ := ih hsame hreading hthrew
      exact ⟨before, mid ++ [input], List.append_assoc _ _ _, hrest⟩
    · by_cases hfirst : start = .reading
      · subst hfirst
        cases event with
        | read => exact ⟨inputs, [], rfl, hstart, rfl⟩
        | reject => exact absurd rfl hthrew
        | _ => exact absurd rfl hreading
      · have hgoes : start ≠ .threw := by
          rintro rfl
          apply hthrew
          cases event <;> rfl
        obtain ⟨before, mid, rfl, hread, hknows⟩ := ih hstart hfirst hgoes
        refine ⟨before, mid ++ [.event i event], List.append_assoc _ _ _, hread, ?_⟩
        exact hknows.next.resolve_left hthrew

/-- What is stored changes only when a write lands. -/
theorem blob_of_landed {inputs : List (Input store E)}
    (h : ((machine opens).final s inputs).landed = s.landed) :
    ((machine opens).final s inputs).blob = s.blob := by
  refine ((machine opens).stable (J := fun t => s.landed <+: t.landed ∧
    (t.landed = s.landed → t.blob = s.blob)) ?_ ⟨List.prefix_refl _, fun _ => rfl⟩ inputs).2 h
  rintro t input ⟨hgrown, hsame⟩
  rcases t.step_cases opens input with ⟨call, -, hstep⟩ | ⟨-, hstep⟩ | ⟨i, call, phase, event, -, -, -, hstep⟩ |
    ⟨i, call, loaded, raw, -, -, hstep⟩
  all_goals
    show s.landed <+: (t.step opens input).landed ∧
      ((t.step opens input).landed = s.landed → (t.step opens input).blob = s.blob)
    rw [hstep]
  · exact ⟨hgrown, hsame⟩
  · exact ⟨hgrown, hsame⟩
  · exact ⟨hgrown, hsame⟩
  · refine ⟨hgrown.trans (List.prefix_append _ _), fun heq => ?_⟩
    have hlength : (t.landed ++ [i]).length = s.landed.length := congrArg List.length heq
    have hle := hgrown.length_le
    rw [List.length_append, List.length_singleton] at hlength
    omega

variable (opens) in
/-- Between the read of a call and its write no other write lands. -/
def Undisturbed (blob : Option E) (inputs : List (Input store E)) : Prop :=
  ∀ before i mid later call loaded raw,
    inputs = before ++ .event i .read :: mid ++ .event i .write :: later →
    ((machine opens).final ⟨blob, [], []⟩ before).calls[i]? = some (call, .reading) →
    ((machine opens).final ⟨blob, [], []⟩ (before ++ .event i .read :: mid)).calls[i]? =
      some (call, .writing loaded raw) →
    ((machine opens).final ⟨blob, [], []⟩ (before ++ .event i .read :: mid)).landed =
      ((machine opens).final ⟨blob, [], []⟩ before).landed

/-- **Where nothing comes between**, every write lands in time. -/
theorem Undisturbed.timely {inputs : List (Input store E)} (h : Undisturbed opens blob inputs) :
    ∀ e ∈ (machine opens).trace ⟨blob, [], []⟩ inputs, timely opens e.pre e.input = true := by
  intro e he
  obtain ⟨front, later, hinputs, hstep⟩ := (machine opens).mem_trace he
  have hpre : e.pre = (machine opens).final ⟨blob, [], []⟩ front := congrArg Machine.Step.pre hstep
  rw [hpre]
  unfold Store.timely
  split
  next i hinput =>
    split
    next call loaded raw hi =>
      obtain ⟨before, mid, rfl, hread, hknows⟩ := read_before hi nofun nofun
      rw [hinput] at hinputs
      have hlanded := h before i mid later call loaded raw hinputs hread hi
      rw [(machine opens).final_append] at hlanded
      have hblob := blob_of_landed hlanded
      rw [← (machine opens).final_append] at hblob
      have hcontent : State.content opens
          ((machine opens).final ⟨blob, [], []⟩ (before ++ .event i .read :: mid)) = some loaded := by
        unfold State.content
        rw [hblob]
        exact hknows
      rw [hcontent, Option.map_some, decide_eq_true rfl]
    next => rfl
  next => rfl

variable (opens) in
/-- The store ends up as if the calls had been made one by one, and on the way nothing goes. -/
structure Lossless (blob : Option E) (inputs : List (Input store E)) : Prop where
  serial : ∃ order : List (Call store), order.Subperm (callsOf inputs) ∧
    ((∀ c ∈ ((machine opens).final ⟨blob, [], []⟩ inputs).calls, c.2 = .returned) →
      order.Perm (callsOf inputs)) ∧
    ((machine opens).final ⟨blob, [], []⟩ inputs).content opens =
      (State.content opens ⟨blob, [], []⟩).map (applyAll order)
  grows : ∀ e ∈ (machine opens).trace ⟨blob, [], []⟩ inputs, ∀ before,
    e.pre.content opens = some before →
      ∃ after, (e.pre.step opens e.input).content opens = some after ∧ Grows before after

end Calls

/-- **When no update is lost.** As long as every write lands in time, the store holds what the calls make
of it one by one: all of them, each once, when all have returned. And at each step notes, ghosts and
cursors stay, and so do the marks of notes that are spent. -/
theorem no_update_lost (store : Store) {E : Type} (opens : E → Option store.Json) (blob : Option E)
    (inputs : List (Input store E))
    (htimely : ∀ e ∈ (machine opens).trace ⟨blob, [], []⟩ inputs, timely opens e.pre e.input = true) :
    Lossless opens blob inputs := by
  have hempty : State.Ok opens (State.content opens ⟨blob, [], []⟩) ⟨blob, [], []⟩ := by
    refine ⟨?_, nofun, nofun, List.nodup_nil, nofun, nofun⟩
    show _ = Option.map id _
    rw [Option.map_id, id]
  obtain ⟨hok, hgrows⟩ := (machine opens).invariant_of_steps
    (P := fun e => timely opens e.pre e.input = true)
    (I := fun t s => State.Ok opens (State.content opens ⟨blob, [], []⟩) s ∧
      ∀ e ∈ t, ∀ before, e.pre.content opens = some before →
        ∃ after, (e.pre.step opens e.input).content opens = some after ∧ Grows before after)
    ⟨hempty, nofun⟩ (by
      rintro t s input ⟨hok, hgrows⟩ hinput
      obtain ⟨hnext, hstep⟩ := hok.step hinput
      refine ⟨hnext, fun e he => ?_⟩
      rcases List.mem_append.mp he with he | he
      · exact hgrows e he
      · rw [List.mem_singleton.mp he]
        exact hstep) inputs htimely
  have hmade : ((machine opens).final ⟨blob, [], []⟩ inputs).made = callsOf inputs :=
    made_run opens ⟨blob, [], []⟩ inputs
  refine ⟨⟨_, ?_, ?_, hok.content⟩, hgrows⟩
  · rw [← hmade]
    exact hok.order_subperm
  · rw [← hmade]
    exact hok.order_perm

/-! ## Two notes -/

def demoNote (commitment : Str) : PoolNote :=
  { cluster := [], value := ['1'], scope := 0, leafIndex := 0, nullifier := ['2'], secret := ['3'],
    commitment := commitment, spent := false, createdAt := 0 }

/-- Envelopes that anybody can open. -/
def demoOpens : List PoolNote → Option (Json .notes) := some

/-- Two notes are added one after the other; the second call is made before the first has ended. -/
def oneByOne : List (Input .notes (List PoolNote)) :=
  [.call (.add (demoNote ['a'])), .event 0 .read, .event 0 .resume, .event 0 (.sealed [demoNote ['a']]),
   .call (.add (demoNote ['b'])), .event 0 .write, .event 1 .read, .event 0 .resume, .event 1 .resume,
   .event 1 .resume, .event 1 (.sealed [demoNote ['a'], demoNote ['b']]), .event 1 .write,
   .event 1 .resume]

theorem no_update_lost_one_by_one :
    (∀ e ∈ (machine demoOpens).trace ⟨none, [], []⟩ oneByOne, timely demoOpens e.pre e.input = true) ∧
      Lossless demoOpens none oneByOne := by
  have htimely : ∀ e ∈ (machine demoOpens).trace ⟨none, [], []⟩ oneByOne,
      timely demoOpens e.pre e.input = true := by decide
  exact ⟨htimely, no_update_lost .notes demoOpens none oneByOne htimely⟩

/-- The second call reads before the first has written. -/
def overlapping : List (Input .notes (List PoolNote)) :=
  [.call (.add (demoNote ['a'])), .call (.add (demoNote ['b'])), .event 0 .read, .event 1 .read,
   .event 0 .resume, .event 1 .resume, .event 0 (.sealed [demoNote ['a']]),
   .event 1 (.sealed [demoNote ['b']]), .event 0 .write, .event 1 .write, .event 0 .resume,
   .event 1 .resume]

/-- Two notes were added, both calls have returned, and one note is gone. -/
theorem updates_not_never_lost :
    ¬ ∀ inputs : List (Input .notes (List PoolNote)), Lossless demoOpens none inputs := by
  intro h
  obtain ⟨order, -, hperm, hcontent⟩ := (h overlapping).serial
  have hcalls : ((machine demoOpens).final ⟨none, [], []⟩ overlapping).calls =
      [(.add (demoNote ['a']), .returned), (.add (demoNote ['b']), .returned)] := rfl
  have hreturned : ∀ c ∈ ((machine demoOpens).final ⟨none, [], []⟩ overlapping).calls,
      c.2 = .returned := by
    rw [hcalls]
    simp
  have hadds : ∀ call ∈ order, ∃ note, call = .add note := by
    intro call hcall
    have hmem := (hperm hreturned).mem_iff.mp hcall
    rcases List.mem_cons.mp hmem with rfl | hmem
    · exact ⟨_, rfl⟩
    · exact ⟨_, List.mem_singleton.mp hmem⟩
  obtain ⟨first, second, rfl⟩ := List.length_eq_two.mp (hperm hreturned).length_eq
  obtain ⟨note, rfl⟩ := hadds first List.mem_cons_self
  obtain ⟨note', rfl⟩ := hadds second (List.mem_cons_of_mem _ List.mem_cons_self)
  have hstored : some [demoNote ['b']] = some [note, note'] := hcontent
  cases hstored

end Store

end OpaqueStellar.Wallet
