import Mathlib.Data.Char
import Mathlib.Data.List.Lex
import Mathlib.Data.Nat.Digits.Defs
import OpaqueStellar.Publisher.Service

/-! # The inbox on disk

`FileStore` of `publisher/src/store.ts`, with the requests and the ticks that work on it at the same
time. A tick reads the inbox when it starts and archives it when it ends, and requests are answered
in between. Each of these two moments is one step, as nothing is awaited during it.

A commitment is a file, whose name is made from the clock and its identifier, and a tick archives by
identifier. So a file can be written over, and one can be archived by a tick that did not read it.
`acknowledged_kept` is the rest: as long as neither happens, nothing that was acknowledged is lost. -/

namespace OpaqueStellar.Publisher

open OpaqueStellar.Lib OpaqueStellar.Schemas OpaqueStellar.Soroban

/-! ## Files -/

/-- A file of the inbox. The serial number is not part of the file: it tells apart what was written
at different times under the same name. -/
structure InboxFile where
  name : Str
  serial : ℕ
  commitment : LeafCommitment
  deriving DecidableEq

/-- The tick that is running: what it loaded and what it read. -/
structure RunningTick where
  state : Option PublisherState
  read : List InboxFile
  deriving DecidableEq

structure FileStore where
  state : Option PublisherState := none
  inbox : List InboxFile := []
  archive : List InboxFile := []
  quarantine : List InboxFile := []
  -- how many submissions were acknowledged
  acknowledged : ℕ := 0
  running : Option RunningTick := none
  deriving DecidableEq

/-- The characters that `/[^a-z0-9_.-]/gi` leaves alone. -/
def isSafe (c : Char) : Bool := c.isAlphanum || c == '_' || c == '.' || c == '-'

/-- Every other code unit becomes an underscore; characters beyond the basic plane have two. -/
def safeId (id : Str) : Str :=
  id.flatMap fun c => if isSafe c then [c] else if c.toNat < 0x10000 then ['_'] else ['_', '_']

def base36Digit (d : ℕ) : Char := if d < 10 then Char.ofNat (48 + d) else Char.ofNat (87 + d)

/-- `toString(36)` -/
def base36 (n : ℕ) : Str :=
  if n = 0 then ['0'] else ((Nat.digits 36 n).map base36Digit).reverse

def inboxName (now : ℕ) (id : Str) : Str := base36 now ++ ['_'] ++ safeId id ++ ".json".toList

/-- A file is written in the place of one of the same name. -/
def writeAtomic (files : List InboxFile) (file : InboxFile) : List InboxFile :=
  files.filter (fun f => f.name ≠ file.name) ++ [file]

/-- `validateLeafCommitment`, of a commitment that was normalised and written before. Its leaf was
checked as it was spelled, and its identifier only if it was given as a string. -/
def storedErrors (c : LeafCommitment) : List String :=
  (if BN254_MODULUS ≤ c.leaf.toNat then
    ["leaf value must be a valid BN254 field element (0 <= value < modulus)"] else []) ++
  if c.id = [] then ["id must not be empty"] else []

def InboxFile.valid (f : InboxFile) : Bool := (storedErrors f.commitment).isEmpty

/-! ## Operations -/

def writeInbox (maxInboxSize now : ℕ) (s : FileStore) (c : LeafCommitment) :
    Option (FileStore × InboxFile) :=
  if maxInboxSize ≤ s.inbox.length then none
  else
    let file := ⟨inboxName now c.id, s.acknowledged, c⟩
    some ({ s with inbox := writeAtomic s.inbox file, acknowledged := s.acknowledged + 1 }, file)

/-- The commitments in the order of their file names; files that do not validate are put aside. -/
def readInbox (s : FileStore) : FileStore × List InboxFile :=
  ({ s with
      inbox := s.inbox.filter (·.valid)
      quarantine := s.quarantine ++ s.inbox.filter fun f => !f.valid },
    (s.inbox.mergeSort fun f g => decide (f.name ≤ g.name)).filter (·.valid))

def archiveInbox (s : FileStore) (ids : List Str) : FileStore :=
  if ids = [] then s
  else
    { s with
      inbox := s.inbox.filter fun f => f.valid && !ids.contains f.commitment.id
      archive := s.archive ++ s.inbox.filter fun f => f.valid && ids.contains f.commitment.id
      quarantine := s.quarantine ++ s.inbox.filter fun f => !f.valid }

/-! ## Requests and ticks -/

inductive FileInput where
  -- a submission, with the clock and the answers of the chain
  | post (now : ℕ) (attestation : Option (Option OnChainAttestation)) (ledger : Option ℕ)
      (commitment : LeafCommitment)
  -- a tick loads the state and reads the inbox, unless one is running
  | start
  -- what the chain answered the tick that is running, which then saves and archives, or fails
  | finish (adapter : Adapter)

inductive FileOutput where
  | posted (r : Except (ℕ × String) InboxFile)
  | started (read : List InboxFile)
  | finished (result : Option (Except String PublisherTickResult))
  deriving DecidableEq

section Step

variable (crypto : Crypto) (hash2 : Scalar → Scalar → Scalar) (maxInboxSize : ℕ)

/-- The checks before a commitment is queued are those of `post`, whatever is in the inbox. -/
def postFile (s : FileStore) (now : ℕ) (attestation : Option (Option OnChainAttestation))
    (ledger : Option ℕ) (c : LeafCommitment) : Except (ℕ × String) (FileStore × InboxFile) :=
  match post crypto {} attestation ledger c with
  | .error e => .error e
  | .ok _ =>
      match writeInbox maxInboxSize now s c with
      | none => .error (429, "inbox full")
      | some (s, file) => .ok (s, file)

def RunningTick.store (r : RunningTick) : Store where
  state := r.state
  inbox := r.read.map (·.commitment)

/-- The end of a tick. One that failed archives nothing and hands back the state that it loaded. -/
def finishTick (s : FileStore) (r : RunningTick) (adapter : Adapter) : FileStore :=
  let t := tick crypto hash2 adapter r.store
  archiveInbox { s with state := t.store.state, running := none } t.store.archived

def fileStep (s : FileStore) : FileInput → FileStore × FileOutput
  | .post now attestation ledger c =>
      match postFile crypto maxInboxSize s now attestation ledger c with
      | .ok (s, file) => (s, .posted (.ok file))
      | .error e => (s, .posted (.error e))
  | .start =>
      match s.running with
      | some _ => (s, .started [])
      | none =>
          let (s', read) := readInbox s
          ({ s' with running := some ⟨s.state, read⟩ }, .started read)
  | .finish adapter =>
      match s.running with
      | none => (s, .finished none)
      | some r =>
          (finishTick crypto hash2 s r adapter,
            .finished (some (tick crypto hash2 adapter r.store).result))

def fileMachine : Machine FileStore FileInput FileOutput := ⟨fileStep crypto hash2 maxInboxSize⟩

end Step

abbrev FileStep := Machine.Step FileStore FileInput FileOutput

/-! ## What the operations do to the inbox -/

theorem valid_iff {f : InboxFile} :
    f.valid = true ↔ f.commitment.leaf.toNat < BN254_MODULUS ∧ f.commitment.id ≠ [] := by
  unfold InboxFile.valid storedErrors
  split_ifs with hleaf hid hid
  · simp [not_lt.mpr hleaf]
  · simp [not_lt.mpr hleaf]
  · simp [hid]
  · simp [hid, not_le.mp hleaf]

section Spec

variable {crypto : Crypto} {hash2 : Scalar → Scalar → Scalar} {maxInboxSize : ℕ}

theorem postFile_eq_ok {s s' : FileStore} {now : ℕ}
    {attestation : Option (Option OnChainAttestation)} {ledger : Option ℕ} {c : LeafCommitment}
    {file : InboxFile}
    (h : postFile crypto maxInboxSize s now attestation ledger c = .ok (s', file)) :
    file = ⟨inboxName now c.id, s.acknowledged, c⟩ ∧ s'.inbox = writeAtomic s.inbox file := by
  unfold postFile at h
  split at h
  · cases h
  · unfold writeInbox at h
    split at h
    · cases h
    · next heq =>
        split at heq
        · cases heq
        · cases heq
          cases h
          exact ⟨rfl, rfl⟩

/-- A file under a name that is not taken is added to the others. -/
theorem writeAtomic_of_fresh {files : List InboxFile} {file : InboxFile}
    (h : file.name ∉ files.map (·.name)) : writeAtomic files file = files ++ [file] := by
  unfold writeAtomic
  rw [List.filter_eq_self.mpr]
  intro f hf
  apply decide_eq_true
  intro hname
  exact h (hname ▸ List.mem_map_of_mem hf)

/-- What a tick archives are the identifiers it read, if it completes. -/
theorem archived_tick (crypto : Crypto) (hash2 : Scalar → Scalar → Scalar) (adapter : Adapter)
    (r : RunningTick) :
    (tick crypto hash2 adapter r.store).store.archived = [] ∨
      Completes crypto hash2 adapter r.store ∧
        (tick crypto hash2 adapter r.store).store.archived = r.read.map (·.commitment.id) := by
  rcases tick_cases crypto toScalar (treeHash hash2) DEFAULT_MIN_LEAVES adapter r.store with
    ⟨hsame, -⟩ | ⟨screened, hsaves⟩
  · exact .inl (congrArg Store.archived hsame)
  · obtain ⟨state, -, hstore⟩ := hsaves.store
    refine .inr ⟨⟨screened, hsaves⟩, (congrArg Store.archived hstore).trans ?_⟩
    show [] ++ (r.read.map (·.commitment)).map (·.id) = _
    rw [List.nil_append, List.map_map]
    rfl

/-- **The end of a tick** takes a file away only if the tick completes and has read its identifier. -/
theorem mem_finishTick {s : FileStore} {r : RunningTick} {adapter : Adapter} {f : InboxFile}
    (hf : f ∈ s.inbox) (hvalid : f.valid = true) :
    f ∈ (finishTick crypto hash2 s r adapter).inbox ∨
      Completes crypto hash2 adapter r.store ∧ f.commitment.id ∈ r.read.map (·.commitment.id) := by
  unfold finishTick archiveInbox
  dsimp only
  rcases archived_tick crypto hash2 adapter r with hnone | ⟨hcompletes, hids⟩
  · rw [hnone, if_pos rfl]
    exact .inl hf
  · split_ifs with hempty
    · exact .inl hf
    · by_cases hid : f.commitment.id ∈ r.read.map (·.commitment.id)
      · exact .inr ⟨hcompletes, hid⟩
      · refine .inl (List.mem_filter.mpr ⟨hf, ?_⟩)
        rw [hids, hvalid]
        simpa using hid

theorem finishTick_subset {s : FileStore} {r : RunningTick} {adapter : Adapter} :
    (finishTick crypto hash2 s r adapter).inbox ⊆ s.inbox := by
  unfold finishTick archiveInbox
  dsimp only
  split_ifs
  · exact List.Subset.refl _
  · exact fun f hf => (List.mem_filter.mp hf).1

/-! ## A tick that nothing interrupts -/

/-- The commitments of the inbox in the order in which they are read. -/
def FileStore.store (s : FileStore) : Store where
  state := s.state
  inbox := (s.inbox.mergeSort fun f g => decide (f.name ≤ g.name)).map (·.commitment)

/-- The tick that has just started. -/
theorem running_start (crypto : Crypto) (hash2 : Scalar → Scalar → Scalar) (maxInboxSize : ℕ)
    {s : FileStore} (hidle : s.running = none) (hvalid : ∀ f ∈ s.inbox, f.valid = true) :
    ∃ r, (fileStep crypto hash2 maxInboxSize s .start).1 = { s with running := some r } ∧
      r.store = s.store ∧ ∀ f, f ∈ r.read ↔ f ∈ s.inbox := by
  have hinbox : s.inbox.filter (·.valid) = s.inbox := List.filter_eq_self.mpr hvalid
  have hnone : s.inbox.filter (fun f => !f.valid) = [] := by
    apply List.filter_eq_nil_iff.mpr
    intro f hf
    rw [hvalid f hf]
    decide
  have hread : (readInbox s).2 = s.inbox.mergeSort fun f g => decide (f.name ≤ g.name) := by
    apply List.filter_eq_self.mpr
    intro f hf
    exact hvalid f (List.mem_mergeSort.mp hf)
  refine ⟨⟨s.state, (readInbox s).2⟩, ?_, ?_, ?_⟩
  · simp only [fileStep, hidle, readInbox, hinbox, hnone, List.append_nil]
  · rw [hread]
    rfl
  · intro f
    rw [hread]
    exact List.mem_mergeSort

theorem state_archiveInbox (s : FileStore) (ids : List Str) :
    (archiveInbox s ids).state = s.state := by
  unfold archiveInbox
  split_ifs
  · rfl
  · rfl

/-- Archiving all identifiers of the inbox empties it. -/
theorem inbox_archiveInbox {s : FileStore} {ids : List Str}
    (h : ∀ f ∈ s.inbox, f.commitment.id ∈ ids) : (archiveInbox s ids).inbox = [] := by
  unfold archiveInbox
  split_ifs with hempty
  · apply List.eq_nil_iff_forall_not_mem.mpr
    intro f hf
    have hid := h f hf
    rw [hempty] at hid
    cases hid
  · apply List.filter_eq_nil_iff.mpr
    intro f hf
    simp [h f hf]

/-- **Without requests in between**, the start and the end of a tick together are the tick of the
service, on the commitments in the order of their file names. -/
theorem fileTick_eq_tick (crypto : Crypto) (hash2 : Scalar → Scalar → Scalar) (maxInboxSize : ℕ)
    {s : FileStore} (hidle : s.running = none) (hvalid : ∀ f ∈ s.inbox, f.valid = true)
    (adapter : Adapter) :
    let s' := (fileMachine crypto hash2 maxInboxSize).final s [.start, .finish adapter]
    s'.state = (tick crypto hash2 adapter s.store).store.state ∧
      s'.store.inbox = (tick crypto hash2 adapter s.store).store.inbox := by
  intro s'
  obtain ⟨r, hstart, hstore, hread⟩ := running_start crypto hash2 maxInboxSize hidle hvalid
  have hs' : s' = archiveInbox
      { s with state := (tick crypto hash2 adapter s.store).store.state, running := none }
      (tick crypto hash2 adapter s.store).store.archived := by
    show (fileStep crypto hash2 maxInboxSize (fileStep crypto hash2 maxInboxSize s .start).1
      (.finish adapter)).1 = _
    rw [hstart, ← hstore]
    rfl
  refine ⟨?_, ?_⟩
  · rw [hs', state_archiveInbox]
  · rcases tick_cases crypto toScalar (treeHash hash2) DEFAULT_MIN_LEAVES adapter s.store with
      ⟨hsame, -⟩ | ⟨screened, hsaves⟩
    · have hsame' : (tick crypto hash2 adapter s.store).store = s.store := hsame
      have hnone : s.store.archived = [] := rfl
      rw [hs', hsame', hnone, archiveInbox, if_pos rfl]
      rfl
    · obtain ⟨state, -, hfinish⟩ := hsaves.store
      have hfinish' : (tick crypto hash2 adapter s.store).store = s.store.finish state := hfinish
      have hempty : s'.inbox = [] := by
        rw [hs', hfinish']
        apply inbox_archiveInbox
        intro f hf
        show f.commitment.id ∈ [] ++ s.store.inbox.map (·.id)
        rw [List.nil_append, ← hstore]
        exact List.mem_map_of_mem (List.mem_map_of_mem ((hread f).mpr hf))
      rw [hfinish', inbox_finish, FileStore.store, hempty]
      simp only [List.mergeSort_nil, List.map_nil]

/-! ## Nothing that was acknowledged is lost -/

/-- In this step a tick that had read the file came to its end, having screened everything it read. -/
def ScreenedBy (crypto : Crypto) (hash2 : Scalar → Scalar → Scalar) (e : FileStep)
    (file : InboxFile) : Prop :=
  ∃ adapter r, e.input = .finish adapter ∧ e.pre.running = some r ∧ file ∈ r.read ∧
    Completes crypto hash2 adapter r.store

structure NothingLost (crypto : Crypto) (hash2 : Scalar → Scalar → Scalar) (maxInboxSize : ℕ)
    (t : List FileStep) (s : FileStore) : Prop where
  /-- What was acknowledged is in the inbox until it has been read and screened. -/
  kept : ∀ e ∈ t, ∀ file, e.output = .posted (.ok file) →
    file ∈ s.inbox ∨ ∃ e' ∈ t, ScreenedBy crypto hash2 e' file
  /-- No submission writes over a file. -/
  notOverwritten : ∀ e ∈ t, ∀ file, e.output = .posted (.ok file) →
    ∀ f ∈ e.pre.inbox, f ∈ (fileStep crypto hash2 maxInboxSize e.pre e.input).1.inbox
  /-- No tick takes away a file that it did not read. -/
  archivesRead : ∀ e ∈ t, ∀ adapter, e.input = .finish adapter → ∀ f ∈ e.pre.inbox,
    f ∉ (fileStep crypto hash2 maxInboxSize e.pre e.input).1.inbox →
      ∃ r, e.pre.running = some r ∧ f ∈ r.read

/-- The condition on one step. A submission that is acknowledged has an identifier and a leaf below
the modulus, and its file name is not taken; and when a tick completes, the commitments with an
identifier that it read are those that it read. -/
def Undisturbed (crypto : Crypto) (hash2 : Scalar → Scalar → Scalar) (e : FileStep) : Prop :=
  (∀ now attestation ledger c file, e.input = .post now attestation ledger c →
    e.output = .posted (.ok file) →
      c.id ≠ [] ∧ c.leaf.toNat < BN254_MODULUS ∧
        inboxName now c.id ∉ e.pre.inbox.map (·.name)) ∧
  ∀ adapter r, e.input = .finish adapter → e.pre.running = some r →
    Completes crypto hash2 adapter r.store →
      ∀ f ∈ e.pre.inbox, f.commitment.id ∈ r.read.map (·.commitment.id) → f ∈ r.read

/-- What a step that meets the condition does to the inbox. -/
structure KeepsInbox (crypto : Crypto) (hash2 : Scalar → Scalar → Scalar) (e : FileStep)
    (s' : FileStore) : Prop where
  /-- A file stays, unless a tick that read it completes. -/
  stays : ∀ f ∈ e.pre.inbox, f ∈ s'.inbox ∨ ScreenedBy crypto hash2 e f
  /-- A submission that is acknowledged is there, and so is all that was there before. -/
  queued : ∀ file, e.output = .posted (.ok file) → file ∈ s'.inbox ∧ e.pre.inbox ⊆ s'.inbox
  valid : ∀ f ∈ s'.inbox, f.valid = true

/-- A step that acknowledges nothing and leaves the inbox alone. -/
theorem KeepsInbox.of_step {s s' : FileStore} {i : FileInput} {o : FileOutput}
    (hstep : fileStep crypto hash2 maxInboxSize s i = (s', o)) (hinbox : s'.inbox = s.inbox)
    (hvalid : ∀ f ∈ s.inbox, f.valid = true) (hnot : ∀ file, o ≠ .posted (.ok file)) :
    KeepsInbox crypto hash2 ((fileMachine crypto hash2 maxInboxSize).stepAt s i)
      (fileStep crypto hash2 maxInboxSize s i).1 := by
  rw [hstep]
  refine ⟨?_, ?_, ?_⟩
  · intro f hf
    exact .inl (hinbox.symm ▸ hf)
  · intro file hfile
    exact absurd ((congrArg Prod.snd hstep).symm.trans hfile) (hnot file)
  · intro f hf
    exact hvalid f (hinbox ▸ hf)

theorem keepsInbox_post {s : FileStore} (hvalid : ∀ f ∈ s.inbox, f.valid = true) {now : ℕ}
    {attestation : Option (Option OnChainAttestation)} {ledger : Option ℕ} {c : LeafCommitment}
    (h : Undisturbed crypto hash2
      ((fileMachine crypto hash2 maxInboxSize).stepAt s (.post now attestation ledger c))) :
    KeepsInbox crypto hash2
      ((fileMachine crypto hash2 maxInboxSize).stepAt s (.post now attestation ledger c))
      (fileStep crypto hash2 maxInboxSize s (.post now attestation ledger c)).1 := by
  cases hpost : postFile crypto maxInboxSize s now attestation ledger c with
  | error e =>
      have hstep : fileStep crypto hash2 maxInboxSize s (.post now attestation ledger c) =
          (s, .posted (.error e)) := by simp only [fileStep, hpost]
      refine .of_step hstep rfl hvalid ?_
      intro file hfile
      cases hfile
  | ok result =>
      obtain ⟨s', file⟩ := result
      have hstep : fileStep crypto hash2 maxInboxSize s (.post now attestation ledger c) =
          (s', .posted (.ok file)) := by simp only [fileStep, hpost]
      have houtput : ((fileMachine crypto hash2 maxInboxSize).stepAt s
          (.post now attestation ledger c)).output = .posted (.ok file) := congrArg Prod.snd hstep
      obtain ⟨hid, hleaf, hfresh⟩ := h.1 now attestation ledger c file rfl houtput
      obtain ⟨rfl, hinbox⟩ := postFile_eq_ok hpost
      rw [writeAtomic_of_fresh hfresh] at hinbox
      rw [hstep]
      refine ⟨?_, ?_, ?_⟩
      · intro f hf
        exact .inl (hinbox ▸ List.mem_append_left _ hf)
      · intro file' hfile
        rw [houtput] at hfile
        cases hfile
        rw [hinbox]
        exact ⟨List.mem_append_right _ (List.mem_singleton.mpr rfl), List.subset_append_left _ _⟩
      · intro f hf
        rw [hinbox] at hf
        rcases List.mem_append.mp hf with hf | hf
        · exact hvalid f hf
        · rw [List.mem_singleton.mp hf]
          exact valid_iff.mpr ⟨hleaf, hid⟩

theorem keepsInbox_start {s : FileStore} (hvalid : ∀ f ∈ s.inbox, f.valid = true) :
    KeepsInbox crypto hash2 ((fileMachine crypto hash2 maxInboxSize).stepAt s .start)
      (fileStep crypto hash2 maxInboxSize s .start).1 := by
  have hall : s.inbox.filter (·.valid) = s.inbox := List.filter_eq_self.mpr hvalid
  cases hrunning : s.running with
  | some r =>
      have hstep : fileStep crypto hash2 maxInboxSize s .start = (s, .started []) := by
        simp only [fileStep, hrunning]
      refine .of_step hstep rfl hvalid ?_
      intro file hfile
      cases hfile
  | none =>
      have hstep : fileStep crypto hash2 maxInboxSize s .start =
          ({ (readInbox s).1 with running := some ⟨s.state, (readInbox s).2⟩ },
            .started (readInbox s).2) := by simp only [fileStep, hrunning]
      refine .of_step hstep hall hvalid ?_
      intro file hfile
      cases hfile

theorem keepsInbox_finish {s : FileStore} (hvalid : ∀ f ∈ s.inbox, f.valid = true)
    {adapter : Adapter}
    (h : Undisturbed crypto hash2
      ((fileMachine crypto hash2 maxInboxSize).stepAt s (.finish adapter))) :
    KeepsInbox crypto hash2 ((fileMachine crypto hash2 maxInboxSize).stepAt s (.finish adapter))
      (fileStep crypto hash2 maxInboxSize s (.finish adapter)).1 := by
  cases hrunning : s.running with
  | none =>
      have hstep : fileStep crypto hash2 maxInboxSize s (.finish adapter) = (s, .finished none) := by
        simp only [fileStep, hrunning]
      refine .of_step hstep rfl hvalid ?_
      intro file hfile
      cases hfile
  | some r =>
      have hstep : fileStep crypto hash2 maxInboxSize s (.finish adapter) =
          (finishTick crypto hash2 s r adapter,
            .finished (some (tick crypto hash2 adapter r.store).result)) := by
        simp only [fileStep, hrunning]
      rw [hstep]
      refine ⟨?_, ?_, ?_⟩
      · intro f hf
        rcases mem_finishTick hf (hvalid f hf) with hstays | ⟨hcompletes, hid⟩
        · exact .inl hstays
        · exact .inr ⟨adapter, r, rfl, hrunning, h.2 adapter r rfl hrunning hcompletes f hf hid,
            hcompletes⟩
      · intro file hfile
        have := (congrArg Prod.snd hstep).symm.trans hfile
        cases this
      · intro f hf
        exact hvalid f (finishTick_subset hf)

theorem keepsInbox_step {s : FileStore} {i : FileInput} (hvalid : ∀ f ∈ s.inbox, f.valid = true)
    (h : Undisturbed crypto hash2 ((fileMachine crypto hash2 maxInboxSize).stepAt s i)) :
    KeepsInbox crypto hash2 ((fileMachine crypto hash2 maxInboxSize).stepAt s i)
      (fileStep crypto hash2 maxInboxSize s i).1 := by
  cases i with
  | post now attestation ledger c => exact keepsInbox_post hvalid h
  | start => exact keepsInbox_start hvalid
  | finish adapter => exact keepsInbox_finish hvalid h

/-- One more step that keeps the inbox loses nothing. -/
theorem NothingLost.snoc {t : List FileStep} {s : FileStore} {i : FileInput}
    (h : NothingLost crypto hash2 maxInboxSize t s)
    (hstep : KeepsInbox crypto hash2 ((fileMachine crypto hash2 maxInboxSize).stepAt s i)
      (fileStep crypto hash2 maxInboxSize s i).1) :
    NothingLost crypto hash2 maxInboxSize
      (t ++ [(fileMachine crypto hash2 maxInboxSize).stepAt s i])
      (fileStep crypto hash2 maxInboxSize s i).1 := by
  have hlast : (fileMachine crypto hash2 maxInboxSize).stepAt s i ∈
      t ++ [(fileMachine crypto hash2 maxInboxSize).stepAt s i] :=
    List.mem_append_right _ (List.mem_singleton.mpr rfl)
  refine ⟨?_, ?_, ?_⟩
  · intro e he file hfile
    rcases List.mem_append.mp he with he | he
    · rcases h.kept e he file hfile with hthere | ⟨e', he', hscreened⟩
      · rcases hstep.stays file hthere with hstays | hscreened
        · exact .inl hstays
        · exact .inr ⟨_, hlast, hscreened⟩
      · exact .inr ⟨e', List.mem_append_left _ he', hscreened⟩
    · rw [List.mem_singleton.mp he] at hfile
      exact .inl (hstep.queued file hfile).1
  · intro e he file hfile f hf
    rcases List.mem_append.mp he with he | he
    · exact h.notOverwritten e he file hfile f hf
    · rw [List.mem_singleton.mp he] at hfile hf ⊢
      exact (hstep.queued file hfile).2 hf
  · intro e he adapter hinput f hf hgone
    rcases List.mem_append.mp he with he | he
    · exact h.archivesRead e he adapter hinput f hf hgone
    · rw [List.mem_singleton.mp he] at hf hgone ⊢
      rcases hstep.stays f hf with hstays | ⟨-, r, -, hrunning, hread, -⟩
      · exact absurd hstays hgone
      · exact ⟨r, hrunning, hread⟩

/-- **Nothing that was acknowledged is lost**, whatever requests come while ticks run, in every run
whose steps meet the condition. -/
theorem acknowledged_kept (crypto : Crypto) (hash2 : Scalar → Scalar → Scalar) (maxInboxSize : ℕ)
    (inputs : List FileInput)
    (h : ∀ e ∈ (fileMachine crypto hash2 maxInboxSize).trace {} inputs,
      Undisturbed crypto hash2 e) :
    NothingLost crypto hash2 maxInboxSize ((fileMachine crypto hash2 maxInboxSize).trace {} inputs)
      ((fileMachine crypto hash2 maxInboxSize).final {} inputs) := by
  suffices hinv : NothingLost crypto hash2 maxInboxSize
      ((fileMachine crypto hash2 maxInboxSize).trace {} inputs)
      ((fileMachine crypto hash2 maxInboxSize).final {} inputs) ∧
      ∀ f ∈ ((fileMachine crypto hash2 maxInboxSize).final {} inputs).inbox, f.valid = true from
    hinv.1
  refine (fileMachine crypto hash2 maxInboxSize).invariant_of_steps
    (I := fun t s => NothingLost crypto hash2 maxInboxSize t s ∧ ∀ f ∈ s.inbox, f.valid = true)
    ⟨⟨?_, ?_, ?_⟩, ?_⟩ ?_ inputs h
  · exact fun e he => absurd he List.not_mem_nil
  · exact fun e he => absurd he List.not_mem_nil
  · exact fun e he => absurd he List.not_mem_nil
  · exact fun f hf => absurd hf List.not_mem_nil
  · intro t s i hinv hundisturbed
    have hkeeps := keepsInbox_step hinv.2 hundisturbed
    exact ⟨hinv.1.snoc hkeeps, hkeeps.valid⟩

end Spec

/-! ## Two submissions in one millisecond, and one during a tick -/

namespace Demo

def postFile (now : ℕ) (c : LeafCommitment) : FileInput :=
  .post now (some (some attestation)) (some 10) c

def files : Machine FileStore FileInput FileOutput :=
  fileMachine crypto add DEFAULT_MAX_INBOX_SIZE

/-- Two identifiers that are the same when they are made safe. -/
def colon : LeafCommitment := commitment "a:1" 1 100

def slash : LeafCommitment := commitment "a/1" 2 200

/-- Two commitments for one attestation, the second of which is handed in while a tick runs. -/
def early : LeafCommitment := commitment "a" 1 100

def late : LeafCommitment := commitment "a" 1 101

def meanwhile : List FileInput := [postFile 1000 early, .start, postFile 1001 late]

end Demo

/-- The second submission writes over the first, and the tick archives the one that it did not read. -/
theorem acknowledged_lost :
    ¬ NothingLost Demo.crypto Demo.add DEFAULT_MAX_INBOX_SIZE
      (Demo.files.trace {} [Demo.postFile 1000 Demo.colon, Demo.postFile 1000 Demo.slash])
      (Demo.files.final {} [Demo.postFile 1000 Demo.colon, Demo.postFile 1000 Demo.slash]) ∧
    ¬ NothingLost Demo.crypto Demo.add DEFAULT_MAX_INBOX_SIZE
      (Demo.files.trace {} (Demo.meanwhile ++ [.finish Demo.adapter]))
      (Demo.files.final {} (Demo.meanwhile ++ [.finish Demo.adapter])) := by
  refine ⟨?_, ?_⟩
  · intro h
    have hkept := h.notOverwritten
      (Demo.files.stepAt (Demo.files.final {} [Demo.postFile 1000 Demo.colon])
        (Demo.postFile 1000 Demo.slash))
      (List.mem_cons_of_mem _ List.mem_cons_self)
      ⟨inboxName 1000 Demo.slash.id, 1, Demo.slash⟩ (by decide)
      ⟨inboxName 1000 Demo.colon.id, 0, Demo.colon⟩ (by decide)
    revert hkept
    decide
  · intro h
    have hread := h.archivesRead
      (Demo.files.stepAt (Demo.files.final {} Demo.meanwhile) (.finish Demo.adapter))
      (by rw [Machine.trace_snoc]; exact List.mem_append_right _ List.mem_cons_self)
      Demo.adapter rfl ⟨inboxName 1001 Demo.late.id, 1, Demo.late⟩ (by decide)
      (by decide +kernel)
    revert hread
    rintro ⟨r, hrunning, hmem⟩
    have hr : some r = some ⟨none, [⟨inboxName 1000 Demo.early.id, 0, Demo.early⟩]⟩ := by
      rw [← hrunning]
      decide +kernel
    cases hr
    revert hmem
    decide

/-- Another attestation's commitment, handed in while the tick runs. -/
def Demo.undisturbed : List FileInput :=
  [Demo.postFile 1000 Demo.early, .start, Demo.postFile 1001 (Demo.commitment "b" 2 200),
    .finish Demo.adapter]

theorem Demo.undisturbed_post {s : FileStore} {now : ℕ} {c : LeafCommitment}
    (h : c.id ≠ [] ∧ c.leaf.toNat < BN254_MODULUS ∧ inboxName now c.id ∉ s.inbox.map (·.name)) :
    Undisturbed Demo.crypto Demo.add (Demo.files.stepAt s (Demo.postFile now c)) := by
  refine ⟨?_, ?_⟩
  · intro now' attestation ledger c' file hinput _
    cases hinput
    exact h
  · intro adapter r hinput
    cases hinput

theorem acknowledged_kept_undisturbed :
    NothingLost Demo.crypto Demo.add DEFAULT_MAX_INBOX_SIZE
      ((fileMachine Demo.crypto Demo.add DEFAULT_MAX_INBOX_SIZE).trace {} Demo.undisturbed)
      ((fileMachine Demo.crypto Demo.add DEFAULT_MAX_INBOX_SIZE).final {} Demo.undisturbed) := by
  refine acknowledged_kept Demo.crypto Demo.add DEFAULT_MAX_INBOX_SIZE Demo.undisturbed ?_
  intro e he
  simp only [Demo.undisturbed, Machine.trace, List.mem_cons, List.not_mem_nil, or_false] at he
  rcases he with rfl | rfl | rfl | rfl
  · exact Demo.undisturbed_post (by decide)
  · refine ⟨?_, ?_⟩
    · intro now attestation ledger c file hinput
      cases hinput
    · intro adapter r hinput
      cases hinput
  · exact Demo.undisturbed_post (by decide)
  · refine ⟨?_, ?_⟩
    · intro now attestation ledger c file hinput
      cases hinput
    · intro adapter r _ hrunning _
      have hr : some r = some ⟨none, [⟨inboxName 1000 Demo.early.id, 0, Demo.early⟩]⟩ := by
        rw [← hrunning]
        decide +kernel
      cases hr
      decide

end OpaqueStellar.Publisher
