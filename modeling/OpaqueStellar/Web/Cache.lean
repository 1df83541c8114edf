import Mathlib.Data.List.Sort
import OpaqueStellar.Lib.Codec
import OpaqueStellar.Lib.Dict
import OpaqueStellar.Lib.Lists
import OpaqueStellar.Schemas.Core

/-! # The announcement cache of the web client

`frontend/src/lib/opaqueCache.ts`, for one cluster: the announcements that have been found, by id, and how
far the scanner has read. Ledgers that the RPC no longer has are recorded as ranges, which are joined where
they touch. -/

namespace OpaqueStellar.Web

open OpaqueStellar.Lib
open OpaqueStellar.Schemas (Str)

structure AnnouncementArgs where
  stealthAddress : Str
  ephemeralPubKey : Str
  metadata : Str
  deriving DecidableEq

structure CachedAnnouncement where
  id : Str
  slot : ℕ
  transactionSignature : Str
  logIndex : ℕ
  args : AnnouncementArgs
  deriving DecidableEq

/-- Both ends are meant. -/
structure UnscannedRange where
  fromLedger : ℕ
  toLedger : ℕ
  deriving DecidableEq

structure SyncState where
  lastScannedSlot : ℕ
  unscannedRanges : Option (List UnscannedRange)
  -- written before gaps were stored separately
  unscannedRange : Option UnscannedRange
  deriving DecidableEq

structure OpaqueCache where
  announcements : Dict Str CachedAnnouncement
  syncState : Option SyncState

/-! ## Announcements -/

def announcementId (cluster txSig : Str) (logIndex : ℕ) : Str :=
  cluster ++ '-' :: (txSig ++ '-' :: Decimal.encode logIndex)

theorem dash_notMem_encode (n : ℕ) : '-' ∉ Decimal.encode n := by
  intro h
  obtain ⟨d, hd, heq⟩ := Decimal.mem_encode h
  interval_cases d <;> exact absurd heq (by decide)

/-- Within a cluster, an id tells the transaction and the place in it. -/
theorem announcementId_inj {cluster txSig txSig' : Str} {logIndex logIndex' : ℕ}
    (h : announcementId cluster txSig logIndex = announcementId cluster txSig' logIndex') :
    txSig = txSig' ∧ logIndex = logIndex' := by
  have hrest := (List.cons.inj (List.append_cancel_left h)).2
  obtain ⟨htx, hindex⟩ :=
    append_sep_inj (dash_notMem_encode logIndex) (dash_notMem_encode logIndex') hrest
  exact ⟨htx, Decimal.encode_injective hindex⟩

def putAnnouncement (cluster : Str) (store : Dict Str CachedAnnouncement) (log : CachedAnnouncement) :
    Dict Str CachedAnnouncement :=
  let id := announcementId cluster log.transactionSignature log.logIndex
  store.set id { log with id := id }

def putAnnouncements (cluster : Str) (logs : List CachedAnnouncement) (db : OpaqueCache) : OpaqueCache :=
  { db with announcements := logs.foldl (putAnnouncement cluster) db.announcements }

def getAnnouncementsForCluster (db : OpaqueCache) : List CachedAnnouncement :=
  (db.announcements.map (·.2)).insertionSort fun a b => a.slot ≤ b.slot

/-! ## Sync state -/

def updateSyncState (update : Option SyncState → SyncState) (db : OpaqueCache) : OpaqueCache :=
  { db with syncState := some (update db.syncState) }

def getUnscannedRanges (state : Option SyncState) : List UnscannedRange :=
  match state with
  | none => []
  | some state =>
    match state.unscannedRanges with
    | some ranges => ranges
    | none => state.unscannedRange.toList

/-- One turn of the loop, the newest of the ranges first. -/
def joinRange : List UnscannedRange → UnscannedRange → List UnscannedRange
  | [], next => [next]
  | last :: merged, next =>
    if next.fromLedger ≤ last.toLedger + 1 then
      { last with toLedger := max last.toLedger next.toLedger } :: merged
    else next :: last :: merged

def mergeUnscannedRanges (ranges : List UnscannedRange) (range : UnscannedRange) : List UnscannedRange :=
  let sorted := (ranges ++ [range]).insertionSort fun a b => a.fromLedger ≤ b.fromLedger
  (sorted.foldl joinRange []).reverse

def setSyncState (lastScannedSlot : ℕ) : OpaqueCache → OpaqueCache :=
  updateSyncState fun prev =>
    match prev with
    | some prev => { prev with lastScannedSlot := lastScannedSlot }
    | none => ⟨lastScannedSlot, none, none⟩

def recordUnscannedRange (range : UnscannedRange) : OpaqueCache → OpaqueCache :=
  updateSyncState fun prev =>
    { lastScannedSlot := (prev.map (·.lastScannedSlot)).getD 0
      unscannedRanges := some (mergeUnscannedRanges (getUnscannedRanges prev) range)
      unscannedRange := prev.bind (·.unscannedRange) }

def clearSyncState (db : OpaqueCache) : OpaqueCache := { db with syncState := none }

def clearClusterCache (_ : OpaqueCache) : OpaqueCache := ⟨[], none⟩

/-- Kept as it is under its id. -/
def OpaqueCache.Has (db : OpaqueCache) (r : CachedAnnouncement) : Prop :=
  db.announcements.find r.id = some r

/-- What is put is there afterwards, and so is what was there, unless something else has its id. -/
theorem has_putAnnouncements {cluster : Str} {logs : List CachedAnnouncement} {db : OpaqueCache}
    {r : CachedAnnouncement}
    (hid : ∀ log ∈ logs, log.id = announcementId cluster log.transactionSignature log.logIndex)
    (hunique : ∀ log ∈ logs, log.id = r.id → log = r) (h : db.Has r ∨ r ∈ logs) :
    (putAnnouncements cluster logs db).Has r := by
  induction logs generalizing db with
  | nil => exact h.resolve_right List.not_mem_nil
  | cons log logs ih =>
    have hput : putAnnouncement cluster db.announcements log = db.announcements.set log.id log := by
      simp only [putAnnouncement, ← hid log List.mem_cons_self]
    suffices hlater : (putAnnouncements cluster [log] db).Has r ∨ r ∈ logs from
      ih (fun log' hlog => hid log' (List.mem_cons_of_mem _ hlog))
        (fun log' hlog => hunique log' (List.mem_cons_of_mem _ hlog)) hlater
    by_cases hsame : log.id = r.id
    · obtain rfl := hunique log List.mem_cons_self hsame
      left
      show (putAnnouncement cluster db.announcements log).find log.id = some log
      rw [hput, Dict.find_set_self]
    · refine h.imp (fun hold => ?_) fun hmem => ?_
      · show (putAnnouncement cluster db.announcements log).find r.id = some r
        rw [hput, Dict.find_set_of_ne _ _ (Ne.symm hsame)]
        exact hold
      · exact (List.mem_cons.mp hmem).resolve_left fun heq => hsame (congrArg (·.id) heq.symm)

/-! ## What merging keeps -/

def UnscannedRange.Within (range range' : UnscannedRange) : Prop :=
  range'.fromLedger ≤ range.fromLedger ∧ range.toLedger ≤ range'.toLedger

theorem UnscannedRange.Within.refl (range : UnscannedRange) : range.Within range := ⟨le_rfl, le_rfl⟩

theorem UnscannedRange.Within.trans {r₁ r₂ r₃ : UnscannedRange} (h : r₁.Within r₂) (h' : r₂.Within r₃) :
    r₁.Within r₃ :=
  ⟨h'.1.trans h.1, h.2.trans h'.2⟩

def UnscannedRange.Contains (range : UnscannedRange) (ledger : ℕ) : Prop :=
  range.fromLedger ≤ ledger ∧ ledger ≤ range.toLedger

theorem UnscannedRange.Within.contains {r r' : UnscannedRange} (h : r.Within r') {ledger : ℕ}
    (hl : r.Contains ledger) : r'.Contains ledger :=
  ⟨h.1.trans hl.1, hl.2.trans h.2⟩

/-- The newest of the ranges begins no later than what is still to be joined. -/
def Precedes (merged rest : List UnscannedRange) : Prop :=
  ∀ last ∈ merged.head?, ∀ next ∈ rest, last.fromLedger ≤ next.fromLedger

theorem exists_within_joinRange {merged : List UnscannedRange} {next : UnscannedRange}
    (hnext : ∀ last ∈ merged.head?, last.fromLedger ≤ next.fromLedger) :
    ∀ range ∈ next :: merged, ∃ range' ∈ joinRange merged next, range.Within range' := by
  intro range hmem
  cases merged with
  | nil => exact ⟨range, hmem, .refl range⟩
  | cons last merged =>
    have hle : last.fromLedger ≤ next.fromLedger := hnext last rfl
    rw [joinRange]
    split_ifs with hjoin
    · rcases List.mem_cons.mp hmem with rfl | hmem
      · exact ⟨_, List.mem_cons_self, hle, le_max_right _ _⟩
      · rcases List.mem_cons.mp hmem with rfl | hmem
        · exact ⟨_, List.mem_cons_self, le_rfl, le_max_left _ _⟩
        · exact ⟨range, List.mem_cons_of_mem _ hmem, .refl range⟩
    · exact ⟨range, hmem, .refl range⟩

theorem precedes_joinRange {merged rest : List UnscannedRange} {next : UnscannedRange}
    (hmerged : Precedes merged (next :: rest)) (hrest : ∀ later ∈ rest, next.fromLedger ≤ later.fromLedger) :
    Precedes (joinRange merged next) rest := by
  intro first hfirst later hlater
  cases merged with
  | nil =>
    obtain rfl : next = first := by simpa [joinRange] using hfirst
    exact hrest later hlater
  | cons last merged =>
    have hlast := hmerged last rfl
    rw [joinRange] at hfirst
    split_ifs at hfirst
    · obtain rfl := Option.some.inj hfirst
      exact hlast later (List.mem_cons_of_mem _ hlater)
    · obtain rfl := Option.some.inj hfirst
      exact hrest later hlater

theorem exists_within_foldl {sorted merged : List UnscannedRange}
    (hsorted : sorted.Pairwise fun a b => a.fromLedger ≤ b.fromLedger) (hmerged : Precedes merged sorted)
    {range : UnscannedRange} (hmem : range ∈ sorted ∨ range ∈ merged) :
    ∃ range' ∈ sorted.foldl joinRange merged, range.Within range' := by
  induction sorted generalizing merged range with
  | nil => exact ⟨range, hmem.resolve_left List.not_mem_nil, .refl range⟩
  | cons next rest ih =>
    obtain ⟨hnext, hrest⟩ := List.pairwise_cons.mp hsorted
    have hprecedes := precedes_joinRange hmerged hnext
    have hjoined := exists_within_joinRange fun last hlast => hmerged last hlast next List.mem_cons_self
    rw [List.foldl_cons]
    rcases hmem with hmem | hmem
    · rcases List.mem_cons.mp hmem with rfl | hmem
      · obtain ⟨range₁, hmem₁, hwithin₁⟩ := hjoined range List.mem_cons_self
        obtain ⟨range₂, hmem₂, hwithin₂⟩ := ih hrest hprecedes (.inr hmem₁)
        exact ⟨range₂, hmem₂, hwithin₁.trans hwithin₂⟩
      · exact ih hrest hprecedes (.inl hmem)
    · obtain ⟨range₁, hmem₁, hwithin₁⟩ := hjoined range (List.mem_cons_of_mem _ hmem)
      obtain ⟨range₂, hmem₂, hwithin₂⟩ := ih hrest hprecedes (.inr hmem₁)
      exact ⟨range₂, hmem₂, hwithin₁.trans hwithin₂⟩

/-- **Merging loses no range**: each lies within one of the merged ranges. -/
theorem exists_within_merge {ranges : List UnscannedRange} {range range₀ : UnscannedRange}
    (h : range₀ ∈ ranges ∨ range₀ = range) :
    ∃ range' ∈ mergeUnscannedRanges ranges range, range₀.Within range' := by
  have hmem : range₀ ∈ (ranges ++ [range]).insertionSort fun a b => a.fromLedger ≤ b.fromLedger := by
    simpa [List.mem_insertionSort] using h
  have hsorted := List.pairwise_insertionSort (fun a b : UnscannedRange => a.fromLedger ≤ b.fromLedger)
    (ranges ++ [range])
  have hnone : ∀ sorted, Precedes [] sorted := by simp [Precedes]
  obtain ⟨range', hmem', hwithin⟩ := exists_within_foldl hsorted (hnone _) (.inl hmem)
  exact ⟨range', List.mem_reverse.mpr hmem', hwithin⟩

theorem contains_of_joinRange {merged : List UnscannedRange} {next : UnscannedRange} {ledger : ℕ}
    (h : ∃ range ∈ joinRange merged next, range.Contains ledger) :
    next.Contains ledger ∨ ∃ range ∈ merged, range.Contains ledger := by
  obtain ⟨range, hmem, hfrom, hto⟩ := h
  cases merged with
  | nil =>
    obtain rfl := List.mem_singleton.mp hmem
    exact .inl ⟨hfrom, hto⟩
  | cons last merged =>
    rw [joinRange] at hmem
    split_ifs at hmem with hjoin
    · rcases List.mem_cons.mp hmem with rfl | hmem
      · by_cases hlast : ledger ≤ last.toLedger
        · exact .inr ⟨last, List.mem_cons_self, hfrom, hlast⟩
        · refine .inl ⟨by omega, ?_⟩
          exact (le_max_iff.mp hto).resolve_left hlast
      · exact .inr ⟨range, List.mem_cons_of_mem _ hmem, hfrom, hto⟩
    · rcases List.mem_cons.mp hmem with rfl | hmem
      · exact .inl ⟨hfrom, hto⟩
      · exact .inr ⟨range, hmem, hfrom, hto⟩

theorem contains_of_foldl {sorted merged : List UnscannedRange} {ledger : ℕ}
    (h : ∃ range ∈ sorted.foldl joinRange merged, range.Contains ledger) :
    (∃ range ∈ sorted, range.Contains ledger) ∨ ∃ range ∈ merged, range.Contains ledger := by
  induction sorted generalizing merged with
  | nil => exact .inr h
  | cons next rest ih =>
    rcases ih h with ⟨range, hmem, hl⟩ | hjoined
    · exact .inl ⟨range, List.mem_cons_of_mem _ hmem, hl⟩
    · rcases contains_of_joinRange hjoined with hl | hold
      · exact .inl ⟨next, List.mem_cons_self, hl⟩
      · exact .inr hold

/-- Ledgers that were scanned between two gaps stay scanned. -/
theorem contains_mergeUnscannedRanges {ranges : List UnscannedRange} {range : UnscannedRange} {ledger : ℕ} :
    (∃ range' ∈ mergeUnscannedRanges ranges range, range'.Contains ledger) ↔
      range.Contains ledger ∨ ∃ range' ∈ ranges, range'.Contains ledger := by
  constructor
  · rintro ⟨range', hmem, hl⟩
    have hsorted := contains_of_foldl ⟨range', List.mem_reverse.mp hmem, hl⟩
    simp only [List.not_mem_nil, false_and, exists_false, or_false, List.mem_insertionSort,
      List.mem_append, List.mem_singleton] at hsorted
    obtain ⟨range₀, hmem₀ | rfl, hl₀⟩ := hsorted
    · exact .inr ⟨range₀, hmem₀, hl₀⟩
    · exact .inl hl₀
  · rintro (hl | ⟨range₀, hmem₀, hl⟩)
    · obtain ⟨range', hmem', hwithin⟩ : ∃ range' ∈ mergeUnscannedRanges ranges range, range.Within range' :=
        exists_within_merge (.inr rfl)
      exact ⟨range', hmem', hwithin.contains hl⟩
    · obtain ⟨range', hmem', hwithin⟩ := exists_within_merge (.inl hmem₀)
      exact ⟨range', hmem', hwithin.contains hl⟩

end OpaqueStellar.Web
