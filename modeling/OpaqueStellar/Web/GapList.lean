import OpaqueStellar.Web.Cache

/-! # The recorded gaps

The ranges that `mergeUnscannedRanges` keeps are sorted, and at least one scanned ledger lies between two of
them. Such a list is determined by the ledgers in its ranges, so that it does not matter in which order gaps
are recorded, or how often. -/

namespace OpaqueStellar.Web

/-- Sorted, disjoint and not adjacent. -/
structure GapList (ranges : List UnscannedRange) : Prop where
  fromLedger_le : ∀ range ∈ ranges, range.fromLedger ≤ range.toLedger
  separate : ranges.Pairwise fun a b => a.toLedger + 1 < b.fromLedger

/-- The ledgers of the ranges. -/
def gapLedgers (ranges : List UnscannedRange) : Set ℕ := {ledger | ∃ range ∈ ranges, range.Contains ledger}

section Cons

variable {range : UnscannedRange} {ranges : List UnscannedRange}

theorem gapList_cons : GapList (range :: ranges) ↔ range.fromLedger ≤ range.toLedger ∧
    (∀ next ∈ ranges, range.toLedger + 1 < next.fromLedger) ∧ GapList ranges := by
  constructor
  · intro h
    obtain ⟨hfirst, hle⟩ := List.forall_mem_cons.mp h.fromLedger_le
    obtain ⟨hnext, hseparate⟩ := List.pairwise_cons.mp h.separate
    exact ⟨hfirst, hnext, hle, hseparate⟩
  · intro h
    obtain ⟨hfirst, hnext, hranges⟩ := h
    exact ⟨List.forall_mem_cons.mpr ⟨hfirst, hranges.fromLedger_le⟩,
      List.pairwise_cons.mpr ⟨hnext, hranges.separate⟩⟩

theorem mem_gapLedgers_cons {ledger : ℕ} :
    ledger ∈ gapLedgers (range :: ranges) ↔ range.Contains ledger ∨ ledger ∈ gapLedgers ranges := by
  simp [gapLedgers]

/-- Whatever is in a later range lies beyond the first one, and not next to it. -/
theorem lt_of_mem_gapLedgers {ledger : ℕ} (hnext : ∀ next ∈ ranges, range.toLedger + 1 < next.fromLedger)
    (h : ledger ∈ gapLedgers ranges) : range.toLedger + 1 < ledger := by
  obtain ⟨next, hmem, hfrom, -⟩ := h
  exact (hnext next hmem).trans_le hfrom

end Cons

/-! ## One list for one set of ledgers -/

/-- The first range is the first stretch of ledgers. -/
theorem head_eq {range range' : UnscannedRange} {ranges ranges' : List UnscannedRange}
    (h : GapList (range :: ranges)) (h' : GapList (range' :: ranges'))
    (hsame : gapLedgers (range :: ranges) = gapLedgers (range' :: ranges')) : range = range' := by
  have hle : ∀ {r r' : UnscannedRange} {rs rs' : List UnscannedRange}, GapList (r :: rs) →
      GapList (r' :: rs') → gapLedgers (r :: rs) = gapLedgers (r' :: rs') →
      r'.fromLedger ≤ r.fromLedger ∧ (r.fromLedger = r'.fromLedger → r.toLedger ≤ r'.toLedger) := by
    intro r r' rs rs' hr hr' heq
    obtain ⟨hfirst, hnext, -⟩ := gapList_cons.mp hr
    obtain ⟨hfirst', hnext', -⟩ := gapList_cons.mp hr'
    have hin : ∀ ledger, r.Contains ledger → r'.Contains ledger ∨ ledger ∈ gapLedgers rs' := by
      intro ledger hl
      exact mem_gapLedgers_cons.mp (heq ▸ mem_gapLedgers_cons.mpr (.inl hl))
    constructor
    · rcases hin r.fromLedger ⟨le_rfl, hfirst⟩ with hl | hl
      · exact hl.1
      · have := lt_of_mem_gapLedgers hnext' hl
        omega
    · intro hfrom
      by_contra hgt
      -- the ledger after the other range is in none of the others
      rcases hin (r'.toLedger + 1) ⟨by omega, by omega⟩ with hl | hl
      · have := hl.2
        omega
      · exact absurd (lt_of_mem_gapLedgers hnext' hl) (lt_irrefl _)
  obtain ⟨hfrom, hto⟩ := hle h h' hsame
  obtain ⟨hfrom', hto'⟩ := hle h' h hsame.symm
  have heq : range.fromLedger = range'.fromLedger := le_antisymm hfrom' hfrom
  cases range
  cases range'
  rw [UnscannedRange.mk.injEq]
  exact ⟨heq, le_antisymm (hto heq) (hto' heq.symm)⟩

theorem gapLedgers_tail {range : UnscannedRange} {ranges ranges' : List UnscannedRange}
    (h : GapList (range :: ranges))
    (hsame : gapLedgers (range :: ranges) = gapLedgers (range :: ranges')) :
    gapLedgers ranges ⊆ gapLedgers ranges' := by
  intro ledger hl
  have hbeyond := lt_of_mem_gapLedgers (gapList_cons.mp h).2.1 hl
  rcases mem_gapLedgers_cons.mp (hsame ▸ mem_gapLedgers_cons.mpr (.inr hl)) with hin | hin
  · have := hin.2
    omega
  · exact hin

/-- **A list of gaps is determined by its ledgers.** -/
theorem GapList.eq_of_gapLedgers_eq {ranges ranges' : List UnscannedRange} (h : GapList ranges)
    (h' : GapList ranges') (hsame : gapLedgers ranges = gapLedgers ranges') : ranges = ranges' := by
  have hnonempty : ∀ {r : UnscannedRange} {rs : List UnscannedRange}, GapList (r :: rs) →
      gapLedgers (r :: rs) ≠ gapLedgers [] := by
    intro r rs hr heq
    have hmem : r.fromLedger ∈ gapLedgers (r :: rs) :=
      mem_gapLedgers_cons.mpr (.inl ⟨le_rfl, (gapList_cons.mp hr).1⟩)
    rw [heq] at hmem
    simp [gapLedgers] at hmem
  induction ranges generalizing ranges' with
  | nil =>
    cases ranges' with
    | nil => rfl
    | cons range' ranges' => exact absurd hsame.symm (hnonempty h')
  | cons range ranges ih =>
    cases ranges' with
    | nil => exact absurd hsame (hnonempty h)
    | cons range' ranges' =>
      obtain rfl := head_eq h h' hsame
      have htail := (gapLedgers_tail h hsame).antisymm (gapLedgers_tail h' hsame.symm)
      rw [ih (gapList_cons.mp h).2.2 (gapList_cons.mp h').2.2 htail]

/-! ## Merging -/

/-- The loop's list, the newest of the ranges first. -/
structure Merged (merged : List UnscannedRange) : Prop where
  fromLedger_le : ∀ range ∈ merged, range.fromLedger ≤ range.toLedger
  separate : merged.Pairwise fun b a => a.toLedger + 1 < b.fromLedger

theorem merged_joinRange {merged : List UnscannedRange} {next : UnscannedRange} (h : Merged merged)
    (hnext : next.fromLedger ≤ next.toLedger)
    (hprecedes : ∀ last ∈ merged.head?, last.fromLedger ≤ next.fromLedger) : Merged (joinRange merged next) := by
  cases merged with
  | nil => exact ⟨by simpa [joinRange] using hnext, List.pairwise_singleton _ _⟩
  | cons last merged =>
    obtain ⟨hlast, hle⟩ := List.forall_mem_cons.mp h.fromLedger_le
    obtain ⟨hbefore, hseparate⟩ := List.pairwise_cons.mp h.separate
    have hfrom : last.fromLedger ≤ next.fromLedger := hprecedes last rfl
    rw [joinRange]
    split_ifs with hjoin
    · exact ⟨List.forall_mem_cons.mpr ⟨hlast.trans (le_max_left _ _), hle⟩,
        List.pairwise_cons.mpr ⟨hbefore, hseparate⟩⟩
    · refine ⟨List.forall_mem_cons.mpr ⟨hnext, h.fromLedger_le⟩, List.pairwise_cons.mpr ⟨?_, h.separate⟩⟩
      intro range hmem
      rcases List.mem_cons.mp hmem with rfl | hmem
      · omega
      · have := hbefore range hmem
        omega

theorem merged_foldl {sorted merged : List UnscannedRange}
    (hsorted : sorted.Pairwise fun a b => a.fromLedger ≤ b.fromLedger)
    (hle : ∀ range ∈ sorted, range.fromLedger ≤ range.toLedger) (hmerged : Merged merged)
    (hprecedes : Precedes merged sorted) : Merged (sorted.foldl joinRange merged) := by
  induction sorted generalizing merged with
  | nil => exact hmerged
  | cons next rest ih =>
    obtain ⟨hnext, hrest⟩ := List.pairwise_cons.mp hsorted
    obtain ⟨hnext_le, hle⟩ := List.forall_mem_cons.mp hle
    rw [List.foldl_cons]
    apply ih hrest hle
    · exact merged_joinRange hmerged hnext_le fun last hlast => hprecedes last hlast next List.mem_cons_self
    · exact precedes_joinRange hprecedes hnext

section Merge

variable {ranges : List UnscannedRange} {range : UnscannedRange}

theorem gapList_mergeUnscannedRanges (h : ∀ range ∈ ranges, range.fromLedger ≤ range.toLedger)
    (hrange : range.fromLedger ≤ range.toLedger) : GapList (mergeUnscannedRanges ranges range) := by
  have hmerged : Merged (((ranges ++ [range]).insertionSort fun a b => a.fromLedger ≤ b.fromLedger).foldl
      joinRange []) := by
    apply merged_foldl (List.pairwise_insertionSort _ _) _ ⟨by simp, .nil⟩ (by simp [Precedes])
    intro r hr
    rw [List.mem_insertionSort, List.mem_append, List.mem_singleton] at hr
    rcases hr with hr | rfl
    · exact h r hr
    · exact hrange
  refine ⟨fun r hr => hmerged.fromLedger_le r (List.mem_reverse.mp hr), ?_⟩
  exact List.pairwise_reverse.mpr hmerged.separate

theorem gapLedgers_mergeUnscannedRanges :
    gapLedgers (mergeUnscannedRanges ranges range) = {ledger | range.Contains ledger} ∪ gapLedgers ranges :=
  Set.ext fun _ => contains_mergeUnscannedRanges

end Merge

/-! ## Recording -/

/-- Gaps are recorded one after the other. -/
def recordUnscannedRanges (gaps : List UnscannedRange) (db : OpaqueCache) : OpaqueCache :=
  gaps.foldl (fun db gap => recordUnscannedRange gap db) db

/-- The gaps that are recorded. -/
def OpaqueCache.gaps (db : OpaqueCache) : List UnscannedRange := getUnscannedRanges db.syncState

section Record

variable {db : OpaqueCache} {gaps : List UnscannedRange}

theorem gaps_recordUnscannedRange (gap : UnscannedRange) (db : OpaqueCache) :
    (recordUnscannedRange gap db).gaps = mergeUnscannedRanges db.gaps gap := rfl

theorem recordUnscannedRanges_spec (h : GapList db.gaps)
    (hgaps : ∀ gap ∈ gaps, gap.fromLedger ≤ gap.toLedger) :
    GapList (recordUnscannedRanges gaps db).gaps ∧
      gapLedgers (recordUnscannedRanges gaps db).gaps = gapLedgers gaps ∪ gapLedgers db.gaps := by
  induction gaps generalizing db with
  | nil =>
    have hnone : gapLedgers [] = ∅ := by simp [gapLedgers]
    exact ⟨h, by rw [hnone, Set.empty_union]; rfl⟩
  | cons gap gaps ih =>
    obtain ⟨hgap, hgaps⟩ := List.forall_mem_cons.mp hgaps
    have hmerged : GapList (recordUnscannedRange gap db).gaps :=
      gapList_mergeUnscannedRanges h.fromLedger_le hgap
    obtain ⟨hlist, hledgers⟩ := ih hmerged hgaps
    refine ⟨hlist, hledgers.trans ?_⟩
    ext ledger
    rw [gaps_recordUnscannedRange, gapLedgers_mergeUnscannedRanges]
    simp only [Set.mem_union, Set.mem_ofPred_eq, mem_gapLedgers_cons]
    tauto

/-- What is recorded depends on the ledgers of the gaps only. -/
theorem gaps_recordUnscannedRanges_eq {gaps' : List UnscannedRange} (h : GapList db.gaps)
    (hgaps : ∀ gap ∈ gaps, gap.fromLedger ≤ gap.toLedger) (hgaps' : ∀ gap ∈ gaps', gap.fromLedger ≤ gap.toLedger)
    (hsame : ∀ gap, gap ∈ gaps ↔ gap ∈ gaps') :
    (recordUnscannedRanges gaps db).gaps = (recordUnscannedRanges gaps' db).gaps := by
  obtain ⟨hlist, hledgers⟩ := recordUnscannedRanges_spec h hgaps
  obtain ⟨hlist', hledgers'⟩ := recordUnscannedRanges_spec h hgaps'
  apply hlist.eq_of_gapLedgers_eq hlist'
  have hcovered : gapLedgers gaps = gapLedgers gaps' := by simp [gapLedgers, hsame]
  rw [hledgers, hledgers', hcovered]

end Record

/-- **The gap list is canonical.** Merging a range into such a list gives such a list with the ledgers of
both. So what has been recorded does not depend on the order of the gaps, and a gap that was recorded
changes nothing when it is recorded again. -/
theorem gap_list :
    (∀ ranges range, GapList ranges → range.fromLedger ≤ range.toLedger →
      GapList (mergeUnscannedRanges ranges range) ∧
      gapLedgers (mergeUnscannedRanges ranges range) = {ledger | range.Contains ledger} ∪ gapLedgers ranges) ∧
    ∀ (db : OpaqueCache) gaps, GapList db.gaps → (∀ gap ∈ gaps, gap.fromLedger ≤ gap.toLedger) →
      (∀ gaps' : List UnscannedRange, gaps.Perm gaps' →
        (recordUnscannedRanges gaps db).gaps = (recordUnscannedRanges gaps' db).gaps) ∧
      ∀ gap ∈ gaps, (recordUnscannedRange gap (recordUnscannedRanges gaps db)).gaps =
        (recordUnscannedRanges gaps db).gaps := by
  refine ⟨fun ranges range h hrange => ?_, fun db gaps h hgaps => ⟨?_, ?_⟩⟩
  · exact ⟨gapList_mergeUnscannedRanges h.fromLedger_le hrange, gapLedgers_mergeUnscannedRanges⟩
  · intro gaps' hperm
    exact gaps_recordUnscannedRanges_eq h hgaps (fun gap hmem => hgaps gap (hperm.mem_iff.mpr hmem))
      fun gap => hperm.mem_iff
  · intro gap hmem
    have hagain : recordUnscannedRange gap (recordUnscannedRanges gaps db) =
        recordUnscannedRanges (gaps ++ [gap]) db := by
      rw [recordUnscannedRanges, recordUnscannedRanges, List.foldl_append]
      rfl
    have hall : ∀ g, g ∈ gaps ++ [gap] ↔ g ∈ gaps := by
      intro g
      rw [List.mem_append, List.mem_singleton]
      exact or_iff_left_of_imp fun heq => heq ▸ hmem
    rw [hagain]
    exact gaps_recordUnscannedRanges_eq h (fun g hg => hgaps g ((hall g).mp hg)) hgaps hall

end OpaqueStellar.Web
