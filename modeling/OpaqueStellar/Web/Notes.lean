import Mathlib.Data.List.Basic
import OpaqueStellar.Lib.Codec
import OpaqueStellar.Lib.Dict
import OpaqueStellar.Lib.Machine
import OpaqueStellar.Schemas.Core

/-! # The note store of the web client

`frontend/src/store/poolNoteStore.ts`. The notes of all accounts are in one list. Each operation has its
own idea of when two notes are the same: `addNote` goes by cluster, pool, leaf and account, `importNotes`
by a text that leaves the account out, `markSpent` by the active account, and what is shown and exported
includes the notes that have no account. -/

namespace OpaqueStellar.Web

open OpaqueStellar.Lib OpaqueStellar.Schemas

structure PoolNote where
  cluster : Str
  -- old notes have neither a pool nor an account
  poolId : Option Str := none
  account : Option Str := none
  value : Str
  scope : ℕ
  leafIndex : ℕ
  nullifier : Str
  secret : Str
  commitment : Str
  spent : Bool
  createdAt : ℤ
  deriving DecidableEq

structure ImportConflict where
  spentPreserved : ℕ
  imported : ℕ
  deriving DecidableEq

structure PoolNoteState where
  notes : List PoolNote
  activeAccount : Option Str
  deriving DecidableEq

namespace PoolNote

/-- `${n.cluster}:${n.poolId ?? ""}:${n.leafIndex}` -/
def noteKey (n : PoolNote) : Str :=
  n.cluster ++ ":".toList ++ n.poolId.getD [] ++ ":".toList ++ Decimal.encode n.leafIndex

/-- What `addNote` compares. -/
def addKey (n : PoolNote) : Str × Str × ℕ × Str :=
  (n.cluster, n.poolId.getD [], n.leafIndex, n.account.getD [])

/-- What spends the note. -/
def material (n : PoolNote) : Str × Str := (n.nullifier, n.secret)

/-- `account: note.account ?? activeAccount ?? undefined` -/
def withAccount (account : Option Str) (n : PoolNote) : PoolNote :=
  { n with account := n.account.or account }

@[simp] theorem noteKey_withAccount (account : Option Str) (n : PoolNote) :
    (n.withAccount account).noteKey = n.noteKey := rfl

@[simp] theorem material_withAccount (account : Option Str) (n : PoolNote) :
    (n.withAccount account).material = n.material := rfl

@[simp] theorem spent_withAccount (account : Option Str) (n : PoolNote) :
    (n.withAccount account).spent = n.spent := rfl

theorem withAccount_of_ne_none {account : Option Str} {n : PoolNote} (h : n.account ≠ none) :
    n.withAccount account = n := by
  obtain ⟨own, hown⟩ := Option.ne_none_iff_exists'.mp h
  rw [withAccount, hown, Option.some_or, ← hown]

end PoolNote

open PoolNote

/-! ## The operations -/

/-- `!text`: there is none, or an empty one. -/
def falsy (text : Option Str) : Bool := text.getD [] = []

namespace PoolNoteState

def addNote (note : PoolNote) (s : PoolNoteState) : PoolNoteState :=
  let enriched := note.withAccount s.activeAccount
  let without := s.notes.filter fun n => n.addKey ≠ enriched.addKey
  { s with notes := without ++ [enriched] }

/-- What `markSpent` compares. -/
def marks (s : PoolNoteState) (cluster : Str) (poolId : Option Str) (leafIndex : ℕ) (n : PoolNote) :
    Bool :=
  n.cluster = cluster && n.poolId.getD [] = poolId.getD [] && n.leafIndex = leafIndex &&
    n.account.getD [] = s.activeAccount.getD []

def markSpent (cluster : Str) (poolId : Option Str) (leafIndex : ℕ) (s : PoolNoteState) :
    PoolNoteState :=
  { s with notes := s.notes.map fun n =>
      if s.marks cluster poolId leafIndex n then { n with spent := true } else n }

/-- `!acct || !n.account || n.account === acct` -/
def shows (s : PoolNoteState) (n : PoolNote) : Bool :=
  falsy s.activeAccount || falsy n.account || n.account = s.activeAccount

def getForCluster (cluster : Str) (s : PoolNoteState) : List PoolNote :=
  s.notes.filter fun n => n.cluster = cluster && s.shows n

def exportNotes (s : PoolNoteState) : List PoolNote := s.notes.filter s.shows

end PoolNoteState

/-- `byKey` with the stored notes. -/
def seed (notes : List PoolNote) : Dict Str PoolNote :=
  notes.foldl (fun byKey n => byKey.set n.noteKey n) []

/-- One turn of the second loop of `importNotes`. -/
def mergeNote (account : Option Str) (merged : Dict Str PoolNote × ImportConflict) (raw : PoolNote) :
    Dict Str PoolNote × ImportConflict :=
  let (byKey, counts) := merged
  let incoming := raw.withAccount account
  let existing := byKey.find incoming.noteKey
  if existing.any (·.spent) ∧ ¬ incoming.spent then
    (byKey, { counts with spentPreserved := counts.spentPreserved + 1 })
  else
    (byKey.set incoming.noteKey ((existing.filter (·.spent)).getD incoming),
      { counts with imported := counts.imported + 1 })

def PoolNoteState.importNotes (notes : List PoolNote) (s : PoolNoteState) :
    PoolNoteState × ImportConflict :=
  let (byKey, counts) := notes.foldl (mergeNote s.activeAccount) (seed s.notes, ⟨0, 0⟩)
  ({ s with notes := byKey.map (·.2) }, counts)

inductive Call where
  | setActiveAccount (account : Option Str)
  | addNote (note : PoolNote)
  | markSpent (cluster : Str) (poolId : Option Str) (leafIndex : ℕ)
  | importNotes (notes : List PoolNote)
  deriving DecidableEq

/-- The store. Only `importNotes` answers. -/
def usePoolNoteStore : Machine PoolNoteState Call (Option ImportConflict) where
  step s
    | .setActiveAccount account => ({ s with activeAccount := account }, none)
    | .addNote note => (s.addNote note, none)
    | .markSpent cluster poolId leafIndex => (s.markSpent cluster poolId leafIndex, none)
    | .importNotes notes => ((s.importNotes notes).1, some (s.importNotes notes).2)

def PoolNoteState.initial : PoolNoteState := ⟨[], none⟩

/-! ## Merging -/

section Merge

variable {account : Option Str} {byKey : Dict Str PoolNote} {counts : ImportConflict}
  {notes : List PoolNote} {n raw : PoolNote} {key : Str}

/-- The note that an import leaves in the place of one that is not spent: the first spent one, or the
last. -/
def survivor (notes : List PoolNote) : Option PoolNote :=
  (notes.find? (·.spent)).or notes.getLast?

/-- Keys stand once, and each for its note. -/
def Keyed (byKey : Dict Str PoolNote) : Prop := byKey.Distinct ∧ ∀ e ∈ byKey, e.1 = e.2.noteKey

theorem keyed_mergeNote (h : Keyed byKey) : Keyed (mergeNote account (byKey, counts) raw).1 := by
  simp only [mergeNote]
  split
  · exact h
  · refine ⟨Dict.distinct_set h.1 _ _, ?_⟩
    intro e he
    rcases Dict.mem_set he with rfl | he
    · show _ = ((Option.filter _ (byKey.find _)).getD _).noteKey
      cases hfound : byKey.find (raw.withAccount account).noteKey with
      | none => simp
      | some existing =>
        have hkey := h.2 _ (Dict.mem_of_find hfound)
        by_cases hspent : existing.spent = true
        · simp_all [Option.filter]
        · simp_all [Option.filter]
    · exact h.2 e he.1

theorem find_mergeNote_of_ne (h : key ≠ raw.noteKey) :
    (mergeNote account (byKey, counts) raw).1.find key = byKey.find key := by
  simp only [mergeNote]
  split
  · rfl
  · exact Dict.find_set_of_ne _ _ h

/-- A spent note stays as it is. -/
theorem find_mergeNote_of_spent (h : byKey.find key = some n) (hspent : n.spent = true) :
    (mergeNote account (byKey, counts) raw).1.find key = some n := by
  by_cases hkey : key = raw.noteKey
  · subst hkey
    simp only [mergeNote, noteKey_withAccount, h, Option.any_some, hspent, true_and]
    split
    · exact h
    · rw [Dict.find_set_self]
      simp [Option.filter, hspent]
  · rw [find_mergeNote_of_ne hkey, h]

/-- Another one is replaced. -/
theorem find_mergeNote_of_unspent (h : byKey.find raw.noteKey = some n) (hspent : n.spent = false) :
    (mergeNote account (byKey, counts) raw).1.find raw.noteKey = some (raw.withAccount account) := by
  simp [mergeNote, h, Option.filter, hspent]

/-- A stored note that comes again. -/
theorem mergeNote_stored (hdistinct : byKey.Distinct) (h : byKey.find n.noteKey = some n)
    (hsame : n.spent = true ∨ n.withAccount account = n) :
    (mergeNote account (byKey, counts) n).1 = byKey := by
  cases hspent : n.spent with
  | true => simp [mergeNote, h, Option.filter, hspent, Dict.set_of_find hdistinct h]
  | false =>
    have hn : n.withAccount account = n := by simpa [hspent] using hsame
    simp [mergeNote, hn, h, Option.filter, hspent, Dict.set_of_find hdistinct h]

variable {merged : Dict Str PoolNote × ImportConflict}

theorem keyed_merge (h : Keyed merged.1) : Keyed (notes.foldl (mergeNote account) merged).1 := by
  induction notes generalizing merged with
  | nil => exact h
  | cons raw notes ih => exact ih (keyed_mergeNote h)

theorem find_merge_of_spent (account : Option Str) (notes : List PoolNote)
    (h : merged.1.find key = some n) (hspent : n.spent = true) :
    (notes.foldl (mergeNote account) merged).1.find key = some n := by
  induction notes generalizing merged with
  | nil => exact h
  | cons raw notes ih => exact ih (find_mergeNote_of_spent h hspent)

/-- What the whole import leaves in the place of a note that is not spent. -/
theorem find_merge_of_unspent (account : Option Str) (notes : List PoolNote)
    (h : merged.1.find key = some n) (hspent : n.spent = false) :
    (notes.foldl (mergeNote account) merged).1.find key =
      some (((survivor (notes.filter fun raw => raw.noteKey = key)).map (withAccount account)).getD n) := by
  induction notes generalizing merged n with
  | nil => exact h
  | cons raw notes ih =>
    rw [List.foldl_cons]
    by_cases hkey : raw.noteKey = key
    · subst hkey
      have hnext : (mergeNote account merged raw).1.find raw.noteKey = some (raw.withAccount account) :=
        find_mergeNote_of_unspent h hspent
      rw [List.filter_cons_of_pos (by simp)]
      cases hraw : raw.spent with
      | true =>
        rw [find_merge_of_spent account notes hnext hraw]
        simp [survivor, hraw]
      | false =>
        rw [ih hnext hraw]
        -- the first spent one of the rest, or the last of them, or this one
        cases hrest : notes.filter fun other => other.noteKey = raw.noteKey with
        | nil => simp [survivor, hraw]
        | cons other others =>
          obtain ⟨last, hlast⟩ : ∃ last, (other :: others).getLast? = some last :=
            ⟨_, List.getLast?_eq_some_getLast (List.cons_ne_nil _ _)⟩
          cases hfirst : (other :: others).find? (·.spent) with
          | none => simp [survivor, hfirst, hlast, hraw]
          | some first => simp [survivor, hfirst, hraw]
    · rw [List.filter_cons_of_neg (by simp [hkey])]
      refine ih ?_ hspent
      rw [← h]
      exact find_mergeNote_of_ne (Ne.symm hkey)

/-! ## Seeding -/

theorem seed_eq (h : (notes.map noteKey).Nodup) : seed notes = notes.map fun n => (n.noteKey, n) := by
  have hdistinct : Dict.Distinct ([] ++ notes.map fun n => (n.noteKey, n)) := by
    simpa [Dict.Distinct, Function.comp_def] using h
  have hfold := Dict.foldl_set _ _ hdistinct
  rwa [List.foldl_map] at hfold

theorem keyed_seed (notes : List PoolNote) : Keyed (seed notes) := by
  have hfold : ∀ byKey, Keyed byKey →
      Keyed (notes.foldl (fun byKey n => Dict.set byKey n.noteKey n) byKey) := by
    induction notes with
    | nil => exact fun _ h => h
    | cons n notes ih =>
      intro byKey h
      refine ih _ ⟨Dict.distinct_set h.1 _ _, ?_⟩
      intro e he
      rcases Dict.mem_set he with rfl | he
      · rfl
      · exact h.2 e he.1
  exact hfold [] ⟨List.nodup_nil, by simp⟩

theorem find_seed (h : (notes.map noteKey).Nodup) (hn : n ∈ notes) :
    (seed notes).find n.noteKey = some n := by
  refine Dict.find_of_mem (keyed_seed notes).1 ?_
  rw [seed_eq h]
  exact List.mem_map_of_mem hn

end Merge

/-! ## Steps that lose nothing -/

/-- What the calls have to be careful about. -/
def Careful (s : PoolNoteState) : Call → Prop
  | .setActiveAccount _ => True
  -- the note that goes is the same one, and is not spent unless the new one is
  | .addNote note => ∀ n ∈ s.notes, n.addKey = (note.withAccount s.activeAccount).addKey →
      n.material = note.material ∧ (n.spent = true → note.spent = true)
  -- of the notes that are shown, it means those of the active account only
  | .markSpent cluster poolId leafIndex => ∀ n ∈ s.getForCluster cluster,
      n.poolId.getD [] = poolId.getD [] → n.leafIndex = leafIndex →
        n.spent = true ∨ n.account.getD [] = s.activeAccount.getD []
  -- no two stored notes have one key, and none gives way to another
  | .importNotes notes => (s.notes.map noteKey).Nodup ∧
      (∀ n ∈ s.notes, n.spent = false →
        ∀ raw ∈ survivor (notes.filter fun raw => raw.noteKey = n.noteKey),
          raw.material = n.material) ∧
      (notes = s.exportNotes → s.activeAccount = none ∨
        ∀ n ∈ notes, n.spent = false → n.account ≠ none)

instance (s : PoolNoteState) : (call : Call) → Decidable (Careful s call)
  | .setActiveAccount _ => inferInstanceAs (Decidable True)
  | .addNote _ => inferInstanceAs (Decidable (∀ n ∈ s.notes, _ → _))
  | .markSpent cluster _ _ => inferInstanceAs (Decidable (∀ n ∈ s.getForCluster cluster, _ → _ → _))
  | .importNotes notes => inferInstanceAs (Decidable (_ ∧ (∀ n ∈ s.notes, _ → ∀ raw ∈
      survivor (notes.filter fun raw => raw.noteKey = n.noteKey), _) ∧ (_ → _)))

/-- A note of an earlier state in a later one. -/
structure Kept (n : PoolNote) (s : PoolNoteState) : Prop where
  material : ∃ n' ∈ s.notes, n'.material = n.material
  spent : n.spent = true → ∃ n' ∈ s.notes, n'.addKey = n.addKey ∧ n'.material = n.material ∧
    n'.spent = true

section Steps

variable {s : PoolNoteState} {n : PoolNote}

theorem kept_self (h : n ∈ s.notes) : Kept n s :=
  ⟨⟨n, h, rfl⟩, fun hspent => ⟨n, h, rfl, rfl, hspent⟩⟩

theorem kept_addNote {note : PoolNote} (h : Careful s (.addNote note)) (hn : n ∈ s.notes) :
    Kept n (s.addNote note) := by
  by_cases hkey : n.addKey = (note.withAccount s.activeAccount).addKey
  · obtain ⟨hmaterial, hspent⟩ := h n hn hkey
    have hmem : note.withAccount s.activeAccount ∈ (s.addNote note).notes := by
      simp [PoolNoteState.addNote]
    refine ⟨⟨_, hmem, hmaterial.symm⟩, ?_⟩
    intro hs
    exact ⟨_, hmem, hkey.symm, hmaterial.symm, hspent hs⟩
  · apply kept_self
    simp [PoolNoteState.addNote, hn, hkey]

theorem kept_markSpent {cluster : Str} {poolId : Option Str} {leafIndex : ℕ} (hn : n ∈ s.notes) :
    Kept n (s.markSpent cluster poolId leafIndex) := by
  have hmem : (if s.marks cluster poolId leafIndex n then { n with spent := true } else n) ∈
      (s.markSpent cluster poolId leafIndex).notes := List.mem_map_of_mem hn
  split at hmem
  · exact ⟨⟨_, hmem, rfl⟩, fun _ => ⟨_, hmem, rfl, rfl, rfl⟩⟩
  · exact kept_self hmem

theorem kept_importNotes {notes : List PoolNote} (h : Careful s (.importNotes notes))
    (hn : n ∈ s.notes) : Kept n (s.importNotes notes).1 := by
  obtain ⟨hdistinct, hsurvivor, -⟩ := h
  have hseed := find_seed hdistinct hn
  cases hspent : n.spent with
  | true =>
    apply kept_self
    have hfound := find_merge_of_spent s.activeAccount notes
      (show Dict.find (seed s.notes, (⟨0, 0⟩ : ImportConflict)).1 _ = _ from hseed) hspent
    exact List.mem_map_of_mem (Dict.mem_of_find hfound)
  | false =>
    have hfound := find_merge_of_unspent s.activeAccount notes
      (show Dict.find (seed s.notes, (⟨0, 0⟩ : ImportConflict)).1 _ = _ from hseed) hspent
    refine ⟨⟨_, List.mem_map_of_mem (Dict.mem_of_find hfound), ?_⟩, by simp [hspent]⟩
    cases hsurvives : survivor (notes.filter fun raw => raw.noteKey = n.noteKey) with
    | none => rfl
    | some raw => exact hsurvivor n hn hspent raw hsurvives

theorem kept_step {call : Call} (h : Careful s call) (hn : n ∈ s.notes) :
    Kept n (usePoolNoteStore.step s call).1 := by
  cases call with
  | setActiveAccount account => exact kept_self hn
  | addNote note => exact kept_addNote h hn
  | markSpent cluster poolId leafIndex => exact kept_markSpent hn
  | importNotes notes => exact kept_importNotes h hn

theorem Kept.trans {s' : PoolNoteState} (h : Kept n s) (hnext : ∀ n' ∈ s.notes, Kept n' s') :
    Kept n s' := by
  constructor
  · obtain ⟨n', hn', hmaterial⟩ := h.material
    obtain ⟨n'', hn'', hmaterial'⟩ := (hnext n' hn').material
    exact ⟨n'', hn'', hmaterial'.trans hmaterial⟩
  · intro hspent
    obtain ⟨n', hn', hkey, hmaterial, hspent'⟩ := h.spent hspent
    obtain ⟨n'', hn'', hkey', hmaterial', hspent''⟩ := (hnext n' hn').spent hspent'
    exact ⟨n'', hn'', hkey'.trans hkey, hmaterial'.trans hmaterial, hspent''⟩

/-- The text of a note's key tells less than what `addNote` compares. -/
theorem nodup_addKey {notes : List PoolNote} (h : (notes.map noteKey).Nodup) :
    (notes.map addKey).Nodup := by
  refine List.Nodup.of_map (fun key : Str × Str × ℕ × Str =>
    key.1 ++ ":".toList ++ key.2.1 ++ ":".toList ++ Decimal.encode key.2.2.1) ?_
  rw [List.map_map]
  exact h

theorem nodup_addKey_importNotes (notes : List PoolNote) (s : PoolNoteState) :
    ((s.importNotes notes).1.notes.map addKey).Nodup := by
  apply nodup_addKey
  have hkeyed : Keyed (notes.foldl (mergeNote s.activeAccount) (seed s.notes, ⟨0, 0⟩)).1 :=
    keyed_merge (keyed_seed s.notes)
  have hkeys : (s.importNotes notes).1.notes.map noteKey =
      (notes.foldl (mergeNote s.activeAccount) (seed s.notes, ⟨0, 0⟩)).1.map (·.1) := by
    rw [PoolNoteState.importNotes, List.map_map]
    exact List.map_congr_left fun e he => (hkeyed.2 e he).symm
  rw [hkeys]
  exact hkeyed.1

/-- No two notes are the same to `addNote`. -/
theorem nodup_addKey_step (h : (s.notes.map addKey).Nodup) (call : Call) :
    ((usePoolNoteStore.step s call).1.notes.map addKey).Nodup := by
  cases call with
  | setActiveAccount account => exact h
  | addNote note =>
    show ((s.addNote note).notes.map addKey).Nodup
    rw [PoolNoteState.addNote, List.map_append, List.nodup_append]
    refine ⟨h.sublist (List.filter_sublist.map _), by simp, ?_⟩
    intro key hkey key' hkey'
    obtain ⟨n, hn, rfl⟩ := List.mem_map.mp hkey
    rw [List.map_singleton, List.mem_singleton] at hkey'
    rw [hkey']
    simpa using (List.mem_filter.mp hn).2
  | markSpent cluster poolId leafIndex =>
    have hkeys : (s.markSpent cluster poolId leafIndex).notes.map addKey = s.notes.map addKey := by
      rw [PoolNoteState.markSpent, List.map_map]
      refine List.map_congr_left fun n _ => ?_
      rw [Function.comp_apply]
      split <;> rfl
    show ((s.markSpent cluster poolId leafIndex).notes.map addKey).Nodup
    rw [hkeys]
    exact h
  | importNotes notes => exact nodup_addKey_importNotes notes s

/-- What is shown for the pool and the leaf is spent afterwards if it is the active account's. -/
theorem spent_of_markSpent {cluster : Str} {poolId : Option Str} {leafIndex : ℕ}
    (h : Careful s (.markSpent cluster poolId leafIndex)) :
    ∀ n ∈ (s.markSpent cluster poolId leafIndex).getForCluster cluster,
      n.poolId.getD [] = poolId.getD [] → n.leafIndex = leafIndex → n.spent = true := by
  intro n hn hpool hleaf
  obtain ⟨hn, hshown⟩ := List.mem_filter.mp hn
  obtain ⟨old, hold, rfl⟩ := List.mem_map.mp hn
  split at hshown
  next hmarks => simp [hmarks]
  next hmarks =>
    rw [if_neg hmarks] at hpool hleaf ⊢
    have hcareful := h old (List.mem_filter.mpr ⟨hold, hshown⟩) hpool hleaf
    have hcluster : old.cluster = cluster := by simp_all
    simp only [PoolNoteState.marks, hcluster, hpool, hleaf, decide_true, Bool.true_and,
      decide_eq_true_eq] at hmarks
    exact hcareful.resolve_right hmarks

theorem importNotes_exportNotes (h : (s.notes.map noteKey).Nodup)
    (haccount : s.activeAccount = none ∨ ∀ n ∈ s.exportNotes, n.spent = false → n.account ≠ none) :
    (s.importNotes s.exportNotes).1.notes = s.notes := by
  have hsame : ∀ (notes : List PoolNote) (counts : ImportConflict), (∀ n ∈ notes, n ∈ s.exportNotes) →
      (notes.foldl (mergeNote s.activeAccount) (seed s.notes, counts)).1 = seed s.notes := by
    intro notes
    induction notes with
    | nil => exact fun _ _ => rfl
    | cons n notes ih =>
      intro counts hnotes
      have hn := hnotes n List.mem_cons_self
      have hmerge : (mergeNote s.activeAccount (seed s.notes, counts) n).1 = seed s.notes := by
        apply mergeNote_stored (keyed_seed s.notes).1 (find_seed h (List.mem_of_mem_filter hn))
        cases hspent : n.spent with
        | true => exact .inl rfl
        | false =>
          right
          rcases haccount with hnone | hsome
          · simp [withAccount, hnone]
          · exact withAccount_of_ne_none (hsome n hn hspent)
      rw [List.foldl_cons, ← Prod.mk.eta (p := mergeNote _ _ _), hmerge]
      exact ih _ fun n' hn' => hnotes n' (List.mem_cons_of_mem _ hn')
  show (s.exportNotes.foldl (mergeNote s.activeAccount) (seed s.notes, ⟨0, 0⟩)).1.map (·.2) = s.notes
  rw [hsame _ _ fun _ h => h, seed_eq h, List.map_map]
  exact List.map_id s.notes

end Steps

/-! ## Runs -/

section Runs

variable {calls : List Call}

/-- Each note of an earlier state is kept. -/
theorem kept_run (h : ∀ e ∈ usePoolNoteStore.trace .initial calls, Careful e.pre e.input) :
    ∀ e ∈ usePoolNoteStore.trace .initial calls, ∀ n ∈ e.pre.notes,
      Kept n (usePoolNoteStore.final .initial calls) := by
  refine usePoolNoteStore.invariant_of_steps (P := fun e => Careful e.pre e.input)
    (I := fun t s => ∀ e ∈ t, ∀ n ∈ e.pre.notes, Kept n s) (by simp) ?_ calls h
  intro t s call hkept hcareful e he n hn
  rcases List.mem_append.mp he with he | he
  · exact (hkept e he n hn).trans fun n' hn' => kept_step hcareful hn'
  · rw [List.mem_singleton] at he
    subst he
    exact kept_step hcareful hn

theorem nodup_addKey_run (calls : List Call) :
    ((usePoolNoteStore.final .initial calls).notes.map addKey).Nodup :=
  usePoolNoteStore.stable (J := fun s => (s.notes.map addKey).Nodup)
    (fun _ call h => nodup_addKey_step h call) (s := .initial) List.nodup_nil calls

/-- The one note in the place of a spent one is spent. -/
theorem spent_of_kept {s : PoolNoteState} {n n' : PoolNote} (hnodup : (s.notes.map addKey).Nodup)
    (h : Kept n s) (hspent : n.spent = true) (hn' : n' ∈ s.notes) (hkey : n'.addKey = n.addKey) :
    n'.spent = true := by
  obtain ⟨n'', hn'', hkey'', -, hspent''⟩ := h.spent hspent
  have hsame : n' = n'' := List.inj_on_of_nodup_map hnodup hn' hn'' (hkey.trans hkey''.symm)
  rw [hsame]
  exact hspent''

end Runs

/-- In every run of careful calls the spending material of every note stays stored, a spent note stays
spent, `markSpent` leaves nothing that is shown for the leaf unspent, and importing what is exported
changes nothing. -/
theorem note_store_keeps_notes (calls : List Call)
    (h : ∀ e ∈ usePoolNoteStore.trace .initial calls, Careful e.pre e.input) :
    (∀ e ∈ usePoolNoteStore.trace .initial calls, ∀ n ∈ e.pre.notes,
      ∃ n' ∈ (usePoolNoteStore.final .initial calls).notes, n'.material = n.material) ∧
    (∀ e ∈ usePoolNoteStore.trace .initial calls, ∀ n ∈ e.pre.notes, n.spent = true →
      (∃ n' ∈ (usePoolNoteStore.final .initial calls).notes,
        n'.addKey = n.addKey ∧ n'.material = n.material ∧ n'.spent = true) ∧
      ∀ n' ∈ (usePoolNoteStore.final .initial calls).notes, n'.addKey = n.addKey → n'.spent = true) ∧
    (∀ e ∈ usePoolNoteStore.trace .initial calls, ∀ cluster poolId leafIndex,
      e.input = .markSpent cluster poolId leafIndex →
        ∀ n ∈ (usePoolNoteStore.step e.pre e.input).1.getForCluster cluster,
          n.poolId.getD [] = poolId.getD [] → n.leafIndex = leafIndex → n.spent = true) ∧
    ∀ e ∈ usePoolNoteStore.trace .initial calls, e.input = .importNotes e.pre.exportNotes →
      (usePoolNoteStore.step e.pre e.input).1.notes = e.pre.notes := by
  refine ⟨?_, ?_, ?_, ?_⟩
  · intro e he n hn
    exact (kept_run h e he n hn).material
  · intro e he n hn hspent
    have hkept := kept_run h e he n hn
    exact ⟨hkept.spent hspent,
      fun n' hn' => spent_of_kept (nodup_addKey_run calls) hkept hspent hn'⟩
  · intro e he cluster poolId leafIndex hinput
    have hcareful := h e he
    rw [hinput] at hcareful ⊢
    exact spent_of_markSpent hcareful
  · intro e he hinput
    have hcareful := h e he
    rw [hinput] at hcareful ⊢
    exact importNotes_exportNotes hcareful.1 (hcareful.2.2 rfl)

/-- A note for the first leaf of an old pool. -/
def oldNote (account : Option String) (secret : String) (spent : Bool) : PoolNote where
  cluster := "testnet".toList
  account := account.map String.toList
  value := "10".toList
  scope := 0
  leafIndex := 0
  nullifier := "1".toList
  secret := secret.toList
  commitment := "0x".toList
  spent := spent
  createdAt := 0

theorem note_store_keeps_spent_note :
    (∀ e ∈ usePoolNoteStore.trace .initial
        [.addNote (oldNote (some "GA") "2" false), .setActiveAccount (some "GA".toList),
          .markSpent "testnet".toList none 0, .importNotes []], Careful e.pre e.input) ∧
      ∃ n ∈ (usePoolNoteStore.final .initial
        [.addNote (oldNote (some "GA") "2" false), .setActiveAccount (some "GA".toList),
          .markSpent "testnet".toList none 0, .importNotes []]).notes,
        n.material = (oldNote (some "GA") "2" true).material := by
  have hcareful : ∀ e ∈ usePoolNoteStore.trace .initial
      [.addNote (oldNote (some "GA") "2" false), .setActiveAccount (some "GA".toList),
        .markSpent "testnet".toList none 0, .importNotes []], Careful e.pre e.input := by
    decide
  refine ⟨hcareful, ?_⟩
  exact (note_store_keeps_notes _ hcareful).1
    ⟨⟨[oldNote (some "GA") "2" true], some "GA".toList⟩, .importNotes [], some ⟨0, 0⟩⟩
    (by simp [Machine.trace, Machine.stepAt]; decide) _ List.mem_cons_self

/-- Two accounts have a note for the first leaf: any import drops one. A spent note is added again. A note
without an account is shown but not marked, and importing it gives it an account. -/
theorem note_store_loses_notes :
    (∀ n ∈ (usePoolNoteStore.final .initial
        [.addNote (oldNote (some "GA") "2" false), .addNote (oldNote (some "GB") "3" false),
          .importNotes []]).notes, n.material ≠ (oldNote (some "GA") "2" false).material) ∧
      (usePoolNoteStore.final .initial
        [.addNote (oldNote (some "GA") "2" true), .addNote (oldNote (some "GA") "2" false)]).notes =
          [oldNote (some "GA") "2" false] ∧
      (usePoolNoteStore.final .initial
        [.addNote (oldNote none "2" false), .setActiveAccount (some "GA".toList),
          .markSpent "testnet".toList none 0]).getForCluster "testnet".toList =
            [oldNote none "2" false] ∧
      (usePoolNoteStore.final .initial
        [.addNote (oldNote none "2" false), .setActiveAccount (some "GA".toList),
          .importNotes [oldNote none "2" false]]).notes = [oldNote (some "GA") "2" false] := by
  decide

end OpaqueStellar.Web
