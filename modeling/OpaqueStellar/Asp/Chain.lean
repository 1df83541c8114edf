import OpaqueStellar.Pool.Leaves
import OpaqueStellar.Pool.Roots

/-! # The chain as the services see it

A ledger closes with invocations of the pool in it, and the events they emit are recorded under its
number. The services read leaf events (`Deposit` and `Withdraw`) only, so these are what the log
holds; a position in the log is what a cursor of the RPC node stands for.

`Chain` carries what holds of every such log: it is the record of the pool's own events, ordered by
ledger, none later than the last closed ledger; and what holds of the pool's leaves and roots.
`Extends` is how one moment relates to a later one: nothing is removed, and what is new is in a
ledger that was not closed yet. -/

namespace OpaqueStellar.Asp

open OpaqueStellar.Lib OpaqueStellar.Soroban OpaqueStellar.Pool

/-- An event of the pool with the ledger it was emitted in. -/
structure Emitted where
  ledger : ℕ
  event : PoolEvent
  deriving DecidableEq

def leafEvents (events : List PoolEvent) : List PoolEvent :=
  events.filter fun e => (leafOf e).isSome

/-- The leaf that an emitted event announces. -/
def Emitted.leaf (e : Emitted) : Option (BytesN 32 × ℕ) := leafOf e.event

structure Chain where
  world : World
  log : List Emitted
  -- the last ledger that closed
  ledger : ℕ
  recorded : log.map (·.event) = leafEvents world.events
  ordered : log.Pairwise fun a b => a.ledger ≤ b.ledger
  closed : ∀ e ∈ log, e.ledger ≤ ledger
  indexed : Indexed world
  latest : LatestRecorded world

/-! ## Closing ledgers -/

/-- The ledgers up to the next one with invocations of the pool in it. -/
structure Ledger where
  -- ledgers before it without any
  idle : ℕ := 0
  invocations : List Invocation := []

/-- The invocation as it runs in the ledger with this number. -/
def stamp (ledger : ℕ) (inv : Invocation) : Invocation :=
  { inv with env := { inv.env with sequence := ledger } }

theorem events_prefix_of_effect {host : Host} {env : Env} {w w' : World} {call : Call} {r : Ret}
    (h : Effect host env w call w' r) : w.events <+: w'.events := by
  cases h with
  | initializePool | deposit => exact ⟨_, (List.append_assoc _ _ _).symm⟩
  | updateStateRoot | updateAspRoot | pauseDeposits | unpauseDeposits | requestPause
  | unpauseWithdrawals
  | setWithdrawalMinimum | withdraw => exact List.prefix_append _ _
  | setRootExpiry | transferAdmin | requestPauseAgain | tokenTransfer => exact List.prefix_refl _

theorem events_prefix_step (host : Host) (w : World) (inv : Invocation) :
    w.events <+: (step host w inv).1.events := by
  rcases step_cases host w inv with ⟨e, hstep⟩ | ⟨w', r, hstep, heffect⟩
  · rw [hstep]
  · rw [hstep]
    exact events_prefix_of_effect heffect

theorem indexed_step (host : Host) {w : World} (inv : Invocation) (h : Indexed w) :
    Indexed (step host w inv).1 := by
  rcases step_cases host w inv with ⟨e, hstep⟩ | ⟨w', r, hstep, heffect⟩
  · rw [hstep]
    exact h
  · rw [hstep]
    exact indexed_effect h heffect

theorem latestRecorded_step (host : Host) {w : World} (inv : Invocation) (h : LatestRecorded w) :
    LatestRecorded (step host w inv).1 := by
  rcases step_cases host w inv with ⟨e, hstep⟩ | ⟨w', r, hstep, heffect⟩
  · rw [hstep]
    exact h
  · rw [hstep]
    exact latestRecorded_effect h heffect

/-- The leaf events of a world that were not in an earlier one, under a ledger number. -/
def newEvents (ledger : ℕ) (w w' : World) : List Emitted :=
  (leafEvents (w'.events.drop w.events.length)).map (Emitted.mk ledger)

namespace Chain

theorem ledger_of_mem_newEvents {n : ℕ} {w w' : World} {e : Emitted}
    (h : e ∈ newEvents n w w') : e.ledger = n := by
  obtain ⟨event, -, rfl⟩ := List.mem_map.mp h
  rfl

/-- Before anything was invoked. -/
def deployed (tokens : TokenLedger) (ledger : ℕ) : Chain where
  world := .deployed tokens
  log := []
  ledger := ledger
  recorded := rfl
  ordered := List.Pairwise.nil
  closed := fun _ he => absurd he List.not_mem_nil
  indexed := ⟨rfl, fun _ hleaf => absurd hleaf List.not_mem_nil, fun _ => rfl⟩
  latest := fun _ _ hlast => nomatch hlast

section Close

variable (host : Host)

/-- One more invocation in the ledger that is closing. -/
def invoke (c : Chain) (inv : Invocation) : Chain where
  world := (step host c.world (stamp c.ledger inv)).1
  log := c.log ++ newEvents c.ledger c.world (step host c.world (stamp c.ledger inv)).1
  ledger := c.ledger
  recorded := by
    obtain ⟨new, hnew⟩ := events_prefix_step host c.world (stamp c.ledger inv)
    rw [newEvents, ← hnew, List.drop_left, List.map_append, c.recorded, leafEvents, leafEvents,
      leafEvents, List.filter_append, List.map_map]
    simp [Function.comp_def]
  ordered := by
    rw [List.pairwise_append]
    refine ⟨c.ordered, ?_, ?_⟩
    · rw [List.pairwise_iff_forall_sublist]
      intro a b hab
      rw [ledger_of_mem_newEvents (hab.subset (by simp : a ∈ [a, b])),
        ledger_of_mem_newEvents (hab.subset (by simp : b ∈ [a, b]))]
    · intro a ha b hb
      rw [ledger_of_mem_newEvents hb]
      exact c.closed a ha
  closed := by
    intro e he
    rcases List.mem_append.mp he with hold | hnew
    · exact c.closed e hold
    · exact le_of_eq (ledger_of_mem_newEvents hnew)
  indexed := indexed_step host _ c.indexed
  latest := latestRecorded_step host _ c.latest

variable {host} in
theorem invoke_log (c : Chain) (inv : Invocation) : (c.invoke host inv).log =
    c.log ++ newEvents c.ledger c.world (step host c.world (stamp c.ledger inv)).1 := rfl

def invokeAll (c : Chain) (invs : List Invocation) : Chain := invs.foldl (invoke host) c

/-- The number of ledgers goes up, and nothing else happens. -/
def advance (c : Chain) (n : ℕ) : Chain :=
  { c with
    ledger := c.ledger + n
    closed := fun e he => le_trans (c.closed e he) (Nat.le_add_right _ _) }

def close (c : Chain) (l : Ledger) : Chain :=
  invokeAll host (c.advance (l.idle + 1)) l.invocations

def closeAll (c : Chain) (ls : List Ledger) : Chain := ls.foldl (close host) c

theorem ledger_invokeAll (c : Chain) (invs : List Invocation) :
    (c.invokeAll host invs).ledger = c.ledger := by
  induction invs generalizing c with
  | nil => rfl
  | cons inv invs ih => exact ih (c.invoke host inv)

theorem ledger_lt_close (c : Chain) (l : Ledger) : c.ledger < (c.close host l).ledger := by
  rw [close, ledger_invokeAll]
  exact Nat.lt_add_of_pos_right (Nat.succ_pos _)

end Close

/-! ## Leaves -/

theorem filterMap_leaf (c : Chain) : c.log.filterMap Emitted.leaf = leaves c.world := by
  have hmap : c.log.filterMap Emitted.leaf = (c.log.map (·.event)).filterMap leafOf := by
    rw [List.filterMap_map]
    rfl
  rw [hmap, c.recorded, leafEvents, leaves, List.filterMap_filter]
  congr 1
  funext event
  cases leafOf event <;> rfl

/-- Every event of the log announces a leaf. -/
theorem map_leaf (c : Chain) : c.log.map Emitted.leaf = (leaves c.world).map some := by
  rw [← c.filterMap_leaf, List.map_filterMap_some_eq_filter_map_isSome, List.filter_eq_self.mpr]
  intro x hx
  obtain ⟨e, he, rfl⟩ := List.mem_map.mp hx
  have hmem : e.event ∈ leafEvents c.world.events := c.recorded ▸ List.mem_map_of_mem he
  exact (List.mem_filter.mp hmem).2

/-- The position of an event in the log is the index of the leaf it announces. -/
theorem leaf_of_getElem? (c : Chain) {p : ℕ} {e : Emitted} (h : c.log[p]? = some e) :
    ∃ x, e.leaf = some (x, p) := by
  have hget : (c.log.map Emitted.leaf)[p]? = some e.leaf := by rw [List.getElem?_map, h]; rfl
  rw [c.map_leaf, List.getElem?_map, Option.map_eq_some_iff] at hget
  obtain ⟨⟨x, i⟩, hleaf, hx⟩ := hget
  have hindex : ((leaves c.world).map Prod.snd)[p]? = some i := by
    rw [List.getElem?_map, hleaf]
    rfl
  rw [c.indexed.indices, List.getElem?_eq_some_iff] at hindex
  obtain ⟨hlt, hi⟩ := hindex
  rw [List.getElem_range] at hi
  exact ⟨x, by rw [← hx, hi]⟩

/-- The leaves of the pool's tree so far. -/
def leaves (c : Chain) : List (BytesN 32) := (Pool.leaves c.world).map Prod.fst

theorem leaves_eq (c : Chain) : c.leaves = (c.log.filterMap Emitted.leaf).map Prod.fst := by
  rw [leaves, c.filterMap_leaf]

theorem length_leaves (c : Chain) : c.leaves.length = c.log.length := by
  have h := congrArg List.length c.map_leaf
  simp only [List.length_map] at h
  rw [leaves, List.length_map, h]

theorem getElem?_leaves (c : Chain) {p : ℕ} {e : Emitted} {x : BytesN 32} {i : ℕ}
    (h : c.log[p]? = some e) (hleaf : e.leaf = some (x, i)) : i = p ∧ c.leaves[p]? = some x := by
  obtain ⟨y, hy⟩ := c.leaf_of_getElem? h
  rw [hleaf, Option.some.injEq, Prod.mk.injEq] at hy
  obtain ⟨rfl, rfl⟩ := hy
  refine ⟨rfl, ?_⟩
  have hget := congrArg (·[i]?) c.map_leaf
  simp only [List.getElem?_map, h, Option.map_some, hleaf] at hget
  rw [leaves, List.getElem?_map]
  cases hx : (Pool.leaves c.world)[i]? with
  | none =>
      rw [hx] at hget
      cases hget
  | some y =>
      rw [hx] at hget
      cases hget
      rfl

/-! ## One moment and a later one -/

/-- `c'` is `c` some ledgers later: the old log is an initial part of the new one, and what was added
is in later ledgers. -/
structure Extends (c c' : Chain) : Prop where
  ledger : c.ledger ≤ c'.ledger
  log : ∃ new, c'.log = c.log ++ new ∧ ∀ e ∈ new, c.ledger < e.ledger

namespace Extends

variable {c c' c'' : Chain}

theorem refl (c : Chain) : Extends c c :=
  ⟨le_refl _, [], (List.append_nil _).symm, fun _ he => absurd he List.not_mem_nil⟩

theorem trans (h : Extends c c') (h' : Extends c' c'') : Extends c c'' := by
  obtain ⟨new, hlog, hnew⟩ := h.log
  obtain ⟨new', hlog', hnew'⟩ := h'.log
  refine ⟨le_trans h.ledger h'.ledger, new ++ new', ?_, ?_⟩
  · rw [hlog', hlog, List.append_assoc]
  · intro e he
    rcases List.mem_append.mp he with he | he
    · exact hnew e he
    · exact lt_of_le_of_lt h.ledger (hnew' e he)

/-- An event keeps its position. -/
theorem getElem?_eq (h : Extends c c') {p : ℕ} (hp : p < c.log.length) :
    c'.log[p]? = c.log[p]? := by
  obtain ⟨new, hlog, -⟩ := h.log
  rw [hlog, List.getElem?_append_left hp]

theorem getElem? (h : Extends c c') {p : ℕ} {e : Emitted} (he : c.log[p]? = some e) :
    c'.log[p]? = some e :=
  (h.getElem?_eq (List.getElem?_eq_some_iff.mp he).1).trans he

/-- An event of a ledger that had closed was there. -/
theorem getElem?_of_le (h : Extends c c') {p : ℕ} {e : Emitted} (he : c'.log[p]? = some e)
    (hle : e.ledger ≤ c.ledger) : c.log[p]? = some e := by
  rcases lt_or_ge p c.log.length with hp | hp
  · rwa [h.getElem?_eq hp] at he
  · obtain ⟨new, hlog, hnew⟩ := h.log
    rw [hlog, List.getElem?_append_right hp] at he
    exact absurd hle (not_le_of_gt (hnew e (List.mem_of_getElem? he)))

/-- The leaves so far stay where they are. -/
theorem take_leaves (h : Extends c c') {n : ℕ} (hn : n ≤ c.log.length) :
    c'.leaves.take n = c.leaves.take n := by
  obtain ⟨new, hlog, -⟩ := h.log
  rw [c'.leaves_eq, hlog, List.filterMap_append, List.map_append, ← c.leaves_eq,
    List.take_append_of_le_length (c.length_leaves ▸ hn)]

theorem length (h : Extends c c') : c.log.length ≤ c'.log.length := by
  obtain ⟨new, hlog, -⟩ := h.log
  rw [hlog, List.length_append]
  exact Nat.le_add_right _ _

/-- One more invocation in a ledger that was not closed yet. -/
theorem invoke (host : Host) (h : Extends c c') (hlt : c.ledger < c'.ledger) (inv : Invocation) :
    Extends c (c'.invoke host inv) := by
  obtain ⟨new, hlog, hnew⟩ := h.log
  refine ⟨h.ledger,
    new ++ newEvents c'.ledger c'.world (step host c'.world (stamp c'.ledger inv)).1, ?_, ?_⟩
  · rw [invoke_log, hlog, List.append_assoc]
  · intro e he
    rcases List.mem_append.mp he with he | he
    · exact hnew e he
    · rw [ledger_of_mem_newEvents he]
      exact hlt

theorem invokeAll (host : Host) (h : Extends c c') (hlt : c.ledger < c'.ledger)
    (invs : List Invocation) : Extends c (c'.invokeAll host invs) := by
  induction invs generalizing c' with
  | nil => exact h
  | cons inv invs ih => exact ih (h.invoke host hlt inv) hlt

theorem advance (c : Chain) (n : ℕ) : Extends c (c.advance n) :=
  ⟨Nat.le_add_right _ _, [], (List.append_nil _).symm, fun _ he => absurd he List.not_mem_nil⟩

theorem close (host : Host) (c : Chain) (l : Ledger) : Extends c (c.close host l) :=
  (advance c _).invokeAll host (Nat.lt_add_of_pos_right (Nat.succ_pos _)) l.invocations

theorem closeAll (host : Host) (c : Chain) (ls : List Ledger) : Extends c (c.closeAll host ls) := by
  induction ls generalizing c with
  | nil => exact refl c
  | cons l ls ih => exact (close host c l).trans (ih (c.close host l))

end Extends

end Chain

end OpaqueStellar.Asp
