import Mathlib.Data.List.Infix
import OpaqueStellar.Lib.Machine
import OpaqueStellar.Web.Notes

/-! # Encrypted storage of the web client

`frontend/src/lib/encryptedStorage.ts` under zustand's `persist`: the store asks `getItem` once when it
is created and keeps its first state if that answers `null`, and calls `setItem` with the whole state
after each update. `getItem` answers `null` when there is nothing and also when it cannot decrypt what is
there. `setItem` reads the passphrase, encrypts, and writes when the encryption has come back; without a
passphrase, or if the encryption fails, it writes plaintext.

A page is what is in `localStorage` and what the page remembers. Encryptions that are under way stand in
the order in which they were started and may come back in any order. -/

namespace OpaqueStellar.Web

open OpaqueStellar.Lib OpaqueStellar.Schemas

/-- `store/securitySettingsStore.ts` -/
structure SecuritySettings where
  encryptionEnabled : Bool
  passphrase : Option Str
  deriving DecidableEq

def getEncryptionPassphrase (settings : SecuritySettings) : Option Str :=
  if settings.encryptionEnabled then settings.passphrase else none

/-- `if (passphrase)`: an empty one is none. -/
def truthy (passphrase : Option Str) : Option Str := passphrase.filter fun p => p ≠ []

theorem truthy_eq_some {passphrase : Option Str} {p : Str} :
    truthy passphrase = some p ↔ passphrase = some p ∧ p ≠ [] := by
  simp [truthy, Option.filter_eq_some_iff]

/-- The text in `localStorage`. -/
inductive Item (σ : Type) where
  | plain (value : σ)
  -- what `decryptData` gives back under the same passphrase, and under no other
  | encrypted (passphrase : Str) (value : σ)
  -- not JSON
  | corrupt
  deriving DecidableEq

def Item.isEncrypted {σ : Type} : Item σ → Bool
  | encrypted _ _ => true
  | _ => false

def getItem {σ : Type} (item : Option (Item σ)) (passphrase : Option Str) : Option σ :=
  match item with
  | none => none
  | some .corrupt => none
  | some (.plain value) => some value
  | some (.encrypted p value) => if truthy passphrase = some p then some value else none

/-- How a call of `setItem` that has a passphrase ends. -/
inductive Outcome where
  | written
  -- the encryption failed, or its result did not fit, and plaintext is written
  | plaintext
  -- plaintext does not fit either, and the call rejects
  | rejected
  deriving DecidableEq

inductive Hydration (σ : Type) where
  -- the store has not been created
  | waiting
  -- `getItem` was called and is going to answer this
  | reading (found : Option σ)
  | done
  deriving DecidableEq

structure Page (σ : Type) where
  item : Option (Item σ)
  settings : SecuritySettings
  state : σ
  hydration : Hydration σ
  -- the calls of `setItem` that are encrypting, oldest first
  writes : List (Str × σ)

inductive Input (σ : Type) where
  | enableEncryption
  | disableEncryption
  | setPassphrase (passphrase : Str)
  | clearPassphrase
  -- the passphrase is not kept; `loadSettings` reads the rest
  | reload (encryptionEnabled : Bool)
  | create
  | hydrate
  -- `full` if `localStorage` takes no more
  | update (f : σ → σ) (full : Bool)
  | complete (i : ℕ) (outcome : Outcome)

namespace Page

variable {σ : Type}

def passphrase (s : Page σ) : Option Str := truthy (getEncryptionPassphrase s.settings)

/-- `setItem` up to its first `await`. -/
def setItem (value : σ) (full : Bool) (s : Page σ) : Page σ :=
  match s.passphrase with
  | some p => { s with writes := s.writes ++ [(p, value)] }
  | none => if full then s else { s with item := some (.plain value) }

/-- The rest of `setItem`. -/
def completeWrite (i : ℕ) (outcome : Outcome) (s : Page σ) : Page σ :=
  match s.writes[i]? with
  | none => s
  | some (p, value) =>
      let s := { s with writes := s.writes.eraseIdx i }
      match outcome with
      | .written => { s with item := some (.encrypted p value) }
      | .plaintext => { s with item := some (.plain value) }
      | .rejected => s

@[simp] theorem state_setItem (value : σ) (full : Bool) (s : Page σ) :
    (s.setItem value full).state = s.state := by
  unfold setItem
  repeat' split
  all_goals rfl

@[simp] theorem hydration_setItem (value : σ) (full : Bool) (s : Page σ) :
    (s.setItem value full).hydration = s.hydration := by
  unfold setItem
  repeat' split
  all_goals rfl

@[simp] theorem state_completeWrite (i : ℕ) (outcome : Outcome) (s : Page σ) :
    (s.completeWrite i outcome).state = s.state := by
  unfold completeWrite
  repeat' split
  all_goals rfl

@[simp] theorem hydration_completeWrite (i : ℕ) (outcome : Outcome) (s : Page σ) :
    (s.completeWrite i outcome).hydration = s.hydration := by
  unfold completeWrite
  repeat' split
  all_goals rfl

theorem completeWrite_of_nil {i : ℕ} {outcome : Outcome} {s : Page σ} (h : s.writes = []) :
    s.completeWrite i outcome = s := by
  simp [completeWrite, h]

end Page

variable {σ : Type}

/-- A page whose store starts with `first`. -/
def page (first : σ) : Machine (Page σ) (Input σ) Unit where
  step s
    | .enableEncryption => ({ s with settings := { s.settings with encryptionEnabled := true } }, ())
    | .disableEncryption => ({ s with settings := ⟨false, none⟩ }, ())
    | .setPassphrase p => ({ s with settings := { s.settings with passphrase := some p } }, ())
    | .clearPassphrase => ({ s with settings := { s.settings with passphrase := none } }, ())
    | .reload enabled => (⟨s.item, ⟨enabled, none⟩, first, .waiting, []⟩, ())
    | .create =>
        match s.hydration with
        | .waiting => ({ s with hydration := .reading (getItem s.item s.passphrase) }, ())
        | _ => (s, ())
    | .hydrate =>
        match s.hydration with
        | .reading found => ({ s with state := found.getD s.state, hydration := .done }, ())
        | _ => (s, ())
    | .update f full =>
        match s.hydration with
        | .waiting => (s, ())
        | _ => (Page.setItem (f s.state) full { s with state := f s.state }, ())
    | .complete i outcome => (s.completeWrite i outcome, ())

/-- Nothing has been stored yet. -/
def Page.empty (first : σ) : Page σ := ⟨none, ⟨false, none⟩, first, .waiting, []⟩

/-! ## What has been set and is not lost -/

/-- The state that a step sets. -/
def setState (s : Page σ) : Input σ → Option σ
  | .update f _ => if s.hydration matches .waiting then none else some (f s.state)
  | _ => none

def setStates (t : List (Machine.Step (Page σ) (Input σ) Unit)) : List σ :=
  t.filterMap fun e => setState e.pre e.input

/-- What the item holds for whoever has the right passphrase, and what is to follow it. -/
def stored (right : Str) (s : Page σ) : List σ :=
  (getItem s.item (some right)).toList ++ s.writes.map (·.2)

def encrypted (s : Page σ) : Bool := s.item.any (·.isEncrypted)

/-- What a step has to be careful about. -/
def Safe (right : Str) (s : Page σ) : Input σ → Prop
  -- no write is under way
  | .reload _ => s.writes = []
  -- what is there can be read
  | .create => encrypted s → s.passphrase = some right
  -- the store has what was found, and the write is encrypted, or nothing was encrypted before
  | .update _ full => (∀ found, s.hydration ≠ .reading (some found)) ∧
      (s.passphrase = some right ∨
        s.passphrase = none ∧ full = false ∧ s.writes = [] ∧ encrypted s = false)
  -- writes come back in order and are not rejected, nor written as plaintext after an encrypted one
  | .complete i outcome => s.writes[i]? ≠ none →
      i = 0 ∧ (outcome = .written ∨ outcome = .plaintext ∧ encrypted s = false)
  | _ => True

/-- What the store is going to have once `getItem` has answered. -/
def current (s : Page σ) : σ :=
  match s.hydration with
  | .reading found => found.getD s.state
  | _ => s.state

/-! ## Steps -/

section Steps

variable {first : σ} {right : Str} {s : Page σ}

/-- Everything that is encrypted, or is being encrypted, is under the right passphrase. -/
structure Right (right : Str) (s : Page σ) : Prop where
  item : ∀ p value, s.item = some (.encrypted p value) → p = right ∧ right ≠ []
  writes : ∀ w ∈ s.writes, w.1 = right ∧ right ≠ []

theorem getItem_encrypted {value : σ} (h : right ≠ []) :
    getItem (some (.encrypted right value)) (some right) = some value := by
  simp [getItem, truthy_eq_some, h]

theorem passphrase_ne_nil {p : Str} (h : s.passphrase = some p) : p ≠ [] := (truthy_eq_some.mp h).2

/-- The store finds what is there. -/
theorem getItem_passphrase (h : encrypted s → s.passphrase = some right) :
    getItem s.item s.passphrase = getItem s.item (some right) := by
  cases hitem : s.item with
  | none => rfl
  | some item =>
    cases item with
    | plain value => rfl
    | corrupt => rfl
    | encrypted p value =>
      have hpassphrase := h (by simp [encrypted, hitem, Item.isEncrypted])
      rw [hpassphrase]

theorem right_setItem {value : σ} {full : Bool} (hright : Right right s)
    (h : ∀ p, s.passphrase = some p → p = right) : Right right (s.setItem value full) := by
  unfold Page.setItem
  split
  next p hp =>
    refine ⟨hright.item, ?_⟩
    intro w hw
    rcases List.mem_append.mp hw with hw | hw
    · exact hright.writes w hw
    · rw [List.mem_singleton] at hw
      subst hw
      have hpr := h p hp
      exact ⟨hpr, hpr ▸ passphrase_ne_nil hp⟩
  next =>
    split
    · exact hright
    · exact ⟨by simp, hright.writes⟩

theorem right_completeWrite {i : ℕ} {outcome : Outcome} (hright : Right right s) :
    Right right (s.completeWrite i outcome) := by
  unfold Page.completeWrite
  split
  · exact hright
  next p value hwrite =>
    have hwrites : ∀ w ∈ s.writes.eraseIdx i, w.1 = right ∧ right ≠ [] :=
      fun w hw => hright.writes w (List.mem_of_mem_eraseIdx hw)
    cases outcome with
    | written =>
      refine ⟨?_, hwrites⟩
      intro p' value' hitem
      cases hitem
      exact hright.writes _ (List.mem_of_getElem? hwrite)
    | plaintext => exact ⟨by simp, hwrites⟩
    | rejected => exact ⟨hright.item, hwrites⟩

theorem right_step {input : Input σ} (hright : Right right s) (h : Safe right s input) :
    Right right ((page first).step s input).1 := by
  cases input with
  | enableEncryption => exact ⟨hright.item, hright.writes⟩
  | disableEncryption => exact ⟨hright.item, hright.writes⟩
  | setPassphrase p => exact ⟨hright.item, hright.writes⟩
  | clearPassphrase => exact ⟨hright.item, hright.writes⟩
  | reload enabled => exact ⟨hright.item, by simp [page]⟩
  | create =>
    simp only [page]
    split
    · exact ⟨hright.item, hright.writes⟩
    · exact hright
  | hydrate =>
    simp only [page]
    split
    · exact ⟨hright.item, hright.writes⟩
    · exact hright
  | update f full =>
    simp only [page]
    split
    · exact hright
    · refine right_setItem (s := { s with state := f s.state }) ⟨hright.item, hright.writes⟩ ?_
      intro p hp
      change s.passphrase = some p at hp
      rcases h.2 with hknown | hnone
      · rw [hknown] at hp
        exact (Option.some.inj hp).symm
      · rw [hnone.1] at hp
        cases hp
  | complete i outcome => exact right_completeWrite hright

/-- One more state may be set, and the oldest may go. -/
structure Moves (right : Str) (s s' : Page σ) (new : Option σ) : Prop where
  suffix : stored right s' <:+ stored right s ++ new.toList
  last : (stored right s').getLast? = (stored right s ++ new.toList).getLast?
  item : (getItem s.item (some right)).isSome → (getItem s'.item (some right)).isSome
  encrypted : encrypted s → encrypted s'

theorem moves_of_eq {s' : Page σ} (hitem : s'.item = s.item) (hwrites : s'.writes = s.writes) :
    Moves right s s' none := by
  have hstored : stored right s' = stored right s := by rw [stored, hitem, hwrites, stored]
  constructor
  · simp [hstored]
  · simp [hstored]
  · simp [hitem]
  · simp [OpaqueStellar.Web.encrypted, hitem]

theorem moves_completeWrite {i : ℕ} {outcome : Outcome} (hright : Right right s)
    (h : Safe right s (.complete i outcome)) : Moves right s (s.completeWrite i outcome) none := by
  cases hwrite : s.writes[i]? with
  | none =>
    rw [Page.completeWrite, hwrite]
    exact moves_of_eq rfl rfl
  | some w =>
    obtain ⟨rfl, houtcome⟩ := h (by simp [hwrite])
    obtain ⟨p, value⟩ := w
    obtain ⟨later, hlater⟩ : ∃ later, s.writes = (p, value) :: later := by
      cases hwrites : s.writes with
      | nil => simp [hwrites] at hwrite
      | cons w later => exact ⟨later, by simp_all⟩
    obtain ⟨rfl, hp⟩ := hright.writes (p, value) (by simp [hlater])
    -- either way the item now holds what the first write set
    have hstored : getItem (s.completeWrite 0 outcome).item (some p) = some value ∧
        (s.completeWrite 0 outcome).writes = later := by
      rcases houtcome with rfl | ⟨rfl, -⟩
      · simp [Page.completeWrite, hlater, getItem_encrypted hp]
      · simp [Page.completeWrite, hlater, getItem]
    have hstored' : stored p s = (getItem s.item (some p)).toList ++ stored p (s.completeWrite 0 outcome) := by
      simp [stored, hstored, hlater]
    have hne : stored p (s.completeWrite 0 outcome) ≠ [] := by simp [stored, hstored]
    constructor
    · simp [hstored']
    · rw [hstored', Option.toList_none, List.append_nil, List.getLast?_append_of_ne_nil _ hne]
    · simp [hstored]
    · intro hsealed
      rcases houtcome with rfl | ⟨rfl, hplain⟩
      · simp [OpaqueStellar.Web.encrypted, Page.completeWrite, hlater, Item.isEncrypted]
      · rw [hplain] at hsealed
        cases hsealed

theorem moves_setItem (value : σ) {full : Bool} (h : s.passphrase = some right ∨
      s.passphrase = none ∧ full = false ∧ s.writes = [] ∧ encrypted s = false) :
    Moves right s (s.setItem value full) (some value) := by
  rcases h with hpassphrase | ⟨hpassphrase, rfl, hwrites, hplain⟩
  · have hset : s.setItem value full = { s with writes := s.writes ++ [(right, value)] } := by
      rw [Page.setItem, hpassphrase]
    rw [hset]
    constructor
    · simp [stored]
    · simp [stored]
    · exact id
    · exact id
  · have hset : s.setItem value false = { s with item := some (.plain value) } := by
      rw [Page.setItem, hpassphrase]
      rfl
    rw [hset]
    constructor
    · simp [stored, hwrites, getItem]
    · simp [stored, hwrites, getItem]
    · simp [getItem]
    · simp [hplain]

theorem moves_step {input : Input σ} (hright : Right right s) (h : Safe right s input) :
    Moves right s ((page first).step s input).1 (setState s input) := by
  cases input with
  | enableEncryption => exact moves_of_eq rfl rfl
  | disableEncryption => exact moves_of_eq rfl rfl
  | setPassphrase p => exact moves_of_eq rfl rfl
  | clearPassphrase => exact moves_of_eq rfl rfl
  | reload enabled => exact moves_of_eq rfl (Eq.symm h)
  | create =>
    simp only [page]
    split <;> exact moves_of_eq rfl rfl
  | hydrate =>
    simp only [page]
    split <;> exact moves_of_eq rfl rfl
  | update f full =>
    cases hhydration : s.hydration with
    | waiting =>
      simp only [page, setState, hhydration]
      exact moves_of_eq rfl rfl
    | reading found =>
      simp only [page, setState, hhydration]
      have hmoves := moves_setItem (s := { s with state := f s.state }) (f s.state) h.2
      rw [hhydration] at hmoves
      exact ⟨hmoves.suffix, hmoves.last, hmoves.item, hmoves.encrypted⟩
    | done =>
      simp only [page, setState, hhydration]
      have hmoves := moves_setItem (s := { s with state := f s.state }) (f s.state) h.2
      rw [hhydration] at hmoves
      exact ⟨hmoves.suffix, hmoves.last, hmoves.item, hmoves.encrypted⟩
  | complete i outcome => exact moves_completeWrite hright h

/-- The store has, or is going to have, what was set last. A store that does not exist yet has its first
state, and nothing under way. -/
structure Current (first : σ) (right : Str) (s : Page σ) : Prop where
  waiting : s.hydration = .waiting → s.state = first ∧ s.writes = []
  current : s.hydration ≠ .waiting → current s = (stored right s).getLast?.getD first

theorem current_of_eq {s' : Page σ} (h : Current first right s) (hmoves : Moves right s s' none)
    (hstate : s'.state = s.state) (hhydration : s'.hydration = s.hydration)
    (hwrites : s.writes = [] → s'.writes = []) : Current first right s' := by
  constructor
  · intro hwaiting
    rw [hhydration] at hwaiting
    rw [hstate]
    exact ⟨(h.waiting hwaiting).1, hwrites (h.waiting hwaiting).2⟩
  · intro hcreated
    rw [hmoves.last, Option.toList_none, List.append_nil, ← h.current (hhydration ▸ hcreated), current,
      current, hstate, hhydration]

theorem current_step {input : Input σ} (h : Current first right s) (hright : Right right s)
    (hsafe : Safe right s input) : Current first right ((page first).step s input).1 := by
  have hmoves : Moves right s ((page first).step s input).1 (setState s input) :=
    moves_step hright hsafe
  cases input with
  | enableEncryption => exact current_of_eq h hmoves rfl rfl id
  | disableEncryption => exact current_of_eq h hmoves rfl rfl id
  | setPassphrase p => exact current_of_eq h hmoves rfl rfl id
  | clearPassphrase => exact current_of_eq h hmoves rfl rfl id
  | reload enabled => exact ⟨fun _ => ⟨rfl, rfl⟩, fun hcreated => absurd rfl hcreated⟩
  | create =>
    simp only [page]
    split
    next hwaiting =>
      obtain ⟨hstate, hwrites⟩ := h.waiting hwaiting
      refine ⟨by simp, fun _ => ?_⟩
      have hfound := getItem_passphrase hsafe
      cases hcontent : getItem s.item (some right) with
      | none => simp [current, stored, hfound, hcontent, hwrites, hstate]
      | some value => simp [current, stored, hfound, hcontent, hwrites]
    next => exact h
  | hydrate =>
    simp only [page]
    split
    next found hreading =>
      refine ⟨by simp, fun _ => ?_⟩
      have hcurrent := h.current (by simp [hreading])
      simp only [current, hreading] at hcurrent
      exact hcurrent
    next => exact h
  | update f full =>
    cases hhydration : s.hydration with
    | waiting =>
      simp only [page, hhydration]
      exact h
    | reading found =>
      cases found with
      | some value => exact absurd hhydration (hsafe.1 value)
      | none =>
        have hlast := hmoves.last
        simp only [page, setState, hhydration] at hlast ⊢
        refine ⟨by simp, fun _ => ?_⟩
        rw [hlast]
        simp [current]
    | done =>
      have hlast := hmoves.last
      simp only [page, setState, hhydration] at hlast ⊢
      refine ⟨by simp, fun _ => ?_⟩
      rw [hlast]
      simp [current]
  | complete i outcome =>
    refine current_of_eq h hmoves (Page.state_completeWrite i outcome s)
      (Page.hydration_completeWrite i outcome s) fun hnil => ?_
    show (s.completeWrite i outcome).writes = []
    rw [Page.completeWrite_of_nil hnil, hnil]

end Steps

/-! ## Runs -/

section Runs

variable {ν : Type} {held : σ → Set ν} {t : List (Machine.Step (Page σ) (Input σ) Unit)}
  {first : σ} {right : Str} {s : Page σ}

/-- An update took `n` out. -/
def Dropped (held : σ → Set ν) (t : List (Machine.Step (Page σ) (Input σ) Unit)) (n : ν) : Prop :=
  ∃ e ∈ t, ∃ value, setState e.pre e.input = some value ∧ n ∈ held e.pre.state ∧ n ∉ held value

/-- What `v` holds is in `w`, unless an update took it out. -/
def Carries (held : σ → Set ν) (t : List (Machine.Step (Page σ) (Input σ) Unit)) (v w : σ) : Prop :=
  ∀ n ∈ held v, n ∈ held w ∨ Dropped held t n

theorem carries_refl (v : σ) : Carries held t v v := fun _ hn => .inl hn

theorem Carries.trans {u v w : σ} (h : Carries held t u v) (h' : Carries held t v w) :
    Carries held t u w := by
  intro n hn
  rcases h n hn with hn | hdropped
  · exact h' n hn
  · exact .inr hdropped

theorem Carries.mono {v w : σ} (h : Carries held t v w) (e : Machine.Step (Page σ) (Input σ) Unit) :
    Carries held (t ++ [e]) v w := by
  intro n hn
  rcases h n hn with hn | ⟨e', he', hdropped⟩
  · exact .inl hn
  · exact .inr ⟨e', List.mem_append_left _ he', hdropped⟩

structure Inv (held : σ → Set ν) (first : σ) (right : Str)
    (t : List (Machine.Step (Page σ) (Input σ) Unit)) (s : Page σ) : Prop where
  keys : Right right s
  store : Current first right s
  latest : (stored right s).getLast? = (setStates t).getLast?
  chain : (stored right s).Pairwise (Carries held t)
  sealing : ∀ e ∈ t, encrypted e.pre → encrypted s
  carried : ∀ e ∈ t, ∀ value, getItem e.pre.item (some right) = some value →
    ∃ value', getItem s.item (some right) = some value' ∧ Carries held t value value'

theorem eq_or_of_pairwise {R : σ → σ → Prop} {l : List σ} {v w : σ} (h : l.Pairwise R) (hv : v ∈ l)
    (hw : l.getLast? = some w) : v = w ∨ R v w := by
  obtain ⟨before, rfl⟩ := List.getLast?_eq_some_iff.mp hw
  rcases List.mem_append.mp hv with hv | hv
  · exact .inr ((List.pairwise_append.mp h).2.2 v hv w List.mem_cons_self)
  · exact .inl (List.mem_singleton.mp hv)

/-- An update starts from what was set last. -/
theorem state_eq_current {input : Input σ} {value : σ} (hsafe : Safe right s input)
    (h : setState s input = some value) : s.hydration ≠ .waiting ∧ current s = s.state := by
  cases input with
  | update f full =>
    cases hhydration : s.hydration with
    | waiting => simp [setState, hhydration] at h
    | reading found =>
      cases found with
      | some value => exact absurd hhydration (hsafe.1 value)
      | none => simp [current, hhydration]
    | done => simp [current, hhydration]
  | _ => cases h

/-- Everything that is stored is carried on to what a step sets. -/
theorem chain_step {input : Input σ} (h : Inv held first right t s) (hsafe : Safe right s input) :
    (stored right s ++ (setState s input).toList).Pairwise
      (Carries held (t ++ [(page first).stepAt s input])) := by
  have hchain := h.chain.imp fun hc => hc.mono ((page first).stepAt s input)
  cases hnew : setState s input with
  | none => simpa using hchain
  | some value =>
    rw [List.pairwise_append]
    refine ⟨hchain, List.pairwise_singleton _ _, ?_⟩
    intro v hv w hw
    rw [Option.toList_some, List.mem_singleton] at hw
    subst hw
    -- what was set last is what the update starts from
    obtain ⟨hcreated, hcurrent⟩ := state_eq_current hsafe hnew
    have hlast : (stored right s).getLast? = some s.state := by
      obtain ⟨last, hlast⟩ := Option.isSome_iff_exists.mp
        (List.getLast?_isSome.mpr (List.ne_nil_of_mem hv))
      rw [hlast, ← hcurrent, h.store.current hcreated, hlast, Option.getD_some]
    have hstep : Carries held (t ++ [(page first).stepAt s input]) s.state w := by
      intro n hn
      by_cases hmem : n ∈ held w
      · exact .inl hmem
      · exact .inr ⟨_, List.mem_append_right _ List.mem_cons_self, w, hnew, hn, hmem⟩
    rcases eq_or_of_pairwise hchain hv hlast with rfl | hcarries
    · exact hstep
    · exact hcarries.trans hstep

theorem setStates_snoc (e : Machine.Step (Page σ) (Input σ) Unit) :
    setStates (t ++ [e]) = setStates t ++ (setState e.pre e.input).toList := by
  cases hnew : setState e.pre e.input with
  | none => simp [setStates, hnew]
  | some value => simp [setStates, hnew]

theorem inv_step {input : Input σ} (h : Inv held first right t s) (hsafe : Safe right s input) :
    Inv held first right (t ++ [(page first).stepAt s input]) ((page first).step s input).1 := by
  have hmoves : Moves right s ((page first).step s input).1 (setState s input) :=
    moves_step h.keys hsafe
  have hchain := chain_step h hsafe
  -- what the item holds now, in terms of what it held before
  have hitem : ∀ value, getItem s.item (some right) = some value →
      ∃ value', getItem ((page first).step s input).1.item (some right) = some value' ∧
        Carries held (t ++ [(page first).stepAt s input]) value value' := by
    intro value hvalue
    obtain ⟨value', hvalue'⟩ := Option.isSome_iff_exists.mp (hmoves.item (by simp [hvalue]))
    refine ⟨value', hvalue', ?_⟩
    have hmem : value' ∈ stored right s ++ (setState s input).toList := by
      apply hmoves.suffix.subset
      simp [stored, hvalue']
    rw [stored, hvalue, Option.toList_some, List.cons_append, List.nil_append, List.cons_append]
      at hchain hmem
    rcases List.mem_cons.mp hmem with rfl | hmem
    · exact carries_refl _
    · exact (List.pairwise_cons.mp hchain).1 value' hmem
  refine ⟨right_step h.keys hsafe, current_step h.store h.keys hsafe, ?_,
    hchain.sublist hmoves.suffix.sublist, ?_, ?_⟩
  · rw [hmoves.last, setStates_snoc, List.getLast?_append, List.getLast?_append, h.latest]
    rfl
  · intro e he hencrypted
    rcases List.mem_append.mp he with he | he
    · exact hmoves.encrypted (h.sealing e he hencrypted)
    · rw [List.mem_singleton] at he
      subst he
      exact hmoves.encrypted hencrypted
  · intro e he value hvalue
    rcases List.mem_append.mp he with he | he
    · obtain ⟨middle, hmiddle, hcarries⟩ := h.carried e he value hvalue
      obtain ⟨value', hvalue', hcarries'⟩ := hitem middle hmiddle
      exact ⟨value', hvalue', (hcarries.mono _).trans hcarries'⟩
    · rw [List.mem_singleton] at he
      subst he
      exact hitem value hvalue

theorem inv_empty (held : σ → Set ν) (first : σ) (right : Str) :
    Inv held first right [] (Page.empty first) where
  keys := ⟨by simp [Page.empty], by simp [Page.empty]⟩
  store := ⟨fun _ => ⟨rfl, rfl⟩, fun h => absurd rfl h⟩
  latest := rfl
  chain := List.Pairwise.nil
  sealing := by simp
  carried := by simp

end Runs

/-- In every run of safe steps: when no write is under way the item holds the state that was set last;
what the item held at any time before is still in it, unless an update took it out; and once the item was
encrypted it stays so. -/
theorem storage_keeps_state {ν : Type} (held : σ → Set ν) (first : σ) (right : Str)
    (inputs : List (Input σ))
    (h : ∀ e ∈ (page first).trace (.empty first) inputs, Safe right e.pre e.input) :
    (((page first).final (.empty first) inputs).writes = [] →
      getItem ((page first).final (.empty first) inputs).item (some right) =
        (setStates ((page first).trace (.empty first) inputs)).getLast?) ∧
    (∀ e ∈ (page first).trace (.empty first) inputs, ∀ value,
      getItem e.pre.item (some right) = some value →
        ∃ value', getItem ((page first).final (.empty first) inputs).item (some right) = some value' ∧
          ∀ n ∈ held value, n ∈ held value' ∨
            Dropped held ((page first).trace (.empty first) inputs) n) ∧
    ∀ e ∈ (page first).trace (.empty first) inputs, encrypted e.pre →
      encrypted ((page first).final (.empty first) inputs) := by
  have hinv : Inv held first right ((page first).trace (.empty first) inputs)
      ((page first).final (.empty first) inputs) :=
    (page first).invariant_of_steps (P := fun e => Safe right e.pre e.input)
      (I := Inv held first right) (inv_empty held first right)
      (fun _ _ _ hinv hsafe => inv_step hinv hsafe) inputs h
  refine ⟨?_, hinv.carried, hinv.sealing⟩
  intro hwrites
  rw [← hinv.latest, stored, hwrites]
  cases getItem ((page first).final (.empty first) inputs).item (some right) with
  | none => rfl
  | some value => rfl

/-- A note is added and stored under the passphrase `pw`. -/
def firstVisit : List (Input PoolNoteState) :=
  [.enableEncryption, .setPassphrase "pw".toList, .create, .hydrate,
    .update (·.addNote (oldNote (some "GA") "2" false)) false, .complete 0 .written]

theorem storage_keeps_first_note :
    (∀ e ∈ (page PoolNoteState.initial).trace (.empty .initial) firstVisit,
      Safe "pw".toList e.pre e.input) ∧
    getItem ((page PoolNoteState.initial).final (.empty .initial) firstVisit).item (some "pw".toList) =
      some ⟨[oldNote (some "GA") "2" false], none⟩ := by
  have hsafe : ∀ e ∈ (page PoolNoteState.initial).trace (.empty .initial) firstVisit,
      Safe "pw".toList e.pre e.input := by
    simp [Machine.trace, Machine.stepAt, firstVisit, page, Safe, Page.empty, Page.passphrase, encrypted,
      getEncryptionPassphrase, truthy, Page.setItem]
  obtain ⟨hitem, -, -⟩ := storage_keeps_state (fun state => {n | n ∈ state.notes}) .initial "pw".toList
    firstVisit hsafe
  have hlast : (setStates ((page PoolNoteState.initial).trace (.empty .initial) firstVisit)).getLast? =
      some ⟨[oldNote (some "GA") "2" false], none⟩ := by
    decide
  exact ⟨hsafe, (hitem (by decide)).trans hlast⟩

/-- After a reload the passphrase has to be entered again. The store is created without it, starts empty,
and its next update is written as plaintext over the note. -/
theorem storage_loses_note :
    ((page PoolNoteState.initial).final (.empty .initial) firstVisit).item =
        some (.encrypted "pw".toList ⟨[oldNote (some "GA") "2" false], none⟩) ∧
      ((page PoolNoteState.initial).final (.empty .initial) (firstVisit ++ [.reload true, .create, .hydrate,
        .update (·.addNote (oldNote (some "GA") "3" false)) false])).item =
          some (.plain ⟨[oldNote (some "GA") "3" false], none⟩) := by
  decide

end OpaqueStellar.Web
