import Mathlib.Tactic.NormNum
import OpaqueStellar.Lib.Bytes

/-! # The contract host

What a contract sees of the Soroban host: results that are a value, a contract error or a trap,
128-bit amounts whose arithmetic traps, addresses with their XDR encoding, and the environment of
one invocation.

A failed invocation has no effect: functions here return the new state only together with a value,
so an error carries no state to commit. -/

namespace OpaqueStellar.Soroban

open OpaqueStellar.Lib

/-! ## Results -/

inductive Trap where
  -- `require_auth` of an address that did not authorise the invocation
  | auth
  -- `expect`, `unwrap` or `assert!` failed, with this message
  | panic (message : String)
  -- arithmetic left the range of its type
  | overflow
  -- an invoked contract or host function failed
  | callee
  -- a token transfer of a negative amount
  | negativeAmount
  -- a token transfer above the sender's balance
  | insufficientBalance
  -- a token transfer the token refuses for another reason (no such account, frozen, reserve)
  | refused
  deriving DecidableEq

/-- How an invocation fails: with an error of the contract's own enumeration, or by a trap. -/
inductive Failure (ε : Type) where
  | err (e : ε)
  | trap (t : Trap)
  deriving DecidableEq

/-- The result of contract code with error enumeration `ε`. -/
abbrev Result (ε α : Type) := Except (Failure ε) α

section Result

variable {ε ε' α β : Type}

/-- Go on if `c` holds, fail with `e` otherwise. -/
def ensure (c : Prop) [Decidable c] (e : Failure ε) : Result ε Unit :=
  if c then .ok () else .error e

def expect (o : Option α) (message : String) : Result ε α :=
  match o with
  | some a => .ok a
  | none => .error (.trap (.panic message))

def okOr (o : Option α) (e : ε) : Result ε α :=
  match o with
  | some a => .ok a
  | none => .error (.err e)

/-- A host function's answer; `none` is a trap inside it. -/
def hostCall (o : Option α) : Result ε α :=
  match o with
  | some a => .ok a
  | none => .error (.trap .callee)

/-- `invoke_contract`: whatever way the callee fails, the caller traps. -/
def invoke (r : Result ε' α) : Result ε α :=
  match r with
  | .ok a => .ok a
  | .error _ => .error (.trap .callee)

@[simp] theorem bind_eq_ok {κ : Type} {x : Except κ α} {f : α → Except κ β} {b : β} :
    (x >>= f) = .ok b ↔ ∃ a, x = .ok a ∧ f a = .ok b := by
  cases x with
  | error e =>
      constructor
      · intro h; cases h
      · rintro ⟨a, ha, -⟩; cases ha
  | ok a =>
      constructor
      · intro h; exact ⟨a, rfl, h⟩
      · rintro ⟨a', ha', h⟩; cases ha'; exact h

@[simp] theorem pure_eq_ok {κ : Type} {a b : α} : (pure a : Except κ α) = .ok b ↔ a = b := by
  show Except.ok a = .ok b ↔ a = b
  simp

@[simp] theorem ensure_eq_ok {c : Prop} [Decidable c] {e : Failure ε} {u : Unit} :
    ensure c e = .ok u ↔ c := by
  unfold ensure
  split <;> simp_all

@[simp] theorem expect_eq_ok {o : Option α} {m : String} {a : α} :
    (expect o m : Result ε α) = .ok a ↔ o = some a := by
  cases o <;> simp [expect]

@[simp] theorem okOr_eq_ok {o : Option α} {e : ε} {a : α} :
    okOr o e = .ok a ↔ o = some a := by
  cases o <;> simp [okOr]

@[simp] theorem hostCall_eq_ok {o : Option α} {a : α} :
    (hostCall o : Result ε α) = .ok a ↔ o = some a := by
  cases o <;> simp [hostCall]

@[simp] theorem invoke_eq_ok {r : Result ε' α} {a : α} :
    (invoke r : Result ε α) = .ok a ↔ r = .ok a := by
  cases r <;> simp [invoke]

@[simp] theorem mapError_eq_ok {κ κ' : Type} {x : Except κ α} {f : κ → κ'} {a : α} :
    x.mapError f = .ok a ↔ x = .ok a := by
  cases x with
  | error e => simp [Except.mapError]
  | ok a' => simp [Except.mapError]

/-! `Avoids e r` says that `r` cannot fail with `e`; it is proved along the code, one step at a
time. -/

def Avoids (e : Failure ε) (r : Result ε α) : Prop := r ≠ .error e

theorem Avoids.bind {e : Failure ε} {x : Result ε α} {f : α → Result ε β} (hx : Avoids e x)
    (hf : ∀ a, x = .ok a → Avoids e (f a)) : Avoids e (x >>= f) := by
  cases x with
  | error e' =>
      intro h
      exact hx (congrArg Except.error (Except.error.inj h))
  | ok a => exact hf a rfl

theorem avoids_pure {e : Failure ε} {a : α} : Avoids e (pure a) := by
  intro h
  cases h

theorem avoids_ensure {c : Prop} [Decidable c] {e e' : Failure ε} (hne : e' ≠ e) :
    Avoids e (ensure c e') := by
  intro h
  unfold ensure at h
  split at h
  · cases h
  · exact hne (Except.error.inj h)

theorem avoids_ensure_of_pos {c : Prop} [Decidable c] {e e' : Failure ε} (hc : c) :
    Avoids e (ensure c e') := by
  rw [ensure, if_pos hc]
  exact avoids_pure

theorem avoids_expect {o : Option α} {m : String} {e : Failure ε} (hne : .trap (.panic m) ≠ e) :
    Avoids e (expect o m) := by
  intro h
  cases o with
  | some a => cases h
  | none => exact hne (Except.error.inj h)

theorem avoids_okOr {o : Option α} {e : Failure ε} {e' : ε} (hne : .err e' ≠ e) :
    Avoids e (okOr o e') := by
  intro h
  cases o with
  | some a => cases h
  | none => exact hne (Except.error.inj h)

theorem avoids_hostCall {o : Option α} {e : Failure ε} (hne : .trap .callee ≠ e) :
    Avoids e (hostCall o) := by
  intro h
  cases o with
  | some a => cases h
  | none => exact hne (Except.error.inj h)

theorem ensure_bind_of_not {c : Prop} [Decidable c] {e : Failure ε} {f : Unit → Result ε α}
    (h : ¬ c) : (ensure c e >>= f) = .error e := by
  rw [ensure, if_neg h]; rfl

theorem ensure_bind_of_pos {c : Prop} [Decidable c] {e : Failure ε} {f : Unit → Result ε α}
    (h : c) : (ensure c e >>= f) = f () := by
  rw [ensure, if_pos h]; rfl

end Result

/-! ## Amounts

Amounts are `i128`. The workspace compiles with `overflow-checks`, so a sum, difference or product
that leaves the range traps. -/

structure I128 where
  val : ℤ
  lower : -(2 ^ 127) ≤ val
  upper : val < 2 ^ 127
  deriving DecidableEq

namespace I128

variable {ε : Type}

theorem ext {a b : I128} (h : a.val = b.val) : a = b := by
  cases a; cases b; cases h; rfl

instance : Zero I128 := ⟨⟨0, by norm_num, by norm_num⟩⟩

@[simp] theorem val_zero : (0 : I128).val = 0 := rfl

/-- The `i128` with value `x`, or the overflow trap. -/
def checked (x : ℤ) : Result ε I128 :=
  if h : -(2 ^ 127) ≤ x ∧ x < 2 ^ 127 then .ok ⟨x, h.1, h.2⟩ else .error (.trap .overflow)

@[simp] theorem checked_eq_ok {x : ℤ} {a : I128} :
    (checked x : Result ε I128) = .ok a ↔ a.val = x := by
  unfold checked
  split
  · next h =>
      constructor
      · intro heq; cases heq; rfl
      · rintro rfl; rfl
  · next h =>
      constructor
      · intro heq; cases heq
      · rintro rfl; exact absurd ⟨a.lower, a.upper⟩ h

theorem avoids_checked {x : ℤ} {e : Failure ε} (hne : .trap .overflow ≠ e) :
    Avoids e (checked x) := by
  unfold checked
  split
  · exact avoids_pure
  · intro h
    exact hne (Except.error.inj h)

/-- A small non-negative literal. -/
def ofNat (n : ℕ) (h : (n : ℤ) < 2 ^ 127 := by decide) : I128 :=
  ⟨n, le_trans (by norm_num) (Int.natCast_nonneg n), h⟩

-- The bounds of the literals that several modules use.

theorem one_lt : ((1 : ℕ) : ℤ) < 2 ^ 127 := by decide

theorem ten_lt : ((10 : ℕ) : ℤ) < 2 ^ 127 := by decide

theorem thirty_lt : ((30 : ℕ) : ℤ) < 2 ^ 127 := by decide

theorem hundred_lt : ((100 : ℕ) : ℤ) < 2 ^ 127 := by decide

/-- `as u128`: the two's complement bits read as an unsigned number. -/
def asU128 (a : I128) : ℕ := (a.val % 2 ^ 128).toNat

theorem asU128_of_nonneg {a : I128} (h : 0 ≤ a.val) : (a.asU128 : ℤ) = a.val := by
  have hu := a.upper
  rw [asU128, Int.emod_eq_of_lt h (lt_trans hu (by norm_num)), Int.toNat_of_nonneg h]

/-- A negative amount reads as a number above every non-negative amount. -/
theorem lt_asU128_of_neg {a : I128} (h : a.val < 0) : 2 ^ 127 ≤ (a.asU128 : ℤ) := by
  have hl := a.lower
  have hmod : a.val % 2 ^ 128 = a.val + 2 ^ 128 := by
    rw [← Int.add_emod_right, Int.emod_eq_of_lt] <;> omega
  rw [asU128, hmod, Int.toNat_of_nonneg] <;> omega

/-- `to_be_bytes`: the sixteen two's complement bytes, most significant first. -/
def toBeBytes (a : I128) : List UInt8 := beBytes 16 a.asU128

end I128

def addChecked {ε : Type} (w n m : ℕ) : Result ε ℕ :=
  if n + m < 2 ^ w then .ok (n + m) else .error (.trap .overflow)

@[simp] theorem addChecked_eq_ok {ε : Type} {w n m k : ℕ} :
    (addChecked w n m : Result ε ℕ) = .ok k ↔ n + m < 2 ^ w ∧ k = n + m := by
  unfold addChecked
  split <;> simp_all [eq_comm]

theorem avoids_addChecked {ε : Type} {w n m : ℕ} {e : Failure ε} (hne : .trap .overflow ≠ e) :
    Avoids e (addChecked w n m) := by
  unfold addChecked
  split
  · exact avoids_pure
  · intro h
    exact hne (Except.error.inj h)

/-! ## Addresses -/

/-- The address of an account (its Ed25519 key) or of a contract (its identifier). -/
inductive Address where
  | account (key : BytesN 32)
  | contract (id : BytesN 32)
  deriving DecidableEq

/-- `to_xdr` of an address: the `SCV_ADDRESS` tag, the kind of address, its bytes. -/
def Address.toXdr : Address → List UInt8
  | .account key => beBytes 4 18 ++ beBytes 4 0 ++ beBytes 4 0 ++ key.1
  | .contract id => beBytes 4 18 ++ beBytes 4 1 ++ id.1

/-! ## Invocations -/

structure Env where
  -- `env.ledger().sequence()`
  sequence : ℕ
  -- `env.ledger().timestamp()`
  timestamp : ℕ
  -- the addresses that authorised the invocation
  auths : List Address
  -- transfers (token, sender, receiver) the token refuses at this moment
  refuses : Address → Address → Address → Bool := fun _ _ _ => false

/-- `a.require_auth()` inside the contract at `self`. A contract's own address is authorised only
for calls it makes itself; it never calls itself (the host forbids re-entry) and signs nothing. -/
def Env.requireAuth {ε : Type} (env : Env) (self a : Address) : Result ε Unit :=
  ensure (a ∈ env.auths ∧ a ≠ self) (.trap .auth)

@[simp] theorem Env.requireAuth_eq_ok {ε : Type} {env : Env} {self a : Address} {u : Unit} :
    (env.requireAuth self a : Result ε Unit) = .ok u ↔ a ∈ env.auths ∧ a ≠ self := ensure_eq_ok

end OpaqueStellar.Soroban
