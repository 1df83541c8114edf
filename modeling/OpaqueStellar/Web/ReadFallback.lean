import OpaqueStellar.Lib.Binary64
import OpaqueStellar.Lib.Codec
import OpaqueStellar.Lib.Lists
import OpaqueStellar.Schemas.Core
import Mathlib.Data.List.Infix

/-! # Reads are retried, submissions are not

The retry policy of `frontend/src/lib/retryPolicy.ts` and `withReadFallback` of `frontend/src/lib/stellar.ts`.

A read goes through the attempts at the first provider, then through those at the next one, until one of them
does not fail transiently (`walk`). That is what the wrapper does, too, unless something about an error is odd:
that it is itself an `RpcRetriesExhaustedError`, that it is `undefined`, or that it has no text. -/

namespace OpaqueStellar.Web.ReadFallback

open OpaqueStellar.Lib
open OpaqueStellar.Schemas (Str)

/-! ## The policy -/

/-- The attempt of a read at a provider, both by their numbers. -/
structure Call where
  provider : ℕ
  attempt : ℕ
  deriving DecidableEq

structure RetryPolicy where
  attempts : ℕ
  initialDelayMs : ℚ
  maxDelayMs : ℚ
  backoffFactor : ℚ
  jitter : Bool
  retryableStatuses : List Double
  -- with the flag `g` it depends on the tests before
  retryableMessagePattern : Call → Str → Bool
  timeoutMs : ℚ
  attempts_pos : 0 < attempts

structure RetryPolicyOptions where
  attempts : Option Double
  initialDelayMs : Option Double
  maxDelayMs : Option Double
  backoffFactor : Option Double
  jitter : Option Bool
  retryableStatuses : Option (List Double)
  retryableMessagePattern : Option (Call → Str → Bool)
  timeoutMs : Option Double

def occurs (word : String) (text : Str) : Bool := text.tails.any fun rest => word.toList.isPrefixOf rest

/-- `.` of a pattern. -/
def isDot (c : Char) : Bool :=
  c.toNat < 0x10000 && c != '\n' && c != '\r' && c.toNat != 0x2028 && c.toNat != 0x2029

/-- `rate.?limit` -/
def occursRateLimit (text : Str) : Bool :=
  text.tails.any fun rest =>
    "rate".toList.isPrefixOf rest &&
      match rest.drop 4 with
      | [] => false
      | c :: more => "limit".toList.isPrefixOf (c :: more) || (isDot c && "limit".toList.isPrefixOf more)

def defaultMessagePattern (message : Str) : Bool :=
  let text := message.map Char.toLower
  occursRateLimit text || ["timeout", "timed out", "too many requests", "network", "fetch failed",
    "socket hang up", "econnreset", "eai_again"].any fun word => occurs word text

def DEFAULT_RETRY_POLICY : RetryPolicy where
  attempts := 3
  initialDelayMs := 350
  maxDelayMs := 4000
  backoffFactor := 2
  jitter := true
  retryableStatuses := [408, 425, 429, 500, 502, 503, 504].map Double.finite
  retryableMessagePattern _ := defaultMessagePattern
  timeoutMs := 12000
  attempts_pos := Nat.succ_pos 2

def NO_RETRY_POLICY : RetryPolicy :=
  { DEFAULT_RETRY_POLICY with attempts := 1, jitter := false, attempts_pos := Nat.one_pos }

def NON_IDEMPOTENT_METHODS : List Str :=
  ["sendTransaction", "_sendTransaction", "submitTransaction", "submitAsyncTransaction",
    "_submitTransaction"].map String.toList

def positiveInt (value : Option Double) (fallback : ℕ) : ℕ :=
  match value with
  | some (.finite value) => max 1 ⌊value⌋.toNat
  | _ => fallback

def nonNegative (value : Option Double) (fallback : ℚ) : ℚ :=
  match value with
  | some (.finite value) => if value < 0 then fallback else value
  | _ => fallback

theorem positiveInt_pos (value : Option Double) {fallback : ℕ} (h : 0 < fallback) :
    0 < positiveInt value fallback := by
  unfold positiveInt
  split
  · exact Nat.lt_of_lt_of_le Nat.one_pos (le_max_left _ _)
  · exact h

def resolveRetryPolicy (options : Option RetryPolicyOptions) (base : RetryPolicy) : RetryPolicy :=
  match options with
  | none => base
  | some options =>
    let maxDelayMs := nonNegative options.maxDelayMs base.maxDelayMs
    { attempts := positiveInt options.attempts base.attempts
      initialDelayMs := min (nonNegative options.initialDelayMs base.initialDelayMs) maxDelayMs
      maxDelayMs := maxDelayMs
      backoffFactor := max 1 (nonNegative options.backoffFactor base.backoffFactor)
      jitter := options.jitter.getD base.jitter
      retryableStatuses := options.retryableStatuses.getD base.retryableStatuses
      retryableMessagePattern := options.retryableMessagePattern.getD base.retryableMessagePattern
      timeoutMs := nonNegative options.timeoutMs base.timeoutMs
      attempts_pos := positiveInt_pos _ base.attempts_pos }

def policyForMethod (method : Str) (policy : RetryPolicy) : RetryPolicy :=
  if NON_IDEMPOTENT_METHODS.contains method then NO_RETRY_POLICY else policy

example : DEFAULT_RETRY_POLICY.retryableMessagePattern ⟨0, 0⟩ "Rate-Limit hit".toList = true := by decide +kernel

/-! ## Errors -/

section Model

variable {E R : Type}

/-- What the wrapper can see of a thrown value. -/
structure Values (E : Type) where
  undefined : E
  nullish : E → Bool
  -- the numbers among `status`, `statusCode` and `response.status`
  statuses : E → List Double
  messageOf : E → Str
  -- none if `String(err)` throws
  errorMessage : E → Option Str
  -- of an `RpcRetriesExhaustedError`
  lastError : E → Option E
  -- `String(n)`
  numberText : ℚ → Str

/-- How an attempt fails. -/
inductive Failure (E : Type) where
  | thrown (err : E)
  | timedOut (message : Str)

structure Report where
  message : Str
  method : Str
  attempts : Double
  providersTried : ℕ

/-- What the caller of a method gets. -/
inductive Thrown (E : Type) where
  | failure (failure : Failure E)
  | exhausted (report : Report) (cause : Thrown E)
  | typeError

/-- How a method of a provider ends. -/
structure Answer (E R : Type) where
  -- after the timeout
  late : Bool
  outcome : Except E R

structure Client where
  label : Str
  noRetryMethods : List Str
  retryMethods : Option (List Str)
  policy : RetryPolicy

variable (values : Values E)

def Failure.messageOf : Failure E → Str
  | thrown err => values.messageOf err
  | timedOut message => message

def Failure.nullish : Failure E → Bool
  | thrown err => values.nullish err
  | timedOut _ => false

def Failure.errorMessage : Failure E → Option Str
  | thrown err => values.errorMessage err
  | timedOut message => some message

def Thrown.errorMessage : Thrown E → Option Str
  | failure f => f.errorMessage values
  | exhausted report _ => some report.message
  | typeError => some "Cannot convert object to primitive value".toList

/-- `Number.isFinite` -/
def isFinite : Double → Bool
  | .finite _ => true
  | _ => false

def extractStatus : Failure E → Option Double
  | .thrown err => (values.statuses err).find? isFinite
  | .timedOut _ => none

def isRetryableRpcError (policy : RetryPolicy) (call : Call) (f : Failure E) : Bool :=
  match extractStatus values f with
  | some status => policy.retryableStatuses.contains status
  | none => policy.retryableMessagePattern call (f.messageOf values)

/-- `err.lastError ?? err`, if it is a wrapper. -/
def underlyingError : Thrown E → Thrown E
  | .exhausted report cause =>
    match cause with
    | .failure f => if f.nullish values then .exhausted report cause else cause
    | _ => cause
  | .failure (.thrown err) =>
    match values.lastError err with
    | some lastError => .failure (.thrown (if values.nullish lastError then err else lastError))
    | none => .failure (.thrown err)
  | err => err

/-- `err instanceof RpcRetriesExhaustedError` -/
def isExhausted : Thrown E → Bool
  | .exhausted _ _ => true
  | .failure (.thrown err) => (values.lastError err).isSome
  | _ => false

/-! ## The loops -/

def orUnknown (message : Str) : Str := if message = [] then "unknown error".toList else message

def withTimeout (policy : RetryPolicy) (label : Str) (answer : Answer E R) : Except (Failure E) R :=
  if 0 < policy.timeoutMs ∧ answer.late then
    .error (.timedOut (label ++ " timed out after ".toList ++ values.numberText policy.timeoutMs ++ "ms".toList))
  else answer.outcome.mapError .thrown

/-- `policy.attempts` attempts have failed. -/
def attemptsExhausted (policy : RetryPolicy) (label method : Str) (providersTried : ℕ) (f : Failure E) : Thrown E :=
  .exhausted
    { message :=
        label ++ " failed after ".toList ++ values.numberText policy.attempts ++ " attempt(s): ".toList ++
          orUnknown (f.messageOf values)
      method := method
      attempts := .finite policy.attempts
      providersTried := providersTried }
    (.failure f)

variable (answers : Call → Answer E R)

/-- The loop of `runWithRetryPolicy`, at an attempt that so many others may follow. -/
def attemptLoop (policy : RetryPolicy) (label method : Str) (provider providersTried : ℕ) :
    ℕ → ℕ → List Call × Except (Thrown E) R
  | remaining, attempt =>
    match withTimeout values policy label (answers ⟨provider, attempt⟩) with
    | .ok result => ([⟨provider, attempt⟩], .ok result)
    | .error f =>
      if isRetryableRpcError values policy ⟨provider, attempt⟩ f then
        match remaining with
        | 0 => ([⟨provider, attempt⟩], .error (attemptsExhausted values policy label method providersTried f))
        | remaining + 1 =>
          -- `onRetry`
          match f.errorMessage values with
          | none => ([⟨provider, attempt⟩], .error .typeError)
          | some _ =>
            let rest := attemptLoop policy label method provider providersTried remaining (attempt + 1)
            (⟨provider, attempt⟩ :: rest.1, rest.2)
      else ([⟨provider, attempt⟩], .error (.failure f))

def runWithRetryPolicy (policy : RetryPolicy) (label method : Str) (provider providersTried : ℕ) :
    List Call × Except (Thrown E) R :=
  let policy := policyForMethod method policy
  attemptLoop values answers policy label method provider providersTried (policy.attempts - 1) 0

def Client.labelOf (client : Client) (method : Str) : Str := client.label ++ '.' :: method

/-- No provider is left. -/
def providersExhausted (client : Client) (method : Str) (providersTried : ℕ) (lastError : Thrown E) : Thrown E :=
  match (underlyingError values lastError).errorMessage values with
  | none => .typeError
  | some message =>
    .exhausted
      { message :=
          client.labelOf method ++ " failed across ".toList ++ values.numberText providersTried ++
            " provider(s): ".toList ++ orUnknown message
        method := method
        attempts := Double.round (client.policy.attempts * max providersTried 1)
        providersTried := providersTried }
      (underlyingError values lastError)

/-- The loop over the providers; some may not have the method. -/
def providerLoop (client : Client) (method : Str) : List (Bool × ℕ) → ℕ → Thrown E →
    List Call × Except (Thrown E) R
  | [], providersTried, lastError => ([], .error (providersExhausted values client method providersTried lastError))
  | (false, _) :: rest, providersTried, lastError => providerLoop client method rest providersTried lastError
  | (true, provider) :: rest, providersTried, _ =>
    match runWithRetryPolicy values answers client.policy (client.labelOf method) method provider
      (providersTried + 1) with
    | (calls, .ok result) => (calls, .ok result)
    | (calls, .error err) =>
      if isExhausted values err then
        let others := providerLoop client method rest (providersTried + 1) err
        (calls ++ others.1, others.2)
      else (calls, .error err)

/-- The method is the primary provider's own. -/
def Client.bypasses (client : Client) (method : Str) : Bool :=
  client.noRetryMethods.contains method || client.retryMethods.any fun methods => !methods.contains method

/-- A method of the proxy, which the primary provider has. -/
def withReadFallback (client : Client) (method : Str) (others : List Bool) : List Call × Except (Thrown E) R :=
  if client.bypasses method then
    ([⟨0, 0⟩], (answers ⟨0, 0⟩).outcome.mapError fun err => .failure (.thrown err))
  else providerLoop values answers client method (true :: others).zipIdx 0 (.failure (.thrown values.undefined))

end Model

/-! ## The walk -/

section Walk

variable {E R : Type} (values : Values E) (answers : Call → Answer E R) (policy : RetryPolicy) (label : Str)

def outcome (call : Call) : Except (Failure E) R := withTimeout values policy label (answers call)

/-- It fails, but only transiently. -/
def retries (call : Call) : Bool :=
  match outcome values answers policy label call with
  | .ok _ => false
  | .error f => isRetryableRpcError values policy call f

/-- All attempts, in the order in which they may be made. -/
def schedule (attempts : ℕ) (providers : List (Bool × ℕ)) : List Call :=
  providers.flatMap fun e => if e.1 then (List.range attempts).map (Call.mk e.2) else []

/-- The attempts are made up to the first one that does not fail transiently, and the caller gets what that one
gives, or an `RpcRetriesExhaustedError` with the last failure. -/
def FailsOver (calls : List Call) (run : List Call × Except (Thrown E) R) : Prop :=
  match calls.dropWhile (retries values answers policy label) with
  | call :: _ =>
    run = (calls.takeWhile (retries values answers policy label) ++ [call],
      (outcome values answers policy label call).mapError .failure)
  | [] =>
    run.1 = calls ∧ ∃ call f report, calls.getLast? = some call ∧
      outcome values answers policy label call = .error f ∧ run.2 = .error (.exhausted report (.failure f))

/-- The error has a text, if a retry follows it. -/
def Reported (call : Call) : Prop :=
  call.attempt + 1 < policy.attempts →
    ∀ f, outcome values answers policy label call = .error f → (f.errorMessage values).isSome

/-- It fails with an `RpcRetriesExhaustedError` of its own. -/
def Impostor (call : Call) : Prop :=
  ∃ err lastError, outcome values answers policy label call = .error (.thrown err) ∧
    values.lastError err = some lastError

/-- Nothing is odd about the errors on the way. -/
def Plain (calls : List Call) : Prop :=
  (∀ call ∈ calls.takeWhile (retries values answers policy label), Reported values answers policy label call) ∧
    match calls.dropWhile (retries values answers policy label) with
    | call :: _ => ¬ Impostor values answers policy label call
    | [] => ∀ call, calls.getLast? = some call → ∀ f, outcome values answers policy label call = .error f →
      f.nullish values = false ∧ (f.errorMessage values).isSome

variable {values answers policy label} {provider tried : ℕ} {method : Str}

theorem withTimeout_answers (call : Call) :
    withTimeout values policy label (answers call) = outcome values answers policy label call := rfl

theorem retries_iff {call : Call} : retries values answers policy label call ↔
    ∃ f, outcome values answers policy label call = .error f ∧ isRetryableRpcError values policy call f := by
  unfold retries
  cases outcome values answers policy label call with
  | ok r => simp
  | error f => simp

section Attempts

variable {remaining attempt : ℕ} {f : Failure E}

theorem attemptLoop_stop (hstop : retries values answers policy label ⟨provider, attempt⟩ = false) :
    attemptLoop values answers policy label method provider tried remaining attempt =
      ([⟨provider, attempt⟩], (outcome values answers policy label ⟨provider, attempt⟩).mapError .failure) := by
  unfold retries at hstop
  rw [attemptLoop, withTimeout_answers]
  cases hout : outcome values answers policy label ⟨provider, attempt⟩ with
  | ok result => rfl
  | error f =>
    rw [hout] at hstop
    dsimp only at hstop ⊢
    rw [hstop]
    rfl

theorem attemptLoop_last (hout : outcome values answers policy label ⟨provider, attempt⟩ = .error f)
    (hretry : isRetryableRpcError values policy ⟨provider, attempt⟩ f) :
    attemptLoop values answers policy label method provider tried 0 attempt =
      ([⟨provider, attempt⟩], .error (attemptsExhausted values policy label method tried f)) := by
  rw [attemptLoop, withTimeout_answers, hout]
  dsimp only
  rw [if_pos hretry]

theorem attemptLoop_next (hout : outcome values answers policy label ⟨provider, attempt⟩ = .error f)
    (hretry : isRetryableRpcError values policy ⟨provider, attempt⟩ f) :
    attemptLoop values answers policy label method provider tried (remaining + 1) attempt =
      match f.errorMessage values with
      | none => ([⟨provider, attempt⟩], .error .typeError)
      | some _ =>
        let rest := attemptLoop values answers policy label method provider tried remaining (attempt + 1)
        (⟨provider, attempt⟩ :: rest.1, rest.2) := by
  rw [attemptLoop, withTimeout_answers, hout]
  dsimp only
  rw [if_pos hretry]

end Attempts

/-- What the attempts at one provider come to. -/
theorem attemptLoop_cases (values : Values E) (answers : Call → Answer E R) (policy : RetryPolicy)
    (label method : Str) (provider tried remaining attempt : ℕ)
    (hattempts : attempt + remaining + 1 = policy.attempts) :
    let block := (List.range' attempt (remaining + 1)).map (Call.mk provider)
    let run := attemptLoop values answers policy label method provider tried remaining attempt
    (∃ before call after, block = before ++ call :: after ∧
      (∀ c ∈ before, retries values answers policy label c ∧ Reported values answers policy label c) ∧
      retries values answers policy label call = false ∧
      run = (before ++ [call], (outcome values answers policy label call).mapError .failure)) ∨
    (∃ before call after, block = before ++ call :: after ∧
      (∀ c ∈ before ++ [call], retries values answers policy label c) ∧
      ¬ Reported values answers policy label call ∧ run.2 = .error .typeError) ∨
    ((∀ c ∈ block, retries values answers policy label c ∧ Reported values answers policy label c) ∧
      ∃ call f, block.getLast? = some call ∧ outcome values answers policy label call = .error f ∧
        run = (block, .error (attemptsExhausted values policy label method tried f))) := by
  induction remaining generalizing attempt with
  | zero =>
    intro block run
    have hblock : block = [⟨provider, attempt⟩] := rfl
    rw [hblock]
    cases hstop : retries values answers policy label ⟨provider, attempt⟩ with
    | false => exact .inl ⟨[], _, [], rfl, by simp, hstop, attemptLoop_stop hstop⟩
    | true =>
      obtain ⟨f, hout, hretry⟩ := retries_iff.mp hstop
      refine .inr (.inr ⟨?_, _, f, rfl, hout, attemptLoop_last hout hretry⟩)
      intro c hc
      obtain rfl := List.mem_singleton.mp hc
      refine ⟨hstop, fun hlt => ?_⟩
      dsimp only at hlt
      omega
  | succ remaining ih =>
    intro block run
    have hblock : block =
        ⟨provider, attempt⟩ :: (List.range' (attempt + 1) (remaining + 1)).map (Call.mk provider) := rfl
    rw [hblock]
    cases hstop : retries values answers policy label ⟨provider, attempt⟩ with
    | false => exact .inl ⟨[], _, _, rfl, by simp, hstop, attemptLoop_stop hstop⟩
    | true =>
      obtain ⟨f, hout, hretry⟩ := retries_iff.mp hstop
      have hrun : run = _ := attemptLoop_next hout hretry
      cases hmessage : f.errorMessage values with
      | none =>
        rw [hmessage] at hrun
        refine .inr (.inl ⟨[], _, _, rfl, by simpa using hstop, fun hreported => ?_, by rw [hrun]⟩)
        have hsome := hreported (by dsimp only; omega) f hout
        rw [hmessage] at hsome
        cases hsome
      | some message =>
        rw [hmessage] at hrun
        have hreported : Reported values answers policy label ⟨provider, attempt⟩ := by
          intro _ f' hout'
          rw [hout] at hout'
          cases hout'
          rw [hmessage]
          rfl
        rcases ih (attempt + 1) (by omega) with ⟨before, call, after, hsplit, hbefore, hcall, hrest⟩ |
          ⟨before, call, after, hsplit, hbefore, hcall, hrest⟩ | ⟨hall, call, f', hlast, hout', hrest⟩
        · refine .inl ⟨⟨provider, attempt⟩ :: before, call, after, by rw [hsplit]; rfl, ?_, hcall, ?_⟩
          · rintro c (⟨⟩ | ⟨_, hc⟩)
            · exact ⟨hstop, hreported⟩
            · exact hbefore c hc
          · rw [hrun, hrest]
            rfl
        · refine .inr (.inl ⟨⟨provider, attempt⟩ :: before, call, after, by rw [hsplit]; rfl, ?_, hcall, ?_⟩)
          · rintro c (⟨⟩ | ⟨_, hc⟩)
            · exact hstop
            · exact hbefore c hc
          · rw [hrun]
            exact hrest
        · refine .inr (.inr ⟨?_, call, f', ?_, hout', ?_⟩)
          · rintro c (⟨⟩ | ⟨_, hc⟩)
            · exact ⟨hstop, hreported⟩
            · exact hall c hc
          · rw [List.getLast?_cons, hlast]
            rfl
          · rw [hrun, hrest]

end Walk

section Providers

variable {E R : Type} {values : Values E} {answers : Call → Answer E R} {client : Client} {method : Str}
  {tried : ℕ} {lastError : Thrown E}

theorem attemptLoop_ne_nil {policy : RetryPolicy} {label : Str} {provider remaining attempt : ℕ} :
    (attemptLoop values answers policy label method provider tried remaining attempt).1 ≠ [] := by
  rw [attemptLoop]
  split
  · exact List.cons_ne_nil _ _
  · split_ifs
    · cases remaining with
      | zero => exact List.cons_ne_nil _ _
      | succ remaining =>
        dsimp only
        split <;> exact List.cons_ne_nil _ _
    · exact List.cons_ne_nil _ _

theorem providerLoop_ne_nil {provider : ℕ} {rest : List (Bool × ℕ)} :
    (providerLoop values answers client method ((true, provider) :: rest) tried lastError).1 ≠ [] := by
  have hsome : (runWithRetryPolicy values answers client.policy (client.labelOf method) method provider
    (tried + 1)).1 ≠ [] := attemptLoop_ne_nil
  rw [providerLoop]
  rcases hrun : runWithRetryPolicy values answers client.policy (client.labelOf method) method provider
    (tried + 1) with ⟨calls, err | result⟩
  · rw [hrun] at hsome
    dsimp only
    split_ifs
    · exact fun h => hsome (List.append_eq_nil_iff.mp h).1
    · exact hsome
  · rw [hrun] at hsome
    exact hsome

/-- Where nobody is asked, there is no provider left. -/
theorem providerLoop_of_nil {providers : List (Bool × ℕ)}
    (h : (providerLoop values answers client method providers tried lastError).1 = []) :
    ∃ tried' lastError', (providerLoop values answers client method providers tried lastError).2 =
      .error (providersExhausted values client method tried' lastError') := by
  induction providers generalizing tried lastError with
  | nil => exact ⟨tried, lastError, rfl⟩
  | cons e rest ih =>
    obtain ⟨has, provider⟩ := e
    cases has with
    | false => exact ih h
    | true => exact absurd h providerLoop_ne_nil

theorem providerLoop_eq_nil_iff {providers : List (Bool × ℕ)} :
    (providerLoop values answers client method providers tried lastError).1 = [] ↔ ∀ e ∈ providers, e.1 = false := by
  induction providers generalizing tried lastError with
  | nil => simp [providerLoop]
  | cons e rest ih =>
    obtain ⟨has, provider⟩ := e
    cases has with
    | false =>
      rw [providerLoop, ih]
      simp
    | true => exact iff_of_false providerLoop_ne_nil (by simp)

end Providers

section Client

variable {E R : Type} (values : Values E) (answers : Call → Answer E R) (client : Client) (method : Str)

/-- The policy the method is called with. -/
def Client.policyFor (client : Client) (method : Str) : RetryPolicy := policyForMethod method client.policy

variable {values answers client method} {tried : ℕ} {lastError : Thrown E}

theorem schedule_cons_true {attempts provider : ℕ} {rest : List (Bool × ℕ)} :
    schedule attempts ((true, provider) :: rest) =
      (List.range attempts).map (Call.mk provider) ++ schedule attempts rest := rfl

section Provider

variable {provider : ℕ} {calls : List Call} {err : Thrown E} (rest : List (Bool × ℕ)) (lastError : Thrown E)

theorem providerLoop_ok {result : R}
    (hrun : runWithRetryPolicy values answers client.policy (client.labelOf method) method provider (tried + 1) =
      (calls, .ok result)) :
    providerLoop values answers client method ((true, provider) :: rest) tried lastError = (calls, .ok result) := by
  rw [providerLoop, hrun]

theorem providerLoop_error
    (hrun : runWithRetryPolicy values answers client.policy (client.labelOf method) method provider (tried + 1) =
      (calls, .error err)) (herr : isExhausted values err = false) :
    providerLoop values answers client method ((true, provider) :: rest) tried lastError = (calls, .error err) := by
  rw [providerLoop, hrun]
  dsimp only
  rw [herr]
  rfl

theorem providerLoop_exhausted
    (hrun : runWithRetryPolicy values answers client.policy (client.labelOf method) method provider (tried + 1) =
      (calls, .error err)) (herr : isExhausted values err = true) :
    providerLoop values answers client method ((true, provider) :: rest) tried lastError =
      (calls ++ (providerLoop values answers client method rest (tried + 1) err).1,
        (providerLoop values answers client method rest (tried + 1) err).2) := by
  rw [providerLoop, hrun]
  dsimp only
  rw [if_pos herr]

end Provider

theorem isExhausted_failure {policy : RetryPolicy} {label : Str} {call : Call} {f : Failure E}
    (hout : outcome values answers policy label call = .error f) :
    isExhausted values (.failure f) = true ↔ Impostor values answers policy label call := by
  unfold Impostor isExhausted
  rw [hout]
  cases f with
  | thrown err =>
    simp only [Option.isSome_iff_exists]
    constructor
    · rintro ⟨lastError, h⟩
      exact ⟨err, lastError, rfl, h⟩
    · rintro ⟨_, lastError, ⟨⟩, h⟩
      exact ⟨lastError, h⟩
  | timedOut message => simp

/-- What the providers come to: an attempt that decides; an error without a text; nobody left; or an attempt that
would decide, but is taken for a provider that has used up its attempts. -/
theorem providerLoop_cases (values : Values E) (answers : Call → Answer E R) (client : Client) (method : Str)
    (providers : List (Bool × ℕ)) (tried : ℕ) (lastError : Thrown E) :
    let policy := client.policyFor method
    let label := client.labelOf method
    let calls := schedule policy.attempts providers
    let run := providerLoop values answers client method providers tried lastError
    (∃ before call after, calls = before ++ call :: after ∧
      (∀ c ∈ before, retries values answers policy label c ∧ Reported values answers policy label c) ∧
      retries values answers policy label call = false ∧ ¬ Impostor values answers policy label call ∧
      run = (before ++ [call], (outcome values answers policy label call).mapError .failure)) ∨
    (∃ before call after, calls = before ++ call :: after ∧
      (∀ c ∈ before ++ [call], retries values answers policy label c) ∧
      ¬ Reported values answers policy label call ∧ run.2 = .error .typeError) ∨
    ((∀ c ∈ calls, retries values answers policy label c ∧ Reported values answers policy label c) ∧
      ∃ tried' lastError', run = (calls, .error (providersExhausted values client method tried' lastError')) ∧
        (calls = [] → lastError' = lastError) ∧
        ∀ call, calls.getLast? = some call → ∃ f report, outcome values answers policy label call = .error f ∧
          lastError' = .exhausted report (.failure f)) ∨
    (∃ before call after, calls = before ++ call :: after ∧
      (∀ c ∈ before, retries values answers policy label c ∧ Reported values answers policy label c) ∧
      retries values answers policy label call = false ∧ Impostor values answers policy label call ∧
      ∃ more, run.1 = before ++ call :: more ∧ (more = [] → ∃ tried' lastError',
        run.2 = .error (providersExhausted values client method tried' lastError'))) := by
  induction providers generalizing tried lastError with
  | nil =>
    refine .inr (.inr (.inl ⟨by simp [schedule], tried, lastError, rfl, fun _ => rfl, ?_⟩))
    intro call hcall
    cases hcall
  | cons e rest ih =>
    obtain ⟨has, provider⟩ := e
    cases has with
    | false => exact ih tried lastError
    | true =>
      intro policy label calls run
      have hblock : (List.range' 0 (policy.attempts - 1 + 1)).map (Call.mk provider) =
          (List.range policy.attempts).map (Call.mk provider) := by
        rw [Nat.sub_add_cancel policy.attempts_pos, List.range_eq_range']
      set block := (List.range policy.attempts).map (Call.mk provider) with hdef
      have hcalls : calls = block ++ schedule policy.attempts rest := schedule_cons_true
      have hloop := attemptLoop_cases values answers policy label method provider (tried + 1) (policy.attempts - 1) 0
        (by have := policy.attempts_pos; omega)
      rw [hblock] at hloop
      rcases hloop with ⟨before, call, after, hsplit, hbefore, hstop, hrun⟩ |
        ⟨before, call, after, hsplit, hbefore, hreported, hrun⟩ | ⟨hall, call, f, hlast, hout, hrun⟩
      · have hsplit' : calls = before ++ call :: (after ++ schedule policy.attempts rest) := by
          rw [hcalls, hsplit, List.append_assoc, List.cons_append]
        cases hout : outcome values answers policy label call with
        | ok result =>
          rw [hout] at hrun
          refine .inl ⟨before, call, _, hsplit', hbefore, hstop, ?_, ?_⟩
          · rintro ⟨err, lastError, himpostor, -⟩
            rw [hout] at himpostor
            cases himpostor
          · rw [hout]
            exact providerLoop_ok _ _ hrun
        | error f =>
          rw [hout] at hrun
          by_cases himpostor : Impostor values answers policy label call
          · have hexhausted := providerLoop_exhausted rest lastError hrun
              ((isExhausted_failure hout).mpr himpostor)
            refine .inr (.inr (.inr ⟨before, call, _, hsplit', hbefore, hstop, himpostor,
              (providerLoop values answers client method rest (tried + 1) (.failure f)).1, ?_, fun hmore => ?_⟩))
            · show (providerLoop values answers client method ((true, provider) :: rest) tried lastError).1 = _
              rw [hexhausted, List.append_assoc]
              rfl
            · show ∃ tried' lastError', (providerLoop values answers client method ((true, provider) :: rest) tried
                lastError).2 = _
              rw [hexhausted]
              exact providerLoop_of_nil hmore
          · refine .inl ⟨before, call, _, hsplit', hbefore, hstop, himpostor, ?_⟩
            rw [hout]
            have hother : isExhausted values (.failure f) = false :=
              Bool.eq_false_iff.mpr fun h => himpostor ((isExhausted_failure hout).mp h)
            exact providerLoop_error _ _ hrun hother
      · refine .inr (.inl ⟨before, call, after ++ schedule policy.attempts rest, ?_, hbefore, hreported, ?_⟩)
        · rw [hcalls, hsplit, List.append_assoc, List.cons_append]
        · have hrun' : runWithRetryPolicy values answers client.policy label method provider (tried + 1) =
              ((runWithRetryPolicy values answers client.policy label method provider (tried + 1)).1,
                .error .typeError) := Prod.ext rfl hrun
          have herror := providerLoop_error rest lastError hrun' rfl
          exact congrArg Prod.snd herror
      · have hexhausted := providerLoop_exhausted rest lastError hrun rfl
        have hrun' : run = _ := hexhausted
        rcases ih (tried + 1) (attemptsExhausted values policy label method (tried + 1) f) with
          ⟨before, call', after, hsplit, hbefore, hstop, himpostor, hrest⟩ |
          ⟨before, call', after, hsplit, hbefore, hreported, hrest⟩ |
          ⟨hall', tried', lastError', hrest, hnone, hsome⟩ |
          ⟨before, call', after, hsplit, hbefore, hstop, himpostor, more, hmore, hfinal⟩
        · refine .inl ⟨block ++ before, call', after, ?_, ?_, hstop, himpostor, ?_⟩
          · rw [hcalls, hsplit, List.append_assoc]
          · intro c hc
            exact (List.mem_append.mp hc).elim (hall c) (hbefore c)
          · rw [hrun', hrest, List.append_assoc]
        · refine .inr (.inl ⟨block ++ before, call', after, ?_, ?_, hreported, ?_⟩)
          · rw [hcalls, hsplit, List.append_assoc]
          · intro c hc
            rw [List.append_assoc] at hc
            exact (List.mem_append.mp hc).elim (fun h => (hall c h).1) (hbefore c)
          · rw [hrun']
            exact hrest
        · refine .inr (.inr (.inl ⟨?_, tried', lastError', ?_, ?_, ?_⟩))
          · intro c hc
            rw [hcalls] at hc
            exact (List.mem_append.mp hc).elim (hall c) (hall' c)
          · rw [hrun', hrest, hcalls]
          · intro hempty
            rw [hcalls] at hempty
            rw [(List.append_eq_nil_iff.mp hempty).1] at hlast
            cases hlast
          · intro final hfinal
            rw [hcalls] at hfinal
            by_cases hempty : schedule policy.attempts rest = []
            · rw [hempty, List.append_nil, hlast] at hfinal
              cases hfinal
              exact ⟨f, _, hout, hnone hempty⟩
            · rw [List.getLast?_append_of_ne_nil _ hempty] at hfinal
              exact hsome final hfinal
        · refine .inr (.inr (.inr ⟨block ++ before, call', after, ?_, ?_, hstop, himpostor, more, ?_, ?_⟩))
          · rw [hcalls, hsplit, List.append_assoc]
          · intro c hc
            exact (List.mem_append.mp hc).elim (hall c) (hbefore c)
          · rw [hrun', hmore, List.append_assoc]
          · intro hnil
            rw [hrun']
            exact hfinal hnil

/-- The error at the end has the last failure as its cause. -/
theorem providersExhausted_iff (values : Values E) (client : Client) (method : Str) (tried : ℕ) (report : Report)
    (f : Failure E) :
    (∃ report', providersExhausted values client method tried (.exhausted report (.failure f)) =
      .exhausted report' (.failure f)) ↔ f.nullish values = false ∧ (f.errorMessage values).isSome := by
  unfold providersExhausted underlyingError
  dsimp only
  cases hnullish : f.nullish values with
  | true => simp [Thrown.errorMessage]
  | false =>
    simp only [Thrown.errorMessage, Bool.false_eq_true, if_false]
    cases f.errorMessage values with
    | none => simp
    | some message => simp

theorem providersExhausted_ne_failure {f : Failure E} :
    providersExhausted values client method tried lastError ≠ .failure f := by
  unfold providersExhausted
  split <;> simp

/-- **Reads fail over**, if and only if nothing is odd about the errors on the way. -/
theorem failsOver_iff_plain (values : Values E) (answers : Call → Answer E R) (client : Client) (method : Str)
    (providers : List (Bool × ℕ)) (tried : ℕ) (lastError : Thrown E) :
    let policy := client.policyFor method
    let label := client.labelOf method
    let calls := schedule policy.attempts providers
    calls ≠ [] →
      (FailsOver values answers policy label calls
          (providerLoop values answers client method providers tried lastError) ↔
        Plain values answers policy label calls) := by
  intro policy label calls hcalls
  rcases providerLoop_cases values answers client method providers tried lastError with
    ⟨before, call, after, hsplit, hbefore, hstop, himpostor, hrun⟩ |
    ⟨before, call, after, hsplit, hbefore, hreported, hrun⟩ |
    ⟨hall, tried', lastError', hrun, -, hlast⟩ |
    ⟨before, call, after, hsplit, hbefore, hstop, himpostor, more, hmore, hfinal⟩
  · obtain ⟨htake, hdrop⟩ := span_append after (fun c hc => (hbefore c hc).1) hstop
    rw [← hsplit] at htake hdrop
    refine iff_of_true ?_ ?_
    · unfold FailsOver
      rw [hdrop, htake]
      exact hrun
    · unfold Plain
      rw [hdrop, htake]
      exact ⟨fun c hc => (hbefore c hc).2, himpostor⟩
  · refine iff_of_false (fun h => ?_) (fun h => hreported (h.1 call ?_))
    · unfold FailsOver at h
      split at h
      next stop _ _ =>
        rw [h] at hrun
        cases hout : outcome values answers policy label stop <;> rw [hout] at hrun <;> cases hrun
      next =>
        obtain ⟨-, _, _, _, -, -, hexhausted⟩ := h
        rw [hrun] at hexhausted
        cases hexhausted
    · have hprefix : before ++ [call] <+: calls.takeWhile (retries values answers policy label) := by
        have hcall : calls = (before ++ [call]) ++ after := by
          rw [List.append_assoc]
          exact hsplit
        rw [hcall, List.takeWhile_append_of_pos hbefore]
        exact List.prefix_append _ _
      exact hprefix.subset (List.mem_append_right _ (List.mem_singleton.mpr rfl))
  · have htake := List.takeWhile_eq_self_iff.mpr fun c hc => (hall c hc).1
    have hdrop := List.dropWhile_eq_nil_iff.mpr fun c hc => (hall c hc).1
    obtain ⟨call, hcall⟩ := Option.isSome_iff_exists.mp (List.getLast?_isSome.mpr hcalls)
    obtain ⟨f, report, hout, rfl⟩ := hlast call hcall
    have hiff := providersExhausted_iff values client method tried' report f
    unfold FailsOver Plain
    rw [hdrop, htake, hrun]
    constructor
    · rintro ⟨-, call', f', report', hcall', hout', hresult⟩
      rw [hcall] at hcall'
      cases hcall'
      rw [hout] at hout'
      cases hout'
      have hplain := hiff.mp ⟨report', Except.error.inj hresult⟩
      refine ⟨fun c hc => (hall c hc).2, fun call'' hcall'' f'' hout'' => ?_⟩
      rw [hcall] at hcall''
      cases hcall''
      rw [hout] at hout''
      cases hout''
      exact hplain
    · rintro ⟨-, hplain⟩
      obtain ⟨report', hreport⟩ := hiff.mpr (hplain call hcall f hout)
      exact ⟨rfl, call, f, report', hcall, hout, congrArg _ hreport⟩
  · obtain ⟨htake, hdrop⟩ := span_append after (fun c hc => (hbefore c hc).1) hstop
    rw [← hsplit] at htake hdrop
    refine iff_of_false (fun h => ?_) (fun h => ?_)
    · unfold FailsOver at h
      rw [hdrop, htake] at h
      have hnone : more = [] := by
        have hcallsMade := congrArg Prod.fst h
        rw [hmore] at hcallsMade
        simpa using hcallsMade
      obtain ⟨tried', lastError', hresult⟩ := hfinal hnone
      obtain ⟨err, _, hout, -⟩ := himpostor
      rw [h, hout] at hresult
      exact providersExhausted_ne_failure (Except.error.inj hresult).symm
    · unfold Plain at h
      rw [hdrop] at h
      exact h.2 himpostor

end Client

/-! ## The proxy -/

section Proxy

variable {E R : Type} (values : Values E) (answers : Call → Answer E R) (client : Client) (method : Str)
  (others : List Bool)

/-- What the callers of the proxy rely on. -/
def Meets : Prop :=
  let run := withReadFallback values answers client method others
  if client.bypasses method || NON_IDEMPOTENT_METHODS.contains method then run.1 = [⟨0, 0⟩]
  else
    FailsOver values answers client.policy (client.labelOf method)
      (schedule client.policy.attempts (true :: others).zipIdx) run

/-- The first provider is taken for one that has used up its attempts. -/
def MovesOn : Prop :=
  retries values answers NO_RETRY_POLICY (client.labelOf method) ⟨0, 0⟩ ∨
    Impostor values answers NO_RETRY_POLICY (client.labelOf method) ⟨0, 0⟩

/-- When the callers may rely on it. -/
def Reliable : Prop :=
  if client.bypasses method then True
  else if NON_IDEMPOTENT_METHODS.contains method then
    MovesOn values answers client method → ∀ has ∈ others, has = false
  else
    Plain values answers client.policy (client.labelOf method)
      (schedule client.policy.attempts (true :: others).zipIdx)

variable {values answers client method others}

theorem policyFor_submission (hmethod : NON_IDEMPOTENT_METHODS.contains method = true) :
    client.policyFor method = NO_RETRY_POLICY := if_pos hmethod

theorem policyFor_read (hmethod : NON_IDEMPOTENT_METHODS.contains method = false) :
    client.policyFor method = client.policy := if_neg (Bool.eq_false_iff.mp hmethod)

/-- A submission that is not bypassed. -/
theorem submission_iff (hmethod : NON_IDEMPOTENT_METHODS.contains method = true) {lastError : Thrown E} :
    (providerLoop values answers client method (true :: others).zipIdx 0 lastError).1 = [⟨0, 0⟩] ↔
      (MovesOn values answers client method → ∀ has ∈ others, has = false) := by
  have hothers (err : Thrown E) :
      ([⟨0, 0⟩] ++ (providerLoop values answers client method (others.zipIdx 1) 1 err).1 = [(⟨0, 0⟩ : Call)]) ↔
        ∀ has ∈ others, has = false := by
    rw [List.append_right_eq_self, providerLoop_eq_nil_iff]
    constructor
    · intro h has hhas
      rw [← List.zipIdx_map_fst 1 others] at hhas
      obtain ⟨e, he, rfl⟩ := List.mem_map.mp hhas
      exact h e he
    · intro h e he
      exact h e.1 (List.zipIdx_map_fst 1 others ▸ List.mem_map_of_mem (f := Prod.fst) he)
  have hrun : runWithRetryPolicy values answers client.policy (client.labelOf method) method 0 1 =
      attemptLoop values answers NO_RETRY_POLICY (client.labelOf method) method 0 1 0 0 := by
    show attemptLoop values answers (client.policyFor method) _ method 0 1
      ((client.policyFor method).attempts - 1) 0 = _
    rw [policyFor_submission hmethod]
    rfl
  rw [List.zipIdx_cons]
  cases hstop : retries values answers NO_RETRY_POLICY (client.labelOf method) ⟨0, 0⟩ with
  | true =>
    obtain ⟨f, hout, hretry⟩ := retries_iff.mp hstop
    rw [attemptLoop_last hout hretry] at hrun
    rw [providerLoop_exhausted _ _ hrun rfl]
    have hmoves : MovesOn values answers client method := .inl hstop
    exact (hothers _).trans ⟨fun hnone _ => hnone, fun hnone => hnone hmoves⟩
  | false =>
    rw [attemptLoop_stop hstop] at hrun
    cases hout : outcome values answers NO_RETRY_POLICY (client.labelOf method) ⟨0, 0⟩ with
    | ok result =>
      rw [hout] at hrun
      rw [providerLoop_ok _ _ hrun]
      refine iff_of_true rfl fun hmoves => ?_
      rcases hmoves with hretry | ⟨_, _, himpostor, -⟩
      · rw [hstop] at hretry
        cases hretry
      · rw [hout] at himpostor
        cases himpostor
    | error f =>
      rw [hout] at hrun
      cases himpostor : isExhausted values (.failure f) with
      | true =>
        rw [providerLoop_exhausted _ _ hrun himpostor]
        have hmoves : MovesOn values answers client method := .inr ((isExhausted_failure hout).mp himpostor)
        exact (hothers _).trans ⟨fun hnone _ => hnone, fun hnone => hnone hmoves⟩
      | false =>
        rw [providerLoop_error _ _ hrun himpostor]
        refine iff_of_true rfl fun hmoves => ?_
        rcases hmoves with hretry | hmoves
        · rw [hstop] at hretry
          cases hretry
        · rw [(isExhausted_failure hout).mpr hmoves] at himpostor
          cases himpostor

/-- **A submission goes to the primary provider once, and reads fail over cleanly**, if and only if the wrapper does
not see a submission, and sees nothing odd about the errors of a read. -/
theorem meets_iff_reliable (values : Values E) (answers : Call → Answer E R) (client : Client) (method : Str)
    (others : List Bool) :
    Meets values answers client method others ↔ Reliable values answers client method others := by
  unfold Meets Reliable withReadFallback
  cases hbypass : client.bypasses method with
  | true => simp
  | false =>
    cases hmethod : NON_IDEMPOTENT_METHODS.contains method with
    | true =>
      simp only [Bool.false_or, if_true, Bool.false_eq_true, if_false]
      exact submission_iff hmethod
    | false =>
      simp only [Bool.false_or, Bool.false_eq_true, if_false]
      have hpolicy : client.policyFor method = client.policy := policyFor_read hmethod
      have hiff := failsOver_iff_plain values answers client method (true :: others).zipIdx 0
        (.failure (.thrown values.undefined))
      rw [hpolicy] at hiff
      apply hiff
      rw [List.zipIdx_cons, schedule_cons_true]
      have hpos := client.policy.attempts_pos
      intro hempty
      have hlength := congrArg List.length (List.append_eq_nil_iff.mp hempty).1
      rw [List.length_map, List.length_range] at hlength
      exact hpos.ne' hlength

end Proxy

/-- `undefined`, an error, and an `RpcRetriesExhaustedError`. -/
inductive Js where
  | undefined
  | error (message : Str)
  | exhausted (message lastError : Str)

def jsValues : Values Js where
  undefined := .undefined
  nullish
    | .undefined => true
    | _ => false
  statuses _ := []
  messageOf
    | .undefined => []
    | .error message | .exhausted message _ => message
  errorMessage
    | .undefined => some "undefined".toList
    | .error message | .exhausted message _ => some message
  lastError
    | .exhausted _ lastError => some (.error lastError)
    | _ => none
  numberText n := Decimal.encode ⌊n⌋.toNat

/-- As `getSorobanServer` makes it. -/
def soroban (options : Option RetryPolicyOptions) : Client where
  label := "Soroban RPC".toList
  noRetryMethods := ["sendTransaction".toList]
  retryMethods := none
  policy := resolveRetryPolicy options DEFAULT_RETRY_POLICY

/-- One attempt, and whatever the message, a failure is transient. -/
def anyMessage : RetryPolicyOptions where
  attempts := some (.finite 1)
  initialDelayMs := none
  maxDelayMs := none
  backoffFactor := none
  jitter := none
  retryableStatuses := none
  retryableMessagePattern := some fun _ _ => true
  timeoutMs := none

/-- The wrapper sends a transaction to the second provider, loses the `undefined` it ends with, and does not
rethrow an error of its own class. -/
theorem meets_iff_reliable_fails :
    ¬ Meets jsValues (R := Unit) (fun _ => ⟨false, .error (.error "network".toList)⟩) (soroban none)
      "_sendTransaction".toList [true] ∧
    ¬ Meets jsValues (R := Unit) (fun _ => ⟨false, .error .undefined⟩) (soroban (some anyMessage))
      "getHealth".toList [] ∧
    ¬ Meets jsValues (R := Unit) (fun _ => ⟨false, .error (.exhausted "denied".toList "denied".toList)⟩)
      (soroban none) "getHealth".toList [true] := by
  refine ⟨?_, ?_, ?_⟩
  · intro h
    cases h
  · rintro ⟨-, _, _, _, ⟨⟩, ⟨⟩, ⟨⟩⟩
  · intro h
    cases h

end OpaqueStellar.Web.ReadFallback
