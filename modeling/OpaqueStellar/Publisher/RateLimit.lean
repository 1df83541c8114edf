import Mathlib.Data.Rat.Floor
import OpaqueStellar.Lib.Dict
import OpaqueStellar.Lib.Machine
import OpaqueStellar.Lib.TokenBucket
import OpaqueStellar.Schemas.Core

/-! # The rate limiter of the publisher

`publisher/src/rate-limit.ts`: a bucket of tokens for each source. A bucket is filled up when a full
window has gone by since the last call of its source, and in proportion to the time before that.
Buckets that have been idle for long are deleted now and then; since such a bucket would be filled up
anyway, nobody can tell. -/

namespace OpaqueStellar.Publisher.RateLimit

open OpaqueStellar.Lib
open OpaqueStellar.Schemas (Str)

structure RateLimiter where
  windowMs : ℚ
  maxRequests : ℚ
  burstSize : ℚ

structure Bucket where
  tokens : ℚ
  lastRefill : ℚ
  deriving DecidableEq

structure RateLimitResult where
  allowed : Bool
  limit : ℚ
  remaining : ℤ
  resetMs : ℚ
  deriving DecidableEq

structure LimiterState where
  buckets : Dict Str Bucket := []
  lastCleanup : ℚ

/-- A call and the clock at that moment. -/
structure ConsumeCall where
  source : Str
  now : ℚ

section Limiter

variable (cfg : RateLimiter)

def Bucket.refill (bucket : Bucket) (now : ℚ) : Bucket :=
  let elapsed := now - bucket.lastRefill
  if cfg.windowMs ≤ elapsed then ⟨cfg.burstSize, now⟩
  else
    let refill := elapsed / cfg.windowMs * cfg.maxRequests
    ⟨min cfg.burstSize (bucket.tokens + refill), now⟩

def Bucket.take (bucket : Bucket) : Bucket × RateLimitResult :=
  let resetMs := bucket.lastRefill + cfg.windowMs
  if 1 ≤ bucket.tokens then
    let bucket := { bucket with tokens := bucket.tokens - 1 }
    (bucket, ⟨true, cfg.burstSize, ⌊bucket.tokens⌋, resetMs⟩)
  else (bucket, ⟨false, cfg.burstSize, 0, resetMs⟩)

/-- What a call does with the bucket of its source, if there is one. -/
def serve (bucket : Option Bucket) (now : ℚ) : Bucket × RateLimitResult :=
  ((bucket.getD ⟨cfg.burstSize, now⟩).refill cfg now).take cfg

def maybeCleanup (s : LimiterState) (now : ℚ) : LimiterState :=
  if now - s.lastCleanup < cfg.windowMs * 2 then s
  else
    { buckets := s.buckets.filterValues fun bucket =>
        if cfg.windowMs * 3 < now - bucket.lastRefill then none else some bucket
      lastCleanup := now }

def consume (s : LimiterState) (c : ConsumeCall) : LimiterState × RateLimitResult :=
  let s := maybeCleanup cfg s c.now
  let (bucket, result) := serve cfg (s.buckets.find c.source) c.now
  ({ s with buckets := s.buckets.set c.source bucket }, result)

def limiter : Machine LimiterState ConsumeCall RateLimitResult := ⟨consume cfg⟩

/-- One source on its own, whose bucket is never deleted. -/
def single : Machine (Option Bucket) ℚ RateLimitResult where
  step bucket now := ((serve cfg bucket now).1, (serve cfg bucket now).2)

end Limiter

/-- The parameters are positive. -/
structure RateLimiter.Positive (cfg : RateLimiter) : Prop where
  windowMs : 0 < cfg.windowMs
  maxRequests : 0 < cfg.maxRequests
  burstSize : 0 < cfg.burstSize

/-! ## A bucket on its own

A bucket gains no more than its rate gives, and where a full window brings the whole burst although the
rate would give less, the difference for each such window. -/

/-- What `d` milliseconds can add to a bucket. -/
def RateLimiter.supply (cfg : RateLimiter) (d : ℚ) : ℚ :=
  cfg.maxRequests / cfg.windowMs * d + max 0 (cfg.burstSize - cfg.maxRequests) * ⌊d / cfg.windowMs⌋

section Single

variable {cfg : RateLimiter}

theorem RateLimiter.Positive.supply (h : cfg.Positive) : TokenBucket.Supply cfg.supply :=
  (TokenBucket.supply_rate (div_pos h.maxRequests h.windowMs).le).add
    (TokenBucket.supply_floor (le_max_left 0 _) h.windowMs)

theorem lastRefill_refill (bucket : Bucket) (now : ℚ) : (bucket.refill cfg now).lastRefill = now := by
  unfold Bucket.refill
  dsimp only
  split <;> rfl

theorem refill_le_burst (bucket : Bucket) (now : ℚ) : (bucket.refill cfg now).tokens ≤ cfg.burstSize := by
  unfold Bucket.refill
  dsimp only
  split
  · exact le_rfl
  · exact min_le_left _ _

theorem refill_nonneg (h : cfg.Positive) {bucket : Bucket} {now : ℚ} (hnonneg : 0 ≤ bucket.tokens)
    (hnow : bucket.lastRefill ≤ now) : 0 ≤ (bucket.refill cfg now).tokens := by
  unfold Bucket.refill
  dsimp only
  split
  · exact h.burstSize.le
  · have helapsed : 0 ≤ now - bucket.lastRefill := sub_nonneg.mpr hnow
    have hrefill := mul_nonneg (div_nonneg helapsed h.windowMs.le) h.maxRequests.le
    exact le_min h.burstSize.le (add_nonneg hnonneg hrefill)

/-- Both regimes stay within the supply. -/
theorem refill_le_supply (h : cfg.Positive) {bucket : Bucket} {now : ℚ}
    (hnonneg : 0 ≤ bucket.tokens) (hnow : bucket.lastRefill ≤ now) :
    (bucket.refill cfg now).tokens ≤ bucket.tokens + cfg.supply (now - bucket.lastRefill) := by
  have helapsed : 0 ≤ now - bucket.lastRefill := sub_nonneg.mpr hnow
  unfold Bucket.refill RateLimiter.supply
  generalize now - bucket.lastRefill = elapsed at helapsed
  dsimp only
  have hbonus : 0 ≤ max 0 (cfg.burstSize - cfg.maxRequests) := le_max_left _ _
  split
  · next hfull =>
      have hone : 1 ≤ elapsed / cfg.windowMs := (one_le_div h.windowMs).mpr hfull
      -- the rate gives a full window's requests, the windows at least one difference
      have hrate : cfg.maxRequests ≤ cfg.maxRequests / cfg.windowMs * elapsed := by
        rw [div_mul_eq_mul_div, mul_div_assoc]
        exact le_mul_of_one_le_right h.maxRequests.le hone
      have hwindow : (1 : ℚ) ≤ (⌊elapsed / cfg.windowMs⌋ : ℤ) := by
        exact_mod_cast Int.le_floor.mpr (by exact_mod_cast hone)
      have hdiff := le_mul_of_one_le_right hbonus hwindow
      have hmax := le_max_right 0 (cfg.burstSize - cfg.maxRequests)
      dsimp only
      linarith
  · have hfloor : (0 : ℚ) ≤ (⌊elapsed / cfg.windowMs⌋ : ℤ) :=
      Int.cast_nonneg (Int.floor_nonneg.mpr (div_nonneg helapsed h.windowMs.le))
    have hextra := mul_nonneg hbonus hfloor
    have hrate : elapsed / cfg.windowMs * cfg.maxRequests =
        cfg.maxRequests / cfg.windowMs * elapsed := by ring
    refine (min_le_right _ _).trans ?_
    rw [hrate]
    linarith

/-- The bucket as the bound sees it. -/
def Bucket.toLevel (bucket : Bucket) : TokenBucket.Level ℚ := ⟨bucket.tokens, bucket.lastRefill⟩

theorem take_fst (cfg : RateLimiter) (bucket : Bucket) :
    (bucket.take cfg).1.lastRefill = bucket.lastRefill ∧
      (bucket.take cfg).1.tokens + TokenBucket.cost (bucket.take cfg).2.allowed = bucket.tokens ∧
      (0 ≤ bucket.tokens → 0 ≤ (bucket.take cfg).1.tokens) := by
  unfold Bucket.take
  dsimp only
  split
  · next hone => simp [TokenBucket.cost, hone]
  · simp [TokenBucket.cost]

theorem serves_serve (h : cfg.Positive) (bucket : Option Bucket) {now : ℚ}
    (hbucket : ∀ b, bucket = some b → 0 ≤ b.tokens ∧ b.lastRefill ≤ now) :
    TokenBucket.Serves cfg.burstSize cfg.supply (bucket.map Bucket.toLevel) now
      (serve cfg bucket now).2.allowed (serve cfg bucket now).1.toLevel := by
  have hstart : 0 ≤ (bucket.getD ⟨cfg.burstSize, now⟩).tokens ∧
      (bucket.getD ⟨cfg.burstSize, now⟩).lastRefill ≤ now := by
    cases bucket with
    | none => exact ⟨h.burstSize.le, le_rfl⟩
    | some b => exact hbucket b rfl
  obtain ⟨hlast, hcost, hleft⟩ := take_fst cfg
    ((bucket.getD ⟨cfg.burstSize, now⟩).refill cfg now)
  refine ⟨?_, ?_, ?_, ?_⟩
  · exact hlast.trans (lastRefill_refill _ _)
  · exact hleft (refill_nonneg h hstart.1 hstart.2)
  · exact hcost.le.trans (refill_le_burst _ _)
  · intro l hl
    obtain ⟨b, rfl, rfl⟩ := Option.map_eq_some_iff.mp hl
    exact ⟨hstart.2, hcost.le.trans (refill_le_supply h hstart.1 hstart.2)⟩

/-- The answers of a source that is alone, with the times of its calls. -/
def answers (cfg : RateLimiter) (times : List ℚ) : List (ℚ × RateLimitResult) :=
  ((single cfg).trace none times).map fun e => (e.input, e.output)

theorem answers_snoc (times : List ℚ) (now : ℚ) :
    answers cfg (times ++ [now]) =
      answers cfg times ++ [(now, (serve cfg ((single cfg).final none times) now).2)] := by
  rw [answers, Machine.trace_snoc, List.map_append]
  rfl

theorem final_single_snoc (times : List ℚ) (now : ℚ) :
    (single cfg).final none (times ++ [now]) =
      some (serve cfg ((single cfg).final none times) now).1 := by
  rw [Machine.final_snoc]
  rfl

theorem served_answers (h : cfg.Positive) {times : List ℚ} (htimes : times.Pairwise (· ≤ ·)) :
    TokenBucket.Served cfg.burstSize cfg.supply
        ((answers cfg times).map fun e => (e.1, e.2.allowed))
        (((single cfg).final none times).map Bucket.toLevel) ∧
      ∀ b, (single cfg).final none times = some b → 0 ≤ b.tokens ∧ b.lastRefill ∈ times := by
  induction times using List.reverseRecOn with
  | nil =>
      refine ⟨.nil, ?_⟩
      intro b hb
      cases hb
  | append_singleton times now ih =>
      obtain ⟨hbefore, -, hlast⟩ := List.pairwise_append.mp htimes
      obtain ⟨hserved, hbucket⟩ := ih hbefore
      have hserves : TokenBucket.Serves cfg.burstSize cfg.supply _ now _ _ :=
        serves_serve h ((single cfg).final none times) fun b hb =>
          ⟨(hbucket b hb).1, hlast _ (hbucket b hb).2 now (List.mem_singleton.mpr rfl)⟩
      rw [answers_snoc, final_single_snoc, List.map_append]
      refine ⟨hserved.snoc hserves, ?_⟩
      intro b hb
      obtain rfl := Option.some.inj hb
      exact ⟨hserves.nonneg, List.mem_append_right _ (List.mem_singleton.mpr hserves.time_eq)⟩

end Single

/-! ## The sources do not see each other -/

/-- The times of a source's calls. -/
def timesOf (source : Str) (calls : List ConsumeCall) : List ℚ :=
  (calls.filter fun c => c.source = source).map (·.now)

/-- The bucket kept for a source is the one it would have alone, or was deleted after a full window. -/
def Agrees (cfg : RateLimiter) (now : ℚ) (kept alone : Option Bucket) : Prop :=
  kept = alone ∨ kept = none ∧ ∃ b, alone = some b ∧ cfg.windowMs ≤ now - b.lastRefill

section Sources

variable {cfg : RateLimiter} {now now' : ℚ} {kept alone : Option Bucket}

theorem Agrees.later (h : Agrees cfg now kept alone) (hle : now ≤ now') :
    Agrees cfg now' kept alone := by
  rcases h with heq | ⟨hnone, b, hb, hidle⟩
  · exact .inl heq
  · exact .inr ⟨hnone, b, hb, by linarith⟩

/-- A deleted bucket is made again as full as the old one would have become. -/
theorem Agrees.serve_eq (hw : 0 < cfg.windowMs) (h : Agrees cfg now kept alone) :
    serve cfg kept now = serve cfg alone now := by
  rcases h with rfl | ⟨rfl, b, rfl, hidle⟩
  · rfl
  · have hfresh : (⟨cfg.burstSize, now⟩ : Bucket).refill cfg now = ⟨cfg.burstSize, now⟩ := by
      simp [Bucket.refill, not_le.mpr hw]
    have hidle' : b.refill cfg now = ⟨cfg.burstSize, now⟩ := by
      simp [Bucket.refill, hidle]
    simp only [serve, Option.getD_none, Option.getD_some, hfresh, hidle']

theorem agrees_maybeCleanup (hw : 0 < cfg.windowMs) {s : LimiterState} (hd : s.buckets.Distinct)
    {source : Str} (h : Agrees cfg now (s.buckets.find source) alone) :
    Agrees cfg now ((maybeCleanup cfg s now).buckets.find source) alone := by
  unfold maybeCleanup
  split
  · exact h
  · dsimp only
    rw [Dict.find_filterValues hd]
    rcases h with heq | ⟨hnone, hidle⟩
    · rw [heq]
      cases alone with
      | none => exact .inl rfl
      | some b =>
          rw [Option.bind_some]
          split
          · next hold => exact .inr ⟨rfl, b, rfl, by linarith⟩
          · exact .inl rfl
    · rw [hnone]
      exact .inr ⟨rfl, hidle⟩

theorem distinct_consume {s : LimiterState} (hd : s.buckets.Distinct) (c : ConsumeCall) :
    (consume cfg s c).1.buckets.Distinct := by
  refine Dict.distinct_set ?_ _ _
  unfold maybeCleanup
  split
  · exact hd
  · dsimp only
    exact Dict.distinct_filterValues hd _

theorem timesOf_snoc (source : Str) (calls : List ConsumeCall) (c : ConsumeCall) :
    timesOf source (calls ++ [c]) =
      timesOf source calls ++ if c.source = source then [c.now] else [] := by
  by_cases h : c.source = source <;> simp [timesOf, List.filter_append, h]

theorem agrees_run (hw : 0 < cfg.windowMs) (start : ℚ) {calls : List ConsumeCall}
    (hclock : calls.Pairwise fun c c' => c.now ≤ c'.now) :
    ((limiter cfg).final ⟨[], start⟩ calls).buckets.Distinct ∧
      ∀ source now, (∀ c ∈ calls, c.now ≤ now) →
        Agrees cfg now (((limiter cfg).final ⟨[], start⟩ calls).buckets.find source)
          ((single cfg).final none (timesOf source calls)) := by
  induction calls using List.reverseRecOn with
  | nil => exact ⟨List.nodup_nil, fun _ _ _ => .inl rfl⟩
  | append_singleton calls c ih =>
      obtain ⟨hbefore, -, hlast⟩ := List.pairwise_append.mp hclock
      obtain ⟨hd, hagrees⟩ := ih hbefore
      rw [Machine.final_snoc]
      refine ⟨distinct_consume hd c, ?_⟩
      intro source now hnow
      have hc : c.now ≤ now := hnow c (List.mem_append_right _ (List.mem_singleton.mpr rfl))
      have hcleaned := agrees_maybeCleanup hw hd
        (hagrees source c.now fun c' hc' => hlast c' hc' c (List.mem_singleton.mpr rfl))
      rw [timesOf_snoc]
      by_cases hsource : c.source = source
      · rw [if_pos hsource, final_single_snoc, ← hcleaned.serve_eq hw, ← hsource]
        exact .inl (Dict.find_set_self _ _ _)
      · rw [if_neg hsource, List.append_nil]
        have hfind : ((limiter cfg).step ((limiter cfg).final ⟨[], start⟩ calls) c).1.buckets.find
            source = (maybeCleanup cfg ((limiter cfg).final ⟨[], start⟩ calls) c.now).buckets.find
            source := Dict.find_set_of_ne _ _ (Ne.symm hsource)
        rw [hfind]
        exact hcleaned.later hc

/-- **Each source is served as if it were alone.** -/
theorem filter_trace (hw : 0 < cfg.windowMs) (start : ℚ) {calls : List ConsumeCall}
    (hclock : calls.Pairwise fun c c' => c.now ≤ c'.now) (source : Str) :
    (((limiter cfg).trace ⟨[], start⟩ calls).filter fun e => e.input.source = source).map
        (fun e => (e.input.now, e.output)) = answers cfg (timesOf source calls) := by
  induction calls using List.reverseRecOn with
  | nil => rfl
  | append_singleton calls c ih =>
      obtain ⟨hbefore, -, hlast⟩ := List.pairwise_append.mp hclock
      obtain ⟨hd, hagrees⟩ := agrees_run hw start hbefore
      rw [Machine.trace_snoc, List.filter_append, List.map_append, ih hbefore, timesOf_snoc]
      by_cases hsource : c.source = source
      · have hcleaned := agrees_maybeCleanup hw hd
          (hagrees source c.now fun c' hc' => hlast c' hc' c (List.mem_singleton.mpr rfl))
        rw [if_pos hsource, answers_snoc, ← hcleaned.serve_eq hw, ← hsource]
        simp [Machine.stepAt, limiter, consume]
      · simp [Machine.stepAt, hsource]

end Sources

/-- The calls of a source allowed from `a` on, up to `z`. -/
def allowedIn (source : Str) (a z : ℚ)
    (t : List (Machine.Step LimiterState ConsumeCall RateLimitResult)) : ℕ :=
  t.countP fun e => e.input.source = source ∧ a ≤ e.input.now ∧ e.input.now ≤ z ∧
    e.output.allowed = true

theorem allowedIn_eq (source : Str) (a z : ℚ)
    (t : List (Machine.Step LimiterState ConsumeCall RateLimitResult)) :
    allowedIn source a z t = TokenBucket.servedIn a z
      (((t.filter fun e => e.input.source = source).map fun e => (e.input.now, e.output)).map
        fun e => (e.1, e.2.allowed)) := by
  rw [allowedIn, TokenBucket.servedIn, List.map_map, List.countP_map, List.countP_filter]
  apply List.countP_congr
  intro e _
  simp only [Function.comp_apply, Bool.and_eq_true, decide_eq_true_eq]
  constructor
  · rintro ⟨hsource, ha, hz, hallowed⟩
    exact ⟨⟨⟨ha, hz⟩, hallowed⟩, hsource⟩
  · rintro ⟨⟨⟨ha, hz⟩, hallowed⟩, hsource⟩
    exact ⟨hsource, ha, hz, hallowed⟩

/-- **Rate limit.** While the clock does not go back, the calls of a source that are allowed within `T`
milliseconds are at most the burst, the rate's share of `T` and, where the burst is more than the rate
gives in a window, their difference for each full window in `T`. Every source gets the answers that it
would get without the calls of the others. -/
theorem rate_limit (cfg : RateLimiter) (h : cfg.Positive) (start : ℚ) (calls : List ConsumeCall)
    (hclock : calls.Pairwise fun c c' => c.now ≤ c'.now) :
    (∀ source a T, 0 ≤ T →
      (allowedIn source a (a + T) ((limiter cfg).trace ⟨[], start⟩ calls) : ℚ) ≤
        cfg.burstSize + cfg.maxRequests * T / cfg.windowMs +
          max 0 (cfg.burstSize - cfg.maxRequests) * ⌊T / cfg.windowMs⌋) ∧
    ∀ source, (((limiter cfg).trace ⟨[], start⟩ calls).filter fun e => e.input.source = source).map
        (fun e => (e.input.now, e.output)) =
      ((limiter cfg).trace ⟨[], start⟩ (calls.filter fun c => c.source = source)).map
        fun e => (e.input.now, e.output) := by
  constructor
  · intro source a T hT
    have hsorted : (timesOf source calls).Pairwise (· ≤ ·) :=
      List.pairwise_map.mpr (hclock.filter _)
    have hbound := (served_answers h hsorted).1.bound (a := a) h.burstSize.le h.supply hT
    rw [allowedIn_eq, filter_trace h.windowMs start hclock]
    refine hbound.trans (le_of_eq ?_)
    rw [RateLimiter.supply]
    ring
  · intro source
    have honly := filter_trace h.windowMs start (hclock.filter fun c => c.source = source) source
    have htimes : timesOf source (calls.filter fun c => c.source = source) = timesOf source calls := by
      rw [timesOf, List.filter_filter]
      simp [timesOf]
    rw [filter_trace h.windowMs start hclock, ← htimes, ← honly]
    congr 1
    rw [List.filter_eq_self]
    intro e he
    have hmem := Machine.input_mem_of_mem_trace _ he
    exact (List.mem_filter.mp hmem).2

namespace SmallRate

/-- Two calls at once, but one in a window. -/
def cfg : RateLimiter := ⟨1, 1, 2⟩

def source : Str := "127.0.0.1".toList

/-- Two calls now and two a window later. -/
def calls : List ConsumeCall := [⟨source, 0⟩, ⟨source, 0⟩, ⟨source, 1⟩, ⟨source, 1⟩]

theorem positive : cfg.Positive := ⟨by decide, by decide, by decide⟩

end SmallRate

/-- All four are allowed, and the bound does not leave room for more. -/
theorem rate_limit_small :
    (allowedIn SmallRate.source 0 (0 + 1)
        ((limiter SmallRate.cfg).trace ⟨[], 0⟩ SmallRate.calls) : ℚ) ≤
      SmallRate.cfg.burstSize + SmallRate.cfg.maxRequests * 1 / SmallRate.cfg.windowMs +
        max 0 (SmallRate.cfg.burstSize - SmallRate.cfg.maxRequests) *
          ⌊(1 : ℚ) / SmallRate.cfg.windowMs⌋ :=
  (rate_limit SmallRate.cfg SmallRate.positive 0 SmallRate.calls (by decide)).1 SmallRate.source 0 1
    (by decide)

/-- A burst, and after a full window the whole burst again. -/
theorem rate_limit_exceeded :
    SmallRate.cfg.Positive ∧ SmallRate.calls.Pairwise (fun c c' => c.now ≤ c'.now) ∧
      ¬ (allowedIn SmallRate.source 0 (0 + 1)
          ((limiter SmallRate.cfg).trace ⟨[], 0⟩ SmallRate.calls) : ℚ) ≤
        SmallRate.cfg.burstSize + SmallRate.cfg.maxRequests * 1 / SmallRate.cfg.windowMs := by
  refine ⟨SmallRate.positive, by decide, ?_⟩
  have hfour : allowedIn SmallRate.source 0 (0 + 1)
      ((limiter SmallRate.cfg).trace ⟨[], 0⟩ SmallRate.calls) = 4 := by decide +kernel
  rw [hfour]
  norm_num [SmallRate.cfg]

end OpaqueStellar.Publisher.RateLimit
