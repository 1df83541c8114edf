import OpaqueStellar.Publisher.RateLimit
import OpaqueStellar.Schemas.Codec

/-! # What the relayer lets in

Every request to `relayer/src/http.ts` passes a loose limit for each source, and those that change something
a tight one besides (`relayer/src/rate-limit.ts`, the code of the publisher). The source is the peer's
address, or what a proxy of our own appended to `X-Forwarded-For` (`relayer/src/trusted-proxy.ts`).

What a client is served is bounded whatever it writes into its headers and however it spreads its requests,
and no client takes anything from another. -/

namespace OpaqueStellar.Relayer.HttpFront

open OpaqueStellar.Lib OpaqueStellar.Publisher.RateLimit
open OpaqueStellar.Schemas (Str)

/-! ## Sources -/

structure Request where
  -- whose request it is; the server does not know
  client : Str
  remoteAddress : Option Str
  -- `x-forwarded-for`
  forwarded : Option Str := none
  method : Str
  pathname : Str
  authorization : Option Str := none
  -- the clock at the first limit, and at the second
  now : ℚ
  later : ℚ

def loadTrustedProxiesFromEnv (env : Option Str) : List Str :=
  (((env.getD []).splitOn ',').map trimSpaces).filter (· ≠ [])

def resolveClientSource (req : Request) (trustedProxies : List Str) : Str :=
  let socketAddress := req.remoteAddress.getD "unknown".toList
  if trustedProxies.length = 0 ∨ socketAddress ∉ trustedProxies then socketAddress
  else
    match req.forwarded with
    | none => socketAddress
    | some forwarded =>
      if trimSpaces forwarded = [] then socketAddress
      else
        let hops := ((forwarded.splitOn ',').map trimSpaces).filter (· ≠ [])
        hops.getLast?.getD socketAddress

/-! ## Routes -/

inductive Route where
  | gossipStream
  | gossipMessages
  | jobs
  | bids
  | payload
  | scores
  | score
  | health
  | lastReport
  | reconcile
  | unauthorized
  | notFound
  deriving DecidableEq

def GET : Str := "GET".toList

def POST : Str := "POST".toList

def OPTIONS : Str := "OPTIONS".toList

/-- `/^\/v1\/<collection>\/([^/]+)\/<last>$/` -/
def isItemPath (collection last : String) (pathname : Str) : Bool :=
  match pathname.splitOn '/' with
  | [[], v1, first, item, rest] =>
    v1 = "v1".toList && first = collection.toList && item ≠ [] && rest = last.toList
  | _ => false

def Request.bearer (req : Request) : Bool :=
  match req.authorization with
  | none => false
  | some header => "Bearer ".toList.isPrefixOf header

def Request.route (req : Request) : Route :=
  if req.method = GET ∧ req.pathname = "/v1/gossip/stream".toList then .gossipStream
  else if req.method = POST ∧ req.pathname = "/v1/gossip/messages".toList then .gossipMessages
  else if req.method = POST ∧ req.pathname = "/v1/jobs".toList then .jobs
  else if req.method = GET ∧ isItemPath "jobs" "bids" req.pathname then .bids
  else if req.method = POST ∧ isItemPath "jobs" "payload" req.pathname then .payload
  else if req.method = GET ∧ req.pathname = "/v1/relayers/scores".toList then .scores
  else if req.method = GET ∧ isItemPath "relayers" "score" req.pathname then .score
  else if req.method = GET ∧ req.pathname = "/health".toList then .health
  else if req.method = GET ∧ req.pathname = "/v1/reconcile".toList then
    if req.bearer then .lastReport else .unauthorized
  else if req.method = POST ∧ req.pathname = "/v1/reconcile".toList then
    if req.bearer then .reconcile else .unauthorized
  else .notFound

/-- The routes that ask the tight limit. -/
def Route.tight : Route → Bool
  | .gossipMessages | .jobs | .payload | .lastReport | .reconcile => true
  | .gossipStream | .bids | .scores | .score | .health | .unauthorized | .notFound => false

/-! ## The limits -/

structure FrontConfig where
  limiter : RateLimiter
  globalLimiter : RateLimiter
  trustedProxies : List Str

structure FrontState where
  limiter : LimiterState
  globalLimiter : LimiterState

inductive Outcome where
  | options
  -- the answer is 429
  | globallyLimited (rl : RateLimitResult)
  | limited (rl : RateLimitResult)
  | handled (route : Route)

def FrontConfig.serve (cfg : FrontConfig) (front : FrontState) (req : Request) : FrontState × Outcome :=
  if req.method = OPTIONS then (front, .options)
  else
    let source := resolveClientSource req cfg.trustedProxies
    let (globalLimiter, rl) := consume cfg.globalLimiter front.globalLimiter ⟨source, req.now⟩
    let front := { front with globalLimiter := globalLimiter }
    if !rl.allowed then (front, .globallyLimited rl)
    else if req.route.tight then
      let (limiter, rl) := consume cfg.limiter front.limiter ⟨source, req.later⟩
      let front := { front with limiter := limiter }
      if !rl.allowed then (front, .limited rl) else (front, .handled req.route)
    else (front, .handled req.route)

def FrontConfig.machine (cfg : FrontConfig) : Machine FrontState Request Outcome := ⟨cfg.serve⟩

def FrontState.start (time : ℚ) : FrontState := ⟨⟨[], time⟩, ⟨[], time⟩⟩

/-! ## Whose request it is -/

/-- How requests of a client come: from the client itself, or through a proxy of ours that appends the
address of the client to whatever the client wrote. -/
inductive Arrives (trustedProxies : List Str) (req : Request) : Prop where
  | direct (haddress : req.remoteAddress = some req.client) (hforeign : req.client ∉ trustedProxies)
  | proxied (proxy written blanks : Str) (hproxy : proxy ∈ trustedProxies)
      (haddress : req.remoteAddress = some proxy)
      (hwritten : written = [] ∨ ∃ forged, written = forged ++ [','])
      (hblanks : ∀ x ∈ blanks, isSpace x = true)
      (hclient : req.client ≠ [] ∧ ∀ x ∈ req.client, x ≠ ',' ∧ isSpace x = false)
      (hforwarded : req.forwarded = some (written ++ blanks ++ req.client))

section Source

variable {trustedProxies : List Str} {req : Request}

theorem trim_blanks {blanks s : Str} (hblanks : ∀ x ∈ blanks, isSpace x = true)
    (hs : ∀ x ∈ s, isSpace x = false) : trimSpaces (blanks ++ s) = s := by
  have hdrop : (blanks ++ s).dropWhile isSpace = s.dropWhile isSpace :=
    List.dropWhile_append_of_pos hblanks
  unfold trimSpaces trimBy
  rw [hdrop]
  exact trimBy_eq_self hs

/-- **Nobody can pass for somebody else.** -/
theorem resolveClientSource_eq (h : Arrives trustedProxies req) :
    resolveClientSource req trustedProxies = req.client := by
  cases h with
  | direct haddress hforeign =>
      unfold resolveClientSource
      rw [haddress]
      exact if_pos (.inr hforeign)
  | proxied proxy written blanks hproxy haddress hwritten hblanks hclient hforwarded =>
      have hcomma : ',' ∉ blanks ++ req.client := by
        intro hmem
        rcases List.mem_append.mp hmem with hmem | hmem
        · exact absurd (hblanks ',' hmem) (by decide)
        · exact (hclient.2 ',' hmem).1 rfl
      have hlast : trimSpaces (blanks ++ req.client) = req.client :=
        trim_blanks hblanks fun x hx => (hclient.2 x hx).2
      obtain ⟨before, hhops⟩ : ∃ before, (written ++ blanks ++ req.client).splitOn ',' =
          before ++ [blanks ++ req.client] := by
        rcases hwritten with rfl | ⟨forged, rfl⟩
        · exact ⟨[], by simpa using List.splitOn_eq_singleton hcomma⟩
        · refine ⟨forged.splitOn ',', ?_⟩
          rw [List.append_assoc, List.append_assoc, List.singleton_append,
            List.splitOn_append_cons_self, List.splitOn_eq_singleton hcomma]
      -- the address is more than white space
      have hsome : trimSpaces (written ++ blanks ++ req.client) ≠ [] := by
        obtain ⟨x, rest, hx⟩ := List.exists_cons_of_ne_nil hclient.1
        have hmem : x ∈ req.client := hx ▸ List.mem_cons_self
        intro hnil
        rcases mem_trimBy_or (p := isSpace) (List.mem_append_right (written ++ blanks) hmem) with hin | hspace
        · rw [show trimBy isSpace _ = [] from hnil] at hin
          cases hin
        · exact absurd hspace (by simp [(hclient.2 x hmem).2])
      have hne : trustedProxies.length ≠ 0 := by
        rintro hzero
        rw [List.length_eq_zero_iff.mp hzero] at hproxy
        cases hproxy
      unfold resolveClientSource
      rw [haddress, hforwarded, Option.getD_some, if_neg (by simp [hproxy, hne])]
      dsimp only
      rw [if_neg hsome, hhops, List.map_append, List.filter_append]
      simp [hlast, hclient.1]

end Source

/-! ## A limit within a server

The calls that a server makes of a limiter are those of some of its requests, and what it then does with a
request depends on the limiter's answers alone. -/

section Layer

variable {σ ι ο : Type}

abbrev Trace (σ ι ο : Type) := List (Machine.Step σ ι ο)

/-- Where a server asks a limiter. -/
structure Layer (m : Machine σ ι ο) where
  cfg : RateLimiter
  state : σ → LimiterState
  call : ι → ConsumeCall
  -- whether a request with this outcome asked, and was allowed
  asked : ο → Bool
  allowed : ο → Bool
  asks : ∀ s i, asked (m.step s i).2 = true →
    state (m.step s i).1 = (consume cfg (state s) (call i)).1 ∧
      allowed (m.step s i).2 = (consume cfg (state s) (call i)).2.allowed
  passes : ∀ s i, asked (m.step s i).2 = false → state (m.step s i).1 = state s

variable {m : Machine σ ι ο} (layer : Layer m) {s : σ} {is : List ι} {start : ℚ}

def Layer.calls (t : Trace σ ι ο) : List ConsumeCall :=
  (t.filter fun e => layer.asked e.output).map fun e => layer.call e.input

theorem Layer.calls_snoc (t : Trace σ ι ο) (e : Machine.Step σ ι ο) :
    layer.calls (t ++ [e]) = layer.calls t ++ if layer.asked e.output then [layer.call e.input] else [] := by
  unfold Layer.calls
  rw [List.filter_append, List.map_append]
  by_cases h : layer.asked e.output <;> simp [h]

theorem map_input_trace (m : Machine σ ι ο) (s : σ) (is : List ι) : (m.trace s is).map (·.input) = is := by
  induction is generalizing s with
  | nil => rfl
  | cons i is ih => exact congrArg (i :: ·) (ih _)

/-- The limiter in the server is the limiter on the calls. -/
theorem Layer.run (is : List ι) (hstart : layer.state s = ⟨[], start⟩) :
    layer.state (m.final s is) = (limiter layer.cfg).final ⟨[], start⟩ (layer.calls (m.trace s is)) ∧
      ((limiter layer.cfg).trace ⟨[], start⟩ (layer.calls (m.trace s is))).map
          (fun e => (e.input, e.output.allowed)) =
        ((m.trace s is).filter fun e => layer.asked e.output).map
          fun e => (layer.call e.input, layer.allowed e.output) := by
  induction is using List.reverseRecOn with
  | nil => exact ⟨hstart, rfl⟩
  | append_singleton is i ih =>
      obtain ⟨hstate, htrace⟩ := ih
      rw [m.final_snoc, m.trace_snoc, layer.calls_snoc, List.filter_append]
      rcases hasked : layer.asked (m.stepAt (m.final s is) i).output with - | -
      · rw [layer.passes _ _ hasked, hstate]
        simp [hasked, htrace]
      · obtain ⟨hnext, hallowed⟩ := layer.asks _ _ hasked
        rw [if_pos rfl, Machine.final_snoc, Machine.trace_snoc, ← hstate, hnext, List.map_append,
          List.map_append, htrace]
        refine ⟨rfl, congrArg (_ ++ ·) ?_⟩
        simp only [hasked, List.filter_cons, List.filter_nil, if_true, List.map_cons, List.map_nil,
          List.cons.injEq, Prod.mk.injEq, and_true]
        exact ⟨rfl, hallowed.symm⟩

/-- The calls are in the order of the clock if the requests are. -/
theorem Layer.clock (hclock : is.Pairwise fun i i' => (layer.call i).now ≤ (layer.call i').now) :
    (layer.calls (m.trace s is)).Pairwise fun c c' => c.now ≤ c'.now := by
  unfold Layer.calls
  rw [List.pairwise_map]
  apply List.Pairwise.filter
  rwa [← map_input_trace m s is, List.pairwise_map] at hclock

/-- What a limiter lets through in `T` milliseconds, at most. -/
def most (cfg : RateLimiter) (T : ℚ) : ℚ :=
  cfg.burstSize + cfg.maxRequests * T / cfg.windowMs + max 0 (cfg.burstSize - cfg.maxRequests) *
    ⌊T / cfg.windowMs⌋

/-- The requests from a source that a layer let through from `a` on, up to `z`. -/
def Layer.passedIn (source : Str) (a z : ℚ) (t : Trace σ ι ο) : ℕ :=
  t.countP fun e => layer.asked e.output && layer.allowed e.output &&
    decide ((layer.call e.input).source = source ∧ a ≤ (layer.call e.input).now ∧
      (layer.call e.input).now ≤ z)

theorem Layer.passedIn_le (hpositive : layer.cfg.Positive) (hstart : layer.state s = ⟨[], start⟩)
    (hclock : is.Pairwise fun i i' => (layer.call i).now ≤ (layer.call i').now) (source : Str) (a : ℚ) {T : ℚ}
    (hT : 0 ≤ T) : (layer.passedIn source a (a + T) (m.trace s is) : ℚ) ≤ most layer.cfg T := by
  have hcalls := layer.clock (s := s) hclock
  have hsorted : (timesOf source (layer.calls (m.trace s is))).Pairwise (· ≤ ·) :=
    List.pairwise_map.mpr (hcalls.filter _)
  have hbound := (served_answers hpositive hsorted).1.bound (a := a) hpositive.burstSize.le
    hpositive.supply hT
  rw [← filter_trace hpositive.windowMs start hcalls, ← allowedIn_eq] at hbound
  have hcount : layer.passedIn source a (a + T) (m.trace s is) =
      allowedIn source a (a + T) ((limiter layer.cfg).trace ⟨[], start⟩ (layer.calls (m.trace s is))) := by
    have hrun := (layer.run is hstart).2
    let counts : ConsumeCall × Bool → Bool := fun e =>
      e.2 && decide (e.1.source = source ∧ a ≤ e.1.now ∧ e.1.now ≤ a + T)
    have heq := congrArg (List.countP counts) hrun
    rw [List.countP_map, List.countP_map, List.countP_filter] at heq
    unfold Layer.passedIn allowedIn
    rw [show List.countP _ _ = _ from (List.countP_congr ?_).trans (heq.symm.trans (List.countP_congr ?_))]
    · intro e _
      simp only [counts, Function.comp_apply, Bool.and_eq_true, decide_eq_true_eq]
      tauto
    · intro e _
      simp only [counts, Function.comp_apply, Bool.and_eq_true, decide_eq_true_eq]
      tauto
  rw [hcount]
  refine hbound.trans (le_of_eq ?_)
  unfold most RateLimiter.supply
  ring

/-- What a limiter answers depends on the earlier calls of the same source. -/
theorem consume_eq (cfg : RateLimiter) (hw : 0 < cfg.windowMs) (start : ℚ) {calls : List ConsumeCall}
    (hclock : calls.Pairwise fun c c' => c.now ≤ c'.now) (call : ConsumeCall)
    (hlater : ∀ c ∈ calls, c.now ≤ call.now) :
    (consume cfg ((limiter cfg).final ⟨[], start⟩ calls) call).2 =
      (serve cfg ((single cfg).final none (timesOf call.source calls)) call.now).2 := by
  obtain ⟨hd, hagrees⟩ := agrees_run hw start hclock
  have hcleaned := agrees_maybeCleanup hw hd (hagrees call.source call.now hlater)
  rw [← hcleaned.serve_eq hw]
  rfl

/-- What became of the requests of a source, in their order. -/
def seenBy (source : ι → Str) (who : Str) (t : Trace σ ι ο) : List (ι × ο) :=
  (t.filter fun e => source e.input = who).map fun e => (e.input, e.output)

theorem Layer.timesOf_calls {source : ι → Str} (hsource : ∀ i, (layer.call i).source = source i) (who : Str)
    (t : Trace σ ι ο) : timesOf who (layer.calls t) =
      ((seenBy source who t).filter fun x => layer.asked x.2).map fun x => (layer.call x.1).now := by
  unfold timesOf Layer.calls seenBy
  rw [List.filter_map, List.map_map, List.filter_filter, List.filter_map, List.map_map, List.filter_filter]
  simp only [Function.comp_def, hsource, Bool.and_comm]

/-- Runs that a source cannot tell apart answer its next request alike. -/
theorem Layer.answer_eq {source : ι → Str} (hsource : ∀ i, (layer.call i).source = source i)
    (hw : 0 < layer.cfg.windowMs) (hstart : layer.state s = ⟨[], start⟩) {js : List ι} {i : ι}
    (his : (is ++ [i]).Pairwise fun i i' => (layer.call i).now ≤ (layer.call i').now)
    (hjs : (js ++ [i]).Pairwise fun i i' => (layer.call i).now ≤ (layer.call i').now)
    (hsame : seenBy source (source i) (m.trace s is) = seenBy source (source i) (m.trace s js)) :
    (consume layer.cfg (layer.state (m.final s is)) (layer.call i)).2 =
      (consume layer.cfg (layer.state (m.final s js)) (layer.call i)).2 := by
  have halone : ∀ is : List ι, (is ++ [i]).Pairwise (fun i i' => (layer.call i).now ≤ (layer.call i').now) →
      (consume layer.cfg (layer.state (m.final s is)) (layer.call i)).2 = (serve layer.cfg
        ((single layer.cfg).final none (timesOf (source i) (layer.calls (m.trace s is))))
        (layer.call i).now).2 := by
    intro is his
    obtain ⟨hbefore, -, hlast⟩ := List.pairwise_append.mp his
    rw [(layer.run is hstart).1, ← hsource]
    apply consume_eq layer.cfg hw start (layer.clock hbefore)
    intro c hc
    obtain ⟨e, he, rfl⟩ := List.mem_map.mp hc
    have hmem : e.input ∈ is := m.input_mem_of_mem_trace (List.mem_of_mem_filter he)
    exact hlast e.input hmem i (List.mem_singleton.mpr rfl)
  rw [halone is his, halone js hjs, layer.timesOf_calls hsource, layer.timesOf_calls hsource, hsame]

end Layer

/-! ## The two limits of the relayer -/

section Front

variable (cfg : FrontConfig)

def Outcome.isHandled : Outcome → Bool
  | .handled _ => true
  | .options | .globallyLimited _ | .limited _ => false

/-- The outcomes of requests that asked the loose limit. -/
def Outcome.askedGlobal : Outcome → Bool
  | .options => false
  | .globallyLimited _ | .limited _ | .handled _ => true

def Outcome.allowedGlobal : Outcome → Bool
  | .options | .globallyLimited _ => false
  | .limited _ | .handled _ => true

/-- The outcomes of requests that asked the tight limit too. -/
def Outcome.askedTight : Outcome → Bool
  | .handled route => route.tight
  | .limited _ => true
  | .options | .globallyLimited _ => false

def FrontConfig.globalCall (req : Request) : ConsumeCall :=
  ⟨resolveClientSource req cfg.trustedProxies, req.now⟩

def FrontConfig.tightCall (req : Request) : ConsumeCall :=
  ⟨resolveClientSource req cfg.trustedProxies, req.later⟩

/-- What can become of a request. -/
inductive Serves (front : FrontState) (req : Request) : FrontState × Outcome → Prop
  | options (hoptions : req.method = OPTIONS) : Serves front req (front, .options)
  | globallyLimited (hmethod : req.method ≠ OPTIONS)
      (hglobal : (consume cfg.globalLimiter front.globalLimiter (cfg.globalCall req)).2.allowed = false) :
      Serves front req ({ front with
        globalLimiter := (consume cfg.globalLimiter front.globalLimiter (cfg.globalCall req)).1 },
        .globallyLimited (consume cfg.globalLimiter front.globalLimiter (cfg.globalCall req)).2)
  | limited (hmethod : req.method ≠ OPTIONS)
      (hglobal : (consume cfg.globalLimiter front.globalLimiter (cfg.globalCall req)).2.allowed = true)
      (htight : req.route.tight = true)
      (hlimiter : (consume cfg.limiter front.limiter (cfg.tightCall req)).2.allowed = false) :
      Serves front req (⟨(consume cfg.limiter front.limiter (cfg.tightCall req)).1,
        (consume cfg.globalLimiter front.globalLimiter (cfg.globalCall req)).1⟩,
        .limited (consume cfg.limiter front.limiter (cfg.tightCall req)).2)
  | changing (hmethod : req.method ≠ OPTIONS)
      (hglobal : (consume cfg.globalLimiter front.globalLimiter (cfg.globalCall req)).2.allowed = true)
      (htight : req.route.tight = true)
      (hlimiter : (consume cfg.limiter front.limiter (cfg.tightCall req)).2.allowed = true) :
      Serves front req (⟨(consume cfg.limiter front.limiter (cfg.tightCall req)).1,
        (consume cfg.globalLimiter front.globalLimiter (cfg.globalCall req)).1⟩, .handled req.route)
  | reading (hmethod : req.method ≠ OPTIONS)
      (hglobal : (consume cfg.globalLimiter front.globalLimiter (cfg.globalCall req)).2.allowed = true)
      (htight : req.route.tight = false) :
      Serves front req ({ front with
        globalLimiter := (consume cfg.globalLimiter front.globalLimiter (cfg.globalCall req)).1 },
        .handled req.route)

theorem serves_serve (front : FrontState) (req : Request) : Serves cfg front req (cfg.serve front req) := by
  unfold FrontConfig.serve
  split
  next hoptions => exact .options hoptions
  next hmethod =>
    dsimp only
    split
    next hdenied => exact .globallyLimited hmethod (by simpa [FrontConfig.globalCall] using hdenied)
    next hallowed =>
      have hglobal :
          (consume cfg.globalLimiter front.globalLimiter (cfg.globalCall req)).2.allowed = true := by
        simpa [FrontConfig.globalCall] using hallowed
      split
      next htight =>
        split
        next hdenied => exact .limited hmethod hglobal htight (by simpa [FrontConfig.tightCall] using hdenied)
        next hallowed =>
          exact .changing hmethod hglobal htight (by simpa [FrontConfig.tightCall] using hallowed)
      next hloose => exact .reading hmethod hglobal (by simpa using hloose)

def FrontConfig.globalLayer : Layer cfg.machine where
  cfg := cfg.globalLimiter
  state := FrontState.globalLimiter
  call := cfg.globalCall
  asked := Outcome.askedGlobal
  allowed := Outcome.allowedGlobal
  asks front req := by
    have hserves := serves_serve cfg front req
    show (cfg.serve front req).2.askedGlobal = true → (cfg.serve front req).1.globalLimiter = _ ∧
      (cfg.serve front req).2.allowedGlobal = _
    generalize cfg.serve front req = served at hserves ⊢
    cases hserves with
    | options hoptions => exact fun hasked => absurd hasked Bool.false_ne_true
    | globallyLimited hmethod hglobal => exact fun _ => ⟨rfl, hglobal.symm⟩
    | limited hmethod hglobal htight hlimiter => exact fun _ => ⟨rfl, hglobal.symm⟩
    | changing hmethod hglobal htight hlimiter => exact fun _ => ⟨rfl, hglobal.symm⟩
    | reading hmethod hglobal htight => exact fun _ => ⟨rfl, hglobal.symm⟩
  passes front req := by
    have hserves := serves_serve cfg front req
    show (cfg.serve front req).2.askedGlobal = false → (cfg.serve front req).1.globalLimiter = _
    generalize cfg.serve front req = served at hserves ⊢
    cases hserves with
    | options hoptions => exact fun _ => rfl
    | _ => exact fun hasked => absurd hasked.symm Bool.false_ne_true

def FrontConfig.tightLayer : Layer cfg.machine where
  cfg := cfg.limiter
  state := FrontState.limiter
  call := cfg.tightCall
  asked := Outcome.askedTight
  allowed := Outcome.isHandled
  asks front req := by
    have hserves := serves_serve cfg front req
    show (cfg.serve front req).2.askedTight = true → (cfg.serve front req).1.limiter = _ ∧
      (cfg.serve front req).2.isHandled = _
    generalize cfg.serve front req = served at hserves ⊢
    cases hserves with
    | options hoptions => exact fun hasked => absurd hasked Bool.false_ne_true
    | globallyLimited hmethod hglobal => exact fun hasked => absurd hasked Bool.false_ne_true
    | limited hmethod hglobal htight hlimiter => exact fun _ => ⟨rfl, hlimiter.symm⟩
    | changing hmethod hglobal htight hlimiter => exact fun _ => ⟨rfl, hlimiter.symm⟩
    | reading hmethod hglobal htight =>
      exact fun hasked => absurd (htight.symm.trans hasked) Bool.false_ne_true
  passes front req := by
    have hserves := serves_serve cfg front req
    show (cfg.serve front req).2.askedTight = false → (cfg.serve front req).1.limiter = _
    generalize cfg.serve front req = served at hserves ⊢
    cases hserves with
    | options hoptions => exact fun _ => rfl
    | globallyLimited hmethod hglobal => exact fun _ => rfl
    | limited hmethod hglobal htight hlimiter => exact fun hasked => absurd hasked.symm Bool.false_ne_true
    | changing hmethod hglobal htight hlimiter =>
        exact fun hasked => absurd (hasked.symm.trans htight) Bool.false_ne_true
    | reading hmethod hglobal htight => exact fun _ => rfl

/-- The outcome of a request by the answers of the two limiters. -/
def outcomeOf (req : Request) (global tight : RateLimitResult) : Outcome :=
  if req.method = OPTIONS then .options
  else if !global.allowed then .globallyLimited global
  else if req.route.tight && !tight.allowed then .limited tight
  else .handled req.route

theorem serve_snd (front : FrontState) (req : Request) : (cfg.serve front req).2 =
    outcomeOf req (consume cfg.globalLimiter front.globalLimiter (cfg.globalCall req)).2
      (consume cfg.limiter front.limiter (cfg.tightCall req)).2 := by
  have hserves := serves_serve cfg front req
  unfold outcomeOf
  generalize cfg.serve front req = served at hserves ⊢
  cases hserves with
  | options hoptions => rw [if_pos hoptions]
  | globallyLimited hmethod hglobal => rw [if_neg hmethod, if_pos (by rw [hglobal]; rfl)]
  | limited hmethod hglobal htight hlimiter =>
      rw [if_neg hmethod, if_neg (by rw [hglobal]; decide), if_pos (by rw [htight, hlimiter]; rfl)]
  | changing hmethod hglobal htight hlimiter =>
      rw [if_neg hmethod, if_neg (by rw [hglobal]; decide), if_neg (by rw [htight, hlimiter]; decide)]
  | reading hmethod hglobal htight =>
      rw [if_neg hmethod, if_neg (by rw [hglobal]; decide), if_neg (by rw [htight]; exact Bool.false_ne_true)]

/-- Time does not go back. -/
def InOrder (req later : Request) : Prop := req.now ≤ later.now ∧ req.later ≤ later.later

variable {cfg} {reqs : List Request} {start : ℚ}

/-- **Each source is answered as if it were alone.** -/
theorem seenBy_alone (hglobal : cfg.globalLimiter.Positive) (htight : cfg.limiter.Positive)
    (hclock : reqs.Pairwise InOrder) (who : Str) :
    seenBy (fun req => resolveClientSource req cfg.trustedProxies) who
        (cfg.machine.trace (FrontState.start start) reqs) =
      seenBy (fun req => resolveClientSource req cfg.trustedProxies) who
        (cfg.machine.trace (FrontState.start start)
          (reqs.filter fun req => resolveClientSource req cfg.trustedProxies = who)) := by
  induction reqs using List.reverseRecOn with
  | nil => rfl
  | append_singleton reqs req ih =>
      have hsame := ih (List.pairwise_append.mp hclock).1
      by_cases hwho : resolveClientSource req cfg.trustedProxies = who
      · have hfilter : (reqs ++ [req]).filter (fun req => resolveClientSource req cfg.trustedProxies = who) =
            reqs.filter (fun req => resolveClientSource req cfg.trustedProxies = who) ++ [req] := by
          simp [hwho]
        have hclock' := hclock.filter fun req => resolveClientSource req cfg.trustedProxies = who
        rw [hfilter] at hclock' ⊢
        have houtcome : (cfg.machine.step (cfg.machine.final (FrontState.start start) reqs) req).2 =
            (cfg.machine.step (cfg.machine.final (FrontState.start start)
              (reqs.filter fun req => resolveClientSource req cfg.trustedProxies = who)) req).2 := by
          show (cfg.serve _ req).2 = (cfg.serve _ req).2
          rw [serve_snd, serve_snd]
          subst hwho
          exact congrArg₂ (outcomeOf req)
            (cfg.globalLayer.answer_eq (fun _ => rfl) hglobal.windowMs rfl (hclock.imp And.left)
              (hclock'.imp And.left) hsame)
            (cfg.tightLayer.answer_eq (fun _ => rfl) htight.windowMs rfl (hclock.imp And.right)
              (hclock'.imp And.right) hsame)
        unfold seenBy at hsame ⊢
        rw [Machine.trace_snoc, Machine.trace_snoc, List.filter_append, List.filter_append, List.map_append,
          List.map_append, hsame]
        simp [Machine.stepAt, hwho, houtcome]
      · have hfilter : (reqs ++ [req]).filter (fun req => resolveClientSource req cfg.trustedProxies = who) =
            reqs.filter (fun req => resolveClientSource req cfg.trustedProxies = who) := by
          simp [hwho]
        rw [hfilter, ← hsame]
        unfold seenBy
        rw [Machine.trace_snoc, List.filter_append]
        simp [Machine.stepAt, hwho]

end Front

/-! ## What a client is served -/

/-- The requests of a client that were handled, from `a` on up to `z`; `counts` says which. -/
def handledIn (counts : Route → Bool) (client : Str) (a z : ℚ) (time : Request → ℚ)
    (t : List (Machine.Step FrontState Request Outcome)) : ℕ :=
  t.countP fun e => match e.output with
    | .handled route => counts route && decide (e.input.client = client ∧ a ≤ time e.input ∧ time e.input ≤ z)
    | .options | .globallyLimited _ | .limited _ => false

structure ServedFairly (cfg : FrontConfig) (start : ℚ) (reqs : List Request) (client : Str) : Prop where
  handled : ∀ a T, 0 ≤ T → (handledIn (fun _ => true) client a (a + T) Request.now
    (cfg.machine.trace (FrontState.start start) reqs) : ℚ) ≤ most cfg.globalLimiter T
  -- those that change something
  changing : ∀ a T, 0 ≤ T → (handledIn Route.tight client a (a + T) Request.later
    (cfg.machine.trace (FrontState.start start) reqs) : ℚ) ≤ most cfg.limiter T
  -- the others might not be there
  alone : seenBy Request.client client (cfg.machine.trace (FrontState.start start) reqs) =
    seenBy Request.client client (cfg.machine.trace (FrontState.start start)
      (reqs.filter fun req => req.client = client))

/-- **The limits hold for clients**, not only for the addresses that headers name: whatever clients write and
wherever they send their requests, in any span each is served within the limits, and with the answers that it
would get without the others. -/
theorem front_limits (cfg : FrontConfig) (hglobal : cfg.globalLimiter.Positive)
    (htight : cfg.limiter.Positive) (start : ℚ) (reqs : List Request) (hclock : reqs.Pairwise InOrder)
    (harrive : ∀ req ∈ reqs, Arrives cfg.trustedProxies req) (client : Str) :
    ServedFairly cfg start reqs client := by
  have hsource : ∀ req ∈ reqs, resolveClientSource req cfg.trustedProxies = req.client :=
    fun req hreq => resolveClientSource_eq (harrive req hreq)
  have hinput : ∀ e ∈ cfg.machine.trace (FrontState.start start) reqs,
      resolveClientSource e.input cfg.trustedProxies = e.input.client :=
    fun e he => hsource e.input (cfg.machine.input_mem_of_mem_trace he)
  refine ⟨?_, ?_, ?_⟩
  · intro a T hT
    refine le_trans (Nat.cast_le.mpr (List.countP_mono_left ?_))
      (cfg.globalLayer.passedIn_le (s := FrontState.start start) hglobal rfl (hclock.imp And.left)
        client a hT)
    intro e he hcounts
    rcases houtput : e.output with - | rl | rl | route
    · simp [houtput] at hcounts
    · simp [houtput] at hcounts
    · simp [houtput] at hcounts
    · simp only [houtput, Bool.true_and, decide_eq_true_eq] at hcounts
      simpa [FrontConfig.globalLayer, FrontConfig.globalCall, Outcome.askedGlobal, Outcome.allowedGlobal,
        hinput e he] using hcounts
  · intro a T hT
    refine le_trans (Nat.cast_le.mpr (List.countP_mono_left ?_))
      (cfg.tightLayer.passedIn_le (s := FrontState.start start) htight rfl (hclock.imp And.right) client a hT)
    intro e he hcounts
    rcases houtput : e.output with - | rl | rl | route
    · simp [houtput] at hcounts
    · simp [houtput] at hcounts
    · simp [houtput] at hcounts
    · simp only [houtput, Bool.and_eq_true, decide_eq_true_eq] at hcounts
      simpa [FrontConfig.tightLayer, FrontConfig.tightCall, Outcome.askedTight, Outcome.isHandled,
        hinput e he] using hcounts
  · have hclients : (reqs.filter fun req => req.client = client) =
        reqs.filter fun req => resolveClientSource req cfg.trustedProxies = client :=
      List.filter_congr fun req hreq => by rw [hsource req hreq]
    have hseen : ∀ reqs' ⊆ reqs, seenBy Request.client client
        (cfg.machine.trace (FrontState.start start) reqs') =
        seenBy (fun req => resolveClientSource req cfg.trustedProxies) client
          (cfg.machine.trace (FrontState.start start) reqs') := by
      intro reqs' hsub
      unfold seenBy
      congr 1
      apply List.filter_congr
      intro e he
      have heq : resolveClientSource e.input cfg.trustedProxies = e.input.client :=
        hsource e.input (hsub (cfg.machine.input_mem_of_mem_trace he))
      simp only [heq]
    rw [hseen reqs (List.Subset.refl _), hseen _ (List.filter_subset_self _),
      seenBy_alone hglobal htight hclock, hclients]

namespace Forged

def cfg : FrontConfig where
  limiter := ⟨60000, 120, 20⟩
  globalLimiter := ⟨60000, 600, 200⟩
  trustedProxies := ["10.0.0.1".toList]

def client : Str := "10.0.0.7".toList

/-- A client pretends to be another one, behind a proxy; then the other one asks. -/
def reqs : List Request :=
  [{ client := client, remoteAddress := some "10.0.0.1".toList, forwarded := some "10.0.0.9, 10.0.0.7".toList,
     method := POST, pathname := "/v1/jobs".toList, now := 5, later := 5 },
   { client := "10.0.0.9".toList, remoteAddress := some "10.0.0.9".toList, method := GET,
     pathname := "/health".toList, now := 6, later := 6 }]

theorem client_plain : client ≠ [] ∧ ∀ x ∈ client, x ≠ ',' ∧ isSpace x = false := by
  have hall : client.all (fun x => x != ',' && !isSpace x) = true := by decide
  exact ⟨by decide, by simpa using hall⟩

theorem arrives : ∀ req ∈ reqs, Arrives cfg.trustedProxies req := by
  intro req hreq
  simp only [reqs, List.mem_cons, List.not_mem_nil, or_false] at hreq
  rcases hreq with rfl | rfl
  · exact .proxied "10.0.0.1".toList "10.0.0.9,".toList [' '] (by decide) rfl
      (.inr ⟨"10.0.0.9".toList, rfl⟩) (by simp [isSpace]) client_plain rfl
  · exact .direct rfl (by decide)

end Forged

theorem front_limits_forged :
    (∀ req ∈ Forged.reqs, Arrives Forged.cfg.trustedProxies req) ∧
      ServedFairly Forged.cfg 0 Forged.reqs Forged.client :=
  ⟨Forged.arrives, front_limits Forged.cfg ⟨by decide, by decide, by decide⟩
    ⟨by decide, by decide, by decide⟩ 0 Forged.reqs (List.pairwise_pair.mpr ⟨by decide, by decide⟩)
    Forged.arrives Forged.client⟩

end OpaqueStellar.Relayer.HttpFront
