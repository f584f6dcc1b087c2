import Ncro.Server.Narinfo

/-!
# The NAR handler

`nar` serves `/nar/<path>` from the upstream a route names for the path, or else
from any upstream that is not down, and at last from the fallback cache. An
attempt that is slow or fails is hedged: `hedgedNar` starts further candidates,
one after the other, and answers with the first response it gets.

The counters of started, won and failed hedges are left out.
-/

namespace Ncro

open Foundation Foundation.Process

/-! ## One attempt -/

/-- `try_nar_upstream` within its timeout: the response an upstream's answer makes,
if it makes one. The response to `GET` needs a first chunk. -/
def narResponse (method : Method) (candidate : NarCandidate) : NarAnswer → Option Response
  | .timeout | .error _ | .missing => none
  | .response status firstChunk =>
      match method, firstChunk with
      | .head, _ =>
          some ((⟨status, .empty, none⟩ : Response).withProvenance candidate.upstream
            candidate.route)
      | .get, some _ =>
          some ((⟨status, .stream, none⟩ : Response).withProvenance candidate.upstream
            candidate.route)
      | .get, none => none

section

variable (crypto : Crypto) (app : AppState)

/-- The request for a NAR. It carries no hop. -/
def narRequest (method : Method) (headers : HeaderMap) (candidate : NarCandidate) :
    UpstreamRequest where
  upstream := candidate.upstream
  method := method
  path := candidate.path
  headers := forwardedHeaders headers none
  timeout := some (app.narTimeout candidate.upstream)

/-! ## Hedging -/

/-- How `hedged_nar` ends. -/
inductive HedgeOutcome
  | answered (response : Response)
  /-- `None`: every attempt failed. -/
  | exhausted
  /-- `select!` panics because every branch is disabled. -/
  | allDisabled
  deriving DecidableEq

def maxInflight : ℕ :=
  if app.narHedging.enabled then app.narHedging.maxInflight else 1

/-- The guard of the timer's branch, with the candidates still waiting. -/
def timerEnabled (method : Method) (pending waiting : List NarCandidate) : Bool :=
  method ≠ .head && app.narHedging.enabled && pending.length < maxInflight app && waiting ≠ []

variable {app} in
theorem ne_nil_of_timerEnabled {method : Method} {pending waiting : List NarCandidate}
    (h : timerEnabled app method pending waiting = true) : waiting ≠ [] := by
  simp only [timerEnabled, Bool.and_eq_true, decide_eq_true_eq] at h
  exact h.2

/-- `spawn_nar_attempt`. -/
def spawnNarAttempt (method : Method) (headers : HeaderMap) (candidate : NarCandidate) :
    Handler Unit :=
  ask (.spawnNar candidate (narRequest app method headers candidate))

/-- The loop of `hedged_nar`, with the candidates still waiting in the order in
which they are popped. -/
def hedgeLoop (method : Method) (headers : HeaderMap) (pending waiting : List NarCandidate) :
    Handler HedgeOutcome :=
  if pending = [] ∧ waiting = [] then return .exhausted
  else do
    match ← ask (.selectNar pending (timerEnabled app method pending waiting)) with
    | .completed i answer =>
        match narResponse method (pending.get i) answer with
        | some response => return .answered response
        | none =>
            match waiting with
            | [] => hedgeLoop method headers (pending.eraseIdx i) []
            | candidate :: waiting => do
                spawnNarAttempt app method headers candidate
                hedgeLoop method headers (pending.eraseIdx i ++ [candidate]) waiting
    | .panicked i => hedgeLoop method headers (pending.eraseIdx i) waiting
    | .timer h => do
        let candidate := waiting.head (ne_nil_of_timerEnabled h)
        spawnNarAttempt app method headers candidate
        hedgeLoop method headers (pending ++ [candidate]) waiting.tail
    | .allDisabled _ _ => return .allDisabled
termination_by 2 * waiting.length + pending.length
decreasing_by
  all_goals
    have hlength : ∀ i : Fin pending.length, (pending.eraseIdx i).length + 1 = pending.length :=
      fun i => by rw [List.length_eraseIdx_of_lt i.isLt]; have := i.isLt; omega
  · have := hlength i
    simp
    omega
  · have := hlength i
    simp
    omega
  · have := hlength i
    omega
  · have hpos := List.length_pos_iff.2 (ne_nil_of_timerEnabled h)
    simp
    omega

def spawnAll (method : Method) (headers : HeaderMap) : List NarCandidate → Handler Unit
  | [] => return ()
  | candidate :: waiting => do
      spawnNarAttempt app method headers candidate
      spawnAll method headers waiting

/-- `candidates` is popped from its end. `HEAD` requests are not worth waiting
for, so all of them start at once. -/
def hedgedNar (method : Method) (headers : HeaderMap) (initial : NarCandidate)
    (candidates : List NarCandidate) : Handler HedgeOutcome := do
  spawnNarAttempt app method headers initial
  if method = .head ∧ app.narHedging.enabled then do
    spawnAll app method headers candidates.reverse
    hedgeLoop app method headers (initial :: candidates.reverse) []
  else hedgeLoop app method headers [initial] candidates.reverse

/-! ## Candidates -/

def hedgeAllowed (url : Str) : Bool :=
  match app.upstreams.find? fun upstream => upstream.url = url with
  | none => true
  | some upstream => upstream.allowHedging

/-- Whether `hedge_candidates` considers an upstream. -/
def hedgeEligible (skip : Str) (includeHedgingOptOuts : Bool) (health : UpstreamHealth) : Bool :=
  health.status ≠ .down && health.url ≠ skip &&
    (includeHedgingOptOuts || hedgeAllowed app health.url)

/-- Where an upstream is asked for a NAR: for a canonical path, where it says it
has it. -/
def candidatePath (storeHash : Option Str) (path : Str) (expectedNarinfo : Option NarInfo)
    (url : Str) : Handler (Except RouterError Str) :=
  match storeHash with
  | none => return .ok path
  | some storeHash =>
      upstreamNarPath crypto app.registry url storeHash expectedNarinfo (compressionForNarUrl path)

/-- The candidates among some upstreams, in their order. -/
def candidatesAmong (storeHash : Option Str) (path : Str) (expectedNarinfo : Option NarInfo) :
    List UpstreamHealth → Handler (List NarCandidate)
  | [] => return []
  | health :: healths => do
      let found ← candidatePath crypto app storeHash path expectedNarinfo health.url
      let candidates ← candidatesAmong storeHash path expectedNarinfo healths
      match found with
      | .error _ => return candidates
      | .ok candidatePath => return ⟨health.url, candidatePath, .hedge⟩ :: candidates

/-- The candidates to pop from the end: ascending priorities, and within a
priority the order of `sorted_by_latency`. -/
def hedgeCandidates (storeHash : Option Str) (path skip : Str) (includeHedgingOptOuts : Bool)
    (expectedNarinfo : Option NarInfo) : Handler (List NarCandidate) := do
  let sorted ← ask .sortedByLatency
  let byPriority := groupByKey UpstreamHealth.priority
    (sorted.filter (hedgeEligible app skip includeHedgingOptOuts))
  let candidates ← candidatesAmong crypto app storeHash path expectedNarinfo
    (byPriority.flatMap Prod.snd)
  return candidates.reverse

/-! ## The handler -/

/-- The routed upstream for a path, and the path there. -/
def routedNar (request : ClientRequest) : Handler (Option RouteEntry) := do
  match ← ask (.dbGetRouteByNarUrl (request.path.dropWhile (· = '/'))) with
  | .ok (some entry) =>
      let now ← ask .timestampNow
      return if entry.isValid now then some entry else none
  | _ => return none

/-- The attempts for a routed path. -/
def tryRouted (request : ClientRequest) (entry : RouteEntry) : Handler HedgeOutcome := do
  let pathAndQuery := request.path ++ request.query
  let candidates ← (match entry.narinfoBytes.map NarInfo.parse with
    | some (.ok expectedNarinfo) =>
        hedgeCandidates crypto app
          (storeHashFromCanonicalNarUrl (request.path.dropWhile (· = '/'))) pathAndQuery
          entry.upstreamUrl false (some expectedNarinfo)
    | _ => return [])
  hedgedNar app request.method request.headers
    ⟨entry.upstreamUrl,
      if entry.upstreamNarUrl = [] then pathAndQuery else entry.upstreamNarUrl, .cacheHit⟩
    candidates

/-- The attempts for a path without a route. -/
def tryUnrouted (request : ClientRequest) : Handler HedgeOutcome := do
  let candidates ← hedgeCandidates crypto app
    (storeHashFromCanonicalNarUrl (request.path.dropWhile (· = '/')))
    (request.path ++ request.query) [] true none
  match candidates.getLast? with
  | none => return .exhausted
  | some initial =>
      hedgedNar app request.method request.headers { initial with route := .direct }
        (candidates.dropLast.filter fun candidate => hedgeAllowed app candidate.upstream)

/-- The attempt at the fallback cache. -/
def tryFallbackNar (request : ClientRequest) : Handler Response := do
  match app.fallbackCache with
  | none => return .notFound
  | some fallback =>
      let candidate : NarCandidate :=
        ⟨fallback.url, request.path ++ request.query, .fallback⟩
      let answer ← ask (.sendNar (narRequest app request.method request.headers candidate))
      return (narResponse request.method candidate answer).getD .notFound

/-- The handler; without a response when it panics. -/
def nar (request : ClientRequest) : Handler (Option Response) := do
  let outcome ← (do
    match ← routedNar request with
    | some entry => tryRouted crypto app request entry
    | none => tryUnrouted crypto app request)
  match outcome with
  | .answered response => return some response
  | .allDisabled => return none
  | .exhausted =>
      let response ← tryFallbackNar app request
      return some response

end

/-! ## Footprints -/

section Footprint

variable {crypto : Crypto} {app : AppState} {method : Method} {headers : HeaderMap}
  {P : Op → Prop}

theorem performs_hedgeLoop {pending waiting : List NarCandidate}
    (hselect : ∀ pending timer, P (.selectNar pending timer))
    (hwaiting : ∀ candidate ∈ waiting,
      P (.spawnNar candidate (narRequest app method headers candidate))) :
    Performs P (hedgeLoop app method headers pending waiting) := by
  induction hsize : 2 * waiting.length + pending.length using Nat.strongRecOn
    generalizing pending waiting with
  | ind n ih =>
  rw [hedgeLoop]
  split
  · trivial
  refine ⟨hselect _ _, fun reply => ?_⟩
  match reply with
  | .panicked i =>
      refine ih _ ?_ hwaiting rfl
      have hi := i.isLt
      rw [List.length_eraseIdx_of_lt hi]
      omega
  | .allDisabled _ _ => trivial
  | .completed i answer =>
      have hi := i.isLt
      have hlength := List.length_eraseIdx_of_lt hi
      show Performs _ (match narResponse method (pending.get i) answer with | some _ => _ | none => _)
      split
      · trivial
      · cases waiting with
        | nil => exact ih _ (by simp at hsize ⊢; omega) hwaiting rfl
        | cons candidate waiting =>
            refine (performs_call (hwaiting candidate List.mem_cons_self)).bind
              fun _ => ih _ (by simp at hsize ⊢; omega)
                (fun c hc => hwaiting c (List.mem_cons_of_mem _ hc)) rfl
  | .timer h =>
      obtain ⟨candidate, waiting, rfl⟩ := List.exists_cons_of_ne_nil (ne_nil_of_timerEnabled h)
      exact (performs_call (hwaiting candidate List.mem_cons_self)).bind
        fun _ => ih _ (by simp at hsize ⊢; omega)
          (fun c hc => hwaiting c (List.mem_cons_of_mem _ hc)) rfl

theorem performs_spawnAll {candidates : List NarCandidate}
    (h : ∀ candidate ∈ candidates,
      P (.spawnNar candidate (narRequest app method headers candidate))) :
    Performs P (spawnAll app method headers candidates) := by
  induction candidates with
  | nil => trivial
  | cons candidate candidates ih =>
      exact (performs_call (h candidate List.mem_cons_self)).bind fun _ =>
        ih fun c hc => h c (List.mem_cons_of_mem _ hc)

theorem performs_hedgedNar {initial : NarCandidate} {candidates : List NarCandidate}
    (hselect : ∀ pending timer, P (.selectNar pending timer))
    (hinitial : P (.spawnNar initial (narRequest app method headers initial)))
    (hcandidates : ∀ candidate ∈ candidates,
      P (.spawnNar candidate (narRequest app method headers candidate))) :
    Performs P (hedgedNar app method headers initial candidates) := by
  have hreverse : ∀ candidate ∈ candidates.reverse,
      P (.spawnNar candidate (narRequest app method headers candidate)) :=
    fun c hc => hcandidates c (List.mem_reverse.1 hc)
  refine (performs_call hinitial).bind fun _ => ?_
  split
  · exact (performs_spawnAll hreverse).bind fun _ => performs_hedgeLoop hselect (by simp)
  · exact performs_hedgeLoop hselect hreverse

theorem performs_candidatePath (path : Str) (expectedNarinfo : Option NarInfo) {url : Str}
    (hget : ∀ storeHash, P (.getBytes (narinfoRequest app.registry url storeHash .client)))
    (storeHash : Option Str) :
    Performs P (candidatePath crypto app storeHash path expectedNarinfo url) := by
  cases storeHash with
  | none => trivial
  | some storeHash =>
      have hfetch : Performs P (fetchNarinfo crypto app.registry url storeHash .client) :=
        ⟨hget storeHash, fun _ => trivial⟩
      refine hfetch.bind fun fetched => ?_
      match fetched with
      | .error err => trivial
      | .ok (body, parsed) =>
          show Performs _ (ite _ _ (ite _ _ (ite _ _ _)))
          split
          · trivial
          split
          · trivial
          split <;> trivial

theorem performs_candidatesAmong (storeHash : Option Str) (path : Str)
    (expectedNarinfo : Option NarInfo) {healths : List UpstreamHealth}
    (hget : ∀ health ∈ healths, ∀ storeHash,
      P (.getBytes (narinfoRequest app.registry health.url storeHash .client))) :
    Performs P (candidatesAmong crypto app storeHash path expectedNarinfo healths) := by
  induction healths with
  | nil => trivial
  | cons health healths ih =>
      refine (performs_candidatePath _ _ (hget health List.mem_cons_self) _).bind fun found =>
        (ih fun h hh => hget h (List.mem_cons_of_mem _ hh)).bind fun _ => ?_
      cases found <;> trivial

/-- Looking for candidates asks the prober, and upstreams that are not skipped. -/
theorem performs_hedgeCandidates {storeHash : Option Str} {path skip : Str}
    {includeHedgingOptOuts : Bool} {expectedNarinfo : Option NarInfo}
    (hsorted : P .sortedByLatency)
    (hget : ∀ url storeHash, url ≠ skip →
      P (.getBytes (narinfoRequest app.registry url storeHash .client))) :
    Performs P (hedgeCandidates crypto app storeHash path skip includeHedgingOptOuts
      expectedNarinfo) := by
  refine ⟨hsorted, fun sorted => (performs_candidatesAmong _ _ _ ?_).bind fun _ => trivial⟩
  intro health hhealth storeHash
  have heligible := (grouped_groupByKey UpstreamHealth.priority _).perm.mem_iff.1 hhealth
  simp only [List.mem_filter, hedgeEligible, Bool.and_eq_true, decide_eq_true_eq] at heligible
  exact hget health.url storeHash heligible.2.1.2

end Footprint

end Ncro
