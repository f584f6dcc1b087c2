import Ncro.Foundation.Grouping
import Ncro.Router.Operations

/-!
# Resolving a narinfo

`resolve` answers a store hash from the negative caches, the in-memory LRU or
the route table, and races the candidate upstreams when none of them knows it.
A client's lookup holds the lock of its hash while it races, so that concurrent
lookups of one hash share a race. `resolveFallback` asks the fallback cache.

Metrics other than those of a race win are left out, as nothing reads them
back, and so is the count of attempts, which only feeds a metric.
-/

namespace Ncro

open Foundation

/-! ## Fetching -/

section

variable (crypto : Crypto) (reg : Registry)

def narinfoRequest (upstream storeHash : Str) (hop : Hop) : UpstreamRequest where
  upstream := upstream
  method := .get
  path := narinfoPath storeHash
  headers := hopHeaders hop
  timeout := some (reg.narinfoTimeout upstream)

/-- What `fetch_narinfo` makes of an upstream's reply. -/
def checkNarinfo (upstream : Str) :
    Except BackendError (Option Octets) → Except RouterError (Option Octets × NarInfo)
  | .error err => .error (.backend err)
  | .ok none => .error .notFound
  | .ok (some body) =>
      match NarInfo.parse body with
      | .error err => .error (.parseNarinfo err)
      | .ok parsed =>
          if reg.verifies crypto upstream parsed then .ok (some body, parsed)
          else .error .signatureVerificationFailed

def fetchNarinfo (upstream storeHash : Str) (hop : Hop) :
    Handler (Except RouterError (Option Octets × NarInfo)) := do
  let reply ← ask (.getBytes (narinfoRequest reg upstream storeHash hop))
  return checkNarinfo crypto reg upstream reply

@[simp] theorem narinfoRequest_upstream (upstream storeHash : Str) (hop : Hop) :
    (narinfoRequest reg upstream storeHash hop).upstream = upstream := rfl

variable {crypto reg} in
theorem run_fetchNarinfo_bind_iff {β : Type} {allowed : (op : Op) → op.Reply → Prop}
    {upstream storeHash : Str} {hop : Hop} {f : _ → Handler β} {events : List HandlerEvent}
    {b : β} :
    Process.Run allowed (fetchNarinfo crypto reg upstream storeHash hop >>= f) events b ↔
      ∃ reply tail, events = ⟨.getBytes (narinfoRequest reg upstream storeHash hop), reply⟩ :: tail ∧
        allowed (.getBytes (narinfoRequest reg upstream storeHash hop)) reply ∧
        Process.Run allowed (f (checkNarinfo crypto reg upstream reply)) tail b := by
  rw [fetchNarinfo, Process.call_bind, Process.perform_bind, Process.run_perform_iff]
  rfl

/-- Resolve through a last-resort fallback cache without using route cache,
health, priority, cooldown, filters, or route persistence. -/
def resolveFallback (storeHash upstream : Str) (hop : Hop) :
    Handler (Except RouterError ResolveResult) := do
  match ← fetchNarinfo crypto reg upstream storeHash hop with
  | .error err => return .error err
  | .ok (body, _) =>
      let latencyMs ← ask .elapsed
      return .ok {
        url := upstream
        latencyMs
        cacheHit := false
        narinfoBytes := reg.responseNarinfoBytes upstream storeHash body }

/-! ## Cached routes -/

inductive CachedFilterCheck
  /-- The cached narinfo, if any, still passes the upstream's filters. -/
  | cached
  /-- A freshly fetched narinfo passed where the cached one did not. -/
  | fetched (bytes : Octets)
  | rejected
  deriving DecidableEq

/-- Whether cached bytes pass the upstream's filters. Without filters there is
nothing to pass. -/
def cachedPasses (upstream : Str) (narinfoBytes : Option Octets) : Bool :=
  match reg.upstreamFilters upstream with
  | none => true
  | some _ =>
      match narinfoBytes with
      | none => false
      | some bytes =>
          match NarInfo.parse bytes with
          | .error _ => false
          | .ok narinfo => reg.allows upstream narinfo

/-- Without bytes, passing the filters means there are none. -/
theorem allows_of_cachedPasses_none {reg : Registry} {upstream : Str}
    (h : cachedPasses reg upstream none = true) (n : NarInfo) :
    reg.allows upstream n = true := by
  unfold cachedPasses at h
  split at h
  · next hnone => exact upstreamAllowsNarinfo_of_none hnone n
  · cases h

def cachedRouteFilterCheck (upstream storeHash : Str) (narinfoBytes : Option Octets) (hop : Hop) :
    Handler CachedFilterCheck :=
  if cachedPasses reg upstream narinfoBytes then return .cached
  else do
    match ← fetchNarinfo crypto reg upstream storeHash hop with
    | .ok (some body, parsed) =>
        return if reg.allows upstream parsed then .fetched body else .rejected
    | _ => return .rejected

/-- The part of `valid_cached_route` for a hit in the LRU. -/
def lruRoute (storeHash : Str) (hop : Hop) (cached : ResolveResult) :
    Handler (Except RouterError (Option ResolveResult)) := do
  match ← cachedRouteFilterCheck crypto reg cached.url storeHash cached.narinfoBytes hop with
  | .cached => return .ok (some { cached with cacheHit := true })
  | .fetched bytes =>
      let result := { cached with
        cacheHit := true
        narinfoBytes := reg.responseNarinfoBytes cached.url storeHash (some bytes) }
      ask (.lruInsert storeHash result)
      return .ok (some result)
  | .rejected =>
      ask (.lruInvalidate storeHash)
      return .ok none

/-- Answer from a row of the route table and keep the answer in the LRU. -/
def serveRoute (storeHash : Str) (entry : RouteEntry) :
    Handler (Except RouterError (Option ResolveResult)) := do
  let result : ResolveResult := {
    url := entry.upstreamUrl
    latencyMs := entry.latencyEma
    cacheHit := true
    narinfoBytes := reg.responseNarinfoBytes entry.upstreamUrl storeHash entry.narinfoBytes }
  ask (.lruInsert storeHash result)
  return .ok (some result)

/-- Store freshly fetched bytes in a row, then answer from it. -/
def refreshRoute (storeHash : Str) (entry : RouteEntry) (bytes : Octets) :
    Handler (Except RouterError (Option ResolveResult)) := do
  let entry := { entry with narinfoBytes := some bytes }
  match ← setRoute entry with
  | .error err => return .error (.db err)
  | .ok () => serveRoute reg storeHash entry

/-- The part of `valid_cached_route` for a row of the route table. -/
def storedRoute (storeHash : Str) (hop : Hop) (entry : RouteEntry) :
    Handler (Except RouterError (Option ResolveResult)) := do
  let now ← ask .timestampNow
  if !entry.isValid now then return .ok none
  else
    let health ← ask (.getHealth entry.upstreamUrl)
    if health.any fun h => h.status = .down then return .ok none
    else
      match ← cachedRouteFilterCheck crypto reg entry.upstreamUrl storeHash entry.narinfoBytes
          hop with
      | .cached =>
          if entry.narinfoBytes.isSome then serveRoute reg storeHash entry
          else
            match ← fetchNarinfo crypto reg entry.upstreamUrl storeHash hop with
            | .ok (some bytes, _) => refreshRoute reg storeHash entry bytes
            | _ => return .ok none
      | .fetched bytes => refreshRoute reg storeHash entry bytes
      | .rejected => return .ok none

def validCachedRoute (storeHash : Str) (hop : Hop) :
    Handler (Except RouterError (Option ResolveResult)) := do
  match ← ask (.lruGet storeHash) with
  | some cached => lruRoute crypto reg storeHash hop cached
  | none =>
      match ← ask (.dbGetRoute storeHash) with
      | .error err => return .error (.db err)
      | .ok none => return .ok none
      | .ok (some entry) => storedRoute crypto reg storeHash hop entry

def resolveCached (storeHash : Str) (hop : Hop) :
    Handler (Except RouterError (Option ResolveResult)) := do
  match ← ask (.missLruGet storeHash) with
  | some _ => return .error .notFound
  | none =>
      match ← ask (.dbIsNegative storeHash) with
      | .error err => return .error (.db err)
      | .ok true => return .error .notFound
      | .ok false => validCachedRoute crypto reg storeHash hop

/-! ## Racing one group -/

structure RaceResult where
  url : Str
  latencyMs : Double
  deriving DecidableEq

/-- Outcome of racing a single priority group. -/
inductive RaceGroupError
  /-- Every reachable upstream in the group returned a non-success status. -/
  | notFound
  /-- Every upstream in the group hit a network-level error. -/
  | networkError
  /-- The race deadline expired before any upstream responded. -/
  | timeout
  deriving DecidableEq, Repr

/-- The winner of a race belongs to the group. -/
abbrev Winner (group : List Str) := {winner : RaceResult // winner.url ∈ group}

/-- The classification of a race without a winner. -/
def raceFailure (netErrs notFounds : ℕ) : RaceGroupError :=
  if 0 < netErrs ∧ notFounds = 0 then .networkError
  else if 0 < notFounds then .notFound
  else .timeout

theorem notFounds_pos_of_raceFailure {netErrs notFounds : ℕ}
    (h : raceFailure netErrs notFounds = .notFound) : 0 < notFounds := by
  unfold raceFailure at h
  split at h
  · cases h
  · split at h
    · assumption
    · cases h

/-- The loop of `race_group` over the requests still pending. -/
def joinHeads (group : List Str) (pending : List UpstreamRequest)
    (hpending : ∀ request ∈ pending, request.upstream ∈ group) (netErrs notFounds : ℕ) :
    Handler (Except RaceGroupError (Winner group)) :=
  if pending = [] then return .error (raceFailure netErrs notFounds)
  else do
    match ← ask (.joinHead pending) with
    | none => return .error (raceFailure netErrs notFounds)
    | some (i, answer) =>
        let rest := pending.eraseIdx i
        let hrest : ∀ request ∈ rest, request.upstream ∈ group :=
          fun request h => hpending request (List.mem_of_mem_eraseIdx h)
        match answer with
        | .found latencyMs =>
            let winner : RaceResult := ⟨(pending.get i).upstream, latencyMs⟩
            return .ok ⟨winner, hpending _ (List.get_mem pending i)⟩
        | .networkError =>
            ask (.markCooldown (pending.get i).upstream)
            joinHeads group rest hrest (netErrs + 1) notFounds
        | .miss => joinHeads group rest hrest netErrs (notFounds + 1)
        | .joinError => joinHeads group rest hrest (netErrs + 1) notFounds
termination_by pending.length
decreasing_by all_goals simp [List.length_eraseIdx_of_lt i.isLt]; have := i.isLt; omega

def headRequest (storeHash : Str) (hop : Hop) (upstream : Str) : UpstreamRequest where
  upstream := upstream
  method := .head
  path := narinfoPath storeHash
  headers := hopHeaders hop
  timeout := some (reg.narinfoTimeout upstream)

/-- Race all upstreams in `group` in parallel. -/
def raceGroup (storeHash : Str) (group : List Str) (hop : Hop) :
    Handler (Except RaceGroupError (Winner group)) := do
  let requests := group.map (headRequest reg storeHash hop)
  ask (.spawnHeads requests)
  joinHeads group requests (by simp [requests, headRequest]) 0 0

/-! ## Committing a winner -/

inductive CommitOutcome
  | accepted (result : ResolveResult)
  | rejected
  deriving DecidableEq

def commitErrorIsRetryable : RouterError → Bool
  | .notFound | .signatureVerificationFailed | .parseNarinfo _ | .backend _ => true
  | _ => false

def commitErrorIsNetworkLike : RouterError → Bool
  | .backend _ => true
  | _ => false

variable {crypto reg} in
/-- Whatever is wrong with a fetched narinfo, the race goes on. -/
theorem commitErrorIsRetryable_of_checkNarinfo {upstream : Str}
    {reply : Except BackendError (Option Octets)} {err : RouterError}
    (h : checkNarinfo crypto reg upstream reply = .error err) :
    commitErrorIsRetryable err = true := by
  unfold checkNarinfo at h
  split at h
  · cases h
    rfl
  · cases h
    rfl
  · split at h
    · cases h
      rfl
    · split at h
      · cases h
      · cases h
        rfl

/-- The `nar_url` a committed route is found under. -/
def committedNarUrl (upstream storeHash : Str) (parsed : NarInfo) : Str :=
  match reg.narUrlMode upstream with
  | .toSelf => canonicalNarUrl parsed.url storeHash
  | .keep | .toUpstream => withoutQuery (parsed.url.dropWhile (· = '/'))

/-- The route a winner is committed with. -/
def winnerRoute (winner : RaceResult) (storeHash : Str) (body : Option Octets) (parsed : NarInfo)
    (ema : Double) (now : Timestamp) : RouteEntry where
  storePath := storeHash
  upstreamUrl := winner.url
  latencyMs := winner.latencyMs
  latencyEma := ema
  lastVerified := now
  queryCount := 1
  failureCount := 0
  ttl := now.saturatingAdd reg.routeTtl
  narHash := parsed.narHash
  narSize := parsed.narSize
  narUrl := committedNarUrl reg winner.url storeHash parsed
  upstreamNarUrl := '/' :: relativeNarUrl parsed.url
  narinfoBytes := body

/-- Record a winner whose narinfo was accepted. -/
def recordWinner (winner : RaceResult) (storeHash : Str) (body : Option Octets)
    (parsed : NarInfo) : Handler (Except RouterError CommitOutcome) := do
  ask (.countWin winner.url winner.latencyMs)
  let health ← ask (.getHealth winner.url)
  let ema := match health with
    | none => winner.latencyMs
    | some h => nextEma reg.alpha winner.latencyMs h.emaLatency
  ask (.recordLatency winner.url winner.latencyMs)
  let now ← ask .timestampNow
  match ← setRoute (winnerRoute reg winner storeHash body parsed ema now) with
  | .error err => return .error (.db err)
  | .ok () =>
      let result : ResolveResult := {
        url := winner.url
        latencyMs := winner.latencyMs
        cacheHit := false
        narinfoBytes := reg.responseNarinfoBytes winner.url storeHash body }
      ask (.lruInsert storeHash result)
      return .ok (.accepted result)

/-- Fetch the full narinfo, then record metrics, update the prober and DB for a
race winner. -/
def commitWinner (winner : RaceResult) (storeHash : Str) (hop : Hop) :
    Handler (Except RouterError CommitOutcome) := do
  match ← fetchNarinfo crypto reg winner.url storeHash hop with
  | .error err => return .error err
  | .ok (body, parsed) =>
      if !reg.allows winner.url parsed then return .ok .rejected
      else recordWinner reg winner storeHash body parsed

/-! ## Racing all candidates -/

def cooldownFilteredCandidates : List Str → Handler (List Str)
  | [] => return []
  | url :: urls => do
      let cooling ← ask (.inCooldown url)
      let rest ← cooldownFilteredCandidates urls
      return if cooling then rest else url :: rest

/-- The priority of an upstream, the lowest one when it is not tracked. -/
def racePriority (health : Option UpstreamHealth) : ℤ :=
  match health with
  | none => 2147483647
  | some h => h.priority

/-- Group candidates by priority. -/
def priorityGroups : List Str → List (ℤ × List Str) → Handler (List (ℤ × List Str))
  | [], groups => return groups
  | url :: urls, groups => do
      let health ← ask (.getHealth url)
      priorityGroups urls (pushGroup (racePriority health) url groups)

/-- The candidates other than a winner that could not be committed. -/
def retainOthers (url : Str) (group : List Str) : List Str :=
  group.filter fun other => other ≠ url

theorem length_retainOthers_lt {url : Str} {group : List Str} (h : url ∈ group) :
    (retainOthers url group).length < group.length :=
  List.length_filter_lt_length_iff_exists.2 ⟨url, h, by simp⟩

/-- How the loop over one group ended. -/
inductive GroupOutcome
  | done (result : Except RouterError ResolveResult)
  /-- Try the next group; the flag is `any_not_found`. -/
  | next (anyNotFound : Bool)

/-- The loop over one group: race it, commit the winner, and race the others
when the winner cannot be committed. -/
def raceWithinGroup (storeHash : Str) (hop : Hop) (group : List Str) (anyNotFound : Bool) :
    Handler GroupOutcome :=
  if group = [] then return .next anyNotFound
  else do
    match ← raceGroup reg storeHash group hop with
    | .ok winner =>
        let rest := retainOthers winner.val.url group
        match ← commitWinner crypto reg winner.val storeHash hop with
        | .ok (.accepted result) => return .done (.ok result)
        | .ok .rejected => raceWithinGroup storeHash hop rest true
        | .error err =>
            if commitErrorIsRetryable err then
              if commitErrorIsNetworkLike err then do
                ask (.markCooldown winner.val.url)
                raceWithinGroup storeHash hop rest anyNotFound
              else raceWithinGroup storeHash hop rest true
            else return .done (.error err)
    | .error .notFound => return .next true
    | .error .networkError | .error .timeout => return .next anyNotFound
termination_by group.length
decreasing_by all_goals exact length_retainOthers_lt winner.2

/-- The loop over the groups. -/
def raceGroups (storeHash : Str) (hop : Hop) :
    List (ℤ × List Str) → Bool → Handler (Except RouterError ResolveResult)
  | [], anyNotFound => return .error (if anyNotFound then .notFound else .upstreamUnavailable)
  | (_, group) :: groups, anyNotFound => do
      match ← raceWithinGroup crypto reg storeHash hop group anyNotFound with
      | .done result => return result
      | .next anyNotFound => raceGroups storeHash hop groups anyNotFound

/-- `race` once its permit is held. -/
def raceCandidates (storeHash : Str) (candidates : List Str) (hop : Hop) :
    Handler (Except RouterError ResolveResult) := do
  let filtered ← cooldownFilteredCandidates candidates
  let groups ← priorityGroups (if filtered = [] then candidates else filtered) []
  raceGroups crypto reg storeHash hop groups false

def race (storeHash : Str) (candidates : List Str) (hop : Hop) :
    Handler (Except RouterError ResolveResult) :=
  if candidates = [] then return .error (.noCandidates storeHash)
  else if hop = .client then do
    if ← ask .acquireRacePermit then
      let result ← raceCandidates crypto reg storeHash candidates hop
      ask .releaseRacePermit
      return result
    else return .error .upstreamUnavailable
  else raceCandidates crypto reg storeHash candidates hop

/-! ## NAR paths -/

/-- What a NAR candidate's narinfo has to agree on with the routed one. -/
def sameNar (parsed expected : NarInfo) : Bool :=
  parsed.storePath = expected.storePath && parsed.compression = expected.compression &&
    parsed.fileHash = expected.fileHash && parsed.fileSize = expected.fileSize &&
    parsed.narHash = expected.narHash && parsed.narSize = expected.narSize

/-- `upstream_nar_path`: where an upstream has the NAR of a hash. -/
def upstreamNarPath (upstream storeHash : Str) (expectedNarinfo : Option NarInfo)
    (expectedCompression : Option Str) : Handler (Except RouterError Str) := do
  match ← fetchNarinfo crypto reg upstream storeHash .client with
  | .error err => return .error err
  | .ok (_, parsed) =>
      if !reg.allows upstream parsed then return .error .notFound
      else if expectedCompression.any fun expected => parsed.compression ≠ expected then
        return .error .notFound
      else if expectedNarinfo.any fun expected => !sameNar parsed expected then
        return .error .notFound
      else return .ok ('/' :: relativeNarUrl parsed.url)

/-! ## Resolving -/

/-- The end of a client's `resolve`: race, and remember a miss. -/
def raceAndRemember (storeHash : Str) (candidates : List Str) :
    Handler (Except RouterError ResolveResult) := do
  let result ← race crypto reg storeHash candidates .client
  match result with
  | .error .notFound =>
      ask (.missLruInsert storeHash)
      let _ ← ask (.dbSetNegative storeHash reg.negativeTtl)
      return result
  | _ => return result

/-- The part of a client's `resolve` under the lock of its hash. -/
def resolveLocked (storeHash : Str) (candidates : List Str) :
    Handler (Except RouterError ResolveResult) := do
  match ← resolveCached crypto reg storeHash .client with
  | .error err => return .error err
  | .ok (some result) => return .ok result
  | .ok none => raceAndRemember crypto reg storeHash candidates

/-- Resolve a narinfo hash to an upstream URL by checking the route cache then
racing all candidates. -/
def resolve (storeHash : Str) (candidates : List Str) (hop : Hop) :
    Handler (Except RouterError ResolveResult) := do
  match ← resolveCached crypto reg storeHash hop with
  | .error err => return .error err
  | .ok (some result) => return .ok result
  | .ok none =>
      match hop with
      | .peerOfPeer => return .error .notFound
      | .peer => race crypto reg storeHash candidates .peer
      | .client => do
          let lock ← ask (.inflightEntry storeHash)
          ask (.lock lock)
          let result ← resolveLocked crypto reg storeHash candidates
          ask (.inflightRemoveIf storeHash lock)
          ask (.unlock lock)
          return result

end

end Ncro
