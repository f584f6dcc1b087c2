import Ncro.Realisation
import Ncro.Server.Narinfo

/-!
# The realisation handlers

`buildTrace` and `legacyRealisation` serve realisations: `realisation` asks all upstreams at
once and answers with the first body that is trusted, and turns to the fallback cache when all
of them have finished without one. Only a client's lookup is remembered as a miss, and only if
everyone who was asked said so.
-/

namespace Ncro

open Foundation Foundation.Process

/-! ## Operations -/

/-- How a request for a realisation ended, within its timeout. -/
inductive FetchedRealisation
  | found (contentType : Option Str) (body : Octets)
  | missing
  | error (err : BackendError)
  | timeout
  deriving DecidableEq

/-- A spawned request, by the order of spawning. -/
structure RealisationAttempt where
  id : ℕ
  upstream : Str
  deriving DecidableEq

/-- What a realisation handler does: what other handlers do as well, and its own requests. -/
inductive RealisationOp
  | shared (op : Op)
  /-- Start a request to an upstream. -/
  | spawnRealisation (attempt : RealisationAttempt) (request : UpstreamRequest)
  /-- Wait for one of the pending requests. -/
  | joinRealisation (pending : List RealisationAttempt)
  /-- Send a request and wait for its answer. -/
  | fetchRealisation (request : UpstreamRequest)
  deriving DecidableEq

/-- The type of an operation's reply. A request that panicked has no answer. -/
abbrev RealisationOp.Reply : RealisationOp → Type
  | .shared op => op.Reply
  | .spawnRealisation _ _ => Unit
  | .joinRealisation pending => Fin pending.length × Option FetchedRealisation
  | .fetchRealisation _ => FetchedRealisation

abbrev RealisationHandler (α : Type) := Process RealisationOp RealisationOp.Reply α

abbrev RealisationEvent := Process.Event RealisationOp RealisationOp.Reply

/-- An operation of another handler. -/
def askShared (op : Op) : RealisationHandler op.Reply := call (RealisationOp.shared op)

def spawnRealisation (attempt : RealisationAttempt) (request : UpstreamRequest) :
    RealisationHandler Unit :=
  call (RealisationOp.spawnRealisation attempt request)

def joinRealisation (pending : List RealisationAttempt) :
    RealisationHandler (Fin pending.length × Option FetchedRealisation) :=
  call (RealisationOp.joinRealisation pending)

def fetchRealisation (request : UpstreamRequest) : RealisationHandler FetchedRealisation :=
  call (RealisationOp.fetchRealisation request)

/-- A response with its `content-type`. -/
structure TypedResponse extends Response where
  contentType : Option Str
  deriving DecidableEq

def TypedResponse.notFound : TypedResponse := { Response.notFound with contentType := none }

def realisationResponse (contentType : Option Str) (body : Octets) (upstream : Str)
    (route : RouteKind) : TypedResponse :=
  { (⟨200, .bytes body, none⟩ : Response).withProvenance upstream route with contentType }

/-! ## The handlers -/

/-- Nix fails the build on a realisation no trusted key signed. -/
def realisationTrusted (json : JsonReader) (crypto : Crypto) (reg : Registry) (upstream : Str)
    (id : DrvOutput) (body : Octets) : Bool :=
  match reg.upstreamKeys upstream with
  | none => true
  | some publicKeys =>
      match Realisation.parse json body id with
      | none => false
      | some realisation => publicKeys.any fun publicKey =>
          match realisation.verify crypto publicKey with
          | .ok verified => verified
          | .error _ => false

section

variable (json : JsonReader) (crypto : Crypto) (app : AppState)

def servesRealisations (url : Str) : Bool :=
  match app.upstreams.find? fun upstream => upstream.url = url with
  | none => true
  | some upstream => upstream.realisations

/-- The requests to the upstreams that serve realisations. -/
def realisationAttempts (urls : List Str) : List RealisationAttempt :=
  (urls.filter (servesRealisations app)).mapIdx RealisationAttempt.mk

def realisationRequest (path : Str) (hop : Hop) (upstream : Str) : UpstreamRequest where
  upstream
  method := .get
  path
  headers := hopHeaders hop
  timeout := some (app.registry.narinfoTimeout upstream)

def spawnRealisations (path : Str) (hop : Hop) : List RealisationAttempt → RealisationHandler Unit
  | [] => return ()
  | attempt :: attempts => do
      spawnRealisation attempt (realisationRequest app path hop attempt.upstream)
      spawnRealisations path hop attempts

/-- The loop over the requests that finish: the response of the first trusted body, or else how
many more of them were misses. -/
def joinRealisations (id : DrvOutput) (pending : List RealisationAttempt) (misses : ℕ) :
    RealisationHandler (TypedResponse ⊕ ℕ) :=
  if pending = [] then return .inr misses
  else do
    let joined ← joinRealisation pending
    let upstream := (pending.get joined.1).upstream
    match joined.2 with
    | some (.found contentType body) =>
        if realisationTrusted json crypto app.registry upstream id body then
          return .inl (realisationResponse contentType body upstream .race)
        else joinRealisations id (pending.eraseIdx joined.1) misses
    | some .missing => joinRealisations id (pending.eraseIdx joined.1) (misses + 1)
    | some (.error _) | some .timeout | none =>
        joinRealisations id (pending.eraseIdx joined.1) misses
termination_by pending.length
decreasing_by
  all_goals
    have hlt := joined.1.isLt
    rw [List.length_eraseIdx_of_lt hlt]
    omega

/-- The end of a lookup without a trusted body: it is remembered if everyone who was asked said
no. -/
def concludeRealisation (path : Str) (hop : Hop) (misses asked : ℕ) :
    RealisationHandler TypedResponse :=
  if hop = .client ∧ misses = asked then do
    let _ ← askShared (.dbSetNegative path app.registry.negativeTtl)
    return .notFound
  else return .notFound

/-- The request to the fallback cache, once the upstreams have nothing. -/
def fallbackRealisation (path : Str) (id : DrvOutput) (hop : Hop) (misses asked : ℕ) :
    RealisationHandler TypedResponse :=
  match app.fallbackCache.filter ServerUpstream.realisations with
  | none => concludeRealisation app path hop misses asked
  | some fallback => do
      match ← fetchRealisation (realisationRequest app path hop fallback.url) with
      | .found contentType body =>
          if realisationTrusted json crypto app.registry fallback.url id body then
            return realisationResponse contentType body fallback.url .fallback
          else concludeRealisation app path hop misses (asked + 1)
      | .missing => concludeRealisation app path hop (misses + 1) (asked + 1)
      | .error _ | .timeout => concludeRealisation app path hop misses (asked + 1)

/-- Serve a CA realisation from the first upstream that has it. -/
def realisation (path : Str) (id : DrvOutput) (hop : Hop) : RealisationHandler TypedResponse :=
  if hop = .peerOfPeer then return .notFound
  else do
    match ← askShared (.dbIsNegative path) with
    | .ok true => return .notFound
    | _ => do
        let urls ← (upstreamUrls app).translate RealisationOp.shared fun _ reply => reply
        let attempts := realisationAttempts app urls
        spawnRealisations app path hop attempts
        match ← joinRealisations json crypto app id attempts 0 with
        | .inl response => return response
        | .inr misses => fallbackRealisation json crypto app path id hop misses attempts.length

/-- Nix store paths are case-sensitive, so the extension is too. -/
def hasExtension (name extension : Str) : Bool :=
  name.contains '.' && name.rtakeWhile (· ≠ '.') = extension

def buildTrace (drv output : Str) (request : ClientRequest) : RealisationHandler TypedResponse :=
  match output.dropSuffix? ".doi".toList with
  | none => return .notFound
  | some outputName =>
      if hasExtension drv "drv".toList then
        realisation json crypto app request.path (.buildTrace drv outputName)
          (Hop.fromHeaders request.headers)
      else return .notFound

def legacyRealisation (id : Str) (request : ClientRequest) : RealisationHandler TypedResponse :=
  if hasExtension id "doi".toList then
    realisation json crypto app request.path .legacy (Hop.fromHeaders request.headers)
  else return .notFound

end

/-! ## The world of one lookup -/

/-- What a lookup finds: no live negative entry for its path, the upstreams that the prober
tracks, and an outcome for each request. In which order the requests finish is open. -/
def RealisationWorld (tracked : List UpstreamHealth)
    (outcome : RealisationAttempt → Option FetchedRealisation)
    (fallbackOutcome : FetchedRealisation) : (op : RealisationOp) → op.Reply → Prop
  | .shared (.dbIsNegative _), reply => reply ≠ .ok true
  | .shared .sortedByLatency, reply => reply = tracked
  | .joinRealisation pending, reply => reply.2 = outcome (pending.get reply.1)
  | .fetchRealisation _, reply => reply = fallbackOutcome
  | _, _ => True

/-- An outcome with a body that is trusted for its source. -/
def TrustedOutcome (json : JsonReader) (crypto : Crypto) (reg : Registry) (id : DrvOutput)
    (upstream : Str) : Option FetchedRealisation → Prop
  | some (.found _ body) => realisationTrusted json crypto reg upstream id body = true
  | _ => False

/-- A response with the trusted body of an outcome. -/
def RespondsWith (json : JsonReader) (crypto : Crypto) (reg : Registry) (id : DrvOutput)
    (upstream : Str) (route : RouteKind) (response : TypedResponse)
    (outcome : Option FetchedRealisation) : Prop :=
  ∃ contentType body, outcome = some (.found contentType body) ∧
    realisationTrusted json crypto reg upstream id body = true ∧
    response = realisationResponse contentType body upstream route

/-- The request that an event ends. -/
def joinedAttempt : RealisationEvent → Option RealisationAttempt
  | ⟨.joinRealisation pending, reply⟩ => some (pending.get reply.1)
  | _ => none

/-- The requests that ended in some events, in order. -/
def joinedAttempts (events : List RealisationEvent) : List RealisationAttempt :=
  events.filterMap joinedAttempt

/-! ## Waiting for the requests -/

section

variable {json : JsonReader} {crypto : Crypto} {app : AppState} {id : DrvOutput}
  {tracked : List UpstreamHealth} {outcome : RealisationAttempt → Option FetchedRealisation}
  {fallbackOutcome : FetchedRealisation} {path : Str} {hop : Hop}
  {events : List RealisationEvent}

/-- The number of misses among some requests. -/
def missCount (outcome : RealisationAttempt → Option FetchedRealisation)
    (attempts : List RealisationAttempt) : ℕ :=
  attempts.countP fun attempt => outcome attempt = some .missing

theorem missCount_eraseIdx {pending : List RealisationAttempt} (i : Fin pending.length) :
    missCount outcome (pending.eraseIdx i) +
        (if outcome (pending.get i) = some .missing then 1 else 0) =
      missCount outcome pending := by
  have hperm := List.getElem_cons_eraseIdx_perm i.isLt
  have hcount := hperm.countP_eq fun attempt => decide (outcome attempt = some .missing)
  rw [List.countP_cons] at hcount
  simpa [missCount] using hcount

/-- How the loop over the requests ends. -/
def JoinsEnd (json : JsonReader) (crypto : Crypto) (reg : Registry) (id : DrvOutput)
    (outcome : RealisationAttempt → Option FetchedRealisation)
    (pending : List RealisationAttempt) (misses : ℕ) (events : List RealisationEvent) :
    TypedResponse ⊕ ℕ → Prop
  | .inl response => ∃ attempt ∈ pending,
      RespondsWith json crypto reg id attempt.upstream .race response (outcome attempt)
  | .inr total => total = misses + missCount outcome pending ∧
      (∀ attempt ∈ pending, ¬TrustedOutcome json crypto reg id attempt.upstream (outcome attempt)) ∧
      (joinedAttempts events).Perm pending

/-- The end of the loop after a request without a trusted body. -/
theorem JoinsEnd.joined {reg : Registry} {pending : List RealisationAttempt}
    {misses misses' : ℕ} {result : TypedResponse ⊕ ℕ} (i : Fin pending.length)
    (h : JoinsEnd json crypto reg id outcome (pending.eraseIdx i) misses' events result)
    (huntrusted : ¬TrustedOutcome json crypto reg id (pending.get i).upstream
      (outcome (pending.get i)))
    (hmisses : misses' =
      misses + if outcome (pending.get i) = some .missing then 1 else 0) :
    JoinsEnd json crypto reg id outcome pending misses
      (⟨.joinRealisation pending, i, outcome (pending.get i)⟩ :: events) result := by
  have hperm := List.getElem_cons_eraseIdx_perm i.isLt
  cases result with
  | inl response =>
      obtain ⟨attempt, hmem, hresponds⟩ := h
      exact ⟨attempt, List.eraseIdx_subset hmem, hresponds⟩
  | inr total =>
      obtain ⟨htotal, hall, hjoined⟩ := h
      refine ⟨?_, ?_, ?_⟩
      · rw [htotal, hmisses, ← missCount_eraseIdx i]
        omega
      · intro attempt hmem
        rcases List.mem_cons.1 (hperm.mem_iff.2 hmem) with rfl | hmem
        · exact huntrusted
        · exact hall attempt hmem
      · exact (hjoined.cons _).trans hperm

theorem run_joinRealisations {pending : List RealisationAttempt} {misses : ℕ}
    {result : TypedResponse ⊕ ℕ}
    (h : Run (RealisationWorld tracked outcome fallbackOutcome)
      (joinRealisations json crypto app id pending misses) events result) :
    JoinsEnd json crypto app.registry id outcome pending misses events result ∧
      ∀ event ∈ events, (joinedAttempt event).isSome := by
  induction hlength : pending.length generalizing pending misses events with
  | zero =>
      obtain rfl := List.length_eq_zero_iff.1 hlength
      rw [joinRealisations] at h
      obtain ⟨rfl, rfl⟩ := run_ret_iff.1 h
      exact ⟨⟨rfl, by simp, .nil⟩, by simp⟩
  | succ n ih =>
      rw [joinRealisations, if_neg (List.ne_nil_of_length_eq_add_one hlength)] at h
      obtain ⟨⟨i, joined⟩, events, rfl, hjoined, h⟩ := run_call_bind_iff.1 h
      obtain rfl : joined = outcome (pending.get i) := hjoined
      have herase : (pending.eraseIdx i).length = n := by
        rw [List.length_eraseIdx_of_lt i.isLt]
        omega
      -- Every request without a trusted body leaves the loop with the others.
      have hnext : ∀ misses', (misses' =
          misses + if outcome (pending.get i) = some .missing then 1 else 0) →
          ¬TrustedOutcome json crypto app.registry id (pending.get i).upstream
            (outcome (pending.get i)) →
          Run (RealisationWorld tracked outcome fallbackOutcome)
            (joinRealisations json crypto app id (pending.eraseIdx i) misses') events result →
          JoinsEnd json crypto app.registry id outcome pending misses
              (⟨.joinRealisation pending, i, outcome (pending.get i)⟩ :: events) result ∧
            ∀ event ∈ (⟨.joinRealisation pending, i, outcome (pending.get i)⟩ :: events :
              List RealisationEvent), (joinedAttempt event).isSome := by
        intro misses' hmisses huntrusted hrest
        obtain ⟨hend, hjoins⟩ := ih hrest herase
        exact ⟨hend.joined i huntrusted hmisses, List.forall_mem_cons.2 ⟨rfl, hjoins⟩⟩
      dsimp only at h
      cases houtcome : outcome (pending.get i) with
      | none =>
          rw [houtcome] at h hnext
          exact hnext misses (by simp) not_false h
      | some fetched =>
          rw [houtcome] at h hnext
          cases fetched with
          | missing => exact hnext (misses + 1) (by simp) not_false h
          | error err => exact hnext misses (by simp) not_false h
          | timeout => exact hnext misses (by simp) not_false h
          | found contentType body =>
              dsimp only at h
              split at h
              · next htrusted =>
                obtain ⟨rfl, rfl⟩ := run_ret_iff.1 h
                have hresponds : JoinsEnd json crypto app.registry id outcome pending misses
                    [⟨.joinRealisation pending, i, some (.found contentType body)⟩]
                    (.inl (realisationResponse contentType body (pending.get i).upstream .race)) :=
                  ⟨_, List.get_mem _ _, contentType, body, houtcome, htrusted, rfl⟩
                exact ⟨hresponds, by simp [joinedAttempt]⟩
              · next huntrusted => exact hnext misses (by simp) huntrusted h

/-! ## The fallback cache and the end -/

/-- The fallback cache, if it is asked for realisations. -/
def FallbackOf (app : AppState) (fallback : ServerUpstream) : Prop :=
  app.fallbackCache = some fallback ∧ fallback.realisations = true

/-- A miss is remembered in some events. -/
def Remembers (path : Str) (events : List RealisationEvent) : Prop :=
  ∃ ttl reply, ⟨.shared (.dbSetNegative path ttl), reply⟩ ∈ events

/-- The event asks the fallback cache. -/
def AsksFallback : RealisationEvent → Prop
  | ⟨.fetchRealisation _, _⟩ => True
  | _ => False

/-- How a lookup ends once the upstreams have nothing. -/
inductive FallbackEnd (json : JsonReader) (crypto : Crypto) (app : AppState) (id : DrvOutput)
    (fallbackOutcome : FetchedRealisation) (path : Str) (remembered : Prop) :
    List RealisationEvent → TypedResponse → Prop
  | answered {fallback : ServerUpstream} {response : TypedResponse} {request : UpstreamRequest}
      (hfallback : FallbackOf app fallback)
      (hresponds : RespondsWith json crypto app.registry id fallback.url .fallback response
        (some fallbackOutcome)) :
      FallbackEnd json crypto app id fallbackOutcome path remembered
        [⟨.fetchRealisation request, fallbackOutcome⟩] response
  | nothing {asking last : List RealisationEvent}
      (huntrusted : ∀ fallback, FallbackOf app fallback →
        ¬TrustedOutcome json crypto app.registry id fallback.url (some fallbackOutcome))
      (hasking : ∀ event ∈ asking, AsksFallback event)
      (hremembered : remembered → ∃ reply, last =
        [⟨.shared (.dbSetNegative path app.registry.negativeTtl), reply⟩])
      (hforgotten : ¬remembered → last = []) :
      FallbackEnd json crypto app id fallbackOutcome path remembered (asking ++ last) .notFound

theorem run_concludeRealisation {allowed : (op : RealisationOp) → op.Reply → Prop}
    {misses asked : ℕ} {response : TypedResponse}
    (h : Run allowed (concludeRealisation app path hop misses asked) events response) :
    response = .notFound ∧
      (hop = .client ∧ misses = asked → ∃ reply, events =
        [⟨.shared (.dbSetNegative path app.registry.negativeTtl), reply⟩]) ∧
      (¬(hop = .client ∧ misses = asked) → events = []) := by
  unfold concludeRealisation at h
  split at h
  · next hall =>
    obtain ⟨reply, tail, rfl, -, h⟩ := run_call_bind_iff.1 h
    obtain ⟨rfl, rfl⟩ := run_ret_iff.1 h
    exact ⟨rfl, fun _ => ⟨reply, rfl⟩, fun hnot => absurd hall hnot⟩
  · next hnot =>
    obtain ⟨rfl, rfl⟩ := run_ret_iff.1 h
    exact ⟨rfl, fun hall => absurd hall hnot, fun _ => rfl⟩

/-- The lookup ends without a trusted body. -/
theorem FallbackEnd.of_conclude {allowed : (op : RealisationOp) → op.Reply → Prop}
    {remembered : Prop} {misses asked : ℕ} {response : TypedResponse}
    {asking : List RealisationEvent}
    (h : Run allowed (concludeRealisation app path hop misses asked) events response)
    (huntrusted : ∀ fallback, FallbackOf app fallback →
      ¬TrustedOutcome json crypto app.registry id fallback.url (some fallbackOutcome))
    (hasking : ∀ event ∈ asking, AsksFallback event)
    (hremembered : remembered ↔ hop = .client ∧ misses = asked) :
    FallbackEnd json crypto app id fallbackOutcome path remembered (asking ++ events) response := by
  obtain ⟨rfl, hall, hnot⟩ := run_concludeRealisation h
  exact .nothing huntrusted hasking (fun h => hall (hremembered.1 h))
    fun h => hnot (mt hremembered.2 h)

theorem run_fallbackRealisation {misses asked : ℕ} {response : TypedResponse}
    (hle : misses ≤ asked)
    (h : Run (RealisationWorld tracked outcome fallbackOutcome)
      (fallbackRealisation json crypto app path id hop misses asked) events response) :
    FallbackEnd json crypto app id fallbackOutcome path
      (hop = .client ∧ misses = asked ∧ ∀ fallback, FallbackOf app fallback →
        fallbackOutcome = .missing) events response := by
  unfold fallbackRealisation at h
  split at h
  · next hnone =>
    have hno : ∀ fallback, ¬FallbackOf app fallback := by
      rintro fallback ⟨hcache, hserves⟩
      rw [hcache, Option.filter_some, hserves, if_pos rfl] at hnone
      cases hnone
    rw [← List.nil_append events]
    refine .of_conclude h ?_ (by simp) (by simp [hno])
    exact fun fallback hfallback => absurd hfallback (hno fallback)
  · next fallback hsome =>
    have hfallback : FallbackOf app fallback := by
      rw [Option.filter_eq_some_iff] at hsome
      exact hsome
    have honly : ∀ other, FallbackOf app other → other = fallback := by
      rintro other ⟨hcache, -⟩
      exact Option.some.inj (hcache.symm.trans hfallback.1)
    obtain ⟨reply, events, rfl, hreply, h⟩ := run_call_bind_iff.1 h
    obtain rfl : reply = fallbackOutcome := hreply
    -- Without a trusted body, what is left is to count the fallback cache's answer.
    have hconclude : ∀ misses', ¬TrustedOutcome json crypto app.registry id fallback.url
          (some reply) →
        (misses' = asked + 1 ↔ misses = asked ∧ reply = .missing) →
        Run (RealisationWorld tracked outcome reply)
          (concludeRealisation app path hop misses' (asked + 1)) events response →
        FallbackEnd json crypto app id reply path
          (hop = .client ∧ misses = asked ∧ ∀ fallback, FallbackOf app fallback →
            reply = .missing)
          ([⟨.fetchRealisation (realisationRequest app path hop fallback.url), reply⟩] ++ events)
          response := by
      intro misses' huntrusted hcount hrest
      refine .of_conclude hrest ?_ (by simp [AsksFallback]) ?_
      · intro other hother
        rwa [honly other hother]
      · rw [hcount]
        constructor
        · rintro ⟨hclient, hmisses, hmissing⟩
          exact ⟨hclient, hmisses, hmissing fallback hfallback⟩
        · rintro ⟨hclient, hmisses, hmissing⟩
          exact ⟨hclient, hmisses, fun _ _ => hmissing⟩
    cases reply with
    | found contentType body =>
        dsimp only at h
        split at h
        · next htrusted =>
          obtain ⟨rfl, rfl⟩ := run_ret_iff.1 h
          exact .answered hfallback ⟨contentType, body, rfl, htrusted, rfl⟩
        · next huntrusted => exact hconclude misses huntrusted (by simp; omega) h
    | missing => exact hconclude (misses + 1) not_false (by simp) h
    | error err => exact hconclude misses not_false (by simp; omega) h
    | timeout => exact hconclude misses not_false (by simp; omega) h

/-! ## Whole lookups -/

/-- The upstreams that are not down, or all configured ones. -/
def upstreamUrlsOf (app : AppState) (tracked : List UpstreamHealth) : List Str :=
  let urls := (tracked.filter fun h => h.status ≠ .down).map UpstreamHealth.url
  if urls = [] then app.upstreams.map ServerUpstream.url else urls

/-- What is promised of a lookup that finds no live negative entry. -/
structure RealisationSpec (json : JsonReader) (crypto : Crypto) (app : AppState) (path : Str)
    (id : DrvOutput) (hop : Hop) (asked : List RealisationAttempt)
    (outcome : RealisationAttempt → Option FetchedRealisation)
    (fallbackOutcome : FetchedRealisation) (events : List RealisationEvent)
    (response : TypedResponse) : Prop where
  /-- The answer is `200` exactly when an upstream or the fallback cache has a trusted body. -/
  ok_iff : response.status = 200 ↔
    (∃ attempt ∈ asked,
      TrustedOutcome json crypto app.registry id attempt.upstream (outcome attempt)) ∨
    ∃ fallback, FallbackOf app fallback ∧
      TrustedOutcome json crypto app.registry id fallback.url (some fallbackOutcome)
  /-- The answer has such a body, and that of the fallback cache only if no upstream has one. -/
  trusted : response.status = 200 →
    (∃ attempt ∈ asked,
      RespondsWith json crypto app.registry id attempt.upstream .race response
        (outcome attempt)) ∨
    (∀ attempt ∈ asked,
      ¬TrustedOutcome json crypto app.registry id attempt.upstream (outcome attempt)) ∧
    ∃ fallback, FallbackOf app fallback ∧
      RespondsWith json crypto app.registry id fallback.url .fallback response
        (some fallbackOutcome)
  /-- When the fallback cache is asked, all upstreams have finished without a trusted body. -/
  fallback_last : ∀ before event later, events = before ++ event :: later → AsksFallback event →
    ∀ attempt ∈ asked, attempt ∈ joinedAttempts before ∧
      ¬TrustedOutcome json crypto app.registry id attempt.upstream (outcome attempt)
  /-- A miss is remembered exactly when a client asked and all who were asked said so. -/
  remembers_iff : Remembers path events ↔ hop = .client ∧ response.status ≠ 200 ∧
    (∀ attempt ∈ asked, outcome attempt = some .missing) ∧
    ∀ fallback, FallbackOf app fallback → fallbackOutcome = .missing
  /-- Nothing else is remembered. -/
  remembers : ∀ path' ttl reply, ⟨.shared (.dbSetNegative path' ttl), reply⟩ ∈ events →
    path' = path ∧ ttl = app.registry.negativeTtl

theorem RespondsWith.trustedOutcome {upstream : Str} {route : RouteKind} {reg : Registry}
    {response : TypedResponse} {result : Option FetchedRealisation}
    (h : RespondsWith json crypto reg id upstream route response result) :
    TrustedOutcome json crypto reg id upstream result := by
  obtain ⟨contentType, body, rfl, htrusted, -⟩ := h
  exact htrusted

theorem RespondsWith.status {upstream : Str} {route : RouteKind} {reg : Registry}
    {response : TypedResponse} {result : Option FetchedRealisation}
    (h : RespondsWith json crypto reg id upstream route response result) :
    response.status = 200 := by
  obtain ⟨contentType, body, -, -, rfl⟩ := h
  rfl

/-- The event neither remembers anything nor asks the fallback cache. -/
def AsksUpstreams : RealisationEvent → Prop
  | ⟨.shared (.dbSetNegative _ _), _⟩ => False
  | ⟨.fetchRealisation _, _⟩ => False
  | _ => True

theorem asksUpstreams_of_joinedAttempt {event : RealisationEvent}
    (h : (joinedAttempt event).isSome) : AsksUpstreams event := by
  obtain ⟨op, reply⟩ := event
  cases op with
  | joinRealisation pending => trivial
  | _ => cases h

theorem not_asksFallback {event : RealisationEvent} (h : AsksUpstreams event) :
    ¬AsksFallback event := by
  obtain ⟨op, reply⟩ := event
  cases op with
  | fetchRealisation request => exact h.elim
  | _ => exact id

/-- A lookup whose upstreams have a trusted body. -/
theorem RealisationSpec.of_upstream {asked : List RealisationAttempt} {response : TypedResponse}
    {attempt : RealisationAttempt} (hmem : attempt ∈ asked)
    (hresponds : RespondsWith json crypto app.registry id attempt.upstream .race response
      (outcome attempt))
    (hevents : ∀ event ∈ events, AsksUpstreams event) :
    RealisationSpec json crypto app path id hop asked outcome fallbackOutcome events response where
  ok_iff := iff_of_true hresponds.status (.inl ⟨attempt, hmem, hresponds.trustedOutcome⟩)
  trusted _ := .inl ⟨attempt, hmem, hresponds⟩
  fallback_last before event later heq hasks :=
    absurd hasks (not_asksFallback (hevents event (heq ▸ by simp)))
  remembers_iff := by
    refine iff_of_false ?_ fun hall => hall.2.1 hresponds.status
    rintro ⟨ttl, reply, hmem⟩
    exact hevents _ hmem
  remembers path' ttl reply hmem := (hevents _ hmem).elim

section

variable {remembered : Prop} {closing : List RealisationEvent} {response : TypedResponse}
  (h : FallbackEnd json crypto app id fallbackOutcome path remembered closing response)

include h

/-- The end is an answer exactly when the fallback cache has a trusted body. -/
theorem FallbackEnd.status_iff : response.status = 200 ↔ ∃ fallback, FallbackOf app fallback ∧
    TrustedOutcome json crypto app.registry id fallback.url (some fallbackOutcome) := by
  cases h with
  | @answered fallback response request hfallback hresponds =>
      exact iff_of_true hresponds.status ⟨fallback, hfallback, hresponds.trustedOutcome⟩
  | nothing huntrusted hasking hremembered hforgotten =>
      refine iff_of_false (by simp [TypedResponse.notFound, Response.notFound]) ?_
      rintro ⟨fallback, hfallback, htrusted⟩
      exact huntrusted fallback hfallback htrusted

theorem FallbackEnd.respondsWith (hstatus : response.status = 200) :
    ∃ fallback, FallbackOf app fallback ∧ RespondsWith json crypto app.registry id fallback.url
      .fallback response (some fallbackOutcome) := by
  cases h with
  | @answered fallback response request hfallback hresponds =>
      exact ⟨fallback, hfallback, hresponds⟩
  | nothing => cases hstatus

/-- What the end of a lookup remembers. -/
theorem FallbackEnd.of_mem {path' : Str} {ttl : Duration}
    {reply : (RealisationOp.shared (.dbSetNegative path' ttl)).Reply}
    (hmem : ⟨.shared (.dbSetNegative path' ttl), reply⟩ ∈ closing) :
    (path' = path ∧ ttl = app.registry.negativeTtl) ∧ remembered ∧ response.status ≠ 200 := by
  cases h with
  | answered hfallback hresponds => cases List.mem_singleton.1 hmem
  | @nothing asking last huntrusted hasking hremembered hforgotten =>
      rcases List.mem_append.1 hmem with hmem | hmem
      · exact (hasking _ hmem).elim
      · by_cases hyes : remembered
        · obtain ⟨reply', rfl⟩ := hremembered hyes
          cases List.mem_singleton.1 hmem
          exact ⟨⟨rfl, rfl⟩, hyes, nofun⟩
        · rw [hforgotten hyes] at hmem
          cases hmem

theorem FallbackEnd.remembers (hyes : remembered) (hstatus : response.status ≠ 200) :
    Remembers path closing := by
  cases h with
  | answered hfallback hresponds => exact absurd hresponds.status hstatus
  | nothing huntrusted hasking hremembered hforgotten =>
      obtain ⟨reply, rfl⟩ := hremembered hyes
      exact ⟨_, reply, by simp⟩

end

/-- The fallback cache is asked when all other requests have ended. -/
theorem joinedAttempts_before {asked : List RealisationAttempt}
    {closing before later : List RealisationEvent} {event : RealisationEvent}
    (hevents : ∀ event ∈ events, AsksUpstreams event)
    (hjoined : ∀ attempt ∈ asked, attempt ∈ joinedAttempts events)
    (heq : events ++ closing = before ++ event :: later) (hasks : AsksFallback event) :
    ∀ attempt ∈ asked, attempt ∈ joinedAttempts before := by
  intro attempt hmem
  rcases List.append_eq_append_iff.1 heq with ⟨more, rfl, -⟩ | ⟨more, hmore, hrest⟩
  · exact List.filterMap_subset _ (List.subset_append_left _ _) (hjoined attempt hmem)
  · cases more with
    | nil =>
        rw [List.append_nil] at hmore
        exact hmore ▸ hjoined attempt hmem
    | cons first more =>
        obtain rfl : event = first := (List.cons.inj hrest).1
        exact absurd hasks (not_asksFallback (hevents event (hmore ▸ by simp)))

/-- A lookup whose upstreams have nothing. -/
theorem RealisationSpec.of_fallback {asked : List RealisationAttempt} {response : TypedResponse}
    {closing : List RealisationEvent}
    (huntrusted : ∀ attempt ∈ asked,
      ¬TrustedOutcome json crypto app.registry id attempt.upstream (outcome attempt))
    (hevents : ∀ event ∈ events, AsksUpstreams event)
    (hjoined : ∀ attempt ∈ asked, attempt ∈ joinedAttempts events)
    (hend : FallbackEnd json crypto app id fallbackOutcome path
      (hop = .client ∧ missCount outcome asked = asked.length ∧ ∀ fallback,
        FallbackOf app fallback → fallbackOutcome = .missing) closing response) :
    RealisationSpec json crypto app path id hop asked outcome fallbackOutcome
      (events ++ closing) response where
  ok_iff := by
    rw [hend.status_iff, or_iff_right]
    rintro ⟨attempt, hmem, htrusted⟩
    exact huntrusted attempt hmem htrusted
  trusted hstatus := .inr ⟨huntrusted, hend.respondsWith hstatus⟩
  fallback_last before event later heq hasks attempt hmem :=
    ⟨joinedAttempts_before hevents hjoined heq hasks attempt hmem, huntrusted attempt hmem⟩
  remembers_iff := by
    have hall : missCount outcome asked = asked.length ↔
        ∀ attempt ∈ asked, outcome attempt = some .missing := by
      simp [missCount, List.countP_eq_length]
    rw [← hall]
    constructor
    · rintro ⟨ttl, reply, hmem⟩
      rcases List.mem_append.1 hmem with hmem | hmem
      · exact (hevents _ hmem).elim
      · obtain ⟨-, ⟨hclient, hmissed⟩, hstatus⟩ := hend.of_mem hmem
        exact ⟨hclient, hstatus, hmissed⟩
    · rintro ⟨hclient, hstatus, hmissed⟩
      obtain ⟨ttl, reply, hmem⟩ := hend.remembers ⟨hclient, hmissed⟩ hstatus
      exact ⟨ttl, reply, List.mem_append_right _ hmem⟩
  remembers path' ttl reply hmem := by
    rcases List.mem_append.1 hmem with hmem | hmem
    · exact (hevents _ hmem).elim
    · exact (hend.of_mem hmem).1

theorem run_spawnRealisations {allowed : (op : RealisationOp) → op.Reply → Prop}
    {attempts : List RealisationAttempt}
    (h : Run allowed (spawnRealisations app path hop attempts) events ()) :
    ∀ event ∈ events, AsksUpstreams event := by
  induction attempts generalizing events with
  | nil =>
      obtain ⟨rfl, -⟩ := run_ret_iff.1 h
      simp
  | cons attempt attempts ih =>
      obtain ⟨reply, tail, rfl, -, h⟩ := run_call_bind_iff.1 h
      exact List.forall_mem_cons.2 ⟨trivial, ih h⟩

theorem run_realisation (hhop : hop ≠ .peerOfPeer) {response : TypedResponse}
    (h : Run (RealisationWorld tracked outcome fallbackOutcome)
      (realisation json crypto app path id hop) events response) :
    RealisationSpec json crypto app path id hop
      (realisationAttempts app (upstreamUrlsOf app tracked)) outcome fallbackOutcome events
      response := by
  rw [realisation, if_neg hhop] at h
  obtain ⟨negative, events, rfl, hnegative, h⟩ := run_call_bind_iff.1 h
  have hlookup : Run (RealisationWorld tracked outcome fallbackOutcome) (do
      let urls ← (upstreamUrls app).translate RealisationOp.shared fun _ reply => reply
      let attempts := realisationAttempts app urls
      spawnRealisations app path hop attempts
      match ← joinRealisations json crypto app id attempts 0 with
      | .inl response => return response
      | .inr misses => fallbackRealisation json crypto app path id hop misses attempts.length)
      events response := by
    split at h
    · exact absurd rfl hnegative
    · exact h
  obtain ⟨sorted, events, rfl, hsorted, h⟩ := run_call_bind_iff.1 hlookup
  obtain rfl : sorted = tracked := hsorted
  obtain ⟨spawning, _, events, rfl, hspawning, h⟩ := run_bind_iff.1 h
  obtain ⟨joining, result, closing, rfl, hjoining, h⟩ := run_bind_iff.1 h
  obtain ⟨hend, hjoins⟩ := run_joinRealisations hjoining
  have hopening : ∀ event ∈ (⟨.shared (.dbIsNegative path), negative⟩ ::
      ⟨.shared .sortedByLatency, sorted⟩ :: (spawning ++ joining) : List RealisationEvent),
      AsksUpstreams event := by
    refine List.forall_mem_cons.2 ⟨trivial, List.forall_mem_cons.2 ⟨trivial, ?_⟩⟩
    exact List.forall_mem_append.2 ⟨run_spawnRealisations hspawning,
      fun event hmem => asksUpstreams_of_joinedAttempt (hjoins event hmem)⟩
  cases result with
  | inl answer =>
      obtain ⟨rfl, rfl⟩ := run_ret_iff.1 h
      obtain ⟨attempt, hmem, hresponds⟩ := hend
      rw [List.append_nil]
      exact .of_upstream hmem hresponds hopening
  | inr misses =>
      obtain ⟨rfl, huntrusted, hjoined⟩ := hend
      rw [Nat.zero_add] at h
      have hfallback := run_fallbackRealisation List.countP_le_length h
      have hspec := RealisationSpec.of_fallback huntrusted hopening (fun attempt hmem => ?_)
        hfallback
      · rwa [List.cons_append, List.cons_append, List.append_assoc] at hspec
      · apply List.filterMap_subset _ _ (hjoined.mem_iff.2 hmem)
        intro event hevent
        simp [hevent]

/-- There is something to wait for. -/
def Waits : RealisationOp → Prop
  | .joinRealisation pending => pending ≠ []
  | _ => True

theorem waits_joinRealisations {pending : List RealisationAttempt} {misses : ℕ} :
    Performs Waits (joinRealisations json crypto app id pending misses) := by
  induction hlength : pending.length generalizing pending misses with
  | zero =>
      rw [joinRealisations, if_pos (List.length_eq_zero_iff.1 hlength)]
      trivial
  | succ n ih =>
      have hne : pending ≠ [] := List.ne_nil_of_length_eq_add_one hlength
      rw [joinRealisations, if_neg hne]
      refine ⟨hne, fun joined => ?_⟩
      have herase : (pending.eraseIdx joined.1).length = n := by
        rw [List.length_eraseIdx_of_lt joined.1.isLt]
        omega
      obtain ⟨i, fetched⟩ := joined
      match fetched with
      | some (.found contentType body) =>
          change Performs Waits (ite _ _ _)
          split
          · trivial
          · exact ih herase
      | some .missing => exact ih herase
      | some (.error err) => exact ih herase
      | some .timeout => exact ih herase
      | none => exact ih herase

theorem waits_concludeRealisation {misses asked : ℕ} :
    Performs Waits (concludeRealisation app path hop misses asked) := by
  unfold concludeRealisation
  split
  · exact ⟨trivial, fun _ => trivial⟩
  · trivial

theorem waits_realisation : Performs Waits (realisation json crypto app path id hop) := by
  have hspawn : ∀ attempts, Performs Waits (spawnRealisations app path hop attempts) := by
    intro attempts
    induction attempts with
    | nil => trivial
    | cons attempt attempts ih => exact ⟨trivial, fun _ => ih⟩
  have hfallback : ∀ misses asked,
      Performs Waits (fallbackRealisation json crypto app path id hop misses asked) := by
    intro misses asked
    unfold fallbackRealisation
    split
    · exact waits_concludeRealisation
    · refine ⟨trivial, fun fetched => ?_⟩
      match fetched with
      | .found contentType body =>
          change Performs Waits (ite _ _ _)
          split
          · trivial
          · exact waits_concludeRealisation
      | .missing => exact waits_concludeRealisation
      | .error err => exact waits_concludeRealisation
      | .timeout => exact waits_concludeRealisation
  unfold realisation
  split
  · trivial
  have hlookup : Performs Waits (do
      let urls ← (upstreamUrls app).translate RealisationOp.shared fun _ reply => reply
      let attempts := realisationAttempts app urls
      spawnRealisations app path hop attempts
      match ← joinRealisations json crypto app id attempts 0 with
      | .inl response => return response
      | .inr misses => fallbackRealisation json crypto app path id hop misses attempts.length) := by
    refine ⟨trivial, fun sorted => (hspawn _).bind fun _ => ?_⟩
    refine waits_joinRealisations.bind fun result => ?_
    cases result with
    | inl response => trivial
    | inr misses => exact hfallback misses _
  refine ⟨trivial, fun negative => ?_⟩
  match negative with
  | .ok true => trivial
  | .ok false => exact hlookup
  | .error err => exact hlookup

variable (json crypto app path id hop tracked outcome fallbackOutcome) in
/-- Whatever the outcomes are, a lookup can be completed. -/
theorem exists_run_realisation :
    ∃ events response, Run (RealisationWorld tracked outcome fallbackOutcome)
      (realisation json crypto app path id hop) events response := by
  apply waits_realisation.exists_run
  intro op hop
  cases op with
  | joinRealisation pending =>
      let i : Fin pending.length := ⟨0, List.length_pos_iff.2 hop⟩
      exact ⟨(i, outcome (pending.get i)), rfl⟩
  | fetchRealisation request => exact ⟨fallbackOutcome, rfl⟩
  | spawnRealisation attempt request => exact ⟨(), trivial⟩
  | shared op =>
      cases op with
      | dbIsNegative path => exact ⟨.ok false, by simp [RealisationWorld]⟩
      | sortedByLatency => exact ⟨tracked, rfl⟩
      | joinHead pending => exact ⟨none, trivial⟩
      | selectNar pending timer => exact ⟨default, trivial⟩
      | _ => exact ⟨default, trivial⟩

end

/-! ## Conclusion -/

/-- Looking up a realisation is complete, trusted and safe for negative entries: a client's or a
peer's lookup that finds no live negative entry comes to an end and meets `RealisationSpec`,
and a lookup for a peer of a peer does nothing. -/
theorem realisation_lookup (json : JsonReader) (crypto : Crypto) (app : AppState) (path : Str)
    (id : DrvOutput) (tracked : List UpstreamHealth)
    (outcome : RealisationAttempt → Option FetchedRealisation)
    (fallbackOutcome : FetchedRealisation) :
    (∀ hop, hop ≠ .peerOfPeer →
      (∃ events response, Run (RealisationWorld tracked outcome fallbackOutcome)
        (realisation json crypto app path id hop) events response) ∧
      ∀ events response, Run (RealisationWorld tracked outcome fallbackOutcome)
        (realisation json crypto app path id hop) events response →
        RealisationSpec json crypto app path id hop
          (realisationAttempts app (upstreamUrlsOf app tracked)) outcome fallbackOutcome events
          response) ∧
    ∀ allowed events response,
      Run allowed (realisation json crypto app path id .peerOfPeer) events response →
      events = [] ∧ response = .notFound := by
  refine ⟨fun hop hhop => ⟨?_, fun events response h => run_realisation hhop h⟩,
    fun allowed events response h => ?_⟩
  · exact exists_run_realisation json crypto app id tracked outcome fallbackOutcome path hop
  · obtain ⟨rfl, rfl⟩ := run_ret_iff.1 h
    exact ⟨rfl, rfl⟩

/-- An upstream times out, and the fallback cache has the realisation. -/
theorem realisation_lookup_fallback :
    ∃ events response, RealisationSpec ⟨fun _ => none, fun _ => none⟩ default
      { (default : AppState) with fallbackCache := some ⟨['f'], true, true⟩ } ['p'] .legacy .client
      [⟨0, ['u']⟩] (fun _ => some .timeout) (.found none []) events response ∧
      response.status = 200 := by
  have hall := realisation_lookup ⟨fun _ => none, fun _ => none⟩ default
    { (default : AppState) with fallbackCache := some ⟨['f'], true, true⟩ } ['p'] .legacy
    [.new ['u'] 0] (fun _ => some .timeout) (.found none [])
  obtain ⟨⟨events, response, hrun⟩, hspec⟩ := hall.1 .client (by decide)
  have hmeets := hspec events response hrun
  refine ⟨events, response, hmeets, hmeets.ok_iff.2 (.inr ⟨_, ⟨rfl, rfl⟩, ?_⟩)⟩
  rfl

end Ncro
