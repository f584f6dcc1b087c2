import Ncro.Network.Forwarding
import Ncro.Server.Hedging

/-!
# NAR requests between instances

A request for a NAR carries no hop, and an instance that has no route for it asks
every upstream that is not down. Instances that know each other as upstreams
pass such a request on for ever. As long as the instances know no cycle of
upstreams, no chain of NAR requests comes to an instance twice.
-/

namespace Ncro

open Foundation Foundation.Process

/-! ## The NAR requests of a handler -/

/-- The NAR requests an operation sends. -/
def Op.sentNar : Op → List UpstreamRequest
  | .spawnNar _ request => [request]
  | .sendNar request => [request]
  | _ => []

/-- Every NAR request the operation sends goes to one of some upstreams. -/
def AsksOnly (urls : Str → Prop) (op : Op) : Prop :=
  ∀ request ∈ op.sentNar, urls request.upstream

theorem asksOnly_of_sentNar_eq_nil {urls : Str → Prop} {op : Op} (h : op.sentNar = []) :
    AsksOnly urls op := by
  intro request hrequest
  rw [h] at hrequest
  cases hrequest

section Footprint

variable {crypto : Crypto} {app : AppState} {method : Method} {headers : HeaderMap}
  {urls : Str → Prop}

theorem asksOnly_spawnNar {candidate : NarCandidate} (h : urls candidate.upstream) :
    AsksOnly urls (.spawnNar candidate (narRequest app method headers candidate)) := by
  intro request hrequest
  obtain rfl := List.mem_singleton.1 hrequest
  exact h

theorem performs_hedgedNar_asksOnly {initial : NarCandidate} {candidates : List NarCandidate}
    (hinitial : urls initial.upstream)
    (hcandidates : ∀ candidate ∈ candidates, urls candidate.upstream) :
    Performs (AsksOnly urls) (hedgedNar app method headers initial candidates) :=
  performs_hedgedNar (fun _ _ => asksOnly_of_sentNar_eq_nil rfl) (asksOnly_spawnNar hinitial)
    fun candidate hcandidate => asksOnly_spawnNar (hcandidates candidate hcandidate)

/-- Looking for candidates sends no NAR request. -/
theorem performs_hedgeCandidates_asksOnly (storeHash : Option Str) (path skip : Str)
    (includeHedgingOptOuts : Bool) (expectedNarinfo : Option NarInfo) :
    Performs (AsksOnly urls) (hedgeCandidates crypto app storeHash path skip includeHedgingOptOuts
      expectedNarinfo) :=
  performs_hedgeCandidates (asksOnly_of_sentNar_eq_nil rfl) fun _ _ _ =>
    asksOnly_of_sentNar_eq_nil rfl

end Footprint

/-! ## What an instance knows -/

section Known

variable {crypto : Crypto} {app : AppState} {known : Str → Prop} {request : ClientRequest}
  {events : List HandlerEvent}

/-- The prober tracks known upstreams only, and routes name known upstreams. -/
def KnownReplies (known : Str → Prop) : (op : Op) → op.Reply → Prop
  | .sortedByLatency, sorted => ∀ health ∈ sorted, known health.url
  | .dbGetRouteByNarUrl _, reply => ∀ entry, reply = .ok (some entry) → known entry.upstreamUrl
  | _, _ => True

theorem exists_knownReply (known : Str → Prop) (op : Op) : ∃ reply, KnownReplies known op reply := by
  cases op with
  | sortedByLatency => exact ⟨[], by simp [KnownReplies]⟩
  | dbGetRouteByNarUrl narUrl => exact ⟨.ok none, fun _ h => by cases h⟩
  | _ => exact ⟨default, trivial⟩

/-- The upstreams that an instance may ask for a NAR. -/
def MayAsk (app : AppState) (known : Str → Prop) (url : Str) : Prop :=
  known url ∨ ∃ fallback, app.fallbackCache = some fallback ∧ fallback.url = url

theorem run_hedgeCandidates_known {storeHash : Option Str} {path skip : Str}
    {includeHedgingOptOuts : Bool} {expectedNarinfo : Option NarInfo}
    {candidates : List NarCandidate}
    (h : Run (KnownReplies known) (hedgeCandidates crypto app storeHash path skip
      includeHedgingOptOuts expectedNarinfo) events candidates) :
    ∀ candidate ∈ candidates, MayAsk app known candidate.upstream := by
  intro candidate hcandidate
  obtain ⟨sorted, hsorted, horder⟩ := run_hedgeCandidates_popOrder h
  obtain ⟨health, hhealth, -, hurl⟩ := horder.exists_health hcandidate
  have hknown : ∀ health ∈ sorted, known health.url := h.allowed_of_mem _ hsorted
  exact .inl (hurl ▸ hknown health hhealth)

/-- A hedged request whose candidates were looked for asks only upstreams that
the instance may ask. -/
theorem run_hedged_asksOnly {find : Handler (List NarCandidate)}
    {hedge : List NarCandidate → Handler HedgeOutcome} {outcome : HedgeOutcome}
    (hquiet : Performs (AsksOnly (MayAsk app known)) find)
    (hhedge : ∀ {found candidates}, Run (KnownReplies known) find found candidates →
      Performs (AsksOnly (MayAsk app known)) (hedge candidates))
    (h : Run (KnownReplies known) (find >>= hedge) events outcome) :
    ∀ event ∈ events, AsksOnly (MayAsk app known) event.1 := by
  obtain ⟨found, candidates, hedged, rfl, hfound, h⟩ := run_bind_iff.1 h
  intro event hevent
  rcases List.mem_append.1 hevent with hevent | hevent
  · exact hfound.performs hquiet event hevent
  · exact h.performs (hhedge hfound) event hevent

theorem run_tryRouted_asksOnly {entry : RouteEntry} (hentry : known entry.upstreamUrl)
    {outcome : HedgeOutcome}
    (h : Run (KnownReplies known) (tryRouted crypto app request entry) events outcome) :
    ∀ event ∈ events, AsksOnly (MayAsk app known) event.1 := by
  refine run_hedged_asksOnly ?_ (fun {found candidates} hfound => ?_) h
  · split
    · exact performs_hedgeCandidates_asksOnly _ _ _ _ _
    · trivial
  · refine performs_hedgedNar_asksOnly (.inl hentry) fun candidate hcandidate => ?_
    split at hfound
    · exact run_hedgeCandidates_known hfound candidate hcandidate
    · rw [← (run_ret_iff.1 hfound).2] at hcandidate
      cases hcandidate

theorem run_tryUnrouted_asksOnly {outcome : HedgeOutcome}
    (h : Run (KnownReplies known) (tryUnrouted crypto app request) events outcome) :
    ∀ event ∈ events, AsksOnly (MayAsk app known) event.1 := by
  refine run_hedged_asksOnly (performs_hedgeCandidates_asksOnly _ _ _ _ _)
    (fun {found candidates} hfound => ?_) h
  have hknown := run_hedgeCandidates_known hfound
  split
  · trivial
  · next initial hinitial =>
    refine performs_hedgedNar_asksOnly (hknown initial (List.mem_of_getLast? hinitial))
      fun candidate hcandidate => ?_
    exact hknown candidate ((List.dropLast_sublist _).subset (List.mem_filter.1 hcandidate).1)

/-- The route for a path names a known upstream. -/
theorem run_routedNar_known {routed : Option RouteEntry}
    (h : Run (KnownReplies known) (routedNar request) events routed) :
    (∀ event ∈ events, AsksOnly (MayAsk app known) event.1) ∧
      ∀ entry, routed = some entry → known entry.upstreamUrl := by
  have hquiet : Performs (AsksOnly (MayAsk app known)) (routedNar request) := by
    refine ⟨asksOnly_of_sentNar_eq_nil rfl, fun row => ?_⟩
    match row with
    | .ok (some entry) => exact ⟨asksOnly_of_sentNar_eq_nil rfl, fun _ => trivial⟩
    | .ok none => trivial
    | .error err => trivial
  refine ⟨h.performs hquiet, fun entry hentry => ?_⟩
  obtain ⟨row, tail, rfl, hrow, h⟩ := run_call_bind_iff.1 h
  match row with
  | .error err =>
      rw [← (run_ret_iff.1 h).2] at hentry
      cases hentry
  | .ok none =>
      rw [← (run_ret_iff.1 h).2] at hentry
      cases hentry
  | .ok (some found) =>
      obtain ⟨now, _, rfl, -, h⟩ := run_call_bind_iff.1 h
      rw [← (run_ret_iff.1 h).2] at hentry
      have hfound : found = entry := by
        split at hentry
        · exact Option.some.inj hentry
        · cases hentry
      exact hrow entry (by rw [hfound])

theorem performs_tryFallbackNar :
    Performs (AsksOnly (MayAsk app known)) (tryFallbackNar app request) := by
  unfold tryFallbackNar
  split
  · trivial
  · next fallback hfallback =>
    refine ⟨fun sent hsent => ?_, fun _ => trivial⟩
    obtain rfl := List.mem_singleton.1 hsent
    exact .inr ⟨fallback, hfallback, rfl⟩

/-- The NAR requests an instance sends go to upstreams that it may ask. -/
theorem run_nar_asksOnly {response : Option Response}
    (h : Run (KnownReplies known) (nar crypto app request) events response) :
    ∀ event ∈ events, AsksOnly (MayAsk app known) event.1 := by
  obtain ⟨attempts, outcome, last, rfl, hattempts, h⟩ := run_bind_iff.1 h
  obtain ⟨routing, routed, tried, rfl, hrouting, hattempts⟩ := run_bind_iff.1 hattempts
  obtain ⟨hquiet, hknown⟩ := run_routedNar_known hrouting
  intro event hevent
  simp only [List.mem_append] at hevent
  rcases hevent with (hevent | hevent) | hevent
  · exact hquiet event hevent
  · cases routed with
    | some entry => exact run_tryRouted_asksOnly (hknown entry rfl) hattempts event hevent
    | none => exact run_tryUnrouted_asksOnly hattempts event hevent
  · cases outcome with
    | answered response =>
        rw [(run_ret_iff.1 h).1] at hevent
        cases hevent
    | allDisabled =>
        rw [(run_ret_iff.1 h).1] at hevent
        cases hevent
    | exhausted =>
        have hlast : Performs (AsksOnly (MayAsk app known))
            (tryFallbackNar app request >>= fun response => (return some response)) :=
          performs_tryFallbackNar.bind fun _ => trivial
        exact h.performs hlast event hevent

/-! ## Requests that are passed on -/

/-- A request for a NAR by a path that is not canonical. -/
def plainRequest : ClientRequest := ⟨.get, "/nar/x".toList, [], []⟩

/-- The request it is passed on as. -/
def plainSent (app : AppState) (url : Str) : UpstreamRequest where
  upstream := url
  method := .get
  path := "/nar/x".toList
  headers := []
  timeout := some (app.narTimeout url)

variable (known) in
theorem run_routedNar_plain :
    Run (KnownReplies known) (routedNar plainRequest)
      [⟨.dbGetRouteByNarUrl "nar/x".toList, .ok none⟩] none :=
  .perform (fun _ h => by cases h) (.ret _)

variable (crypto app) in
/-- How the request is tried. -/
theorem tryUnrouted_plain :
    tryUnrouted crypto app plainRequest = (do
      let candidates ← hedgeCandidates crypto app none "/nar/x".toList [] true none
      match candidates.getLast? with
      | none => return .exhausted
      | some initial =>
          hedgedNar app .get [] { initial with route := .direct }
            (candidates.dropLast.filter fun candidate => hedgeAllowed app candidate.upstream)) := by
  have hplain : storeHashFromCanonicalNarUrl (plainRequest.path.dropWhile (· = '/')) = none := by
    decide
  unfold tryUnrouted
  rw [hplain]
  rfl

/-- A path without a route is asked for at any known upstream. -/
theorem may_send_plain_known {url : Str} (hurl : known url) (hne : url ≠ []) :
    May (KnownReplies known) (fun event => plainSent app url ∈ event.1.sentNar)
      (nar crypto app plainRequest) := by
  have hfilter : [UpstreamHealth.new url 0].filter (hedgeEligible app [] true)
      = [UpstreamHealth.new url 0] := by
    simp [hedgeEligible, UpstreamHealth.new, hne]
  have hsorted : KnownReplies known .sortedByLatency [UpstreamHealth.new url 0] := by
    intro health hhealth
    rw [List.mem_singleton.1 hhealth]
    exact hurl
  have hcandidates : Run (KnownReplies known)
      (hedgeCandidates crypto app none "/nar/x".toList [] true none)
      [⟨.sortedByLatency, [UpstreamHealth.new url 0]⟩] [⟨url, "/nar/x".toList, .hedge⟩] := by
    refine .perform hsorted ?_
    show Run _ (candidatesAmong crypto app none "/nar/x".toList none
      ((groupByKey UpstreamHealth.priority ([UpstreamHealth.new url 0].filter
        (hedgeEligible app [] true))).flatMap Prod.snd) >>= _) _ _
    rw [hfilter]
    exact .ret _
  refine May.bind (exists_knownReply known) (.after (run_routedNar_plain known) ?_)
  show May _ _ (tryUnrouted crypto app plainRequest)
  rw [tryUnrouted_plain]
  refine .after hcandidates (May.bind (exists_knownReply known) (may_call (r := ()) trivial ?_))
  exact List.mem_singleton.2 rfl

/-- When no upstream is left, the fallback cache is asked. -/
theorem may_send_plain_fallback {fallback : ServerUpstream}
    (hfallback : app.fallbackCache = some fallback) :
    May (KnownReplies known) (fun event => plainSent app fallback.url ∈ event.1.sentNar)
      (nar crypto app plainRequest) := by
  have hsorted : KnownReplies known .sortedByLatency [] := by simp [KnownReplies]
  have htried : Run (KnownReplies known) (tryUnrouted crypto app plainRequest)
      [⟨.sortedByLatency, []⟩] .exhausted := by
    rw [tryUnrouted_plain]
    exact .perform hsorted (.ret _)
  refine .after (run_bind_iff.2 ⟨_, _, _, rfl, run_routedNar_plain known, htried⟩) ?_
  have hask : May (KnownReplies known) (fun event => plainSent app fallback.url ∈ event.1.sentNar)
      (tryFallbackNar app plainRequest) := by
    unfold tryFallbackNar
    rw [hfallback]
    exact May.bind (exists_knownReply known) (may_call (r := .missing) trivial
      (List.mem_singleton.2 rfl))
  exact hask.bind (exists_knownReply known)

end Known

/-! ## Networks -/

namespace Network

variable {ι : Type} (crypto : Crypto) (net : Network ι) (known : ι → Str → Prop)

/-- Serving a NAR request, an instance may send another one. The upstreams it
knows are those that its prober tracks and that its routes name. -/
def SendsNar (i : ι) (request : ClientRequest) (sent : UpstreamRequest) : Prop :=
  May (KnownReplies (known i)) (fun event => sent ∈ event.1.sentNar)
    (nar crypto (net.app i) request)

/-- Whether a request is one for the NAR handler. -/
def servesNar (request : ClientRequest) : Bool :=
  "/nar/".toList.isPrefixOf request.path && request.path ≠ "/nar/".toList

/-- A NAR request served by one instance causes a NAR request served by
another. -/
def ForwardsNar (served caused : ι × ClientRequest) : Prop :=
  ∃ sent, net.SendsNar crypto known served.1 served.2 sent ∧
    net.instanceAt sent.upstream = some caused.1 ∧ caused.2 = sent.received ∧
    servesNar caused.2 = true

/-- An instance knows another one as an upstream, or has it as its fallback
cache. -/
def Knows (i j : ι) : Prop :=
  ∃ url, MayAsk (net.app i) (known i) url ∧ net.instanceAt url = some j

variable {crypto net known} {i j : ι}

/-- NAR requests go along the upstreams that instances know. -/
theorem ForwardsNar.knows {served caused : ι × ClientRequest}
    (h : net.ForwardsNar crypto known served caused) : net.Knows known served.1 caused.1 := by
  obtain ⟨sent, ⟨events, response, hrun, event, hevent, hsent⟩, hat, -⟩ := h
  exact ⟨sent.upstream, run_nar_asksOnly hrun event hevent sent hsent, hat⟩

/-- A request for a path without a route may go along each of them. -/
theorem Knows.forwardsNar (h : net.Knows known i j) :
    net.ForwardsNar crypto known (i, plainRequest) (j, plainRequest) := by
  obtain ⟨url, hask, hat⟩ := h
  have hne : url ≠ [] := by
    rintro rfl
    rw [net.instanceAt_nil] at hat
    cases hat
  have hreceived : plainRequest = (plainSent (net.app i) url).received := by
    unfold UpstreamRequest.received plainSent
    rfl
  have hserves : servesNar plainRequest = true := by decide
  refine ⟨plainSent (net.app i) url, ?_, hat, hreceived, hserves⟩
  rcases hask with hknown | ⟨fallback, hfallback, rfl⟩
  · exact may_send_plain_known hknown hne
  · exact may_send_plain_fallback hfallback

end Network

/-- Bounded NAR forwarding. In every finite network, whatever the instances reply
to each other and in whatever state their probers and route tables are, no chain
of nested NAR requests asks an instance for a path again, and every chain is
bounded, exactly when the instances know no cycle of upstreams. -/
theorem nar_forwarding (crypto : Crypto) {ι : Type} [Fintype ι] (net : Network ι)
    (known : ι → Str → Prop) :
    (∀ chain : List (ι × ClientRequest), chain.IsChain (net.ForwardsNar crypto known) →
      (chain.map fun served => (served.1, served.2.path ++ served.2.query)).Nodup ∧
        chain.length ≤ Fintype.card ι) ↔
    Acyclic (net.Knows known) := by
  constructor
  · intro hchains i hcycle
    have hcycle' : Relation.TransGen (net.ForwardsNar crypto known) (i, plainRequest)
        (i, plainRequest) := hcycle.lift (·, plainRequest) fun _ _ h => h.forwardsNar
    obtain ⟨chain, hchain⟩ := exists_chain_of_transGen hcycle'
    have hnodup := (hchains _ hchain).1
    simp at hnodup
  · intro hacyclic chain hchain
    have hinstances : (chain.map Prod.fst).IsChain (net.Knows known) :=
      (List.isChain_map _).2 (hchain.imp fun _ _ h => h.knows)
    refine ⟨?_, ?_⟩
    · refine List.Nodup.of_map Prod.fst ?_
      rw [List.map_map]
      exact hacyclic.nodup hinstances
    · rw [← List.length_map Prod.fst]
      exact hacyclic.length_le_card hinstances

/-- Each of the two instances has the other for its only upstream. -/
def crossedUpstreams (i : Bool) (url : Str) : Prop :=
  url = if i then ['a'] else ['b']

/-- A request that nobody has a route for comes back to the first instance. -/
theorem nar_request_returns :
    ∃ chain : List (Bool × ClientRequest),
      chain.IsChain (twoInstances.ForwardsNar default crossedUpstreams) ∧
        ¬(chain.map fun served => (served.1, served.2.path ++ served.2.query)).Nodup := by
  have hknows : ∀ i, twoInstances.Knows crossedUpstreams i (!i) := by
    intro i
    refine ⟨if i then ['a'] else ['b'], .inl rfl, ?_⟩
    cases i <;> decide
  refine ⟨[(false, plainRequest), (true, plainRequest), (false, plainRequest)], ?_, by decide⟩
  simpa using ⟨(hknows false).forwardsNar, (hknows true).forwardsNar⟩

end Ncro
