import Ncro.Server.NarFilters

/-!
# Where a NAR comes from

A NAR request starts attempts at several upstreams, and answers with the first response. For
a canonical path the narinfo of every upstream is read again before it is attempted, so that
what a client is sent is the NAR that this upstream publishes for the hash, and, when a row
routes the path, one that agrees with the row's narinfo: `nar_accounted`. It holds whatever
the row, the prober and the upstreams reply, and whatever finishes first or panics.
-/

namespace Ncro

open Foundation Foundation.Process

section

variable (crypto : Crypto) (app : AppState) (request : ClientRequest) (events : List HandlerEvent)

/-! ## Origins of attempts -/

/-- The lookup of the path's row has found a live row, or none. -/
def RoutedBy (found : Option RouteEntry) : Prop :=
  ∃ routed now,
    (⟨.dbGetRouteByNarUrl (request.path.dropWhile (· = '/')), routed⟩ : HandlerEvent) ∈ events ∧
    (∀ entry, routed = .ok (some entry) → (⟨.timestampNow, now⟩ : HandlerEvent) ∈ events) ∧
    found = liveRoute routed now

/-- The prober has listed an upstream that may be a candidate. -/
def Considered (skip : Str) (includeHedgingOptOuts : Bool) (url : Str) : Prop :=
  ∃ sorted, (⟨.sortedByLatency, sorted⟩ : HandlerEvent) ∈ events ∧
    ∃ health ∈ sorted, hedgeEligible app skip includeHedgingOptOuts health = true ∧
      health.url = url

/-- An upstream was asked for its narinfo of the hash again. What it replied passes every
check, and it is where the NAR's path is from. -/
structure Reread (path : Str) (expectedNarinfo : Option NarInfo) (upstream narPath hash : Str)
    (body : Octets) (parsed : NarInfo) : Prop where
  replied : (⟨.getBytes (narinfoRequest app.registry upstream hash .client),
    .ok (some body)⟩ : HandlerEvent) ∈ events
  verified : Verified crypto app.registry upstream body parsed
  allows : app.registry.allows upstream parsed = true
  compression : ∀ expected, compressionForNarUrl path = some expected →
    parsed.compression = expected
  same : ∀ expected, expectedNarinfo = some expected → sameNar parsed expected = true
  narPath_eq : narPath = '/' :: relativeNarUrl parsed.url

/-- The path at an upstream is where it publishes the NAR of the hash. A path without a hash
is asked for as it is. -/
def Located (path : Str) (expectedNarinfo : Option NarInfo) (upstream narPath : Str) :
    Option Str → Prop
  | none => narPath = path
  | some hash => ∃ body parsed,
      Reread crypto app events path expectedNarinfo upstream narPath hash body parsed

/-- What a request may attempt. -/
inductive AttemptOrigin : NarCandidate → Prop
  /-- The upstream that a live row names, at the path that the row keeps. -/
  | routed {entry : RouteEntry} (hfound : RoutedBy request events (some entry)) :
      AttemptOrigin ⟨entry.upstreamUrl,
        if entry.upstreamNarUrl = [] then request.path ++ request.query else entry.upstreamNarUrl,
        .cacheHit⟩
  /-- Another upstream, which agrees with the row's narinfo. -/
  | hedged {entry : RouteEntry} {expected : NarInfo} {url narPath : Str}
      (hfound : RoutedBy request events (some entry))
      (hexpected : entry.expectedNarinfo = some expected)
      (hconsidered : Considered app events entry.upstreamUrl false url)
      (hlocated : Located crypto app events (request.path ++ request.query) (some expected) url
        narPath (requestedHash request)) :
      AttemptOrigin ⟨url, narPath, .hedge⟩
  /-- Without a live row, any upstream: only the first one may have opted out of hedging. -/
  | unrouted {url narPath : Str} {route : RouteKind} (hfound : RoutedBy request events none)
      (hroute : route = .direct ∨ route = .hedge)
      (hconsidered : Considered app events [] (route = .direct) url)
      (hlocated : Located crypto app events (request.path ++ request.query) none url narPath
        (requestedHash request)) :
      AttemptOrigin ⟨url, narPath, route⟩

/-- The last resort: the fallback cache's response, or `404`. -/
def AnsweredByFallback (response : Response) : Prop :=
  response = .notFound ∨ ∃ fallback candidate answer, app.fallbackCache = some fallback ∧
    candidate = (⟨fallback.url, request.path ++ request.query, .fallback⟩ : NarCandidate) ∧
    (⟨.sendNar (narRequest app request.method request.headers candidate), answer⟩ :
      HandlerEvent) ∈ events ∧
    narResponse request.method candidate answer = some response

/-- An account of a NAR request. -/
structure NarAccount (response : Response) : Prop where
  started : ∀ candidate ∈ startedNar events, AttemptOrigin crypto app request events candidate
  /-- The answer is an attempt's, and the fallback cache is asked once all attempts failed. -/
  answered :
    (∃ finished ∈ finishedNar events, finished.1 ∈ startedNar events ∧
      narResponse request.method finished.1 finished.2 = some response) ∨
    ((failedNar request.method events).Perm (startedNar events) ∧
      AnsweredByFallback app request events response)

end

section

variable {crypto : Crypto} {app : AppState} {request : ClientRequest}
  {allowed : (op : Op) → op.Reply → Prop} {events events' : List HandlerEvent}

/-! ## Finding candidates -/

theorem RoutedBy.mono {found : Option RouteEntry} (h : RoutedBy request events found)
    (hsub : events ⊆ events') : RoutedBy request events' found := by
  obtain ⟨routed, now, hrouted, hnow, hfound⟩ := h
  exact ⟨routed, now, hsub hrouted, fun entry hentry => hsub (hnow entry hentry), hfound⟩

theorem Considered.mono {skip url : Str} {includeHedgingOptOuts : Bool}
    (h : Considered app events skip includeHedgingOptOuts url) (hsub : events ⊆ events') :
    Considered app events' skip includeHedgingOptOuts url := by
  obtain ⟨sorted, hsorted, hhealth⟩ := h
  exact ⟨sorted, hsub hsorted, hhealth⟩

theorem Considered.hedgeAllowed {skip url : Str} {includeHedgingOptOuts : Bool}
    (h : Considered app events skip includeHedgingOptOuts url)
    (hallowed : hedgeAllowed app url = true) : Considered app events skip false url := by
  obtain ⟨sorted, hsorted, health, hhealth, heligible, rfl⟩ := h
  refine ⟨sorted, hsorted, health, hhealth, ?_, rfl⟩
  simp only [hedgeEligible, Bool.and_eq_true, Bool.false_or] at heligible ⊢
  exact ⟨heligible.1, hallowed⟩

theorem Located.mono {path : Str} {expectedNarinfo : Option NarInfo} {upstream narPath : Str}
    {storeHash : Option Str}
    (h : Located crypto app events path expectedNarinfo upstream narPath storeHash)
    (hsub : events ⊆ events') :
    Located crypto app events' path expectedNarinfo upstream narPath storeHash := by
  cases storeHash with
  | none => exact h
  | some hash =>
      obtain ⟨body, parsed, hreread⟩ := h
      exact ⟨body, parsed, { hreread with replied := hsub hreread.replied }⟩

theorem AttemptOrigin.mono {candidate : NarCandidate}
    (h : AttemptOrigin crypto app request events candidate) (hsub : events ⊆ events') :
    AttemptOrigin crypto app request events' candidate := by
  cases h with
  | routed hfound => exact .routed (hfound.mono hsub)
  | hedged hfound hexpected hconsidered hlocated =>
      exact .hedged (hfound.mono hsub) hexpected (hconsidered.mono hsub) (hlocated.mono hsub)
  | unrouted hfound hroute hconsidered hlocated =>
      exact .unrouted (hfound.mono hsub) hroute (hconsidered.mono hsub) (hlocated.mono hsub)

variable {path : Str} {expectedNarinfo : Option NarInfo} {storeHash : Option Str}

theorem run_candidatePath_located {url narPath : Str}
    (h : Run allowed (candidatePath crypto app storeHash path expectedNarinfo url) events
      (.ok narPath)) :
    Located crypto app events path expectedNarinfo url narPath storeHash := by
  cases storeHash with
  | none => exact (Except.ok.inj (run_ret_iff.1 h).2).symm
  | some hash =>
      obtain ⟨reply, tail, rfl, -, h⟩ := run_fetchNarinfo_bind_iff.1 h
      cases hcheck : checkNarinfo crypto app.registry url reply with
      | error err =>
          rw [hcheck] at h
          cases (run_ret_iff.1 h).2
      | ok fetched =>
          obtain ⟨body, rfl, hbody, hverified⟩ := eq_of_checkNarinfo_eq_ok hcheck
          rw [hcheck] at h
          dsimp only at h
          split at h
          · cases (run_ret_iff.1 h).2
          next hallows =>
          split at h
          · cases (run_ret_iff.1 h).2
          next hcompression =>
          split at h
          · cases (run_ret_iff.1 h).2
          next hsame =>
          refine ⟨body, fetched.2, List.mem_cons_self, hverified, by simpa using hallows, ?_, ?_,
            (Except.ok.inj (run_ret_iff.1 h).2).symm⟩
          · intro expected hexpected
            simpa [hexpected] using hcompression
          · intro expected hexpected
            simpa [hexpected] using hsame

theorem run_candidatesAmong_located {healths : List UpstreamHealth}
    {candidates : List NarCandidate}
    (h : Run allowed (candidatesAmong crypto app storeHash path expectedNarinfo healths) events
      candidates) :
    ∀ candidate ∈ candidates, candidate.route = .hedge ∧
      Located crypto app events path expectedNarinfo candidate.upstream candidate.path
        storeHash := by
  induction healths generalizing events candidates with
  | nil =>
      obtain ⟨-, rfl⟩ := run_ret_iff.1 h
      simp
  | cons health healths ih =>
      obtain ⟨asked, found, _, rfl, hfound, h⟩ := run_bind_iff.1 h
      obtain ⟨others, rest, last, rfl, hrest, h⟩ := run_bind_iff.1 h
      have hlater : ∀ candidate ∈ rest, candidate.route = .hedge ∧
          Located crypto app (asked ++ (others ++ last)) path expectedNarinfo
            candidate.upstream candidate.path storeHash := by
        intro candidate hcandidate
        obtain ⟨hroute, hlocated⟩ := ih hrest candidate hcandidate
        refine ⟨hroute, hlocated.mono ?_⟩
        exact List.Subset.trans (List.subset_append_left _ _) (List.subset_append_right _ _)
      cases found with
      | error err =>
          obtain ⟨-, rfl⟩ := run_ret_iff.1 h
          exact hlater
      | ok narPath =>
          obtain ⟨-, rfl⟩ := run_ret_iff.1 h
          intro candidate hcandidate
          rcases List.mem_cons.1 hcandidate with rfl | hcandidate
          · have hlocated := run_candidatePath_located hfound
            exact ⟨rfl, hlocated.mono (List.subset_append_left _ _)⟩
          · exact hlater candidate hcandidate

/-- What is known of each candidate. -/
theorem run_hedgeCandidates_located {skip : Str} {includeHedgingOptOuts : Bool}
    {candidates : List NarCandidate}
    (h : Run allowed (hedgeCandidates crypto app storeHash path skip includeHedgingOptOuts
      expectedNarinfo) events candidates) :
    ∀ candidate ∈ candidates, candidate.route = .hedge ∧
      Considered app events skip includeHedgingOptOuts candidate.upstream ∧
      Located crypto app events path expectedNarinfo candidate.upstream candidate.path
        storeHash := by
  intro candidate hcandidate
  obtain ⟨sorted, hsorted, hpopped⟩ := run_hedgeCandidates_popOrder h
  obtain ⟨_, _, rfl, -, h⟩ := run_call_bind_iff.1 h
  obtain ⟨asked, among, _, rfl, hamong, h⟩ := run_bind_iff.1 h
  obtain ⟨-, rfl⟩ := run_ret_iff.1 h
  obtain ⟨hroute, hlocated⟩ :=
    run_candidatesAmong_located hamong candidate (List.mem_reverse.1 hcandidate)
  refine ⟨hroute, ⟨sorted, hsorted, hpopped.exists_health hcandidate⟩, hlocated.mono ?_⟩
  exact List.Subset.trans (List.subset_append_left _ _) (List.subset_cons_self _ _)

/-! ## Making attempts -/

/-- The operation starts none but some candidates. -/
def StartsAmong (candidates : List NarCandidate) : Op → Prop
  | .spawnNar candidate _ => candidate ∈ candidates
  | _ => True

theorem mem_of_startedNar {candidates : List NarCandidate}
    (h : ∀ event ∈ events, StartsAmong candidates event.1) :
    ∀ candidate ∈ startedNar events, candidate ∈ candidates := by
  intro candidate hcandidate
  obtain ⟨⟨op, reply⟩, hevent, heq⟩ := List.mem_filterMap.1 hcandidate
  have hstarts := h _ hevent
  unfold startedAttempt at heq
  split at heq
  · next candidate' sent reply' hop =>
    cases hop
    cases heq
    exact hstarts
  · cases heq

variable {method : Method} {headers : HeaderMap}

/-- An attempt that finishes was under way or was started. -/
theorem run_hedgeLoop_finished {pending waiting : List NarCandidate} {outcome : HedgeOutcome}
    (h : Run allowed (hedgeLoop app method headers pending waiting) events outcome) :
    ∀ finished ∈ finishedNar events, finished.1 ∈ pending ++ startedNar events := by
  induction hsize : 2 * waiting.length + pending.length using Nat.strongRecOn
    generalizing pending waiting events with
  | ind n ih =>
  rw [hedgeLoop] at h
  split at h
  · obtain ⟨rfl, -⟩ := run_ret_iff.1 h
    simp
  obtain ⟨reply, events, rfl, -, h⟩ := run_call_bind_iff.1 h
  have hsub : ∀ (i : Fin pending.length) (started : List NarCandidate),
      pending.eraseIdx i ++ started ⊆ pending ++ started := by
    intro i started candidate hmem
    rw [List.mem_append] at hmem ⊢
    exact hmem.imp_left fun hmem => List.eraseIdx_subset hmem
  cases reply with
  | allDisabled hnil htimer =>
      obtain ⟨rfl, -⟩ := run_ret_iff.1 h
      simp [finishedNar, finishedAttempt]
  | panicked i =>
      have hlength := List.length_eraseIdx_of_lt i.isLt
      have hi := i.isLt
      intro finished hfinished
      exact hsub i _ (ih _ (by omega) h rfl finished hfinished)
  | completed i answer =>
      have hlength := List.length_eraseIdx_of_lt i.isLt
      have hi := i.isLt
      intro finished hfinished
      rw [finishedNar_completed] at hfinished
      rw [startedNar_select]
      rcases List.mem_cons.1 hfinished with rfl | hfinished
      · exact List.mem_append_left _ (List.get_mem _ _)
      cases hresponse : narResponse method (pending.get i) answer with
      | some response =>
          simp only [hresponse] at h
          obtain ⟨rfl, -⟩ := run_ret_iff.1 h
          cases hfinished
      | none =>
          simp only [hresponse] at h
          cases waiting with
          | nil => exact hsub i _ (ih _ (by simp at hsize ⊢; omega) h rfl finished hfinished)
          | cons candidate waiting =>
              obtain ⟨_, events, rfl, -, h⟩ := run_call_bind_iff.1 h
              have hrest := ih _ (by simp at hsize ⊢; omega) h rfl finished hfinished
              rw [List.append_assoc] at hrest
              exact hsub i _ hrest
  | timer htimer =>
      obtain ⟨candidate, waiting, rfl⟩ :=
        List.exists_cons_of_ne_nil (ne_nil_of_timerEnabled htimer)
      obtain ⟨_, events, rfl, -, h⟩ := run_call_bind_iff.1 h
      intro finished hfinished
      have hrest := ih _ (by simp at hsize ⊢; omega) h rfl finished hfinished
      rwa [List.append_assoc] at hrest

/-- What a hedged request does with its candidates. -/
theorem run_hedgedNar_attempts {initial : NarCandidate} {candidates : List NarCandidate}
    {outcome : HedgeOutcome}
    (h : Run allowed (hedgedNar app method headers initial candidates) events outcome) :
    (∀ candidate ∈ startedNar events, candidate ∈ initial :: candidates) ∧
    ∀ finished ∈ finishedNar events, finished.1 ∈ startedNar events := by
  constructor
  · have hstarts : Performs (StartsAmong (initial :: candidates))
        (hedgedNar app method headers initial candidates) := by
      apply performs_hedgedNar
      · intro pending timer
        trivial
      · exact List.mem_cons_self
      · intro candidate hcandidate
        exact List.mem_cons_of_mem _ hcandidate
    exact mem_of_startedNar (h.performs hstarts)
  · obtain ⟨_, events, rfl, -, h⟩ := run_call_bind_iff.1 h
    split at h
    · obtain ⟨spawned, _, tail, rfl, hspawned, h⟩ := run_bind_iff.1 h
      rw [run_spawnAll hspawned]
      intro finished hfinished
      rw [finishedNar_spawn, finishedNar_map_spawnEvent] at hfinished
      rw [startedNar_spawn, startedNar_map_spawnEvent]
      exact run_hedgeLoop_finished h finished hfinished
    · intro finished hfinished
      exact run_hedgeLoop_finished h finished hfinished

/-! ## The request -/

/-- The operation has nothing to do with attempts. -/
def LooksUp : Op → Prop
  | .spawnNar _ _ | .selectNar _ _ => False
  | _ => True

theorem attempts_of_looksUp (h : ∀ event ∈ events, LooksUp event.1) :
    startedNar events = [] ∧ finishedNar events = [] ∧ ∀ method, failedNar method events = [] := by
  have hnone : ∀ event ∈ events, startedAttempt event = none ∧ finishedAttempt event = none ∧
      ∀ method, failedAttempt method event = none := by
    intro event hevent
    have hlooks := h event hevent
    rcases event with ⟨op, reply⟩
    cases op
    case spawnNar => exact hlooks.elim
    case selectNar => exact hlooks.elim
    all_goals exact ⟨rfl, rfl, fun _ => rfl⟩
  refine ⟨?_, ?_, fun method => ?_⟩
  · exact List.filterMap_eq_nil_iff.2 fun event hevent => (hnone event hevent).1
  · exact List.filterMap_eq_nil_iff.2 fun event hevent => (hnone event hevent).2.1
  · exact List.filterMap_eq_nil_iff.2 fun event hevent => (hnone event hevent).2.2 method

/-- The attempts of a request among some of its events, and how they end. -/
structure NarAttempts (crypto : Crypto) (app : AppState) (request : ClientRequest)
    (past events : List HandlerEvent) (outcome : HedgeOutcome) : Prop where
  started : ∀ candidate ∈ startedNar events, AttemptOrigin crypto app request past candidate
  finished : ∀ finished ∈ finishedNar events, finished.1 ∈ startedNar events
  answered : ∀ response, outcome = .answered response → ∃ finished ∈ finishedNar events,
    narResponse request.method finished.1 finished.2 = some response
  exhausted : outcome = .exhausted → (failedNar request.method events).Perm (startedNar events)

variable {past past' before after : List HandlerEvent} {outcome : HedgeOutcome}

/-- Looking something up before and after adds no attempts. -/
theorem NarAttempts.surround (h : NarAttempts crypto app request past events outcome)
    (hbefore : ∀ event ∈ before, LooksUp event.1) (hafter : ∀ event ∈ after, LooksUp event.1)
    (hsub : past ⊆ past') :
    NarAttempts crypto app request past' (before ++ events ++ after) outcome := by
  obtain ⟨hstarted, hfinished, hfailed⟩ := attempts_of_looksUp hbefore
  obtain ⟨hstarted', hfinished', hfailed'⟩ := attempts_of_looksUp hafter
  have hsame : startedNar (before ++ events ++ after) = startedNar events ∧
      finishedNar (before ++ events ++ after) = finishedNar events ∧
      failedNar request.method (before ++ events ++ after) = failedNar request.method events := by
    unfold startedNar finishedNar failedNar at *
    simp [hstarted, hfinished, hfailed, hstarted', hfinished', hfailed']
  constructor
  · intro candidate hcandidate
    rw [hsame.1] at hcandidate
    exact (h.started candidate hcandidate).mono hsub
  · rw [hsame.1, hsame.2.1]
    exact h.finished
  · rw [hsame.2.1]
    exact h.answered
  · rw [hsame.1, hsame.2.2]
    exact h.exhausted

/-- Hedging among some candidates. -/
theorem run_hedgedNar_attempted {initial : NarCandidate} {candidates : List NarCandidate}
    (h : Run allowed (hedgedNar app request.method request.headers initial candidates) events
      outcome)
    (horigin : ∀ candidate ∈ initial :: candidates,
      AttemptOrigin crypto app request past candidate) :
    NarAttempts crypto app request past events outcome := by
  obtain ⟨hamong, hfinished⟩ := run_hedgedNar_attempts h
  have hend := run_hedgedNar_end h
  constructor
  · intro candidate hcandidate
    exact horigin candidate (hamong candidate hcandidate)
  · exact hfinished
  · rintro response rfl
    exact hend
  · rintro rfl
    obtain ⟨hstarted, hfailed⟩ := hend
    rw [hstarted]
    exact hfailed

theorem run_hedgeCandidates_looksUp {skip : Str} {includeHedgingOptOuts : Bool}
    {candidates : List NarCandidate}
    (h : Run allowed (hedgeCandidates crypto app storeHash path skip includeHedgingOptOuts
      expectedNarinfo) events candidates) :
    ∀ event ∈ events, LooksUp event.1 :=
  h.performs (performs_hedgeCandidates trivial fun _ _ _ => trivial)

/-- The attempts for a path with a live row. -/
theorem run_tryRouted_attempted {entry : RouteEntry}
    (h : Run allowed (tryRouted crypto app request entry) events outcome)
    (hfound : RoutedBy request past (some entry)) :
    NarAttempts crypto app request (past ++ events) events outcome := by
  obtain ⟨looking, candidates, hedging, rfl, hlooking, h⟩ := run_bind_iff.1 h
  have hpast : past ⊆ past ++ (looking ++ hedging) := List.subset_append_left _ _
  have hlooked : looking ⊆ past ++ (looking ++ hedging) :=
    List.Subset.trans (List.subset_append_left _ _) (List.subset_append_right _ _)
  have hfirst : AttemptOrigin crypto app request (past ++ (looking ++ hedging))
      ⟨entry.upstreamUrl,
        if entry.upstreamNarUrl = [] then request.path ++ request.query else entry.upstreamNarUrl,
        .cacheHit⟩ := .routed (hfound.mono hpast)
  split at hlooking
  · next expected hparsed =>
    have hexpected : entry.expectedNarinfo = some expected := by
      rw [RouteEntry.expectedNarinfo, hparsed]
    have hcandidates := run_hedgeCandidates_located hlooking
    have hattempted : NarAttempts crypto app request (past ++ (looking ++ hedging)) hedging
        outcome := by
      apply run_hedgedNar_attempted h
      intro candidate hcandidate
      rcases List.mem_cons.1 hcandidate with rfl | hcandidate
      · exact hfirst
      rcases candidate with ⟨url, narPath, route⟩
      obtain ⟨rfl, hconsidered, hlocated⟩ := hcandidates _ hcandidate
      exact .hedged (hfound.mono hpast) hexpected (hconsidered.mono hlooked)
        (hlocated.mono hlooked)
    have hall := hattempted.surround (run_hedgeCandidates_looksUp hlooking)
      (List.forall_mem_nil _) (List.Subset.refl _)
    rwa [List.append_nil] at hall
  · obtain ⟨rfl, rfl⟩ := run_ret_iff.1 hlooking
    apply run_hedgedNar_attempted h
    intro candidate hcandidate
    rw [List.mem_singleton.1 hcandidate]
    exact hfirst

/-- The attempts for a path without a live row. -/
theorem run_tryUnrouted_attempted
    (h : Run allowed (tryUnrouted crypto app request) events outcome)
    (hfound : RoutedBy request past none) :
    NarAttempts crypto app request (past ++ events) events outcome := by
  obtain ⟨looking, candidates, hedging, rfl, hlooking, h⟩ := run_bind_iff.1 h
  have hpast : past ⊆ past ++ (looking ++ hedging) := List.subset_append_left _ _
  have hlooked : looking ⊆ past ++ (looking ++ hedging) :=
    List.Subset.trans (List.subset_append_left _ _) (List.subset_append_right _ _)
  have hcandidates := run_hedgeCandidates_located hlooking
  have hattempted : NarAttempts crypto app request (past ++ (looking ++ hedging)) hedging
      outcome := by
    split at h
    · obtain ⟨rfl, rfl⟩ := run_ret_iff.1 h
      constructor <;> simp [failedNar]
    · next initial hinitial =>
      apply run_hedgedNar_attempted h
      intro candidate hcandidate
      rcases List.mem_cons.1 hcandidate with rfl | hcandidate
      · obtain ⟨-, hconsidered, hlocated⟩ := hcandidates initial (List.mem_of_getLast? hinitial)
        exact .unrouted (hfound.mono hpast) (.inl rfl) (hconsidered.mono hlooked)
          (hlocated.mono hlooked)
      · obtain ⟨hcandidate, hallowed⟩ := List.mem_filter.1 hcandidate
        rcases candidate with ⟨url, narPath, route⟩
        obtain ⟨rfl, hconsidered, hlocated⟩ :=
          hcandidates _ ((List.dropLast_sublist _).subset hcandidate)
        exact .unrouted (hfound.mono hpast) (.inr rfl)
          ((hconsidered.mono hlooked).hedgeAllowed hallowed) (hlocated.mono hlooked)
  have hall := hattempted.surround (run_hedgeCandidates_looksUp hlooking)
    (List.forall_mem_nil _) (List.Subset.refl _)
  rwa [List.append_nil] at hall

theorem run_routedNar_routedBy {found : Option RouteEntry}
    (h : Run allowed (routedNar request) events found) :
    RoutedBy request events found ∧ ∀ event ∈ events, LooksUp event.1 := by
  obtain ⟨row, tail, rfl, -, h⟩ := run_call_bind_iff.1 h
  by_cases hrow : ∃ entry, row = .ok (some entry)
  · obtain ⟨entry, rfl⟩ := hrow
    obtain ⟨now, tail, rfl, -, h⟩ := run_call_bind_iff.1 h
    obtain ⟨rfl, rfl⟩ := run_ret_iff.1 h
    refine ⟨⟨_, now, List.mem_cons_self, fun _ _ => by simp, rfl⟩, ?_⟩
    simp [LooksUp]
  · have hnone : tail = [] ∧ found = liveRoute row default := by
      rcases row with err | entry | entry
      · obtain ⟨rfl, rfl⟩ := run_ret_iff.1 h
        exact ⟨rfl, rfl⟩
      · obtain ⟨rfl, rfl⟩ := run_ret_iff.1 h
        exact ⟨rfl, rfl⟩
      · exact absurd ⟨entry, rfl⟩ hrow
    obtain ⟨rfl, rfl⟩ := hnone
    refine ⟨⟨row, default, List.mem_cons_self, fun entry hentry => ?_, rfl⟩, ?_⟩
    · exact absurd ⟨entry, hentry⟩ hrow
    · simp [LooksUp]

theorem run_tryFallbackNar_answered {response : Response}
    (h : Run allowed (tryFallbackNar app request) events response) :
    AnsweredByFallback app request events response ∧ ∀ event ∈ events, LooksUp event.1 := by
  unfold tryFallbackNar at h
  split at h
  · obtain ⟨rfl, rfl⟩ := run_ret_iff.1 h
    exact ⟨.inl rfl, List.forall_mem_nil _⟩
  · next fallback hfallback =>
    obtain ⟨answer, tail, rfl, -, h⟩ := run_call_bind_iff.1 h
    obtain ⟨rfl, rfl⟩ := run_ret_iff.1 h
    refine ⟨?_, by simp [LooksUp]⟩
    cases hanswer : narResponse request.method
        ⟨fallback.url, request.path ++ request.query, .fallback⟩ answer with
    | none => exact .inl rfl
    | some response =>
        exact .inr ⟨fallback, _, answer, hfallback, rfl, List.mem_cons_self, hanswer⟩

theorem AnsweredByFallback.mono {response : Response}
    (h : AnsweredByFallback app request events response) (hsub : events ⊆ events') :
    AnsweredByFallback app request events' response := by
  rcases h with hnone | ⟨fallback, candidate, answer, hfallback, heq, hsent, hanswer⟩
  · exact .inl hnone
  · exact .inr ⟨fallback, candidate, answer, hfallback, heq, hsub hsent, hanswer⟩

theorem run_attemptNar_attempted {found : Option RouteEntry}
    (h : Run allowed (attemptNar crypto app request found) events outcome)
    (hfound : RoutedBy request past found) :
    NarAttempts crypto app request (past ++ events) events outcome := by
  cases found with
  | some entry => exact run_tryRouted_attempted h hfound
  | none => exact run_tryUnrouted_attempted h hfound

/-! ## Conclusion -/

end

/-! ## A hedged request -/

/-- A row of upstream `u` for a NAR without compression. -/
def plainRowOfU : RouteEntry :=
  { rowOfU with
    narUrl := "nar/x.nar".toList
    narinfoBytes := some
      (toUtf8 "StorePath: /nix/store/x-a\nURL: nar/x.nar\nCompression: none".toList) }

/-- The request that a client makes for this row's hash. -/
def canonicalRequest : ClientRequest :=
  ⟨.get, "/nar/".toList ++ zeroHash.val ++ ".nar".toList, [], []⟩

def servesPlain (_ _ : Str) : Option Octets := plainRowOfU.narinfoBytes

/-- What the row says of the NAR. -/
def plainNarinfo : NarInfo :=
  { storePath := "/nix/store/x-a".toList, url := "nar/x.nar".toList,
    compression := "none".toList }

end Ncro
