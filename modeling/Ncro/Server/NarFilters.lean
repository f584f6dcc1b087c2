import Ncro.Router.FilterGate
import Ncro.Server.Failover

/-!
# Filters and NAR requests

For a path that a row routes, the filters are asked only when the narinfo of another
upstream is read again, which takes a store hash in the path. Neither the row's own
upstream nor, on a path with the upstream's own file name, any other one is asked again:
`nar_filters` says for which requests no answer slips by the filters.
-/

namespace Ncro

open Foundation Foundation.Process

/-! ## Where an answer is from -/

/-- An answer is made by one of some candidates. -/
def AnswerOf (method : Method) (candidates : List NarCandidate) (outcome : HedgeOutcome) : Prop :=
  ∀ response, outcome = .answered response →
    ∃ candidate ∈ candidates, ∃ answer, narResponse method candidate answer = some response

section

variable {app : AppState} {method : Method} {headers : HeaderMap}

theorem AnswerOf.mono {candidates candidates' : List NarCandidate} {outcome : HedgeOutcome}
    (h : AnswerOf method candidates outcome) (hsub : candidates ⊆ candidates') :
    AnswerOf method candidates' outcome := by
  intro response hresponse
  obtain ⟨candidate, hcandidate, hanswer⟩ := h response hresponse
  exact ⟨candidate, hsub hcandidate, hanswer⟩

theorem narResponse_provenance {candidate : NarCandidate} {answer : NarAnswer}
    {response : Response} (h : narResponse method candidate answer = some response) :
    response.provenance = some (candidate.upstream, candidate.route) := by
  unfold narResponse at h
  split at h
  · cases h
  · cases h
  · cases h
  · split at h <;> cases h <;> rfl

theorem returns_hedgeLoop (pending waiting : List NarCandidate) :
    Returns (AnswerOf method (pending ++ waiting))
      (hedgeLoop app method headers pending waiting) := by
  induction hsize : 2 * waiting.length + pending.length using Nat.strongRecOn
    generalizing pending waiting with
  | ind n ih =>
  rw [hedgeLoop]
  split
  · exact fun _ heq => by cases heq
  intro reply
  have hsub : ∀ (i : Fin pending.length) (rest : List NarCandidate),
      pending.eraseIdx i ++ rest ⊆ pending ++ rest := by
    intro i rest candidate hmem
    rw [List.mem_append] at hmem ⊢
    exact hmem.imp_left fun hmem => List.eraseIdx_subset hmem
  cases reply with
  | allDisabled _ _ => exact fun _ heq => by cases heq
  | panicked i =>
      have hlength := List.length_eraseIdx_of_lt i.isLt
      have hi := i.isLt
      have hrest := ih _ (by omega) (pending.eraseIdx i) waiting rfl
      exact hrest.mono fun outcome h => h.mono (hsub i waiting)
  | completed i answer =>
      have hlength := List.length_eraseIdx_of_lt i.isLt
      have hi := i.isLt
      simp only [Process.bind]
      split
      · next response hresponse =>
        intro response' heq
        cases heq
        exact ⟨_, List.mem_append_left _ (List.get_mem _ _), answer, hresponse⟩
      · cases waiting with
        | nil =>
            have hrest := ih _ (by simp at hsize ⊢; omega) (pending.eraseIdx i) [] rfl
            exact hrest.mono fun outcome h => h.mono (hsub i [])
        | cons candidate waiting =>
            have hrest := ih _ (by simp at hsize ⊢; omega) (pending.eraseIdx i ++ [candidate])
              waiting rfl
            rw [List.append_assoc] at hrest
            exact returns_bind (p := spawnNarAttempt app method headers candidate)
              fun _ => hrest.mono fun outcome h => h.mono (hsub i _)
  | timer h =>
      obtain ⟨candidate, waiting, rfl⟩ := List.exists_cons_of_ne_nil (ne_nil_of_timerEnabled h)
      have hrest := ih _ (by simp at hsize ⊢; omega) (pending ++ [candidate]) waiting rfl
      rw [List.append_assoc] at hrest
      exact returns_bind (p := spawnNarAttempt app method headers candidate) fun _ => hrest

/-- An answer is made by the first candidate or by one of the others. -/
theorem returns_hedgedNar (initial : NarCandidate) (candidates : List NarCandidate) :
    Returns (AnswerOf method (initial :: candidates))
      (hedgedNar app method headers initial candidates) := by
  have hreverse : initial :: candidates.reverse ⊆ initial :: candidates :=
    List.cons_subset_cons _ fun _ => List.mem_reverse.1
  apply returns_bind
  intro _
  split
  · apply returns_bind
    intro _
    apply (returns_hedgeLoop _ _).mono
    intro outcome h
    rw [List.append_nil] at h
    exact h.mono hreverse
  · exact (returns_hedgeLoop _ _).mono fun outcome h => h.mono hreverse

end

/-! ## Reading narinfos again -/

/-- The store hash that a NAR request names. -/
def requestedHash (request : ClientRequest) : Option Str :=
  storeHashFromCanonicalNarUrl (request.path.dropWhile (· = '/'))

/-- Whether an upstream becomes a candidate: at once when the path names no store hash, and
else when the narinfo that it serves for this hash passes the checks of `upstreamNarPath`. -/
def PassesReread (crypto : Crypto) (reg : Registry) (served : Str → Str → Option Octets)
    (path : Str) (expectedNarinfo : Option NarInfo) (url : Str) : Option Str → Prop
  | none => True
  | some hash => ∃ body parsed, served url hash = some body ∧
      Verified crypto reg url body parsed ∧ reg.allows url parsed = true ∧
      (∀ expected, compressionForNarUrl path = some expected → parsed.compression = expected) ∧
      ∀ expected, expectedNarinfo = some expected → sameNar parsed expected = true

/-- An upstream's filters accept the narinfo that it serves for a hash. -/
def AcceptsServed (reg : Registry) (served : Str → Str → Option Octets) (url hash : Str) : Prop :=
  ∀ body parsed, served url hash = some body → NarInfo.parse body = .ok parsed →
    reg.allows url parsed = true

/-- What each upstream serves for each hash: whenever it replies with a narinfo, it is this
one. -/
def ServesNarinfos (served : Str → Str → Option Octets) : (op : Op) → op.Reply → Prop
  | .getBytes request, reply => ∀ hash body, request.path = narinfoPath hash →
      reply = .ok (some body) → served request.upstream hash = some body
  | _, _ => True

section

variable {crypto : Crypto} {app : AppState} {served : Str → Str → Option Octets} {path : Str}
  {expectedNarinfo : Option NarInfo} {allowed : (op : Op) → op.Reply → Prop}
  {events : List HandlerEvent}

/-- Once its narinfo passes for a hash, an upstream's filters accept it. -/
theorem acceptsServed_of_passesReread {reg : Registry} {url hash : Str}
    (h : PassesReread crypto reg served path expectedNarinfo url (some hash)) :
    AcceptsServed reg served url hash := by
  obtain ⟨body, parsed, hserved, hverified, hallows, -⟩ := h
  intro body' parsed' hserved' hparse
  obtain rfl : body = body' := Option.some.inj (hserved.symm.trans hserved')
  obtain rfl : parsed = parsed' := Except.ok.inj (hverified.parse.symm.trans hparse)
  exact hallows

/-- A candidate's narinfo has passed. -/
theorem run_candidatePath_ok (hserves : ∀ op reply, allowed op reply → ServesNarinfos served op reply)
    {storeHash : Option Str} {url narPath : Str}
    (h : Run allowed (candidatePath crypto app storeHash path expectedNarinfo url) events
      (.ok narPath)) :
    PassesReread crypto app.registry served path expectedNarinfo url storeHash := by
  cases storeHash with
  | none => trivial
  | some hash =>
      obtain ⟨reply, tail, rfl, hreply, h⟩ := run_fetchNarinfo_bind_iff.1 h
      have hserved := hserves _ _ hreply
      match hcheck : checkNarinfo crypto app.registry url reply with
      | .error err =>
          rw [hcheck] at h
          cases (run_ret_iff.1 h).2
      | .ok (body, parsed) =>
          obtain ⟨body, rfl, rfl, hverified⟩ := eq_of_checkNarinfo_eq_ok hcheck
          rw [hcheck] at h
          dsimp only at h
          split at h
          · cases (run_ret_iff.1 h).2
          next hallows =>
          split at h
          · cases (run_ret_iff.1 h).2
          next hcompression =>
          split at h
          · cases (run_ret_iff.1 h).2
          next hsame =>
          refine ⟨body, parsed, hserved hash body rfl rfl, hverified, by simpa using hallows, ?_, ?_⟩
          · intro expected hexpected
            simpa [hexpected] using hcompression
          · intro expected hexpected
            simpa [hexpected] using hsame

theorem run_candidatesAmong_passed
    (hserves : ∀ op reply, allowed op reply → ServesNarinfos served op reply)
    {storeHash : Option Str} {healths : List UpstreamHealth} {candidates : List NarCandidate}
    (h : Run allowed (candidatesAmong crypto app storeHash path expectedNarinfo healths) events
      candidates) :
    ∀ candidate ∈ candidates, candidate.route = .hedge ∧
      (∃ health ∈ healths, health.url = candidate.upstream) ∧
      PassesReread crypto app.registry served path expectedNarinfo candidate.upstream storeHash := by
  induction healths generalizing events candidates with
  | nil =>
      obtain ⟨-, rfl⟩ := run_ret_iff.1 h
      simp
  | cons health healths ih =>
      obtain ⟨_, found, _, rfl, hfound, h⟩ := run_bind_iff.1 h
      obtain ⟨_, rest, _, rfl, hrest, h⟩ := run_bind_iff.1 h
      have hlater : ∀ candidate ∈ rest, candidate.route = .hedge ∧
          (∃ other ∈ health :: healths, other.url = candidate.upstream) ∧
          PassesReread crypto app.registry served path expectedNarinfo candidate.upstream
            storeHash := by
        intro candidate hcandidate
        obtain ⟨hroute, ⟨other, hother, hurl⟩, hpasses⟩ := ih hrest candidate hcandidate
        exact ⟨hroute, ⟨other, List.mem_cons_of_mem _ hother, hurl⟩, hpasses⟩
      cases found with
      | error err =>
          obtain ⟨-, rfl⟩ := run_ret_iff.1 h
          exact hlater
      | ok narPath =>
          obtain ⟨-, rfl⟩ := run_ret_iff.1 h
          intro candidate hcandidate
          rcases List.mem_cons.1 hcandidate with rfl | hcandidate
          · exact ⟨rfl, ⟨health, List.mem_cons_self, rfl⟩, run_candidatePath_ok hserves hfound⟩
          · exact hlater candidate hcandidate

/-- The candidates are upstreams that are considered, and their narinfos have passed. -/
theorem run_hedgeCandidates_passed
    (hserves : ∀ op reply, allowed op reply → ServesNarinfos served op reply)
    {storeHash : Option Str} {skip : Str} {includeHedgingOptOuts : Bool}
    {candidates : List NarCandidate}
    (h : Run allowed (hedgeCandidates crypto app storeHash path skip includeHedgingOptOuts
      expectedNarinfo) events candidates) :
    ∃ sorted : List UpstreamHealth, allowed .sortedByLatency sorted ∧
      ∀ candidate ∈ candidates, candidate.route = .hedge ∧
        (∃ health ∈ sorted, hedgeEligible app skip includeHedgingOptOuts health = true ∧
          health.url = candidate.upstream) ∧
        PassesReread crypto app.registry served path expectedNarinfo candidate.upstream
          storeHash := by
  obtain ⟨sorted, events, rfl, hsorted, h⟩ := run_call_bind_iff.1 h
  obtain ⟨_, among, _, rfl, hamong, h⟩ := run_bind_iff.1 h
  obtain ⟨-, rfl⟩ := run_ret_iff.1 h
  refine ⟨sorted, hsorted, fun candidate hcandidate => ?_⟩
  obtain ⟨hroute, ⟨health, hhealth, hurl⟩, hpasses⟩ :=
    run_candidatesAmong_passed hserves hamong candidate (List.mem_reverse.1 hcandidate)
  have hmem := (grouped_groupByKey UpstreamHealth.priority
    (sorted.filter (hedgeEligible app skip includeHedgingOptOuts))).perm.mem_iff.1 hhealth
  obtain ⟨hhealth, heligible⟩ := List.mem_filter.1 hmem
  exact ⟨hroute, ⟨health, hhealth, heligible, hurl⟩, hpasses⟩

end

/-! ## The world of one routed request -/

/-- What a request for the path of a row finds. -/
def FilterWorld (entry : RouteEntry) (now : Timestamp) (tracked : List UpstreamHealth)
    (served : Str → Str → Option Octets) (op : Op) (reply : op.Reply) : Prop :=
  NarWorld (.ok (some entry)) now tracked op reply ∧ ServesNarinfos served op reply

/-- An upstream that answers a request for the path of a row accepts the narinfo that it
serves for the row's hash. -/
def FiltersGovern (crypto : Crypto) (app : AppState) (request : ClientRequest)
    (entry : RouteEntry) (now : Timestamp) (tracked : List UpstreamHealth)
    (served : Str → Str → Option Octets) : Prop :=
  ∀ events response url route,
    Run (FilterWorld entry now tracked served) (nar crypto app request) events (some response) →
      response.provenance = some (url, route) → route ≠ .fallback →
        AcceptsServed app.registry served url entry.storePath

/-- No answer slips by the filters: the row's own upstream accepts what it serves, and if the
path is not the canonical one of the row's hash, so does each upstream that is compared with
the row's narinfo and passes. -/
def NothingSlipsBy (crypto : Crypto) (app : AppState) (request : ClientRequest)
    (entry : RouteEntry) (tracked : List UpstreamHealth) (served : Str → Str → Option Octets) :
    Prop :=
  AcceptsServed app.registry served entry.upstreamUrl entry.storePath ∧
    (requestedHash request = some entry.storePath ∨
      ∀ expected, entry.expectedNarinfo = some expected →
        ∀ health ∈ tracked, hedgeEligible app entry.upstreamUrl false health = true →
          PassesReread crypto app.registry served (request.path ++ request.query) (some expected)
            health.url (requestedHash request) →
          AcceptsServed app.registry served health.url entry.storePath)

section

variable {crypto : Crypto} {app : AppState} {request : ClientRequest} {entry : RouteEntry}
  {now : Timestamp} {tracked : List UpstreamHealth} {served : Str → Str → Option Octets}
  {allowed : (op : Op) → op.Reply → Prop} {events : List HandlerEvent}

/-- The attempts for the path of a row: the row's own upstream, and upstreams that have
passed the comparison with its narinfo. -/
theorem run_tryRouted_answer
    (hworld : ∀ op reply, allowed op reply → FilterWorld entry now tracked served op reply)
    {response : Response}
    (h : Run allowed (tryRouted crypto app request entry) events (.answered response)) :
    ∃ url route, response.provenance = some (url, route) ∧ route ≠ .fallback ∧
      (url = entry.upstreamUrl ∨ ∃ expected, entry.expectedNarinfo = some expected ∧
        (∃ health ∈ tracked, hedgeEligible app entry.upstreamUrl false health = true ∧
          health.url = url) ∧
        PassesReread crypto app.registry served (request.path ++ request.query) (some expected)
          url (requestedHash request)) := by
  obtain ⟨looking, candidates, hedging, rfl, hlooking, h⟩ := run_bind_iff.1 h
  obtain ⟨candidate, hmem, answer, hresponse⟩ :=
    h.returns (returns_hedgedNar _ candidates) response rfl
  have hprovenance := narResponse_provenance hresponse
  rcases List.mem_cons.1 hmem with rfl | hmem
  · exact ⟨_, _, hprovenance, by simp, .inl rfl⟩
  · split at hlooking
    · next expected hparsed =>
      have hexpected : entry.expectedNarinfo = some expected := by
        rw [RouteEntry.expectedNarinfo, hparsed]
      obtain ⟨sorted, hsorted, hpassed⟩ :=
        run_hedgeCandidates_passed (fun op reply hreply => (hworld op reply hreply).2) hlooking
      obtain rfl : sorted = tracked := (hworld _ _ hsorted).1
      obtain ⟨hroute, hhealth, hpasses⟩ := hpassed candidate hmem
      exact ⟨_, _, hprovenance, by simp [hroute], .inr ⟨expected, hexpected, hhealth, hpasses⟩⟩
    · obtain rfl := (run_ret_iff.1 hlooking).2
      cases hmem

/-- An answer that is not from the fallback cache is one of the routed attempts. -/
theorem run_nar_answer (hlive : entry.isValid now = true)
    (hworld : ∀ op reply, allowed op reply → FilterWorld entry now tracked served op reply)
    {response : Response} {url : Str} {route : RouteKind}
    (h : Run allowed (nar crypto app request) events (some response))
    (hprovenance : response.provenance = some (url, route)) (hroute : route ≠ .fallback) :
    ∃ tried, Run allowed (tryRouted crypto app request entry) tried (.answered response) := by
  obtain ⟨attempts, outcome, last, rfl, hattempts, h⟩ := run_bind_iff.1 h
  obtain ⟨routing, found, tried, rfl, hrouting, hattempts⟩ := run_bind_iff.1 hattempts
  obtain rfl := run_routedNar (fun op reply hreply => (hworld op reply hreply).1) hrouting
  simp only [liveRoute, hlive, if_true] at hattempts
  cases outcome with
  | answered answer =>
      obtain rfl := Option.some.inj (run_ret_iff.1 h).2
      exact ⟨tried, hattempts⟩
  | allDisabled => cases (run_ret_iff.1 h).2
  | exhausted =>
      obtain ⟨_, answer, _, rfl, hfallback, h⟩ := run_bind_iff.1 h
      obtain rfl := Option.some.inj (run_ret_iff.1 h).2
      unfold tryFallbackNar at hfallback
      split at hfallback
      · rw [← (run_ret_iff.1 hfallback).2] at hprovenance
        cases hprovenance
      · obtain ⟨reply, _, rfl, -, hfallback⟩ := run_call_bind_iff.1 hfallback
        rw [← (run_ret_iff.1 hfallback).2] at hprovenance
        cases hresponse : narResponse request.method ⟨_, request.path ++ request.query, .fallback⟩
            reply with
        | none =>
            rw [hresponse] at hprovenance
            cases hprovenance
        | some response =>
            rw [hresponse, Option.getD_some, narResponse_provenance hresponse] at hprovenance
            cases hprovenance
            exact absurd rfl hroute

/-- When nothing slips by the filters, they govern the request. -/
theorem filtersGovern_of_nothingSlipsBy (hlive : entry.isValid now = true)
    (h : NothingSlipsBy crypto app request entry tracked served) :
    FiltersGovern crypto app request entry now tracked served := by
  intro events response url route hrun hprovenance hroute
  obtain ⟨tried, htried⟩ := run_nar_answer hlive (fun _ _ => id) hrun hprovenance hroute
  obtain ⟨url', route', hprovenance', -, hfrom⟩ := run_tryRouted_answer (fun _ _ => id) htried
  rw [hprovenance] at hprovenance'
  cases hprovenance'
  rcases hfrom with rfl | ⟨expected, hexpected, ⟨health, hhealth, heligible, rfl⟩, hpasses⟩
  · exact h.1
  · rcases h.2 with hcanonical | hothers
    · rw [hcanonical] at hpasses
      exact acceptsServed_of_passesReread hpasses
    · exact hothers expected hexpected health hhealth heligible hpasses

end

/-! ## An answer that slips by -/

theorem narinfoPath_injective : Function.Injective narinfoPath := by
  intro hash hash' h
  simpa [narinfoPath] using h

/-- One upstream has the NAR, and every upstream serves its narinfos. -/
def OnlyAnswers (served : Str → Str → Option Octets) (url : Str) : (op : Op) → op.Reply → Prop
  | .selectNar pending _, .completed i answer =>
      answer = if (pending.get i).upstream = url then .response 200 (some []) else .missing
  | .selectNar _ _, .panicked _ => False
  | .getBytes request, reply => ∀ hash, request.path = narinfoPath hash →
      reply = .ok (served request.upstream hash)
  | _, _ => True

/-- The world of a request that only one upstream can answer. -/
def AnsweringWorld (entry : RouteEntry) (now : Timestamp) (tracked : List UpstreamHealth)
    (served : Str → Str → Option Octets) (url : Str) (op : Op) (reply : op.Reply) : Prop :=
  NarWorld (.ok (some entry)) now tracked op reply ∧ OnlyAnswers served url op reply

section

variable {crypto : Crypto} {app : AppState} {request : ClientRequest} {entry : RouteEntry}
  {now : Timestamp} {tracked : List UpstreamHealth} {served : Str → Str → Option Octets}
  {url : Str} {events : List HandlerEvent}

theorem AnsweringWorld.filterWorld {op : Op} {reply : op.Reply}
    (h : AnsweringWorld entry now tracked served url op reply) :
    FilterWorld entry now tracked served op reply := by
  refine ⟨h.1, ?_⟩
  cases op with
  | getBytes request =>
      intro hash body hpath hbody
      have hreply : reply = .ok (served request.upstream hash) := h.2 hash hpath
      exact Except.ok.inj (hreply.symm.trans hbody)
  | _ => trivial

variable (entry now tracked served url) in
theorem exists_answeringReply (op : Op) :
    ∃ reply, AnsweringWorld entry now tracked served url op reply := by
  cases op with
  | dbGetRouteByNarUrl narUrl => exact ⟨.ok (some entry), rfl, trivial⟩
  | timestampNow => exact ⟨now, rfl, trivial⟩
  | sortedByLatency => exact ⟨tracked, rfl, trivial⟩
  | getBytes request =>
      by_cases hpath : ∃ hash, request.path = narinfoPath hash
      · obtain ⟨hash, hhash⟩ := hpath
        refine ⟨.ok (served request.upstream hash), trivial, fun hash' hhash' => ?_⟩
        rw [narinfoPath_injective (hhash.symm.trans hhash')]
      · exact ⟨default, trivial, fun hash hhash => absurd ⟨hash, hhash⟩ hpath⟩
  | selectNar pending timer =>
      cases pending with
      | cons first pending =>
          refine ⟨.completed ⟨0, Nat.zero_lt_succ _⟩
            (if first.upstream = url then .response 200 (some []) else .missing), ?_, rfl⟩
          by_cases hurl : first.upstream = url <;> simp [NarWorld, hurl]
      | nil =>
          cases timer with
          | true => exact ⟨.timer rfl, trivial, trivial⟩
          | false => exact ⟨.allDisabled rfl rfl, trivial, trivial⟩
  | _ => exact ⟨default, trivial, trivial⟩

theorem finishedNar_answering {α : Type} {p : Handler α} {a : α}
    (h : Run (AnsweringWorld entry now tracked served url) p events a)
    {finished : NarCandidate} {answer : NarAnswer} (hmem : (finished, answer) ∈ finishedNar events) :
    answer = if finished.upstream = url then .response 200 (some []) else .missing := by
  obtain ⟨⟨op, reply⟩, hevent, heq⟩ := List.mem_filterMap.1 hmem
  have honly := (h.allowed_of_mem _ hevent).2
  unfold finishedAttempt at heq
  split at heq
  · next pending timer i answer' hop =>
    cases hop
    cases heq
    exact honly
  · cases heq

/-- The upstream that has the NAR answers, if it is among the candidates. -/
theorem run_hedgedNar_answering {method : Method} {headers : HeaderMap} {initial : NarCandidate}
    {candidates : List NarCandidate} {outcome : HedgeOutcome}
    (h : Run (AnsweringWorld entry now tracked served url)
      (hedgedNar app method headers initial candidates) events outcome)
    (hcandidate : ∃ candidate ∈ initial :: candidates, candidate.upstream = url) :
    ∃ response route, outcome = .answered response ∧ response.provenance = some (url, route) := by
  have hpanics : ∀ op reply, AnsweringWorld entry now tracked served url op reply →
      noTaskPanics op reply := by
    intro op reply hreply
    have honly := hreply.2
    unfold noTaskPanics
    split
    · exact honly
    · trivial
  have hspec := run_hedgedNar_spec (h.mono hpanics)
  cases outcome with
  | allDisabled => exact absurd rfl hspec.not_allDisabled
  | exhausted =>
      obtain ⟨hstarted, hfinished, hfailed⟩ := hspec.exhausted.1 rfl
      obtain ⟨candidate, hmem, rfl⟩ := hcandidate
      have hwaiting : candidate ∈ startedNar events := by
        rw [hstarted]
        simpa using hmem
      obtain ⟨⟨finished, answer⟩, hin, rfl⟩ := List.mem_map.1 (hfinished.mem_iff.2 hwaiting)
      have hnone := hfailed _ hin
      obtain rfl : answer = .response 200 (some []) := by
        have hanswer := finishedNar_answering h hin
        rwa [if_pos rfl] at hanswer
      cases method <;> cases hnone
  | answered response =>
      obtain ⟨⟨finished, answer⟩, hin, hresponse⟩ := List.exists_of_findSome?_eq_some
        ((hspec.answered response).1 rfl)
      have hanswer := finishedNar_answering h hin
      by_cases hurl : finished.upstream = url
      · exact ⟨response, finished.route, rfl, hurl ▸ narResponse_provenance hresponse⟩
      · rw [if_neg hurl] at hanswer
        rw [hanswer] at hresponse
        cases hresponse

/-- An upstream whose narinfo passes is not excluded. -/
theorem not_excluded_of_passesReread {path : Str} {expectedNarinfo : Option NarInfo}
    {storeHash : Option Str}
    (hallowed : ∀ event ∈ events, AnsweringWorld entry now tracked served url event.1 event.2)
    {health : Str}
    (hpasses : PassesReread crypto app.registry served path expectedNarinfo health storeHash) :
    ¬Excluded crypto app storeHash path expectedNarinfo health events := by
  rintro ⟨hash, rfl, reply, hmem, hcheck⟩
  obtain ⟨body, parsed, hserved, hverified, hallows, hcompression, hsame⟩ := hpasses
  obtain rfl : reply = .ok (some body) := by
    have hreply := (hallowed _ hmem).2 hash rfl
    rw [narinfoRequest_upstream, hserved] at hreply
    exact hreply
  have hfetched : checkNarinfo crypto app.registry health (.ok (some body)) =
      .ok (some body, parsed) := by
    simp only [checkNarinfo, hverified.parse, hverified.verifies, if_true]
  rw [hfetched] at hcheck
  rcases hcheck with hdenied | ⟨expected, hexpected, hne⟩ | ⟨expected, hexpected, hne⟩
  · rw [hallows] at hdenied
    cases hdenied
  · exact hne (hcompression expected hexpected)
  · rw [hsame expected hexpected] at hne
    cases hne

/-- The row's own upstream and the ones that pass the comparison with its narinfo are among
the attempts. -/
theorem run_tryRouted_answering {outcome : HedgeOutcome}
    (h : Run (AnsweringWorld entry now tracked served url) (tryRouted crypto app request entry)
      events outcome)
    (hfrom : url = entry.upstreamUrl ∨ ∃ expected, entry.expectedNarinfo = some expected ∧
      (∃ health ∈ tracked, hedgeEligible app entry.upstreamUrl false health = true ∧
        health.url = url) ∧
      PassesReread crypto app.registry served (request.path ++ request.query) (some expected)
        url (requestedHash request)) :
    ∃ response route, outcome = .answered response ∧ response.provenance = some (url, route) := by
  obtain ⟨looking, candidates, hedging, rfl, hlooking, h⟩ := run_bind_iff.1 h
  apply run_hedgedNar_answering h
  rcases hfrom with rfl | ⟨expected, hexpected, ⟨health, hhealth, heligible, rfl⟩, hpasses⟩
  · exact ⟨_, List.mem_cons_self, rfl⟩
  · unfold RouteEntry.expectedNarinfo at hexpected
    split at hlooking
    · next expected' hparsed =>
      rw [hparsed] at hexpected
      obtain rfl := Option.some.inj hexpected
      obtain ⟨sorted, hsorted, hcomplete⟩ := run_hedgeCandidates_complete hlooking
      obtain rfl : sorted = tracked := hsorted.1
      rcases hcomplete health hhealth heligible with ⟨candidate, hcandidate, hurl⟩ | hexcluded
      · exact ⟨candidate, List.mem_cons_of_mem _ hcandidate, hurl⟩
      · exact absurd hexcluded (not_excluded_of_passesReread hlooking.allowed_of_mem hpasses)
    · next hother =>
      split at hexpected
      · next narinfo hparsed => exact absurd hparsed (hother narinfo)
      · cases hexpected

/-- Each upstream that is among the attempts may be the one that answers. -/
theorem exists_run_nar_answered (hlive : entry.isValid now = true)
    (hfrom : url = entry.upstreamUrl ∨ ∃ expected, entry.expectedNarinfo = some expected ∧
      (∃ health ∈ tracked, hedgeEligible app entry.upstreamUrl false health = true ∧
        health.url = url) ∧
      PassesReread crypto app.registry served (request.path ++ request.query) (some expected)
        url (requestedHash request)) :
    ∃ events response route, response.provenance = some (url, route) ∧ route ≠ .fallback ∧
      Run (FilterWorld entry now tracked served) (nar crypto app request) events
        (some response) := by
  have hworld : ∀ op reply, AnsweringWorld entry now tracked served url op reply →
      FilterWorld entry now tracked served op reply := fun _ _ => AnsweringWorld.filterWorld
  have htotal := exists_answeringReply entry now tracked served url
  obtain ⟨routing, found, hrouting⟩ := exists_run htotal (routedNar request)
  obtain rfl := run_routedNar (fun _ _ h => h.1) hrouting
  have hfound : liveRoute (.ok (some entry)) now = some entry := by simp [liveRoute, hlive]
  rw [hfound] at hrouting
  obtain ⟨tried, outcome, htried⟩ := exists_run htotal (tryRouted crypto app request entry)
  obtain ⟨response, route, rfl, hprovenance⟩ := run_tryRouted_answering htried hfrom
  obtain ⟨url', route', hprovenance', hroute, -⟩ :=
    run_tryRouted_answer (fun _ _ => id) (htried.mono hworld)
  obtain rfl : route = route' := by
    rw [hprovenance] at hprovenance'
    exact (Prod.mk.inj (Option.some.inj hprovenance')).2
  refine ⟨routing ++ tried, response, route, hprovenance, hroute, ?_⟩
  refine run_bind_iff.2 ⟨routing ++ tried, .answered response, [], by simp, ?_, .ret _⟩
  exact run_bind_iff.2 ⟨routing, _, tried, rfl, hrouting.mono hworld, htried.mono hworld⟩

end

/-! ## Conclusion -/

/-- Filters govern the NAR requests for a live row exactly when the row's own upstream accepts
the narinfo that it serves for the row's hash, and each other upstream that is compared with
the row's narinfo and passes does so as well, which is sure only on the canonical path of
this hash. -/
theorem nar_filters (crypto : Crypto) (app : AppState) (request : ClientRequest)
    (entry : RouteEntry) (now : Timestamp) (tracked : List UpstreamHealth)
    (served : Str → Str → Option Octets) (hlive : entry.isValid now = true) :
    FiltersGovern crypto app request entry now tracked served ↔
      NothingSlipsBy crypto app request entry tracked served := by
  refine ⟨fun hgovern => ?_, filtersGovern_of_nothingSlipsBy hlive⟩
  constructor
  · obtain ⟨events, response, route, hprovenance, hroute, hrun⟩ :=
      exists_run_nar_answered hlive (.inl rfl)
    exact hgovern events response _ route hrun hprovenance hroute
  · apply Or.inr
    intro expected hexpected health hhealth heligible hpasses
    obtain ⟨events, response, route, hprovenance, hroute, hrun⟩ :=
      exists_run_nar_answered hlive
        (.inr ⟨expected, hexpected, ⟨health, hhealth, heligible, rfl⟩, hpasses⟩)
    exact hgovern events response _ route hrun hprovenance hroute

/-! ## A row with the upstream's own path -/

/-- A row of upstream `v` for the narinfo of `x-b`, which is at `nar/x.nar` there. -/
def rowOfV : RouteEntry :=
  { rowOfU with
    upstreamUrl := ['v']
    narUrl := "nar/x.nar".toList
    upstreamNarUrl := "/nar/x.nar".toList
    narinfoBytes := some (toUtf8 "StorePath: /nix/store/x-b\nURL: nar/x.nar".toList) }

/-- Clients are given the upstreams' own paths, and upstream `u` may serve names that start
with `a`. -/
def keepsPaths : AppState :=
  { (default : AppState) with
    registry := { onlyA with upstreamNarUrlModes := fun _ => some .keep } }

def requestForV : ClientRequest := ⟨.get, "/nar/x.nar".toList, [], []⟩

def trackedVU : List UpstreamHealth := [.new ['v'] 0, .new ['u'] 1]

/-- Every upstream serves the narinfo of `x-a`. -/
def servesA (_ _ : Str) : Option Octets := rowOfU.narinfoBytes

/-- Every upstream serves the narinfo of `x-b`. -/
def servesB (_ _ : Str) : Option Octets := rowOfV.narinfoBytes

theorem nar_filters_rowOfV :
    FiltersGovern default keepsPaths requestForV rowOfV default trackedVU servesA := by
  have hlive : rowOfV.isValid default = true := by decide
  have haccepts : ∀ url, AcceptsServed keepsPaths.registry servesA url rowOfV.storePath := by
    intro url body parsed hserved hparse
    have hbody : toUtf8 "StorePath: /nix/store/x-a".toList = body := Option.some.inj hserved
    have hparsed : NarInfo.parse (toUtf8 "StorePath: /nix/store/x-a".toList) =
        .ok { storePath := "/nix/store/x-a".toList } := by decide
    rw [← hbody, hparsed] at hparse
    obtain rfl := Except.ok.inj hparse
    unfold Registry.allows upstreamAllowsNarinfo keepsPaths onlyA
    by_cases hurl : url = ['u']
    · simp only [hurl, if_true]
      decide
    · simp only [if_neg hurl]
  apply (nar_filters default keepsPaths requestForV rowOfV default trackedVU servesA hlive).2
  exact ⟨haccepts ['v'], .inr fun _ _ health _ _ _ => haccepts health.url⟩

/-- Upstream `u` may serve names that start with `a` only, and answers a request for the NAR
of `x-b` that is routed to upstream `v`. -/
theorem nar_of_denied_upstream :
    ¬FiltersGovern default keepsPaths requestForV rowOfV default trackedVU servesB := by
  intro hgovern
  have hlive : rowOfV.isValid default = true := by decide
  have hparsed : NarInfo.parse (toUtf8 "StorePath: /nix/store/x-b\nURL: nar/x.nar".toList) =
      .ok { storePath := "/nix/store/x-b".toList, url := "nar/x.nar".toList } := by decide
  have hexpected : rowOfV.expectedNarinfo =
      some { storePath := "/nix/store/x-b".toList, url := "nar/x.nar".toList } := by decide
  have hhash : requestedHash requestForV = none := by decide
  have hanswered : ∃ events response route, response.provenance = some (['u'], route) ∧
      route ≠ .fallback ∧ Run (FilterWorld rowOfV default trackedVU servesB)
        (nar default keepsPaths requestForV) events (some response) := by
    apply exists_run_nar_answered hlive
    refine .inr ⟨_, hexpected, ⟨.new ['u'] 1, by decide, by decide, rfl⟩, ?_⟩
    rw [hhash]
    trivial
  obtain ⟨events, response, route, hprovenance, hroute, hrun⟩ := hanswered
  have hallows := hgovern events response ['u'] route hrun hprovenance hroute _ _ rfl hparsed
  revert hallows
  decide

end Ncro
