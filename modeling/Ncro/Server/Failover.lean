import Ncro.Server.Hedging

/-!
# Failover between the upstreams of a NAR

A NAR request should end with `404` only after every upstream that may serve it
was tried, or was left out because of its own narinfo. Whether it does depends
on the row that routes the path: when its narinfo cannot be compared with those
of the other upstreams, the routed attempt has no candidates to fall back on, and
it keeps the handler from looking for any.
-/

namespace Ncro

open Foundation Foundation.Process

/-! ## How hedged requests end -/

/-- The attempt an event ends without a response. -/
def failedAttempt (method : Method) : HandlerEvent → Option NarCandidate
  | ⟨.selectNar pending _, .completed i answer⟩ =>
      if narResponse method (pending.get i) answer = none then some (pending.get i) else none
  | ⟨.selectNar pending _, .panicked i⟩ => some (pending.get i)
  | _ => none

/-- The attempts that ended without a response, in order. -/
def failedNar (method : Method) (events : List HandlerEvent) : List NarCandidate :=
  events.filterMap (failedAttempt method)

/-- How a hedged request may end, with some attempts under way and some
candidates waiting. -/
def HedgeEnd (method : Method) (pending waiting : List NarCandidate)
    (events : List HandlerEvent) : HedgeOutcome → Prop
  | .answered response =>
      ∃ finished ∈ finishedNar events, narResponse method finished.1 finished.2 = some response
  | .exhausted =>
      startedNar events = waiting ∧ (failedNar method events).Perm (pending ++ waiting)
  | .allDisabled => True

section

variable {app : AppState} {method : Method} {headers : HeaderMap}
  {pending waiting : List NarCandidate} {events : List HandlerEvent} {outcome : HedgeOutcome}

/-- The end of a hedged request after an event that ends no attempt with a
response. -/
theorem HedgeEnd.cons {pending' waiting' : List NarCandidate} {event : HandlerEvent}
    (h : HedgeEnd method pending' waiting' events outcome)
    (hwaiting : waiting = (startedAttempt event).toList ++ waiting')
    (hpending : ((failedAttempt method event).toList ++ (pending' ++ waiting')).Perm
      (pending ++ waiting)) :
    HedgeEnd method pending waiting (event :: events) outcome := by
  cases outcome with
  | answered response =>
      obtain ⟨finished, hfinished, hresponse⟩ := h
      refine ⟨finished, ?_, hresponse⟩
      obtain ⟨e, he, heq⟩ := List.mem_filterMap.1 hfinished
      exact List.mem_filterMap.2 ⟨e, List.mem_cons_of_mem _ he, heq⟩
  | exhausted =>
      obtain ⟨hstarted, hfailed⟩ := h
      have hcons : ∀ {α : Type} (f : HandlerEvent → Option α),
          (event :: events).filterMap f = (f event).toList ++ events.filterMap f := by
        intro α f
        cases hf : f event with
        | none => exact List.filterMap_cons_none hf
        | some a => exact List.filterMap_cons_some hf
      refine ⟨?_, ?_⟩
      · rw [startedNar, hcons, hwaiting]
        exact congrArg _ hstarted
      · rw [failedNar, hcons]
        exact (hfailed.append_left _).trans hpending
  | allDisabled => trivial

/-- The attempt at a position is one of those under way. -/
theorem get_append_eraseIdx_perm (i : Fin pending.length) (rest : List NarCandidate) :
    (pending.get i :: (pending.eraseIdx i ++ rest)).Perm (pending ++ rest) := by
  rw [← List.cons_append]
  exact (List.getElem_cons_eraseIdx_perm i.isLt).append_right rest

/-- Whatever panics: when the loop is exhausted, every candidate was started and
every attempt has failed. -/
theorem run_hedgeLoop_end {allowed : (op : Op) → op.Reply → Prop}
    (h : Run allowed (hedgeLoop app method headers pending waiting) events outcome) :
    HedgeEnd method pending waiting events outcome := by
  induction hsize : 2 * waiting.length + pending.length using Nat.strongRecOn
    generalizing pending waiting events with
  | ind n ih =>
  rw [hedgeLoop] at h
  split at h
  · next hnil =>
    obtain ⟨rfl, rfl⟩ := hnil
    obtain ⟨rfl, rfl⟩ := run_ret_iff.1 h
    exact ⟨rfl, .nil⟩
  · obtain ⟨reply, events, rfl, -, h⟩ := run_call_bind_iff.1 h
    cases reply with
    | allDisabled hnil htimer =>
        obtain ⟨-, rfl⟩ := run_ret_iff.1 h
        trivial
    | panicked i =>
        have hlength := List.length_eraseIdx_of_lt i.isLt
        have hi := i.isLt
        have hrest := ih _ (by omega) h rfl
        exact hrest.cons rfl (get_append_eraseIdx_perm i waiting)
    | completed i answer =>
        have hlength := List.length_eraseIdx_of_lt i.isLt
        have hi := i.isLt
        cases hresponse : narResponse method (pending.get i) answer with
        | some response =>
            simp only [hresponse] at h
            obtain ⟨rfl, rfl⟩ := run_ret_iff.1 h
            exact ⟨_, List.mem_singleton_self _, hresponse⟩
        | none =>
            have hfailed : failedAttempt method
                ⟨selectOp app method pending waiting, .completed i answer⟩
                  = some (pending.get i) := if_pos hresponse
            simp only [hresponse] at h
            cases waiting with
            | nil =>
                have hrest := ih _ (by simp at hsize ⊢; omega) h rfl
                exact hrest.cons rfl (by rw [hfailed]; exact get_append_eraseIdx_perm i [])
            | cons candidate waiting =>
                obtain ⟨_, events, rfl, -, h⟩ := run_call_bind_iff.1 h
                have hrest := ih _ (by simp at hsize ⊢; omega) h rfl
                have hspawned : HedgeEnd method (pending.eraseIdx i) (candidate :: waiting)
                    (spawnEvent app method headers candidate :: events) outcome :=
                  hrest.cons rfl (by simp [failedAttempt])
                exact hspawned.cons rfl
                  (by rw [hfailed]; exact get_append_eraseIdx_perm i (candidate :: waiting))
    | timer htimer =>
        obtain ⟨candidate, waiting, rfl⟩ :=
          List.exists_cons_of_ne_nil (ne_nil_of_timerEnabled htimer)
        obtain ⟨_, events, rfl, -, h⟩ := run_call_bind_iff.1 h
        have hrest := ih _ (by simp at hsize ⊢; omega) h rfl
        have hspawned : HedgeEnd method pending (candidate :: waiting)
            (spawnEvent app method headers candidate :: events) outcome :=
          hrest.cons rfl (by simp [failedAttempt])
        exact hspawned.cons rfl (by rfl)

/-- Starting some candidates first. -/
theorem HedgeEnd.spawned {candidates : List NarCandidate}
    (h : HedgeEnd method (pending ++ candidates) waiting events outcome) :
    HedgeEnd method pending (candidates ++ waiting)
      (candidates.map (spawnEvent app method headers) ++ events) outcome := by
  induction candidates generalizing pending with
  | nil => rwa [List.append_nil] at h
  | cons candidate candidates ih =>
      have hrest : HedgeEnd method (pending ++ [candidate]) (candidates ++ waiting)
          (candidates.map (spawnEvent app method headers) ++ events) outcome :=
        ih (by rwa [List.append_assoc])
      exact hrest.cons rfl (by simp [failedAttempt])

/-- Whatever panics: when a hedged request is exhausted, all of its candidates
were started and have failed. -/
theorem run_hedgedNar_end {allowed : (op : Op) → op.Reply → Prop} {initial : NarCandidate}
    {candidates : List NarCandidate}
    (h : Run allowed (hedgedNar app method headers initial candidates) events outcome) :
    HedgeEnd method [] (initial :: candidates.reverse) events outcome := by
  obtain ⟨_, events, rfl, -, h⟩ := run_call_bind_iff.1 h
  split at h
  · obtain ⟨spawned, _, tail, rfl, hspawned, h⟩ := run_bind_iff.1 h
    rw [run_spawnAll hspawned]
    have hall : HedgeEnd method [] ((initial :: candidates.reverse) ++ [])
        ((initial :: candidates.reverse).map (spawnEvent app method headers) ++ tail) outcome :=
      (run_hedgeLoop_end h).spawned
    rwa [List.append_nil] at hall
  · have hone : HedgeEnd method [] ([initial] ++ candidates.reverse)
        ([initial].map (spawnEvent app method headers) ++ events) outcome :=
      (run_hedgeLoop_end h).spawned
    exact hone

end

/-! ## Candidates and exclusions -/

/-- Why an upstream is no candidate: its own narinfo could not be fetched, is
denied by its filters, or differs from what is expected. -/
def Excluded (crypto : Crypto) (app : AppState) (storeHash : Option Str) (path : Str)
    (expectedNarinfo : Option NarInfo) (url : Str) (events : List HandlerEvent) : Prop :=
  ∃ hash, storeHash = some hash ∧ ∃ reply,
    (⟨.getBytes (narinfoRequest app.registry url hash .client), reply⟩ : HandlerEvent) ∈ events ∧
    match checkNarinfo crypto app.registry url reply with
    | .error _ => True
    | .ok (_, parsed) =>
        app.registry.allows url parsed = false ∨
        (∃ expected, compressionForNarUrl path = some expected ∧ parsed.compression ≠ expected) ∨
        ∃ expected, expectedNarinfo = some expected ∧ sameNar parsed expected = false

section

variable {crypto : Crypto} {app : AppState} {allowed : (op : Op) → op.Reply → Prop}
  {storeHash : Option Str} {path : Str} {expectedNarinfo : Option NarInfo} {url : Str}
  {events : List HandlerEvent}

theorem Excluded.mono {events' : List HandlerEvent}
    (h : Excluded crypto app storeHash path expectedNarinfo url events) (hsub : events ⊆ events') :
    Excluded crypto app storeHash path expectedNarinfo url events' := by
  obtain ⟨hash, hhash, reply, hmem, hcheck⟩ := h
  exact ⟨hash, hhash, reply, hsub hmem, hcheck⟩

/-- An upstream without a path for the NAR is excluded. -/
theorem run_candidatePath_error {err : RouterError}
    (h : Run allowed (candidatePath crypto app storeHash path expectedNarinfo url) events
      (.error err)) :
    Excluded crypto app storeHash path expectedNarinfo url events := by
  cases storeHash with
  | none => cases (run_ret_iff.1 h).2
  | some hash =>
      obtain ⟨reply, tail, rfl, -, h⟩ := run_fetchNarinfo_bind_iff.1 h
      refine ⟨hash, rfl, reply, List.mem_cons_self, ?_⟩
      match hcheck : checkNarinfo crypto app.registry url reply with
      | .error err => trivial
      | .ok (body, parsed) =>
          rw [hcheck] at h
          dsimp only at h ⊢
          split at h
          · next hdenied => exact .inl (by simpa using hdenied)
          split at h
          · next hcompression => exact .inr (.inl (by simpa [Option.any_eq_true] using hcompression))
          split at h
          · next hdiffers => exact .inr (.inr (by simpa [Option.any_eq_true] using hdiffers))
          · cases (run_ret_iff.1 h).2

/-- Each of the upstreams that are considered becomes a candidate or is
excluded. -/
theorem run_candidatesAmong_complete {healths : List UpstreamHealth}
    {candidates : List NarCandidate}
    (h : Run allowed (candidatesAmong crypto app storeHash path expectedNarinfo healths) events
      candidates)
    {health : UpstreamHealth} (hmem : health ∈ healths) :
    (∃ candidate ∈ candidates, candidate.upstream = health.url) ∨
      Excluded crypto app storeHash path expectedNarinfo health.url events := by
  induction healths generalizing events candidates with
  | nil => cases hmem
  | cons first healths ih =>
      obtain ⟨asked, found, _, rfl, hfound, h⟩ := run_bind_iff.1 h
      obtain ⟨others, rest, last, rfl, hrest, h⟩ := run_bind_iff.1 h
      have hevents : asked ⊆ asked ++ (others ++ last) := List.subset_append_left _ _
      rcases List.mem_cons.1 hmem with rfl | hmem
      · cases found with
        | error err => exact .inr ((run_candidatePath_error hfound).mono hevents)
        | ok candidatePath =>
            obtain ⟨-, rfl⟩ := run_ret_iff.1 h
            exact .inl ⟨_, List.mem_cons_self, rfl⟩
      · rcases ih hrest hmem with ⟨candidate, hcandidate, hurl⟩ | hexcluded
        · refine .inl ⟨candidate, ?_, hurl⟩
          cases found with
          | error err => exact (run_ret_iff.1 h).2 ▸ hcandidate
          | ok candidatePath => exact (run_ret_iff.1 h).2 ▸ List.mem_cons_of_mem _ hcandidate
        · refine .inr (hexcluded.mono ?_)
          exact List.Subset.trans (List.subset_append_left _ _) (List.subset_append_right _ _)

theorem run_hedgeCandidates_complete {skip : Str} {includeHedgingOptOuts : Bool}
    {candidates : List NarCandidate}
    (h : Run allowed (hedgeCandidates crypto app storeHash path skip includeHedgingOptOuts
      expectedNarinfo) events candidates) :
    ∃ sorted : List UpstreamHealth, allowed .sortedByLatency sorted ∧
      ∀ health ∈ sorted, hedgeEligible app skip includeHedgingOptOuts health = true →
        (∃ candidate ∈ candidates, candidate.upstream = health.url) ∨
          Excluded crypto app storeHash path expectedNarinfo health.url events := by
  obtain ⟨sorted, events, rfl, hsorted, h⟩ := run_call_bind_iff.1 h
  obtain ⟨asked, among, _, rfl, hamong, h⟩ := run_bind_iff.1 h
  obtain ⟨-, rfl⟩ := run_ret_iff.1 h
  refine ⟨sorted, hsorted, fun health hhealth heligible => ?_⟩
  have hmem := (grouped_groupByKey UpstreamHealth.priority
    (sorted.filter (hedgeEligible app skip includeHedgingOptOuts))).perm.mem_iff.2
    (List.mem_filter.2 ⟨hhealth, heligible⟩)
  rcases run_candidatesAmong_complete hamong hmem with ⟨candidate, hcandidate, hurl⟩ | hexcluded
  · exact .inl ⟨candidate, List.mem_reverse.2 hcandidate, hurl⟩
  · refine .inr (hexcluded.mono ?_)
    exact List.Subset.trans (List.subset_append_left _ _) (List.subset_cons_self _ _)

end

/-! ## The world of one request -/

/-- What a request finds: the row of its path, the time, and the upstreams that
the prober tracks. Upstreams reply as they please, but `send` passes on a
response only if its status says success. -/
def NarWorld (routed : Except DbError (Option RouteEntry)) (now : Timestamp)
    (tracked : List UpstreamHealth) : (op : Op) → op.Reply → Prop
  | .dbGetRouteByNarUrl _, reply => reply = routed
  | .timestampNow, reply => reply = now
  | .sortedByLatency, reply => reply = tracked
  | .selectNar _ _, .completed _ (.response status _) => 200 ≤ status ∧ status < 300
  | _, _ => True

/-- The row that routes the request, if it is live. -/
def liveRoute (routed : Except DbError (Option RouteEntry)) (now : Timestamp) :
    Option RouteEntry :=
  match routed with
  | .ok (some entry) => if entry.isValid now then some entry else none
  | _ => none

/-- What the other upstreams' narinfos are compared with. -/
def RouteEntry.expectedNarinfo (entry : RouteEntry) : Option NarInfo :=
  match entry.narinfoBytes.map NarInfo.parse with
  | some (.ok narinfo) => some narinfo
  | _ => none

/-- Whether an upstream is one that a NAR request may fail over to. -/
def hedgeable (app : AppState) (health : UpstreamHealth) : Bool :=
  health.status ≠ .down && hedgeAllowed app health.url

/-- An upstream was asked for the NAR and had no response. -/
def TriedAndFailed (method : Method) (url : Str) (events : List HandlerEvent) : Prop :=
  ∃ candidate : NarCandidate, candidate.upstream = url ∧ candidate ∈ startedNar events ∧
    candidate ∈ failedNar method events

/-- An upstream was left out because of its own narinfo. -/
def ExcludedFrom (crypto : Crypto) (app : AppState) (request : ClientRequest)
    (expectedNarinfo : Option NarInfo) (url : Str) (events : List HandlerEvent) : Prop :=
  Excluded crypto app (storeHashFromCanonicalNarUrl (request.path.dropWhile (· = '/')))
    (request.path ++ request.query) expectedNarinfo url events

/-- The handler answers `404` only after trying or excluding every upstream that
may serve the NAR. -/
def FailoverComplete (crypto : Crypto) (app : AppState) (request : ClientRequest)
    (routed : Except DbError (Option RouteEntry)) (now : Timestamp)
    (tracked : List UpstreamHealth) : Prop :=
  ∀ events response,
    Run (NarWorld routed now tracked) (nar crypto app request) events (some response) →
    response.status = 404 → ∀ health ∈ tracked, hedgeable app health = true →
      TriedAndFailed request.method health.url events ∨
        ExcludedFrom crypto app request
          ((liveRoute routed now).bind RouteEntry.expectedNarinfo) health.url events

/-- No upstream is passed over: the row that routes the request has a narinfo to
compare others with, or there are no others. -/
def NothingPassedOver (app : AppState) (routed : Except DbError (Option RouteEntry))
    (now : Timestamp) (tracked : List UpstreamHealth) : Prop :=
  match liveRoute routed now with
  | some entry =>
      entry.expectedNarinfo ≠ none ∨
        ∀ health ∈ tracked, hedgeable app health = true → health.url = entry.upstreamUrl
  | none => ∀ health ∈ tracked, hedgeable app health = true → health.url ≠ []

section

variable {crypto : Crypto} {app : AppState} {request : ClientRequest}
  {routed : Except DbError (Option RouteEntry)} {now : Timestamp} {tracked : List UpstreamHealth}
  {allowed : (op : Op) → op.Reply → Prop} {events : List HandlerEvent}

theorem run_routedNar (hworld : ∀ op reply, allowed op reply → NarWorld routed now tracked op reply)
    {found : Option RouteEntry} (h : Run allowed (routedNar request) events found) :
    found = liveRoute routed now := by
  obtain ⟨row, tail, rfl, hrow, h⟩ := run_call_bind_iff.1 h
  obtain rfl : row = routed := hworld _ _ hrow
  match row with
  | .error err => exact (run_ret_iff.1 h).2.symm
  | .ok none => exact (run_ret_iff.1 h).2.symm
  | .ok (some entry) =>
      obtain ⟨time, _, rfl, htime, h⟩ := run_call_bind_iff.1 h
      obtain rfl : time = now := hworld _ _ htime
      exact (run_ret_iff.1 h).2.symm

/-- Responses of upstreams are not `404`. -/
theorem status_ne_of_finished (hworld : ∀ op reply, allowed op reply →
      NarWorld routed now tracked op reply) {α : Type} {p : Handler α} {a : α}
    (h : Run allowed p events a) {method : Method} {finished : NarCandidate × NarAnswer}
    (hfinished : finished ∈ finishedNar events) {response : Response}
    (hresponse : narResponse method finished.1 finished.2 = some response) :
    response.status ≠ 404 := by
  obtain ⟨⟨op, reply⟩, hevent, heq⟩ := List.mem_filterMap.1 hfinished
  have hallowed := hworld _ _ (h.allowed_of_mem _ hevent)
  unfold finishedAttempt at heq
  split at heq
  · next pending timer i answer hop =>
    cases hop
    cases heq
    match answer with
    | .timeout => cases hresponse
    | .error err => cases hresponse
    | .missing => cases hresponse
    | .response status firstChunk =>
        have hstatus : 200 ≤ status ∧ status < 300 := hallowed
        have heq : response.status = status := by
          unfold narResponse at hresponse
          split at hresponse
          · cases hresponse
          · cases hresponse
          · cases hresponse
          · next heq =>
            cases heq
            split at hresponse <;> cases hresponse <;> rfl
        omega
  · cases heq

theorem TriedAndFailed.mono {method : Method} {url : Str} {events events' : List HandlerEvent}
    (h : TriedAndFailed method url events) (hsub : events ⊆ events') :
    TriedAndFailed method url events' := by
  obtain ⟨candidate, hurl, hstarted, hfailed⟩ := h
  exact ⟨candidate, hurl, List.filterMap_subset _ hsub hstarted,
    List.filterMap_subset _ hsub hfailed⟩

/-- Once a hedged request is exhausted, its candidates were tried. -/
theorem HedgeEnd.tried {method : Method} {waiting : List NarCandidate}
    (h : HedgeEnd method [] waiting events .exhausted) {candidate : NarCandidate}
    (hcandidate : candidate ∈ waiting) : TriedAndFailed method candidate.upstream events := by
  obtain ⟨hstarted, hfailed⟩ := h
  exact ⟨candidate, rfl, hstarted ▸ hcandidate, hfailed.mem_iff.2 hcandidate⟩

/-- What the attempts of a routed request cover. -/
theorem run_tryRouted_covers
    (hworld : ∀ op reply, allowed op reply → NarWorld routed now tracked op reply)
    {entry : RouteEntry}
    (h : Run allowed (tryRouted crypto app request entry) events .exhausted)
    {health : UpstreamHealth} (hhealth : health ∈ tracked) (hhedge : hedgeable app health = true)
    (hcovered : entry.expectedNarinfo ≠ none ∨ health.url = entry.upstreamUrl) :
    TriedAndFailed request.method health.url events ∨
      ExcludedFrom crypto app request entry.expectedNarinfo health.url events := by
  obtain ⟨looking, candidates, hedging, rfl, hlooking, h⟩ := run_bind_iff.1 h
  have hend := run_hedgedNar_end h
  by_cases hown : health.url = entry.upstreamUrl
  · have htried := hend.tried List.mem_cons_self
    rw [hown]
    exact .inl (htried.mono (List.subset_append_right _ _))
  · have hexpected := hcovered.resolve_right hown
    split at hlooking
    · next expectedNarinfo hparsed =>
      have hexpected' : entry.expectedNarinfo = some expectedNarinfo := by
        rw [RouteEntry.expectedNarinfo, hparsed]
      obtain ⟨sorted, hsorted, hcomplete⟩ := run_hedgeCandidates_complete hlooking
      obtain rfl : sorted = tracked := hworld _ _ hsorted
      simp only [hedgeable, Bool.and_eq_true, decide_eq_true_eq] at hhedge
      have heligible : hedgeEligible app entry.upstreamUrl false health = true := by
        simp [hedgeEligible, hhedge.1, hhedge.2, hown]
      rw [hexpected']
      rcases hcomplete health hhealth heligible with ⟨candidate, hcandidate, hurl⟩ | hexcluded
      · have htried := hend.tried (List.mem_cons_of_mem _ (List.mem_reverse.2 hcandidate))
        rw [hurl] at htried
        exact .inl (htried.mono (List.subset_append_right _ _))
      · exact .inr (hexcluded.mono (List.subset_append_left _ _))
    · next hother =>
      refine absurd ?_ hexpected
      unfold RouteEntry.expectedNarinfo
      split
      · next narinfo hparsed => exact absurd hparsed (hother narinfo)
      · rfl

/-- What the attempts of a request without a route cover. -/
theorem run_tryUnrouted_covers
    (hworld : ∀ op reply, allowed op reply → NarWorld routed now tracked op reply)
    (h : Run allowed (tryUnrouted crypto app request) events .exhausted)
    {health : UpstreamHealth} (hhealth : health ∈ tracked) (hhedge : hedgeable app health = true)
    (hurl : health.url ≠ []) :
    TriedAndFailed request.method health.url events ∨
      ExcludedFrom crypto app request none health.url events := by
  obtain ⟨looking, candidates, hedging, rfl, hlooking, h⟩ := run_bind_iff.1 h
  obtain ⟨sorted, hsorted, hcomplete⟩ := run_hedgeCandidates_complete hlooking
  obtain rfl : sorted = tracked := hworld _ _ hsorted
  simp only [hedgeable, Bool.and_eq_true, decide_eq_true_eq] at hhedge
  have heligible : hedgeEligible app [] true health = true := by
    simp [hedgeEligible, hhedge.1, hurl]
  rcases hcomplete health hhealth heligible with ⟨candidate, hcandidate, hupstream⟩ | hexcluded
  · split at h
    · next hnone =>
      rw [List.getLast?_eq_none_iff.1 hnone] at hcandidate
      cases hcandidate
    · next initial hinitial =>
      have hend := run_hedgedNar_end h
      have hsplit : candidates = candidates.dropLast ++ [initial] :=
        (List.dropLast_append_getLast? initial hinitial).symm
      rw [hsplit] at hcandidate
      refine .inl (TriedAndFailed.mono ?_ (List.subset_append_right _ _))
      rw [← hupstream]
      rcases List.mem_append.1 hcandidate with hcandidate | hcandidate
      · refine hend.tried (List.mem_cons_of_mem _ (List.mem_reverse.2 ?_))
        exact List.mem_filter.2 ⟨hcandidate, by rw [hupstream]; exact hhedge.2⟩
      · have htried := hend.tried List.mem_cons_self
        rw [List.mem_singleton.1 hcandidate]
        exact htried
  · exact .inr (hexcluded.mono (List.subset_append_left _ _))

/-- An answer comes from an attempt that finished with it. -/
theorem exists_finished {find : Handler (List NarCandidate)}
    {hedge : List NarCandidate → Handler HedgeOutcome} {response : Response}
    (hhedge : ∀ candidates hedging, Run allowed (hedge candidates) hedging (.answered response) →
      ∃ finished ∈ finishedNar hedging,
        narResponse request.method finished.1 finished.2 = some response)
    (h : Run allowed (find >>= hedge) events (.answered response)) :
    ∃ finished ∈ finishedNar events,
      narResponse request.method finished.1 finished.2 = some response := by
  obtain ⟨looking, candidates, hedging, rfl, -, h⟩ := run_bind_iff.1 h
  obtain ⟨finished, hfinished, hresponse⟩ := hhedge candidates hedging h
  exact ⟨finished, List.filterMap_subset _ (List.subset_append_right _ _) hfinished, hresponse⟩

/-- The attempts at a NAR. -/
def attemptNar (crypto : Crypto) (app : AppState) (request : ClientRequest) :
    Option RouteEntry → Handler HedgeOutcome
  | some entry => tryRouted crypto app request entry
  | none => tryUnrouted crypto app request

theorem run_attemptNar_status
    (hworld : ∀ op reply, allowed op reply → NarWorld routed now tracked op reply)
    {found : Option RouteEntry} {response : Response}
    (h : Run allowed (attemptNar crypto app request found) events (.answered response)) :
    response.status ≠ 404 := by
  have hfinished : ∃ finished ∈ finishedNar events,
      narResponse request.method finished.1 finished.2 = some response := by
    cases found with
    | some entry =>
        exact exists_finished (fun candidates hedging hhedging => run_hedgedNar_end hhedging) h
    | none =>
        refine exists_finished (fun candidates hedging hhedging => ?_) h
        split at hhedging
        · cases (run_ret_iff.1 hhedging).2
        · exact run_hedgedNar_end hhedging
  obtain ⟨finished, hmem, hresponse⟩ := hfinished
  exact status_ne_of_finished hworld h hmem hresponse

/-- A `404` comes from exhausted attempts. -/
theorem run_nar_notFound
    (hworld : ∀ op reply, allowed op reply → NarWorld routed now tracked op reply)
    {response : Response} (h : Run allowed (nar crypto app request) events (some response))
    (hstatus : response.status = 404) :
    ∃ tried, tried ⊆ events ∧
      Run allowed (attemptNar crypto app request (liveRoute routed now)) tried .exhausted := by
  obtain ⟨attempts, outcome, last, rfl, hattempts, h⟩ := run_bind_iff.1 h
  obtain ⟨routing, found, tried, rfl, hrouting, hattempts⟩ := run_bind_iff.1 hattempts
  obtain rfl := run_routedNar hworld hrouting
  refine ⟨tried, List.Subset.trans (List.subset_append_right _ _) (List.subset_append_left _ _), ?_⟩
  have hattempt : Run allowed (attemptNar crypto app request (liveRoute routed now)) tried
      outcome := by
    generalize liveRoute routed now = live at hattempts ⊢
    cases live <;> exact hattempts
  cases outcome with
  | exhausted => exact hattempt
  | allDisabled => cases (run_ret_iff.1 h).2
  | answered answer =>
      have hanswer : answer = response := Option.some.inj (run_ret_iff.1 h).2
      exact absurd (hanswer ▸ hstatus) (run_attemptNar_status hworld hattempt)

/-- When nothing is passed over, failover is complete. -/
theorem failoverComplete_of_nothingPassedOver (h : NothingPassedOver app routed now tracked) :
    FailoverComplete crypto app request routed now tracked := by
  intro events response hrun hstatus health hhealth hhedge
  obtain ⟨tried, hsub, hattempt⟩ := run_nar_notFound (fun _ _ => id) hrun hstatus
  unfold NothingPassedOver at h
  have hcovered : TriedAndFailed request.method health.url tried ∨
      ExcludedFrom crypto app request
        ((liveRoute routed now).bind RouteEntry.expectedNarinfo) health.url tried := by
    split at h
    · next entry hlive =>
      rw [hlive] at hattempt ⊢
      exact run_tryRouted_covers (fun _ _ => id) hattempt hhealth hhedge
        (h.imp_right fun hown => hown health hhealth hhedge)
    · next hlive =>
      rw [hlive] at hattempt ⊢
      exact run_tryUnrouted_covers (fun _ _ => id) hattempt hhealth hhedge (h health hhealth hhedge)
  exact hcovered.imp (fun htried => htried.mono hsub) fun hexcluded => hexcluded.mono hsub

end

/-! ## An upstream that is passed over -/

/-- No attempt has a response, and none panics. -/
def NoResponse : (op : Op) → op.Reply → Prop
  | .selectNar _ _, .completed _ answer => answer = .missing
  | .selectNar _ _, .panicked _ => False
  | .sendNar _, answer => answer = .missing
  | _, _ => True

/-- The world in which every attempt at the NAR fails. -/
def FailingWorld (routed : Except DbError (Option RouteEntry)) (now : Timestamp)
    (tracked : List UpstreamHealth) (op : Op) (reply : op.Reply) : Prop :=
  NarWorld routed now tracked op reply ∧ NoResponse op reply

/-- The operation leaves an upstream alone. -/
def Spares (url : Str) : Op → Prop
  | .spawnNar candidate _ => candidate.upstream ≠ url
  | .getBytes request => request.upstream ≠ url
  | _ => True

section

variable {crypto : Crypto} {app : AppState} {request : ClientRequest}
  {routed : Except DbError (Option RouteEntry)} {now : Timestamp} {tracked : List UpstreamHealth}
  {events : List HandlerEvent} {url : Str}

variable (routed now tracked) in
theorem exists_failingReply (op : Op) : ∃ reply, FailingWorld routed now tracked op reply := by
  cases op with
  | dbGetRouteByNarUrl narUrl => exact ⟨routed, rfl, trivial⟩
  | timestampNow => exact ⟨now, rfl, trivial⟩
  | sortedByLatency => exact ⟨tracked, rfl, trivial⟩
  | selectNar pending timer =>
      cases pending with
      | cons first pending =>
          exact ⟨.completed ⟨0, Nat.zero_lt_succ _⟩ .missing, trivial, rfl⟩
      | nil =>
          cases timer with
          | true => exact ⟨.timer rfl, trivial, trivial⟩
          | false => exact ⟨.allDisabled rfl rfl, trivial, trivial⟩
  | sendNar request => exact ⟨.missing, trivial, rfl⟩
  | _ => exact ⟨default, trivial, trivial⟩

theorem run_hedgedNar_failing {method : Method} {headers : HeaderMap} {initial : NarCandidate}
    {candidates : List NarCandidate} {outcome : HedgeOutcome}
    (h : Run (FailingWorld routed now tracked) (hedgedNar app method headers initial candidates)
      events outcome) :
    outcome = .exhausted := by
  have hpanics : ∀ op reply, FailingWorld routed now tracked op reply → noTaskPanics op reply := by
    rintro op reply ⟨-, hreply⟩
    unfold noTaskPanics
    split
    · exact hreply
    · trivial
  have hspec := run_hedgedNar_spec (h.mono hpanics)
  cases outcome with
  | exhausted => rfl
  | allDisabled => exact absurd rfl hspec.not_allDisabled
  | answered response =>
      obtain ⟨finished, hfinished, hresponse⟩ := List.exists_of_findSome?_eq_some
        ((hspec.answered response).1 rfl)
      obtain ⟨⟨op, reply⟩, hevent, heq⟩ := List.mem_filterMap.1 hfinished
      have hmissing := (h.allowed_of_mem _ hevent).2
      unfold finishedAttempt at heq
      split at heq
      · next pending timer i answer hop =>
        cases hop
        cases heq
        obtain rfl : answer = .missing := hmissing
        cases hresponse
      · cases heq

theorem run_attemptNar_failing {found : Option RouteEntry} {outcome : HedgeOutcome}
    (h : Run (FailingWorld routed now tracked) (attemptNar crypto app request found) events
      outcome) :
    outcome = .exhausted := by
  cases found with
  | some entry =>
      obtain ⟨_, candidates, _, rfl, -, h⟩ := run_bind_iff.1 h
      exact run_hedgedNar_failing h
  | none =>
      obtain ⟨_, candidates, _, rfl, -, h⟩ := run_bind_iff.1 h
      split at h
      · exact (run_ret_iff.1 h).2.symm
      · exact run_hedgedNar_failing h

/-- A routed request whose narinfo is of no use leaves all others alone. -/
theorem spares_tryRouted {entry : RouteEntry} (hexpected : entry.expectedNarinfo = none)
    (hurl : entry.upstreamUrl ≠ url) :
    Performs (Spares url) (tryRouted crypto app request entry) := by
  unfold tryRouted
  have hfind : ∀ (find : Handler (List NarCandidate)), find = .ret [] →
      Performs (Spares url) (find >>= fun candidates =>
        hedgedNar app request.method request.headers
          ⟨entry.upstreamUrl, if entry.upstreamNarUrl = [] then request.path ++ request.query
            else entry.upstreamNarUrl, .cacheHit⟩ candidates) := by
    rintro find rfl
    exact performs_hedgedNar (fun _ _ => trivial) hurl (by simp)
  refine hfind _ ?_
  unfold RouteEntry.expectedNarinfo at hexpected
  split
  · next narinfo hparsed =>
    rw [hparsed] at hexpected
    cases hexpected
  · rfl

/-- A request without a route leaves the upstream without a URL alone. -/
theorem spares_tryUnrouted {outcome : HedgeOutcome}
    {allowed : (op : Op) → op.Reply → Prop}
    (h : Run allowed (tryUnrouted crypto app request) events outcome) :
    ∀ event ∈ events, Spares [] event.1 := by
  obtain ⟨looking, candidates, hedging, rfl, hlooking, h⟩ := run_bind_iff.1 h
  obtain ⟨sorted, -, horder⟩ := run_hedgeCandidates_popOrder hlooking
  have hcandidates : ∀ candidate ∈ candidates, candidate.upstream ≠ [] := by
    intro candidate hcandidate
    obtain ⟨health, -, heligible, hurl⟩ := horder.exists_health hcandidate
    simp only [hedgeEligible, Bool.and_eq_true, decide_eq_true_eq] at heligible
    exact hurl ▸ heligible.1.2
  intro event hevent
  rcases List.mem_append.1 hevent with hevent | hevent
  · exact hlooking.performs (performs_hedgeCandidates trivial fun _ _ hne => hne) event hevent
  · refine h.performs ?_ event hevent
    split
    · trivial
    · next initial hinitial =>
      refine performs_hedgedNar (fun _ _ => trivial)
        (hcandidates initial (List.mem_of_getLast? hinitial)) fun candidate hcandidate => ?_
      exact hcandidates candidate
        ((List.dropLast_sublist _).subset (List.mem_filter.1 hcandidate).1)

theorem spares_routedNar : Performs (Spares url) (routedNar request) := by
  refine ⟨trivial, fun row => ?_⟩
  match row with
  | .ok (some entry) => exact ⟨trivial, fun _ => trivial⟩
  | .ok none => trivial
  | .error err => trivial

/-- An upstream that is left alone was neither tried nor excluded. -/
theorem not_covered_of_spares (h : ∀ event ∈ events, Spares url event.1) {method : Method}
    {expectedNarinfo : Option NarInfo} :
    ¬(TriedAndFailed method url events ∨
      ExcludedFrom crypto app request expectedNarinfo url events) := by
  rintro (⟨candidate, rfl, hstarted, -⟩ | ⟨hash, -, reply, hmem, -⟩)
  · obtain ⟨⟨op, reply⟩, hevent, heq⟩ := List.mem_filterMap.1 hstarted
    unfold startedAttempt at heq
    split at heq
    · next candidate' sent reply' hop =>
      cases hop
      cases heq
      exact h _ hevent rfl
    · cases heq
  · exact h _ hmem rfl

theorem run_tryFallbackNar_failing {response : Response}
    (h : Run (FailingWorld routed now tracked) (tryFallbackNar app request) events response) :
    response = .notFound := by
  unfold tryFallbackNar at h
  split at h
  · exact (run_ret_iff.1 h).2.symm
  · obtain ⟨answer, _, rfl, hanswer, h⟩ := run_call_bind_iff.1 h
    obtain rfl : answer = .missing := hanswer.2
    exact (run_ret_iff.1 h).2.symm

theorem spares_tryFallbackNar : Performs (Spares url) (tryFallbackNar app request) := by
  unfold tryFallbackNar
  split
  · trivial
  · exact ⟨trivial, fun _ => trivial⟩

variable (crypto app request routed now tracked) in
/-- When every attempt fails, the request ends with `404`. -/
theorem exists_run_notFound :
    ∃ routing attempts last,
      Run (FailingWorld routed now tracked) (routedNar request) routing (liveRoute routed now) ∧
      Run (FailingWorld routed now tracked) (attemptNar crypto app request (liveRoute routed now))
        attempts .exhausted ∧
      Run (FailingWorld routed now tracked) (tryFallbackNar app request) last .notFound ∧
      Run (NarWorld routed now tracked) (nar crypto app request) ((routing ++ attempts) ++ last)
        (some .notFound) := by
  have hworld : ∀ op reply, FailingWorld routed now tracked op reply →
      NarWorld routed now tracked op reply := fun _ _ h => h.1
  have htotal := exists_failingReply routed now tracked
  obtain ⟨routing, found, hrouting⟩ := exists_run htotal (routedNar request)
  obtain rfl := run_routedNar hworld hrouting
  obtain ⟨attempts, outcome, hattempts⟩ :=
    exists_run htotal (attemptNar crypto app request (liveRoute routed now))
  obtain rfl := run_attemptNar_failing hattempts
  obtain ⟨last, response, hlast⟩ := exists_run htotal (tryFallbackNar app request)
  obtain rfl := run_tryFallbackNar_failing hlast
  refine ⟨routing, attempts, last, hrouting, hattempts, hlast, ?_⟩
  have hboth : Run (NarWorld routed now tracked) (do
      match ← routedNar request with
      | some entry => tryRouted crypto app request entry
      | none => tryUnrouted crypto app request) (routing ++ attempts) .exhausted := by
    have hattempts' := hattempts.mono hworld
    refine run_bind_iff.2 ⟨routing, _, attempts, rfl, hrouting.mono hworld, ?_⟩
    generalize liveRoute routed now = live at hattempts'
    cases live <;> exact hattempts'
  refine run_bind_iff.2 ⟨_, .exhausted, last, rfl, hboth, ?_⟩
  exact run_bind_iff.2 ⟨last, .notFound, [], by rw [List.append_nil], hlast.mono hworld, .ret _⟩

/-- When an upstream is passed over, failover is not complete. -/
theorem not_failoverComplete_of_spares {health : UpstreamHealth} (hhealth : health ∈ tracked)
    (hhedge : hedgeable app health = true)
    (hspares : ∀ attempts,
      Run (FailingWorld routed now tracked) (attemptNar crypto app request (liveRoute routed now))
        attempts .exhausted → ∀ event ∈ attempts, Spares health.url event.1) :
    ¬FailoverComplete crypto app request routed now tracked := by
  intro hcomplete
  obtain ⟨routing, attempts, last, hrouting, hattempts, hlast, hrun⟩ :=
    exists_run_notFound crypto app request routed now tracked
  refine not_covered_of_spares ?_ (hcomplete _ _ hrun rfl health hhealth hhedge)
  intro event hevent
  simp only [List.mem_append] at hevent
  rcases hevent with (hevent | hevent) | hevent
  · exact hrouting.performs spares_routedNar event hevent
  · exact hspares attempts hattempts event hevent
  · exact hlast.performs spares_tryFallbackNar event hevent

/-- A row whose narinfo is of no use makes the routed attempt pass over others. -/
theorem not_failoverComplete_of_row {entry : RouteEntry} (hlive : liveRoute routed now = some entry)
    (hexpected : entry.expectedNarinfo = none) {health : UpstreamHealth}
    (hhealth : health ∈ tracked) (hhedge : hedgeable app health = true)
    (hurl : health.url ≠ entry.upstreamUrl) :
    ¬FailoverComplete crypto app request routed now tracked := by
  refine not_failoverComplete_of_spares hhealth hhedge fun attempts hattempts => ?_
  rw [hlive] at hattempts
  exact hattempts.performs (spares_tryRouted hexpected (Ne.symm hurl))

end

/-! ## Conclusion -/

/-- NAR failover is complete exactly when nothing is passed over: an unexpired row
that routes the path has stored narinfo bytes that parse, or else no upstream but
its own may be hedged; and without such a row, no upstream has the empty URL. -/
theorem nar_failover (crypto : Crypto) (app : AppState) (request : ClientRequest)
    (routed : Except DbError (Option RouteEntry)) (now : Timestamp)
    (tracked : List UpstreamHealth) :
    FailoverComplete crypto app request routed now tracked ↔
      NothingPassedOver app routed now tracked := by
  refine ⟨fun hcomplete => ?_, failoverComplete_of_nothingPassedOver⟩
  unfold NothingPassedOver
  split
  · next entry hlive =>
    by_contra hnot
    push Not at hnot
    obtain ⟨hexpected, health, hhealth, hhedge, hurl⟩ := hnot
    exact not_failoverComplete_of_row hlive hexpected hhealth hhedge hurl hcomplete
  · next hlive =>
    intro health hhealth hhedge hurl
    refine not_failoverComplete_of_spares hhealth hhedge (fun attempts hattempts => ?_) hcomplete
    rw [hlive] at hattempts
    rw [hurl]
    exact spares_tryUnrouted hattempts

/-- A row from before rows kept their narinfo. -/
def rowWithoutNarinfo : RouteEntry where
  storePath := ['h']
  upstreamUrl := ['a']
  latencyMs := .fin 0
  latencyEma := .fin 0
  lastVerified := default
  queryCount := 0
  failureCount := 0
  ttl := .max
  narHash := []
  narSize := 0
  narUrl := "nar/x".toList
  upstreamNarUrl := []
  narinfoBytes := none

/-- The first upstream no longer has the NAR, and the second one is not asked. -/
theorem second_upstream_passed_over :
    ¬FailoverComplete default default ⟨.get, "/nar/x".toList, [], []⟩
      (.ok (some rowWithoutNarinfo)) default [.new ['a'] 0, .new ['b'] 0] := by
  have hlive : liveRoute (.ok (some rowWithoutNarinfo)) default = some rowWithoutNarinfo := by
    decide
  exact not_failoverComplete_of_row hlive (by decide)
    (List.mem_cons_of_mem _ (List.mem_singleton_self _)) (by decide) (by decide)

end Ncro
