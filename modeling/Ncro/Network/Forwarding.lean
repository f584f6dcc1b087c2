import Ncro.Foundation.Ranking
import Ncro.Router.Footprint
import Ncro.Server.Narinfo

/-!
# Narinfo requests between instances

A `Network` is a number of instances that may be upstreams of each other. While
an instance serves a narinfo request it sends narinfo requests of its own, and
their hop is higher than the one served, with one exception. A lookup for a peer
of a peer does not race, but when the caches have a route for it without bytes,
or with bytes that the filters reject, it fetches the narinfo again, under the
hop it was asked with.
-/

namespace Ncro

open Foundation Foundation.Process

/-! ## Hops of the requests sent -/

/-- The hop an instance sees in the requests sent by a lookup. -/
def Hop.next : Hop → Hop
  | .client => .peer
  | .peer | .peerOfPeer => .peerOfPeer

theorem fromHeaders_hopHeaders (hop : Hop) : Hop.fromHeaders (hopHeaders hop) = hop.next := by
  cases hop <;> rfl

theorem fromHeaders_forwardedHeaders (headers : HeaderMap) (hop : Hop) :
    Hop.fromHeaders (forwardedHeaders headers (some hop)) = hop.next := by
  have hother : (["accept".toList, "accept-encoding".toList, "range".toList].filterMap
      fun name => (headers.lookup name).map fun value => (name, value)).lookup hopHeader = none := by
    refine List.lookup_eq_none_iff.2 fun entry hentry => ?_
    obtain ⟨name, hname, hmap⟩ := List.mem_filterMap.1 hentry
    obtain ⟨value, -, rfl⟩ := Option.map_eq_some_iff.1 hmap
    have hne : ∀ name ∈ ["accept".toList, "accept-encoding".toList, "range".toList],
        (hopHeader != name) = true := by decide
    exact hne name hname
  unfold forwardedHeaders
  rw [Hop.fromHeaders, List.lookup_append, hother]
  exact fromHeaders_hopHeaders hop

/-- Every request the operation sends has the hop after `hop`. -/
def CarriesHop (hop : Hop) (op : Op) : Prop :=
  ∀ request ∈ op.sent, Hop.fromHeaders request.headers = hop.next

section Carries

variable {crypto : Crypto} {reg : Registry} {app : AppState} {storeHash : Str} {hop : Hop}

theorem LookupOp.carriesHop {op : Op} (h : LookupOp hop op) : CarriesHop hop op := by
  intro request hrequest
  cases op with
  | spawnHeads requests =>
      rw [h request hrequest]
      exact fromHeaders_hopHeaders hop
  | getBytes sent =>
      obtain rfl := List.mem_singleton.1 hrequest
      rw [h]
      exact fromHeaders_hopHeaders hop
  | proxy sent => exact h.elim
  | spawnNar candidate sent => exact h.elim
  | sendNar sent => exact h.elim
  | _ => cases hrequest

theorem RaceOp.carriesHop {op : Op} (h : RaceOp hop op) : CarriesHop hop op := by
  rcases h with h | rfl | rfl
  · exact h.carriesHop
  · exact fun _ h => nomatch h
  · exact fun _ h => nomatch h

theorem carriesHop_of_sent_eq_nil {op : Op} (h : op.sent = []) : CarriesHop hop op := by
  intro request hrequest
  rw [h] at hrequest
  cases hrequest

theorem performs_resolveCached_carriesHop :
    Performs (CarriesHop hop) (resolveCached crypto reg storeHash hop) :=
  performs_resolveCached.mono fun _ h => CachedOp.lookupOp h |>.carriesHop

theorem performs_race_carriesHop (candidates : List Str) :
    Performs (CarriesHop hop) (race crypto reg storeHash candidates hop) :=
  (performs_race candidates).mono fun _ h => h.carriesHop

theorem performs_resolveLocked (candidates : List Str) :
    Performs (CarriesHop .client) (resolveLocked crypto reg storeHash candidates) := by
  refine performs_resolveCached_carriesHop.bind fun checked => ?_
  match checked with
  | .error err => trivial
  | .ok (some result) => trivial
  | .ok none =>
      refine (performs_race_carriesHop candidates).bind fun result => ?_
      split
      · exact ⟨carriesHop_of_sent_eq_nil rfl, fun _ =>
          ⟨carriesHop_of_sent_eq_nil rfl, fun _ => trivial⟩⟩
      · trivial

theorem performs_resolve (candidates : List Str) :
    Performs (CarriesHop hop) (resolve crypto reg storeHash candidates hop) := by
  refine performs_resolveCached_carriesHop.bind fun checked => ?_
  match checked with
  | .error err => trivial
  | .ok (some result) => trivial
  | .ok none =>
      match hop with
      | .peerOfPeer => trivial
      | .peer => exact performs_race_carriesHop candidates
      | .client =>
          refine ⟨carriesHop_of_sent_eq_nil rfl, fun _ => ⟨carriesHop_of_sent_eq_nil rfl,
            fun _ => ?_⟩⟩
          exact (performs_resolveLocked candidates).bind fun _ =>
            ⟨carriesHop_of_sent_eq_nil rfl, fun _ => ⟨carriesHop_of_sent_eq_nil rfl,
              fun _ => trivial⟩⟩

/-- The operations of the response to a lookup at `hop`. -/
def ResponseOp (hop : Hop) : Op → Prop
  | .getBytes request | .proxy request => Hop.fromHeaders request.headers = hop.next
  | .elapsed => True
  | _ => False

theorem ResponseOp.carriesHop {op : Op} (h : ResponseOp hop op) : CarriesHop hop op := by
  intro request hrequest
  cases op with
  | getBytes sent =>
      rw [List.mem_singleton.1 hrequest]
      exact h
  | proxy sent =>
      rw [List.mem_singleton.1 hrequest]
      exact h
  | elapsed => cases hrequest
  | _ => exact h.elim

theorem performs_resolvedResponse (request : ClientRequest) (result : ResolveResult)
    (route : RouteKind) :
    Performs (ResponseOp hop) (resolvedResponse app request hop result route) := by
  unfold resolvedResponse
  split
  · trivial
  · refine Performs.bind ⟨fromHeaders_forwardedHeaders request.headers hop, fun reply => ?_⟩
      fun _ => trivial
    match reply with
    | .ok (some status) => trivial
    | .ok none => trivial
    | .error err => trivial

theorem performs_tryFallbackNarinfo (request : ClientRequest) :
    Performs (ResponseOp (Hop.fromHeaders request.headers))
      (tryFallbackNarinfo crypto app storeHash request) := by
  unfold tryFallbackNarinfo
  split
  · trivial
  · next fallback _ =>
    have hfetch : Performs (ResponseOp (Hop.fromHeaders request.headers))
        (resolveFallback crypto app.registry storeHash fallback.url
          (Hop.fromHeaders request.headers)) := by
      refine ⟨fromHeaders_hopHeaders _, fun reply => ?_⟩
      simp only [Process.bind]
      cases checkNarinfo crypto app.registry fallback.url reply with
      | error err => trivial
      | ok fetched => exact ⟨trivial, fun _ => trivial⟩
    refine hfetch.bind fun result => ?_
    cases result with
    | ok result => exact (performs_resolvedResponse request result .fallback).bind fun _ => trivial
    | error err => cases err <;> trivial

theorem performs_narinfoResponse (request : ClientRequest)
    (result : Except RouterError ResolveResult) :
    Performs (ResponseOp (Hop.fromHeaders request.headers))
      (narinfoResponse crypto app storeHash request result) := by
  match result with
  | .ok result => exact performs_resolvedResponse request result _
  | .error .upstreamUnavailable | .error (.noCandidates _) =>
      refine (performs_tryFallbackNarinfo request).bind fun response => ?_
      cases response <;> trivial
  | .error .notFound | .error .signatureVerificationFailed | .error (.backend _)
  | .error (.parseNarinfo _) | .error (.db _) => trivial

/-- Whatever the replies are, the handler sends only requests with the hop after
the one it serves. -/
theorem performs_narinfo (hashNarinfo : Str) (request : ClientRequest) :
    Performs (CarriesHop (Hop.fromHeaders request.headers))
      (narinfo crypto app hashNarinfo request) := by
  unfold narinfo
  split
  · trivial
  · split
    · exact ⟨carriesHop_of_sent_eq_nil rfl, fun _ => (performs_resolve _).bind fun _ =>
        (performs_narinfoResponse request _).mono fun _ h => h.carriesHop⟩
    · trivial

end Carries

/-! ## What the caches have -/

/-- What a lookup finds in the caches for its hash. -/
structure CacheView where
  missLru : Option Unit
  negative : Except DbError Bool
  lru : Option ResolveResult
  row : Except DbError (Option RouteEntry)
  now : Timestamp
  health : Str → Option UpstreamHealth

namespace CacheView

/-- The replies of the caches; everything else may reply as it likes. -/
def allows (view : CacheView) : (op : Op) → op.Reply → Prop
  | .missLruGet _, reply => reply = view.missLru
  | .dbIsNegative _, reply => reply = view.negative
  | .lruGet _, reply => reply = view.lru
  | .dbGetRoute _, reply => reply = view.row
  | .timestampNow, reply => reply = view.now
  | .getHealth url, reply => reply = view.health url
  | _, _ => True

/-- Whether a cached route can be served without asking its upstream. -/
def servable (reg : Registry) (url : Str) (bytes : Option Octets) : Bool :=
  cachedPasses reg url bytes && bytes.isSome

/-- Whether the route table's row is looked at. -/
def live (view : CacheView) (entry : RouteEntry) : Bool :=
  entry.isValid view.now && !(view.health entry.upstreamUrl).any fun h => h.status = .down

/-- The upstream of the cached route that a lookup finds, when the route cannot
be served as it is. -/
def refetches (reg : Registry) (view : CacheView) : Option Str :=
  match view.missLru, view.negative with
  | none, .ok false =>
      match view.lru, view.row with
      | some cached, _ =>
          if servable reg cached.url cached.narinfoBytes then none else some cached.url
      | none, .ok (some entry) =>
          if view.live entry && !servable reg entry.upstreamUrl entry.narinfoBytes then
            some entry.upstreamUrl
          else none
      | none, _ => none
  | _, _ => none

/-- Every operation gets a reply. -/
theorem exists_allowed (view : CacheView) (op : Op) : ∃ reply, view.allows op reply := by
  cases op with
  | missLruGet _ => exact ⟨_, rfl⟩
  | dbIsNegative _ => exact ⟨_, rfl⟩
  | lruGet _ => exact ⟨_, rfl⟩
  | dbGetRoute _ => exact ⟨_, rfl⟩
  | timestampNow => exact ⟨_, rfl⟩
  | getHealth url => exact ⟨_, rfl⟩
  | _ => exact ⟨default, trivial⟩

end CacheView

/-! ## Lookups that need nobody -/

section Served

variable {crypto : Crypto} {reg : Registry} {app : AppState} {view : CacheView} {storeHash : Str}
  {hop : Hop} {events : List HandlerEvent}

/-- What a lookup in the caches comes to when it asks no upstream. -/
def Served : Except RouterError (Option ResolveResult) → Prop
  | .ok (some result) => result.narinfoBytes.isSome = true
  | .ok none => True
  | .error err => err = .notFound ∨ ∃ e, err = .db e

theorem run_serveRoute {entry : RouteEntry}
    {result : Except RouterError (Option ResolveResult)}
    (h : Run view.allows (serveRoute reg storeHash entry) events result) :
    sentRequests events = [] ∧ ∃ r : ResolveResult, result = .ok (some r) ∧
      r.narinfoBytes.isSome = entry.narinfoBytes.isSome := by
  obtain ⟨_, _, rfl, -, h⟩ := run_call_bind_iff.1 h
  obtain ⟨rfl, rfl⟩ := run_ret_iff.1 h
  exact ⟨rfl, _, rfl, Registry.isSome_responseNarinfoBytes _ _ _ _⟩

theorem run_lruRoute_served {cached : ResolveResult}
    (hservable : CacheView.servable reg cached.url cached.narinfoBytes = true)
    {result : Except RouterError (Option ResolveResult)}
    (h : Run view.allows (lruRoute crypto reg storeHash hop cached) events result) :
    sentRequests events = [] ∧ Served result := by
  obtain ⟨hpasses, hbytes⟩ := Bool.and_eq_true_iff.1 hservable
  unfold lruRoute at h
  rw [cachedRouteFilterCheck, if_pos hpasses] at h
  obtain ⟨rfl, rfl⟩ := run_ret_iff.1 h
  exact ⟨rfl, hbytes⟩

theorem run_storedRoute_served {entry : RouteEntry}
    (hservable : view.live entry = true →
      CacheView.servable reg entry.upstreamUrl entry.narinfoBytes = true)
    {result : Except RouterError (Option ResolveResult)}
    (h : Run view.allows (storedRoute crypto reg storeHash hop entry) events result) :
    sentRequests events = [] ∧ Served result := by
  obtain ⟨_, tail, rfl, rfl, h⟩ := run_call_bind_iff.1 h
  split at h
  · obtain ⟨rfl, rfl⟩ := run_ret_iff.1 h
    exact ⟨rfl, trivial⟩
  · next hvalid =>
    obtain ⟨_, tail, rfl, rfl, h⟩ := run_call_bind_iff.1 h
    split at h
    · obtain ⟨rfl, rfl⟩ := run_ret_iff.1 h
      exact ⟨rfl, trivial⟩
    · next hup =>
      have hlive : view.live entry = true := by
        simp only [CacheView.live, Bool.and_eq_true, Bool.not_eq_true']
        exact ⟨by simpa using hvalid, by simpa using hup⟩
      obtain ⟨hpasses, hbytes⟩ := Bool.and_eq_true_iff.1 (hservable hlive)
      rw [cachedRouteFilterCheck, if_pos hpasses] at h
      replace h : Run _ (ite _ _ _) _ _ := h
      rw [if_pos hbytes] at h
      obtain ⟨hsent, r, rfl, hr⟩ := run_serveRoute h
      exact ⟨by simpa [Op.sent] using hsent, hr.trans hbytes⟩

/-- A lookup in the caches asks no upstream when there is nothing to refetch. -/
theorem run_resolveCached_served (hview : view.refetches reg = none)
    {result : Except RouterError (Option ResolveResult)}
    (h : Run view.allows (resolveCached crypto reg storeHash hop) events result) :
    sentRequests events = [] ∧ Served result := by
  obtain ⟨miss, tail, rfl, hmiss, h⟩ := run_call_bind_iff.1 h
  cases miss with
  | some _ =>
      obtain ⟨rfl, rfl⟩ := run_ret_iff.1 h
      exact ⟨rfl, .inl rfl⟩
  | none =>
      obtain ⟨negative, tail, rfl, hnegative, h⟩ := run_call_bind_iff.1 h
      match negative with
      | .error err =>
          obtain ⟨rfl, rfl⟩ := run_ret_iff.1 h
          exact ⟨rfl, .inr ⟨err, rfl⟩⟩
      | .ok true =>
          obtain ⟨rfl, rfl⟩ := run_ret_iff.1 h
          exact ⟨rfl, .inl rfl⟩
      | .ok false =>
          obtain ⟨cached, tail, rfl, hcached, h⟩ := run_call_bind_iff.1 h
          have hnone : none = view.missLru := hmiss
          have hfalse : .ok false = view.negative := hnegative
          have hlru : cached = view.lru := hcached
          unfold CacheView.refetches at hview
          rw [← hnone, ← hfalse, ← hlru] at hview
          cases cached with
          | some cached =>
              have hservable : CacheView.servable reg cached.url cached.narinfoBytes = true := by
                simpa using hview
              obtain ⟨hsent, hserved⟩ := run_lruRoute_served hservable h
              exact ⟨by simpa [Op.sent] using hsent, hserved⟩
          | none =>
              obtain ⟨row, tail, rfl, hrow, h⟩ := run_call_bind_iff.1 h
              have hrow : row = view.row := hrow
              rw [← hrow] at hview
              match row with
              | .error err =>
                  obtain ⟨rfl, rfl⟩ := run_ret_iff.1 h
                  exact ⟨rfl, .inr ⟨err, rfl⟩⟩
              | .ok none =>
                  obtain ⟨rfl, rfl⟩ := run_ret_iff.1 h
                  exact ⟨rfl, trivial⟩
              | .ok (some entry) =>
                  have hservable : view.live entry = true →
                      CacheView.servable reg entry.upstreamUrl entry.narinfoBytes = true := by
                    intro hlive
                    simpa [hlive] using hview
                  obtain ⟨hsent, hserved⟩ := run_storedRoute_served hservable h
                  exact ⟨by simpa [Op.sent] using hsent, hserved⟩

/-- What such a lookup returns is answered without asking an upstream either. -/
theorem run_narinfoResponse_served {allowed : (op : Op) → op.Reply → Prop}
    {request : ClientRequest} {result : Except RouterError ResolveResult}
    (hresult : Served (result.map some)) {response : Response}
    (h : Run allowed (narinfoResponse crypto app storeHash request result) events response) :
    events = [] := by
  match result with
  | .ok r =>
      obtain ⟨bytes, hbytes⟩ := Option.isSome_iff_exists.1 hresult
      unfold narinfoResponse resolvedResponse at h
      simp only [hbytes] at h
      exact (run_ret_iff.1 h).1
  | .error err =>
      obtain rfl | ⟨err, rfl⟩ := hresult
      · exact (run_ret_iff.1 h).1
      · exact (run_ret_iff.1 h).1

/-- A lookup for a peer of a peer sends nothing when there is nothing to
refetch. -/
theorem run_resolve_served (hview : view.refetches reg = none) {candidates : List Str}
    {result : Except RouterError ResolveResult}
    (h : Run view.allows (resolve crypto reg storeHash candidates .peerOfPeer) events result) :
    sentRequests events = [] ∧ Served (result.map some) := by
  obtain ⟨cached, checked, rest, rfl, hcached, h⟩ := run_bind_iff.1 h
  obtain ⟨hsent, hserved⟩ := run_resolveCached_served hview hcached
  rw [sentRequests_append, hsent]
  match checked with
  | .error err =>
      obtain ⟨rfl, rfl⟩ := run_ret_iff.1 h
      exact ⟨rfl, hserved⟩
  | .ok (some r) =>
      obtain ⟨rfl, rfl⟩ := run_ret_iff.1 h
      exact ⟨rfl, hserved⟩
  | .ok none =>
      obtain ⟨rfl, rfl⟩ := run_ret_iff.1 h
      exact ⟨rfl, .inl rfl⟩

theorem run_narinfo_served (hview : view.refetches app.registry = none) {hashNarinfo : Str}
    {request : ClientRequest} (hhop : Hop.fromHeaders request.headers = .peerOfPeer)
    {response : Response}
    (h : Run view.allows (narinfo crypto app hashNarinfo request) events response) :
    sentRequests events = [] := by
  unfold narinfo at h
  split at h
  · rw [(run_ret_iff.1 h).1]
    rfl
  · split at h
    · obtain ⟨_, tail, rfl, -, h⟩ := run_call_bind_iff.1 h
      rw [hhop] at h
      obtain ⟨resolved, result, answered, rfl, hresolve, h⟩ := run_bind_iff.1 h
      obtain ⟨hsent, hserved⟩ := run_resolve_served hview hresolve
      rw [run_narinfoResponse_served hserved h]
      simpa [Op.sent] using hsent
    · rw [(run_ret_iff.1 h).1]
      rfl

end Served

/-! ## Lookups that refetch -/

section Refetching

variable {crypto : Crypto} {reg : Registry} {app : AppState} {view : CacheView} {storeHash : Str}
  {hop : Hop} {url : Str} {α β : Type}

/-- Some run sends a request to an upstream. -/
abbrev MaySend (view : CacheView) (url : Str) (p : Handler α) : Prop :=
  May view.allows (fun event => ∃ sent ∈ event.1.sent, sent.upstream = url) p

theorem maySend_ask {op : Op} {sent : UpstreamRequest} (hsent : op.sent = [sent])
    (hurl : sent.upstream = url) : MaySend view url (ask op) := by
  obtain ⟨reply, hreply⟩ := view.exists_allowed op
  exact may_call hreply ⟨sent, by simp [hsent], hurl⟩

theorem MaySend.bind {p : Handler α} {f : α → Handler β} (h : MaySend view url p) :
    MaySend view url (p >>= f) :=
  May.bind view.exists_allowed h

theorem maySend_fetchNarinfo :
    MaySend view url (fetchNarinfo crypto reg url storeHash hop) := by
  have hask : MaySend view url (ask (.getBytes (narinfoRequest reg url storeHash hop))) :=
    maySend_ask rfl rfl
  exact hask.bind

theorem maySend_cachedRouteFilterCheck {bytes : Option Octets}
    (hfails : cachedPasses reg url bytes = false) :
    MaySend view url (cachedRouteFilterCheck crypto reg url storeHash bytes hop) := by
  rw [cachedRouteFilterCheck, if_neg (by simp [hfails])]
  exact maySend_fetchNarinfo.bind

/-- A row that cannot be served is refetched. -/
theorem maySend_storedRoute {entry : RouteEntry} (hlive : view.live entry = true)
    (hfails : CacheView.servable reg entry.upstreamUrl entry.narinfoBytes = false) :
    MaySend view entry.upstreamUrl (storedRoute crypto reg storeHash hop entry) := by
  obtain ⟨hvalid, hup⟩ := Bool.and_eq_true_iff.1 hlive
  have hnow : view.allows .timestampNow view.now := rfl
  have hhealth : view.allows (.getHealth entry.upstreamUrl) (view.health entry.upstreamUrl) := rfl
  refine .call_bind hnow ?_
  rw [if_neg (by simp [hvalid])]
  refine .call_bind hhealth ?_
  rw [if_neg (by simpa using hup)]
  cases hpasses : cachedPasses reg entry.upstreamUrl entry.narinfoBytes with
  | false => exact (maySend_cachedRouteFilterCheck hpasses).bind
  | true =>
      have hbytes : entry.narinfoBytes.isSome = false := by
        simpa [CacheView.servable, hpasses] using hfails
      rw [cachedRouteFilterCheck, if_pos hpasses]
      show MaySend _ _ (ite _ _ _)
      rw [if_neg (by simp [hbytes])]
      exact maySend_fetchNarinfo.bind

variable (crypto storeHash hop) in
/-- A cached route that cannot be served is refetched, or it is an entry of the
LRU that passes the filters and has no bytes. -/
theorem maySend_resolveCached (hview : view.refetches reg = some url) :
    MaySend view url (resolveCached crypto reg storeHash hop) ∨
      ∃ events r, Run view.allows (resolveCached crypto reg storeHash hop) events (.ok (some r)) ∧
        r.narinfoBytes = none ∧ r.url = url := by
  unfold CacheView.refetches at hview
  split at hview
  · next hmiss hnegative =>
    have hmiss : view.allows (.missLruGet storeHash) none := hmiss.symm
    have hnegative : view.allows (.dbIsNegative storeHash) (.ok false) := hnegative.symm
    split at hview
    · next cached hlru =>
      have hlru : view.allows (.lruGet storeHash) (some cached) := hlru.symm
      split at hview
      · cases hview
      · next hfails =>
        cases hview
        cases hpasses : cachedPasses reg cached.url cached.narinfoBytes with
        | false =>
            exact .inl (.call_bind hmiss (.call_bind hnegative (.call_bind hlru
              (maySend_cachedRouteFilterCheck hpasses).bind)))
        | true =>
            have hbytes : cached.narinfoBytes = none := by
              simpa [CacheView.servable, hpasses] using hfails
            have hroute : Run view.allows (lruRoute crypto reg storeHash hop cached) []
                (.ok (some { cached with cacheHit := true })) := by
              unfold lruRoute
              rw [cachedRouteFilterCheck, if_pos hpasses]
              exact .ret _
            exact .inr ⟨_, { cached with cacheHit := true },
              .perform hmiss (.perform hnegative (.perform hlru hroute)), hbytes, rfl⟩
    · next entry hlru hrow =>
      have hlru : view.allows (.lruGet storeHash) none := hlru.symm
      have hrow : view.allows (.dbGetRoute storeHash) (.ok (some entry)) := hrow.symm
      split at hview
      · next hrefetch =>
        cases hview
        obtain ⟨hlive, hfails⟩ := Bool.and_eq_true_iff.1 hrefetch
        exact .inl (.call_bind hmiss (.call_bind hnegative (.call_bind hlru (.call_bind hrow
          (maySend_storedRoute hlive (by simpa using hfails))))))
      · cases hview
    · cases hview
  · cases hview

variable (crypto) in
/-- A cached route that cannot be served makes the handler send a request, under
every hop. -/
theorem maySend_narinfo (hview : view.refetches app.registry = some url)
    (hhash : isStoreHash storeHash = true) (request : ClientRequest) :
    MaySend view url (narinfo crypto app (storeHash ++ ".narinfo".toList) request) := by
  have hsuffix : (storeHash ++ ".narinfo".toList).dropSuffix? ".narinfo".toList = some storeHash :=
    List.dropSuffix?_eq_some_iff.2 ⟨_, rfl, by simp⟩
  have hresponse : ∀ candidates, MaySend view url (resolve crypto app.registry storeHash candidates
      (Hop.fromHeaders request.headers) >>= narinfoResponse crypto app storeHash request) := by
    intro candidates
    rcases maySend_resolveCached crypto storeHash (Hop.fromHeaders request.headers) hview with
      hsend | ⟨events, r, hrun, hbytes, rfl⟩
    · exact hsend.bind.bind
    · have hresolve : Run view.allows (resolve crypto app.registry storeHash candidates
          (Hop.fromHeaders request.headers)) events (.ok r) :=
        run_bind_iff.2 ⟨events, _, [], by simp, hrun, .ret _⟩
      refine .after hresolve ?_
      unfold narinfoResponse resolvedResponse
      simp only [hbytes]
      have hproxy : MaySend view r.url (proxyTo app r.url request
          (forwardedHeaders request.headers (some (Hop.fromHeaders request.headers)))) :=
        MaySend.bind (maySend_ask rfl rfl)
      exact hproxy.bind
  have hsorted : view.allows .sortedByLatency [] := trivial
  unfold narinfo
  rw [hsuffix]
  show MaySend _ _ (ite _ _ _)
  rw [if_pos hhash]
  exact .call_bind hsorted (hresponse _)

end Refetching

/-! ## Networks -/

/-- Instances of ncro that may be upstreams of each other. -/
structure Network (ι : Type) where
  app : ι → AppState
  /-- The instance behind an upstream URL, if there is one. -/
  instanceAt : Str → Option ι
  instanceAt_nil : instanceAt [] = none

/-- The hop an instance serves a narinfo request with. -/
def ClientRequest.hop (request : ClientRequest) : Hop :=
  Hop.fromHeaders request.headers

/-- A request as the instance it was sent to sees it. -/
def UpstreamRequest.received (sent : UpstreamRequest) : ClientRequest where
  method := sent.method
  path := withoutQuery sent.path
  query := sent.path.drop (withoutQuery sent.path).length
  headers := sent.headers

namespace Network

variable {ι : Type} (crypto : Crypto) (net : Network ι)
  (caches : ι → StoreHash → CacheView → Prop)

/-- Serving a narinfo request, an instance may send another request. A lookup for
a peer of a peer reads every cache once, and what it finds is one of the contents
that the caches may have; about the others nothing is assumed. -/
def SendsNarinfo (i : ι) (storeHash : StoreHash) (request : ClientRequest)
    (sent : UpstreamRequest) : Prop :=
  ∃ view events response, (request.hop = .peerOfPeer → caches i storeHash view) ∧
    Run (fun op reply => request.hop = .peerOfPeer → view.allows op reply)
      (narinfo crypto (net.app i) (storeHash.val ++ ".narinfo".toList) request) events response ∧
    sent ∈ sentRequests events

/-- A narinfo request served by one instance causes a request served by
another. -/
def ForwardsNarinfo (storeHash : StoreHash) (served caused : ι × ClientRequest) : Prop :=
  ∃ sent, net.SendsNarinfo crypto caches served.1 storeHash served.2 sent ∧
    net.instanceAt sent.upstream = some caused.1 ∧ caused.2 = sent.received

variable {crypto net caches} {i : ι} {storeHash : StoreHash} {request : ClientRequest}
  {sent : UpstreamRequest}

theorem SendsNarinfo.hop_received (h : net.SendsNarinfo crypto caches i storeHash request sent) :
    sent.received.hop = request.hop.next := by
  obtain ⟨view, events, response, -, hrun, hsent⟩ := h
  obtain ⟨event, hevent, hsent⟩ := List.mem_flatMap.1 hsent
  exact hrun.performs (performs_narinfo _ request) event hevent sent hsent

/-- Where the caches have nothing to refetch, a lookup for a peer of a peer sends
no request. -/
theorem SendsNarinfo.hop_ne_peerOfPeer
    (hcaches : ∀ i storeHash view, caches i storeHash view →
      view.refetches (net.app i).registry = none)
    (h : net.SendsNarinfo crypto caches i storeHash request sent) :
    request.hop ≠ .peerOfPeer := by
  intro hhop
  obtain ⟨view, events, response, hview, hrun, hsent⟩ := h
  have hrun' : Run view.allows _ events response := hrun.mono fun _ _ hreply => hreply hhop
  rw [run_narinfo_served (hcaches i storeHash view (hview hhop)) hhop hrun'] at hsent
  cases hsent

theorem SendsNarinfo.rank_lt
    (hcaches : ∀ i storeHash view, caches i storeHash view →
      view.refetches (net.app i).registry = none)
    (h : net.SendsNarinfo crypto caches i storeHash request sent) :
    request.hop.rank < sent.received.hop.rank := by
  have hhop := h.hop_ne_peerOfPeer hcaches
  rw [h.hop_received]
  cases hcase : request.hop with
  | client => decide
  | peer => decide
  | peerOfPeer => exact absurd hcase hhop

variable (crypto net) in
theorem sendsNarinfo_of_refetches {view : CacheView} (hview : caches i storeHash view) {url : Str}
    (hrefetch : view.refetches (net.app i).registry = some url) (request : ClientRequest) :
    ∃ sent, net.SendsNarinfo crypto caches i storeHash request sent ∧ sent.upstream = url := by
  obtain ⟨events, response, hrun, event, hevent, sent, hsent, hurl⟩ :=
    maySend_narinfo crypto hrefetch storeHash.property request
  exact ⟨sent, ⟨view, events, response, fun _ => hview, hrun.mono fun _ _ h _ => h,
    List.mem_flatMap.2 ⟨event, hevent, hsent⟩⟩, hurl⟩

end Network

/-- Bounded narinfo forwarding. In every network, whatever its instances have
for upstreams, the following holds exactly when no lookup can find a cached
route that needs to be refetched: every narinfo request an instance sends while
serving one has a higher hop, one client request causes no more than two nested
requests between instances, and a lookup for a peer of a peer sends none. -/
theorem narinfo_forwarding (crypto : Crypto) {ι : Type} (net : Network ι)
    (caches : ι → StoreHash → CacheView → Prop) :
    ((∀ i storeHash request sent, net.SendsNarinfo crypto caches i storeHash request sent →
        request.hop.rank < sent.received.hop.rank) ∧
      (∀ storeHash client nested,
        (client :: nested).IsChain (net.ForwardsNarinfo crypto caches storeHash) →
          nested.length ≤ 2) ∧
      ∀ i storeHash request, request.hop = .peerOfPeer →
        ∀ sent, ¬net.SendsNarinfo crypto caches i storeHash request sent) ↔
    ∀ i storeHash view, caches i storeHash view →
      view.refetches (net.app i).registry = none := by
  constructor
  · rintro ⟨-, -, hnone⟩ i storeHash view hview
    by_contra hrefetch
    obtain ⟨url, hurl⟩ := Option.ne_none_iff_exists'.1 hrefetch
    let request : ClientRequest := ⟨.get, [], [], hopHeaders .peer⟩
    obtain ⟨sent, hsent, -⟩ := net.sendsNarinfo_of_refetches crypto hview hurl request
    exact hnone i storeHash request (by decide) sent hsent
  · intro hcaches
    refine ⟨fun _ _ _ _ hsent => hsent.rank_lt hcaches, fun storeHash client nested hchain => ?_,
      fun _ _ _ hhop _ hsent => hsent.hop_ne_peerOfPeer hcaches hhop⟩
    have hrank : ∀ served caused, net.ForwardsNarinfo crypto caches storeHash served caused →
        served.2.hop.rank < caused.2.hop.rank := by
      rintro served caused ⟨sent, hsent, -, hreceived⟩
      rw [hreceived]
      exact hsent.rank_lt hcaches
    have hbound : ∀ served : ι × ClientRequest, served.2.hop.rank ≤ 2 := by
      intro served
      cases served.2.hop <;> decide
    have hle := rank_add_length_le hrank hbound hchain
    omega

/-! ## Two instances that refetch from each other -/

/-- A row without bytes, as rows are from before the column was added. -/
def bareRow (url : Str) : RouteEntry where
  storePath := List.replicate 32 '0'
  upstreamUrl := url
  latencyMs := .fin 1
  latencyEma := .fin 1
  lastVerified := default
  queryCount := 1
  failureCount := 0
  ttl := oneSecond
  narHash := []
  narSize := 0
  narUrl := []
  upstreamNarUrl := []
  narinfoBytes := none

def bareView (url : Str) : CacheView where
  missLru := none
  negative := .ok false
  lru := none
  row := .ok (some (bareRow url))
  now := default
  health _ := none

/-- Instance `false` is at `a` and instance `true` at `b`. -/
def twoInstances : Network Bool where
  app _ := default
  instanceAt url := if url = ['a'] then some false else if url = ['b'] then some true else none
  instanceAt_nil := by decide

/-- The rows of each name the other. -/
def crossedCaches (i : Bool) (_ : StoreHash) (view : CacheView) : Prop :=
  view = bareView (if i then ['a'] else ['b'])

theorem exists_forwardsNarinfo_crossed (storeHash : StoreHash) (i : Bool)
    (request : ClientRequest) :
    ∃ caused, twoInstances.ForwardsNarinfo default crossedCaches storeHash (i, request)
      (!i, caused) := by
  have hrefetch : (bareView (if i then ['a'] else ['b'])).refetches (twoInstances.app i).registry
      = some (if i then ['a'] else ['b']) := by cases i <;> decide
  obtain ⟨sent, hsent, hurl⟩ := twoInstances.sendsNarinfo_of_refetches default
    (show crossedCaches i storeHash _ from rfl) hrefetch request
  have hat : ∀ i : Bool, twoInstances.instanceAt (if i then ['a'] else ['b']) = some (!i) := by
    decide
  exact ⟨sent.received, sent, hsent, by rw [hurl, hat], rfl⟩

/-- One client request causes three nested requests, and the last of them has no
higher hop than the one it is caused by. -/
theorem three_nested_requests :
    ∃ storeHash, ∃ client : Bool × ClientRequest, client.2.hop = .client ∧ ∃ nested,
      (client :: nested).IsChain
          (twoInstances.ForwardsNarinfo default crossedCaches storeHash) ∧
        nested.length = 3 := by
  let storeHash : StoreHash := ⟨List.replicate 32 '0', by decide⟩
  let client : ClientRequest := ⟨.get, narinfoPath storeHash.val, [], []⟩
  obtain ⟨first, hfirst⟩ := exists_forwardsNarinfo_crossed storeHash false client
  obtain ⟨second, hsecond⟩ := exists_forwardsNarinfo_crossed storeHash true first
  obtain ⟨third, hthird⟩ := exists_forwardsNarinfo_crossed storeHash false second
  refine ⟨storeHash, (false, client), by decide, [(true, first), (false, second), (true, third)],
    ?_, rfl⟩
  simpa using ⟨hfirst, hsecond, hthird⟩

end Ncro
