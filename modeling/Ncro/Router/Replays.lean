import Ncro.History
import Ncro.Router.FilterGate
import Ncro.Router.SingleFlight

/-!
# Requests on their own

What a lookup does when nothing else happens meanwhile, for the shortest ways it can
take: it is answered from the LRU, the only candidate wins its race, or the only
candidate does not have the path. The events are listed where runs have to know them.
-/

namespace Ncro

open Foundation Foundation.Process Flights

/-! ## Fetching and committing -/

section

variable {S : Type*} {sem : Semantics Op Op.Reply S} {crypto : Crypto} {reg : Registry}
  {winner : RaceResult} {storeHash : Str} {hop : Hop} {s s' : S} {events : List HandlerEvent}

theorem replay_fetchNarinfo_bind_iff {β : Type} {upstream : Str}
    {f : Except RouterError (Option Octets × NarInfo) → Handler β} {b : β} :
    Replay sem (fetchNarinfo crypto reg upstream storeHash hop >>= f) s events b s' ↔
      ∃ reply s₁ tail,
        events = ⟨.getBytes (narinfoRequest reg upstream storeHash hop), reply⟩ :: tail ∧
        sem (.getBytes (narinfoRequest reg upstream storeHash hop)) s reply s₁ ∧
        Replay sem (f (checkNarinfo crypto reg upstream reply)) s₁ tail b s' := by
  rw [fetchNarinfo, Process.call_bind, Process.perform_bind]
  exact replay_call_bind_iff

/-- A commit whose narinfo is accepted goes on to record its winner. -/
theorem replay_commitWinner_of_recordWinner {s₁ : S} {body : Octets} {parsed : NarInfo}
    {result : Except RouterError CommitOutcome}
    (hfetch : sem (.getBytes (narinfoRequest reg winner.url storeHash hop)) s (.ok (some body)) s₁)
    (hcheck : checkNarinfo crypto reg winner.url (.ok (some body)) = .ok (some body, parsed))
    (hallows : reg.allows winner.url parsed = true)
    (hrecord : Replay sem (recordWinner reg winner storeHash (some body) parsed) s₁ events result s') :
    Replay sem (commitWinner crypto reg winner storeHash hop) s
      (⟨.getBytes (narinfoRequest reg winner.url storeHash hop), .ok (some body)⟩ :: events)
      result s' := by
  apply replay_fetchNarinfo_bind_iff.2
  refine ⟨_, s₁, events, rfl, hfetch, ?_⟩
  rw [hcheck]
  show Replay sem (if !reg.allows winner.url parsed then return .ok .rejected
    else recordWinner reg winner storeHash (some body) parsed) s₁ events result s'
  rw [hallows]
  exact hrecord

end

section

variable {crypto : Crypto} {reg : Registry} {s : Instance} {storeHash : Str} {hop : Hop}

namespace Instance

/-! ## The LRU -/

/-- A lookup that finds its answer in the LRU. -/
theorem replay_resolve_of_lru {candidates : List Str} {cached : ResolveResult}
    (hmiss : s.missLru.get s.clock storeHash = (none, s.missLru))
    (hnegative : s.negatives.isNegative s.wallClock storeHash = false)
    (hlru : (s.lru.get s.clock storeHash).1 = some cached)
    (hpasses : cachedPasses reg cached.url cached.narinfoBytes = true) :
    Replay (exec reg) (resolve crypto reg storeHash candidates hop) s
      [⟨.missLruGet storeHash, none⟩, ⟨.dbIsNegative storeHash, .ok false⟩,
        ⟨.lruGet storeHash, some cached⟩]
      (.ok { cached with cacheHit := true })
      { s with lru := (s.lru.get s.clock storeHash).2 } := by
  have hmissGet : exec reg (.missLruGet storeHash) s none s := by rw [exec, hmiss]
  have hnegativeRead : exec reg (.dbIsNegative storeHash) s (.ok false) s :=
    ⟨.inr (by rw [hnegative]), rfl⟩
  have hget : exec reg (.lruGet storeHash) s (some cached)
      { s with lru := (s.lru.get s.clock storeHash).2 } := by rw [exec, hlru]
  have hcheck : lruRoute crypto reg storeHash hop cached
      = .ret (.ok (some { cached with cacheHit := true })) := by
    rw [lruRoute, cachedRouteFilterCheck, if_pos hpasses]
    rfl
  have hcached : Replay (exec reg) (resolveCached crypto reg storeHash hop) s
      [⟨.missLruGet storeHash, none⟩, ⟨.dbIsNegative storeHash, .ok false⟩,
        ⟨.lruGet storeHash, some cached⟩]
      (.ok (some { cached with cacheHit := true }))
      { s with lru := (s.lru.get s.clock storeHash).2 } := by
    refine .call_bind hmissGet (.call_bind hnegativeRead (.call_bind hget ?_))
    show Replay _ (lruRoute crypto reg storeHash hop cached) _ _ _ _
    rw [hcheck]
    exact .ret _ _
  exact hcached.bind (.ret _ _)

/-! ## Races of one candidate -/

/-- The answer of a winner. -/
def winnerAnswer (reg : Registry) (winner : RaceResult) (storeHash : Str) (body : Octets) :
    ResolveResult where
  url := winner.url
  latencyMs := winner.latencyMs
  cacheHit := false
  narinfoBytes := reg.responseNarinfoBytes winner.url storeHash (some body)

/-- The instance after it has committed a winner that the prober does not track. -/
def committed (s : Instance) (reg : Registry) (winner : RaceResult) (storeHash : Str)
    (body : Octets) (parsed : NarInfo) : Instance :=
  let s' := s.stored
    (winnerRoute reg winner storeHash (some body) parsed winner.latencyMs s.wallClock)
  { s' with lru := s'.lru.insert s'.clock storeHash (winnerAnswer reg winner storeHash body) }

/-- What `commit_winner` does for a winner that the prober does not track. -/
def commitEvents (s : Instance) (reg : Registry) (winner : RaceResult) (storeHash : Str) (hop : Hop)
    (body : Octets) (parsed : NarInfo) : List HandlerEvent :=
  [⟨.getBytes (narinfoRequest reg winner.url storeHash hop), .ok (some body)⟩,
    ⟨.countWin winner.url winner.latencyMs, ()⟩, ⟨.getHealth winner.url, none⟩,
    ⟨.recordLatency winner.url winner.latencyMs, ()⟩, ⟨.timestampNow, s.wallClock⟩,
    ⟨.dbUpsertRoute
      (winnerRoute reg winner storeHash (some body) parsed winner.latencyMs s.wallClock), .ok ()⟩,
    ⟨.dbCountWrite, s.writeCount⟩,
    ⟨.lruInsert storeHash (winnerAnswer reg winner storeHash body), ()⟩]

theorem replay_commitWinner {winner : RaceResult} {body : Octets} {parsed : NarInfo}
    (hcheck : checkNarinfo crypto reg winner.url (.ok (some body)) = .ok (some body, parsed))
    (hallows : reg.allows winner.url parsed = true)
    (hhealth : s.health.get winner.url = none) (hcount : s.writeCount % 100 ≠ 99) :
    Replay (exec reg) (commitWinner crypto reg winner storeHash hop) s
      (s.commitEvents reg winner storeHash hop body parsed)
      (.ok (.accepted (winnerAnswer reg winner storeHash body)))
      (s.committed reg winner storeHash body parsed) := by
  let entry := winnerRoute reg winner storeHash (some body) parsed winner.latencyMs s.wallClock
  have hfetch : exec reg (.getBytes (narinfoRequest reg winner.url storeHash hop)) s
      (.ok (some body)) s := rfl
  have hwin : exec reg (.countWin winner.url winner.latencyMs) s () s := rfl
  have hask : exec reg (.getHealth winner.url) s none s := ⟨hhealth.symm, rfl⟩
  have hlatency : exec reg (.recordLatency winner.url winner.latencyMs) s () s := by
    have hsame : s.health.recordLatency reg.alpha s.clock winner.url winner.latencyMs = s.health := by
      rw [HealthTable.recordLatency, hhealth]
    rw [exec, hsame]
  have hnow : exec reg .timestampNow s s.wallClock s := ⟨rfl, rfl⟩
  have hinsert : exec reg (.lruInsert storeHash (winnerAnswer reg winner storeHash body))
      (s.stored entry) () (s.committed reg winner storeHash body parsed) := rfl
  apply replay_commitWinner_of_recordWinner hfetch hcheck hallows
  refine .call_bind hwin (.call_bind hask (.call_bind hlatency (.call_bind hnow ?_)))
  exact (replay_setRoute entry hcount).bind (.call_bind hinsert (.ret _ _))

/-- The only request of a race is answered. -/
theorem replay_raceGroup_one {url : Str} {answer : HeadAnswer}
    {result : Except RaceGroupError (Winner [url])}
    (hanswer : (∃ latency, answer = .found latency ∧
        result = .ok ⟨⟨url, latency⟩, List.mem_singleton_self url⟩) ∨
      answer = .miss ∧ result = .error .notFound) :
    Replay (exec reg) (raceGroup reg storeHash [url] hop) s
      [⟨.spawnHeads [headRequest reg storeHash hop url], ()⟩,
        ⟨.joinHead [headRequest reg storeHash hop url], some (0, answer)⟩] result s := by
  let request := headRequest reg storeHash hop url
  have hspawn : exec reg (.spawnHeads [request]) s () s := rfl
  have hjoin : exec reg (.joinHead [request]) s (some (0, answer)) s := rfl
  refine .call_bind hspawn ?_
  show Replay _ (joinHeads _ _ _ _ _) _ _ _ _
  rw [joinHeads, if_neg (by simp)]
  rcases hanswer with ⟨latency, rfl, rfl⟩ | ⟨rfl, rfl⟩
  · exact .call_bind hjoin (.ret _ _)
  · refine .call_bind hjoin ?_
    show Replay _ (joinHeads _ _ _ _ _) _ _ _ _
    rw [joinHeads, if_pos (by simp)]
    exact .ret _ _

/-- What a race does before and after it runs through its only group. -/
theorem replay_raceCandidates_one {url : Str} {events : List HandlerEvent} {outcome : GroupOutcome}
    {result : Except RouterError ResolveResult} {s' : Instance}
    (hcool : s.cooldown = ∅) (hhealth : s.health.get url = none)
    (hgroup : Replay (exec reg) (raceWithinGroup crypto reg storeHash hop [url] false) s events
      outcome s')
    (hresult : outcome = .done result ∨ outcome = .next true ∧ result = .error .notFound) :
    Replay (exec reg) (raceCandidates crypto reg storeHash [url] hop) s
      (⟨.inCooldown url, false⟩ :: ⟨.getHealth url, none⟩ :: events) result s' := by
  have hcooled : exec reg (.inCooldown url) s false s := exec_inCooldown hcool url
  have hask : exec reg (.getHealth url) s none s := ⟨hhealth.symm, rfl⟩
  refine .call_bind hcooled (.call_bind hask ?_)
  show Replay _ (raceWithinGroup _ _ _ _ _ _ >>= _) _ _ _ _
  rcases hresult with rfl | ⟨rfl, rfl⟩ <;> exact hgroup.bind_ret rfl

/-- The only candidate of a race wins it. -/
theorem replay_raceCandidates_won {winner : RaceResult} {body : Octets} {parsed : NarInfo}
    (hcool : s.cooldown = ∅)
    (hcheck : checkNarinfo crypto reg winner.url (.ok (some body)) = .ok (some body, parsed))
    (hallows : reg.allows winner.url parsed = true)
    (hhealth : s.health.get winner.url = none) (hcount : s.writeCount % 100 ≠ 99) :
    Replay (exec reg) (raceCandidates crypto reg storeHash [winner.url] hop) s
      (⟨.inCooldown winner.url, false⟩ :: ⟨.getHealth winner.url, none⟩ ::
        ⟨.spawnHeads [headRequest reg storeHash hop winner.url], ()⟩ ::
        ⟨.joinHead [headRequest reg storeHash hop winner.url],
          some (0, .found winner.latencyMs)⟩ ::
        s.commitEvents reg winner storeHash hop body parsed)
      (.ok (winnerAnswer reg winner storeHash body))
      (s.committed reg winner storeHash body parsed) := by
  have hraced : Replay (exec reg) (raceGroup reg storeHash [winner.url] hop) s _
      (.ok ⟨winner, List.mem_singleton_self _⟩) s :=
    replay_raceGroup_one (.inl ⟨winner.latencyMs, rfl, rfl⟩)
  have hcommit : Replay (exec reg) (commitWinner crypto reg winner storeHash hop) s _ _ _ :=
    replay_commitWinner hcheck hallows hhealth hcount
  refine replay_raceCandidates_one hcool hhealth ?_ (.inl rfl)
  rw [raceWithinGroup, if_neg (by simp)]
  exact hraced.bind (hcommit.bind_ret rfl)

/-- The only candidate of a race does not have the path. -/
theorem replay_raceCandidates_missed {url : Str} (hcool : s.cooldown = ∅)
    (hhealth : s.health.get url = none) :
    Replay (exec reg) (raceCandidates crypto reg storeHash [url] hop) s
      [⟨.inCooldown url, false⟩, ⟨.getHealth url, none⟩,
        ⟨.spawnHeads [headRequest reg storeHash hop url], ()⟩,
        ⟨.joinHead [headRequest reg storeHash hop url], some (0, .miss)⟩]
      (.error .notFound) s := by
  have hraced : Replay (exec reg) (raceGroup reg storeHash [url] hop) s _ (.error .notFound) s :=
    replay_raceGroup_one (.inr ⟨rfl, rfl⟩)
  refine replay_raceCandidates_one hcool hhealth ?_ (.inr ⟨rfl, rfl⟩)
  rw [raceWithinGroup, if_neg (by simp)]
  exact hraced.bind_ret rfl

/-! ## Lookups of one candidate -/

/-- What the lookup of a peer does whose only candidate wins the race. -/
def wonEvents (s : Instance) (reg : Registry) (winner : RaceResult) (storeHash : Str)
    (body : Octets) (parsed : NarInfo) : List HandlerEvent :=
  missedEvents storeHash ++
    (⟨.inCooldown winner.url, false⟩ :: ⟨.getHealth winner.url, none⟩ ::
      ⟨.spawnHeads [headRequest reg storeHash .peer winner.url], ()⟩ ::
      ⟨.joinHead [headRequest reg storeHash .peer winner.url],
        some (0, .found winner.latencyMs)⟩ ::
      s.commitEvents reg winner storeHash .peer body parsed)

theorem replay_resolve_won {winner : RaceResult} {body : Octets} {parsed : NarInfo}
    (hmiss : CachesMiss s storeHash) (hcool : s.cooldown = ∅)
    (hcheck : checkNarinfo crypto reg winner.url (.ok (some body)) = .ok (some body, parsed))
    (hallows : reg.allows winner.url parsed = true)
    (hhealth : s.health.get winner.url = none) (hcount : s.writeCount % 100 ≠ 99) :
    Replay (exec reg) (resolve crypto reg storeHash [winner.url] .peer) s
      (s.wonEvents reg winner storeHash body parsed) (.ok (winnerAnswer reg winner storeHash body))
      (s.committed reg winner storeHash body parsed) := by
  have hraced : Replay (exec reg) (race crypto reg storeHash [winner.url] .peer) s _ _ _ :=
    replay_raceCandidates_won hcool hcheck hallows hhealth hcount
  exact hmiss.replay.bind hraced

/-- The instance after a client's lookup has remembered a miss. -/
def remembered (s : Instance) (reg : Registry) (storeHash : Str) : Instance :=
  { s with
    missLru := s.missLru.insert s.clock storeHash ()
    negatives := s.negatives.setNegative s.wallClock storeHash reg.negativeTtl
    inflight := (s.inflight.upsert (storeHash, s.nextLock)).erase storeHash
    nextLock := s.nextLock + 1 }

/-- The lookup of a client whose only candidate does not have the path. -/
theorem execution_resolve_missed {url : Str} (hmiss : CachesMiss s storeHash)
    (hentry : s.inflight.get storeHash = none) (hfree : s.nextLock ∉ s.held)
    (hpermit : 0 < s.racePermits) (hcool : s.cooldown = ∅) (hhealth : s.health.get url = none) :
    Execution (exec reg) (resolve crypto reg storeHash [url] .client) s (.error .notFound)
      (s.remembered reg storeHash) := by
  let s₁ : Instance := { s with
    inflight := s.inflight.upsert (storeHash, s.nextLock)
    nextLock := s.nextLock + 1 }
  let s₂ : Instance := { s₁ with held := s.nextLock :: s.held }
  let s₃ : Instance := { s₂ with racePermits := s.racePermits - 1 }
  let s₄ : Instance := { s₂ with
    missLru := s.missLru.insert s.clock storeHash ()
    negatives := s.negatives.setNegative s.wallClock storeHash reg.negativeTtl }
  have hlookup : exec reg (.inflightEntry storeHash) s s.nextLock s₁ := by
    rw [exec, hentry]
    exact ⟨rfl, rfl⟩
  have hlock : exec reg (.lock s.nextLock) s₁ () s₂ := ⟨hfree, rfl⟩
  have hcool₃ : s₃.cooldown = ∅ := hcool
  have hhealth₃ : s₃.health.get url = none := hhealth
  have hraced : Execution (exec reg) (raceCandidates crypto reg storeHash [url] .client) s₃
      (.error .notFound) s₃ := (replay_raceCandidates_missed hcool₃ hhealth₃).execution
  have hacquire : exec reg .acquireRacePermit s₂ true s₃ := ⟨hpermit, rfl, rfl⟩
  have hrelease : exec reg .releaseRacePermit s₃ () s₂ := by
    have hpermits : s.racePermits - 1 + 1 = s.racePermits := Nat.sub_add_cancel hpermit
    show s₂ = { s₂ with racePermits := s.racePermits - 1 + 1 }
    rw [hpermits]
  have hmiss₂ : CachesMiss s₂ storeHash := ⟨hmiss.missLru, hmiss.negatives, hmiss.lru, hmiss.routes⟩
  have hrace : Execution (exec reg) (race crypto reg storeHash [url] .client) s₂
      (.error .notFound) s₂ :=
    .call_bind hacquire (hraced.bind (.call_bind hrelease (.ret _ _)))
  have hinsert : exec reg (.missLruInsert storeHash) s₂ ()
      { s₂ with missLru := s.missLru.insert s.clock storeHash () } := rfl
  have hset : exec reg (.dbSetNegative storeHash reg.negativeTtl)
      { s₂ with missLru := s.missLru.insert s.clock storeHash () } (.ok ()) s₄ := .inr ⟨rfl, rfl⟩
  have hremembered : Execution (exec reg) (raceAndRemember crypto reg storeHash [url]) s₂
      (.error .notFound) s₄ := hrace.bind (.call_bind hinsert (.call_bind hset (.ret _ _)))
  have hlocked : Execution (exec reg) (resolveLocked crypto reg storeHash [url]) s₂
      (.error .notFound) s₄ := hmiss₂.replay.execution.bind hremembered
  have hremove : exec reg (.inflightRemoveIf storeHash s.nextLock) s₄ ()
      { s₄ with inflight := s₁.inflight.erase storeHash } := by
    have hself : s₁.inflight.get storeHash = some (storeHash, s.nextLock) :=
      Table.get_upsert_self s.inflight (storeHash, s.nextLock)
    exact (if_pos hself).symm
  have hunlock : exec reg (.unlock s.nextLock)
      { s₄ with inflight := s₁.inflight.erase storeHash } () (s.remembered reg storeHash) := by
    have hheld : (s.nextLock :: s.held).erase s.nextLock = s.held := List.erase_cons_head _ _
    show _ = { s₄ with
      inflight := s₁.inflight.erase storeHash
      held := (s.nextLock :: s.held).erase s.nextLock }
    rw [hheld]
    rfl
  exact hmiss.replay.execution.bind (.call_bind hlookup (.call_bind hlock
    (hlocked.bind (.call_bind hremove (.call_bind hunlock (.ret _ _))))))

/-- The row that a refresh writes. -/
def refreshed (entry : RouteEntry) (bytes : Octets) : RouteEntry :=
  { entry with narinfoBytes := some bytes }

/-- A lookup that finds a live row whose bytes do not pass the filters any more, and
fetches other ones that do. -/
theorem execution_resolve_refreshed {candidates : List Str} {entry : RouteEntry}
    {bytes : Octets} {parsed : NarInfo}
    (hmiss : s.missLru.get s.clock storeHash = (none, s.missLru))
    (hnegative : s.negatives.isNegative s.wallClock storeHash = false)
    (hlru : s.lru.get s.clock storeHash = (none, s.lru))
    (hrow : s.routes.getRoute storeHash = .ok (some entry))
    (hvalid : entry.isValid s.wallClock = true)
    (hhealth : s.health.get entry.upstreamUrl = none)
    (hfails : cachedPasses reg entry.upstreamUrl entry.narinfoBytes = false)
    (hcheck : checkNarinfo crypto reg entry.upstreamUrl (.ok (some bytes)) =
      .ok (some bytes, parsed))
    (hallows : reg.allows entry.upstreamUrl parsed = true) (hcount : s.writeCount % 100 ≠ 99) :
    ∃ result s', Execution (exec reg) (resolve crypto reg storeHash candidates hop) s
      (.ok result) s' ∧ s'.routes = (s.stored (refreshed entry bytes)).routes := by
  let request := narinfoRequest reg entry.upstreamUrl storeHash hop
  let answer : ResolveResult := {
    url := entry.upstreamUrl
    latencyMs := entry.latencyEma
    cacheHit := true
    narinfoBytes := reg.responseNarinfoBytes entry.upstreamUrl storeHash (some bytes) }
  let s₁ := s.stored (refreshed entry bytes)
  have hmissGet : exec reg (.missLruGet storeHash) s none s := by rw [exec, hmiss]
  have hnegativeRead : exec reg (.dbIsNegative storeHash) s (.ok false) s :=
    ⟨.inr (by rw [hnegative]), rfl⟩
  have hget : exec reg (.lruGet storeHash) s none s := by rw [exec, hlru]
  have hread : exec reg (.dbGetRoute storeHash) s (.ok (some entry)) s := ⟨.inr hrow.symm, rfl⟩
  have hnow : exec reg .timestampNow s s.wallClock s := ⟨rfl, rfl⟩
  have hask : exec reg (.getHealth entry.upstreamUrl) s none s := ⟨hhealth.symm, rfl⟩
  have hfetch : exec reg (.getBytes request) s (.ok (some bytes)) s := rfl
  have hinsert : exec reg (.lruInsert storeHash answer) s₁ ()
      { s₁ with lru := s₁.lru.insert s₁.clock storeHash answer } := rfl
  have hchecked : Execution (exec reg)
      (cachedRouteFilterCheck crypto reg entry.upstreamUrl storeHash entry.narinfoBytes hop) s
      (.fetched bytes) s := by
    rw [cachedRouteFilterCheck, hfails]
    refine .call_bind hfetch ?_
    simp only [hcheck, hallows, if_true]
    exact .ret _ _
  have hset : Execution (exec reg) (setRoute (refreshed entry bytes)) s (.ok ()) s₁ :=
    (replay_setRoute _ hcount).execution
  have hstored : Execution (exec reg) (storedRoute crypto reg storeHash hop entry) s
      (.ok (some answer)) { s₁ with lru := s₁.lru.insert s₁.clock storeHash answer } := by
    refine .call_bind hnow ?_
    rw [hvalid]
    refine .call_bind hask (hchecked.bind (hset.bind ?_))
    exact .call_bind hinsert (.ret _ _)
  have hcached : Execution (exec reg) (resolveCached crypto reg storeHash hop) s _ _ :=
    .call_bind hmissGet (.call_bind hnegativeRead (.call_bind hget (.call_bind hread hstored)))
  exact ⟨answer, _, hcached.bind (.ret _ _), rfl⟩

end Instance

end

/-! ## The first commit of an instance -/

def winnerOfU : RaceResult := ⟨['u'], .fin 1⟩

def bodyOfU : Octets := toUtf8 "StorePath: /nix/store/x-a".toList

def narinfoOfU : NarInfo := { storePath := "/nix/store/x-a".toList }

theorem checkNarinfo_bodyOfU :
    checkNarinfo default default ['u'] (.ok (some bodyOfU)) = .ok (some bodyOfU, narinfoOfU) := by
  decide

/-- The instance after the lookup of a peer, for which it has asked `u`. -/
def committedOfU : Instance :=
  emptyCaches.committed default winnerOfU zeroHash.val bodyOfU narinfoOfU

/-- The row that the first commit stores, when it is read back. -/
def rowOfWinner : RouteEntry :=
  winnerRoute default winnerOfU zeroHash.val (some bodyOfU) narinfoOfU (.fin 1) default

theorem replay_resolve_winnerOfU :
    Replay (Instance.exec default) (resolve default default zeroHash.val [winnerOfU.url] .peer)
      emptyCaches (emptyCaches.wonEvents default winnerOfU zeroHash.val bodyOfU narinfoOfU)
      (.ok (Instance.winnerAnswer default winnerOfU zeroHash.val bodyOfU)) committedOfU := by
  have hmiss : CachesMiss emptyCaches zeroHash.val := ⟨rfl, rfl, rfl, rfl⟩
  have hcount : emptyCaches.writeCount % 100 ≠ 99 := by decide
  exact Instance.replay_resolve_won hmiss rfl checkNarinfo_bodyOfU rfl rfl hcount

namespace History

/-- An instance with nothing in its caches and its table. -/
def empty : History := ⟨default, emptyCaches, [], 0, 0, []⟩

theorem fresh_empty : empty.Fresh := ⟨⟨100000, 0, 0, 2, rfl⟩, rfl, rfl⟩

/-- What the lookup does. -/
def firstEvents : List HandlerEvent :=
  emptyCaches.wonEvents default winnerOfU zeroHash.val bodyOfU narinfoOfU

/-- The lookup is reached at its end. -/
theorem reached_committedOfU (meets : History → HistoryLabel → History → Prop)
    (hstart : ∀ t, meets empty (.start (.resolve zeroHash [['u']] .peer)) t)
    (hmeets : ∀ t before event after t', firstEvents = before ++ event :: after →
      t.registry = default → t.inst.wallClock = default →
      meets t (.perform 0 (.resolve zeroHash [['u']] .peer) before.reverse event) t') :
    ∃ log, Reached default meets empty
        ⟨default, committedOfU, [⟨0, .resolve zeroHash [['u']] .peer, firstEvents.reverse,
          .ret (.lookup (.ok (Instance.winnerAnswer default winnerOfU zeroHash.val bodyOfU)))⟩],
          1, 0, log⟩ ∧
      ∀ entry ∈ log, entry.task = 0 ∧ entry.registry = default ∧ entry.wallClock = default ∧
        entry.event ∈ firstEvents := by
  have hrefl : Reached default meets empty empty := .refl
  have hresolve : Replay (Instance.exec default)
      ((TaskKind.resolve zeroHash [['u']] .peer).process default default) emptyCaches firstEvents
      (.lookup (.ok (Instance.winnerAnswer default winnerOfU zeroHash.val bodyOfU)))
      committedOfU := replay_resolve_winnerOfU.bind_ret rfl
  obtain ⟨log, hreached, hlog⟩ := hrefl.task hresolve hstart hmeets
  exact ⟨log ++ [], hreached, by rwa [List.append_nil]⟩

end History

end Ncro
