import Ncro.Foundation.Trace
import Ncro.Router.Resolve
import Ncro.TtlCache

/-!
# The state of an instance

`Instance` is what the requests served by one ncro instance share, and `exec`
is what each operation does to it. A database access may fail and then changes
nothing; an operation on the network has any reply and changes nothing. Clocks,
health and the expiry loops move between operations: `Instance.Background`.
-/

namespace Ncro

open Foundation Foundation.Process

structure Instance where
  wallClock : Timestamp
  clock : Instant
  /-- The bound of the route table, and how often it was written. -/
  maxEntries : ℤ
  writeCount : ℕ
  routes : RouteTable
  negatives : NegativeTable
  health : HealthTable
  lru : TtlCache ResolveResult
  missLru : TtlCache Unit
  cooldownWindow : Duration
  /-- Until when each upstream is left out of races. -/
  cooldown : Table (Prod.fst : Str × Instant → Str)
  /-- The race permits not taken. -/
  racePermits : ℕ
  inflight : Table (Prod.fst : Str × LockId → Str)
  nextLock : LockId
  /-- The locks that are held. -/
  held : List LockId

namespace Instance

/-- `Router::new` over an opened database. -/
def start (reg : Registry) (routes : RouteTable) (negatives : NegativeTable) (health : HealthTable)
    (maxEntries : ℤ) (inMemoryNegativeTtl cooldownWindow : Duration) (maxConcurrentRaces : ℕ)
    (wallClock : Timestamp) (clock : Instant) : Instance where
  wallClock := wallClock
  clock := clock
  maxEntries := maxEntries
  writeCount := 0
  routes := routes
  negatives := negatives
  health := health
  lru := .new 1024 reg.routeTtl
  missLru := .new 32768 inMemoryNegativeTtl
  cooldownWindow := cooldownWindow
  cooldown := ∅
  racePermits := maxConcurrentRaces
  inflight := ∅
  nextLock := 0
  held := []

/-- Whether an upstream is cooling down. -/
def inCooldown (s : Instance) (url : Str) : Bool :=
  (s.cooldown.get url).any fun entry => s.clock < entry.2

/-- `in_cooldown` drops an expired entry. -/
def dropExpiredCooldown (s : Instance) (url : Str) : Instance :=
  if s.inCooldown url then s else { s with cooldown := s.cooldown.erase url }

def markCooldown (s : Instance) (url : Str) : Instance :=
  { s with cooldown := s.cooldown.upsert (url, s.clock + s.cooldownWindow) }

/-- The atomic effect of each operation. -/
def exec (reg : Registry) : Semantics Op Op.Reply Instance
  | .timestampNow, s, now, s' => now = s.wallClock ∧ s' = s
  | .missLruGet storeHash, s, value, s' =>
      (value, s') = ((s.missLru.get s.clock storeHash).1,
        { s with missLru := (s.missLru.get s.clock storeHash).2 })
  | .missLruInsert storeHash, s, _, s' =>
      s' = { s with missLru := s.missLru.insert s.clock storeHash () }
  | .lruGet storeHash, s, value, s' =>
      (value, s') = ((s.lru.get s.clock storeHash).1,
        { s with lru := (s.lru.get s.clock storeHash).2 })
  | .lruInsert storeHash result, s, _, s' =>
      s' = { s with lru := s.lru.insert s.clock storeHash result }
  | .lruInvalidate storeHash, s, _, s' => s' = { s with lru := s.lru.invalidate storeHash }
  | .dbIsNegative storePath, s, reply, s' =>
      (reply = .error .sqlx ∨ reply = .ok (s.negatives.isNegative s.wallClock storePath)) ∧ s' = s
  | .dbSetNegative storePath ttl, s, reply, s' =>
      reply = .error .sqlx ∧ s' = s ∨
        reply = .ok () ∧
          s' = { s with negatives := s.negatives.setNegative s.wallClock storePath ttl }
  | .dbGetRoute storePath, s, reply, s' =>
      (reply = .error .sqlx ∨ reply = s.routes.getRoute storePath) ∧ s' = s
  | .dbGetRouteByNarUrl narUrl, s, reply, s' =>
      (reply = .error .sqlx ∨ s.routes.GetRouteByNarUrl s.wallClock narUrl reply) ∧ s' = s
  | .dbUpsertRoute entry, s, reply, s' =>
      reply = .error .sqlx ∧ s' = s ∨
        reply = .ok () ∧ s' = { s with routes := s.routes.upsert (routeToRow entry) }
  | .dbCountWrite, s, count, s' =>
      count = s.writeCount ∧ s' = { s with writeCount := (s.writeCount + 1) % 2 ^ 64 }
  | .dbEvictIfNeeded, s, reply, s' =>
      reply = .error .sqlx ∧ s' = s ∨
        reply = .ok () ∧ ∃ routes, s.routes.Evicts s.maxEntries routes ∧
          s' = { s with routes := routes }
  | .getHealth url, s, health, s' => health = s.health.get url ∧ s' = s
  | .sortedByLatency, s, sorted, s' => s.health.SortedByLatency sorted ∧ s' = s
  | .recordLatency url ms, s, _, s' =>
      s' = { s with health := s.health.recordLatency reg.alpha s.clock url ms }
  | .inCooldown url, s, cooling, s' =>
      cooling = s.inCooldown url ∧ s' = s.dropExpiredCooldown url
  | .markCooldown url, s, _, s' => s' = s.markCooldown url
  | .acquireRacePermit, s, granted, s' =>
      0 < s.racePermits ∧ granted = true ∧ s' = { s with racePermits := s.racePermits - 1 }
  | .releaseRacePermit, s, _, s' => s' = { s with racePermits := s.racePermits + 1 }
  | .inflightEntry storeHash, s, lock, s' =>
      match s.inflight.get storeHash with
      | some entry => lock = entry.2 ∧ s' = s
      | none => lock = s.nextLock ∧
          s' = { s with
            inflight := s.inflight.upsert (storeHash, s.nextLock)
            nextLock := s.nextLock + 1 }
  | .lock lock, s, _, s' => lock ∉ s.held ∧ s' = { s with held := lock :: s.held }
  | .inflightRemoveIf storeHash lock, s, _, s' =>
      s' = if s.inflight.get storeHash = some (storeHash, lock) then
        { s with inflight := s.inflight.erase storeHash } else s
  | .unlock lock, s, _, s' => s' = { s with held := s.held.erase lock }
  | .elapsed, s, _, s' | .spawnHeads _, s, _, s' | .joinHead _, s, _, s' | .getBytes _, s, _, s'
  | .proxy _, s, _, s' | .countWin _ _, s, _, s' | .spawnNar _ _, s, _, s'
  | .selectNar _ _, s, _, s' | .sendNar _, s, _, s' => s' = s

/-- What happens to an instance besides its requests: time passes, upstreams are
probed, discovered and forgotten, and the expiry loops run. -/
inductive Background : Instance → Instance → Prop
  | tick (s : Instance) (wallClock : Timestamp) (clock : Instant) (h : s.clock ≤ clock) :
      Background s { s with wallClock := wallClock, clock := clock }
  | probe (s : Instance) (health : HealthTable) : Background s { s with health := health }
  | expireRoutes (s : Instance) :
      Background s { s with routes := s.routes.expireOldRoutes s.wallClock }
  | expireNegatives (s : Instance) :
      Background s { s with negatives := s.negatives.expireNegatives s.wallClock }

/-! ## What an operation changes -/

/-- What an operation and its reply do to the clocks, the tables and the caches. -/
structure Effect (event : HandlerEvent) (s s' : Instance) : Prop where
  wallClock : s'.wallClock = s.wallClock
  clock : s'.clock = s.clock
  /-- Rows are upserted, or at most deleted. -/
  routes : (∃ entry, event = ⟨.dbUpsertRoute entry, .ok ()⟩ ∧
      s'.routes = s.routes.upsert (routeToRow entry)) ∨
    s'.routes.rows.Sublist s.routes.rows
  negatives : (∃ storePath ttl, event = ⟨.dbSetNegative storePath ttl, .ok ()⟩ ∧
      s'.negatives = s.negatives.setNegative s.wallClock storePath ttl) ∨
    s'.negatives = s.negatives
  /-- Entries are inserted, or at most moved and dropped. -/
  lru : (∃ key value, event = ⟨.lruInsert key value, ()⟩ ∧
      s'.lru = s.lru.insert s.clock key value) ∨
    s'.lru.entries.rows ⊆ s.lru.entries.rows
  lru_ttl : s'.lru.ttl = s.lru.ttl
  missLru : (∃ key, event = ⟨.missLruInsert key, ()⟩ ∧
      s'.missLru = s.missLru.insert s.clock key ()) ∨
    s'.missLru.entries.rows ⊆ s.missLru.entries.rows
  missLru_ttl : s'.missLru.ttl = s.missLru.ttl

/-- An operation that leaves the clocks, the tables and the caches alone. -/
theorem Effect.of_eq {event : HandlerEvent} {s s' : Instance} (hwall : s'.wallClock = s.wallClock)
    (hclock : s'.clock = s.clock) (hroutes : s'.routes = s.routes)
    (hnegatives : s'.negatives = s.negatives) (hlru : s'.lru = s.lru)
    (hmiss : s'.missLru = s.missLru) : Effect event s s' where
  wallClock := hwall
  clock := hclock
  routes := .inr (by rw [hroutes])
  negatives := .inr hnegatives
  lru := .inr (by rw [hlru]; exact List.Subset.refl _)
  lru_ttl := by rw [hlru]
  missLru := .inr (by rw [hmiss]; exact List.Subset.refl _)
  missLru_ttl := by rw [hmiss]

theorem effect_of_exec {reg : Registry} {op : Op} {s s' : Instance} {reply : op.Reply}
    (h : exec reg op s reply s') : Effect ⟨op, reply⟩ s s' := by
  have hrefl : Effect ⟨op, reply⟩ s s := .of_eq rfl rfl rfl rfl rfl rfl
  cases op with
  | missLruGet key =>
      obtain ⟨-, rfl⟩ := Prod.mk.inj h
      exact { hrefl with
        missLru := .inr (TtlCache.get_subset _ _ _)
        missLru_ttl := TtlCache.get_ttl _ _ _ }
  | lruGet key =>
      obtain ⟨-, rfl⟩ := Prod.mk.inj h
      exact { hrefl with
        lru := .inr (TtlCache.get_subset _ _ _)
        lru_ttl := TtlCache.get_ttl _ _ _ }
  | missLruInsert key =>
      obtain rfl := h
      exact { hrefl with missLru := .inl ⟨key, rfl, rfl⟩, missLru_ttl := rfl }
  | lruInsert key value =>
      obtain rfl := h
      exact { hrefl with lru := .inl ⟨key, value, rfl, rfl⟩, lru_ttl := rfl }
  | lruInvalidate key =>
      obtain rfl := h
      exact { hrefl with lru := .inr (TtlCache.invalidate_subset _ _), lru_ttl := rfl }
  | dbSetNegative storePath ttl =>
      rcases h with ⟨-, rfl⟩ | ⟨rfl, rfl⟩
      · exact hrefl
      · exact { hrefl with negatives := .inl ⟨storePath, ttl, rfl, rfl⟩ }
  | dbUpsertRoute entry =>
      rcases h with ⟨-, rfl⟩ | ⟨rfl, rfl⟩
      · exact hrefl
      · exact { hrefl with routes := .inl ⟨entry, rfl, rfl⟩ }
  | dbEvictIfNeeded =>
      rcases h with ⟨-, rfl⟩ | ⟨-, routes, hevicts, rfl⟩
      · exact hrefl
      · exact { hrefl with routes := .inr hevicts.sublist }
  | inflightEntry key =>
      cases hget : s.inflight.get key with
      | some entry =>
          simp only [exec, hget] at h
          obtain ⟨-, rfl⟩ := h
          exact hrefl
      | none =>
          simp only [exec, hget] at h
          obtain ⟨-, rfl⟩ := h
          exact .of_eq rfl rfl rfl rfl rfl rfl
  | inCooldown url =>
      obtain ⟨-, rfl⟩ := h
      unfold dropExpiredCooldown
      split
      · exact hrefl
      · exact .of_eq rfl rfl rfl rfl rfl rfl
  | inflightRemoveIf key lock =>
      obtain rfl := h
      split
      · exact .of_eq rfl rfl rfl rfl rfl rfl
      · exact hrefl
  | acquireRacePermit =>
      obtain ⟨-, -, rfl⟩ := h
      exact .of_eq rfl rfl rfl rfl rfl rfl
  | lock lock =>
      obtain ⟨-, rfl⟩ := h
      exact .of_eq rfl rfl rfl rfl rfl rfl
  | timestampNow | dbIsNegative _ | dbGetRoute _ | dbGetRouteByNarUrl _ | dbCountWrite
  | getHealth _ | sortedByLatency =>
      obtain ⟨-, rfl⟩ := h
      exact .of_eq rfl rfl rfl rfl rfl rfl
  | _ =>
      obtain rfl := h
      exact .of_eq rfl rfl rfl rfl rfl rfl

/-! ## Cooldown -/

/-- With no cooldowns nothing is cooling, and nothing changes. -/
theorem exec_inCooldown {reg : Registry} {s : Instance} (h : s.cooldown = ∅) (url : Str) :
    exec reg (.inCooldown url) s false s := by
  have hcooling : s.inCooldown url = false := by
    rw [inCooldown, h]
    rfl
  have herase : s.cooldown.erase url = s.cooldown := by
    rw [h]
    rfl
  refine ⟨hcooling.symm, ?_⟩
  rw [dropExpiredCooldown, hcooling, herase]
  rfl

/-! ## Writing a route -/

/-- The instance after a write that does not bound the table. -/
def stored (s : Instance) (entry : RouteEntry) : Instance :=
  { s with
    routes := s.routes.upsert (routeToRow entry)
    writeCount := (s.writeCount + 1) % 2 ^ 64 }

theorem replay_setRoute {reg : Registry} {s : Instance} (entry : RouteEntry)
    (hcount : s.writeCount % 100 ≠ 99) :
    Replay (exec reg) (setRoute entry) s
      [⟨.dbUpsertRoute entry, .ok ()⟩, ⟨.dbCountWrite, s.writeCount⟩] (.ok ())
      (s.stored entry) := by
  have hupsert : exec reg (.dbUpsertRoute entry) s (.ok ())
      { s with routes := s.routes.upsert (routeToRow entry) } := .inr ⟨rfl, rfl⟩
  have hnext : exec reg .dbCountWrite { s with routes := s.routes.upsert (routeToRow entry) }
      s.writeCount (s.stored entry) := ⟨rfl, rfl⟩
  refine .call_bind hupsert (.call_bind hnext ?_)
  rw [if_neg hcount]
  exact .ret _ _

/-! ## Answering from the route table -/

section

variable {crypto : Crypto} {reg : Registry} {s : Instance} {storeHash : Str} {hop : Hop}
  {entry : RouteEntry} {body : Octets}

/-- The answer from a row with bytes. -/
def rowAnswer (reg : Registry) (storeHash : Str) (entry : RouteEntry) (body : Octets) :
    ResolveResult where
  url := entry.upstreamUrl
  latencyMs := entry.latencyEma
  cacheHit := true
  narinfoBytes := reg.responseNarinfoBytes entry.upstreamUrl storeHash (some body)

/-- What a lookup does that is answered from a row. -/
def rowEvents (s : Instance) (reg : Registry) (storeHash : Str) (entry : RouteEntry)
    (body : Octets) : List HandlerEvent :=
  [⟨.timestampNow, s.wallClock⟩, ⟨.getHealth entry.upstreamUrl, none⟩,
    ⟨.lruInsert storeHash (rowAnswer reg storeHash entry body), ()⟩]

theorem replay_storedRoute (hvalid : entry.isValid s.wallClock = true)
    (hhealth : s.health.get entry.upstreamUrl = none) (hbody : entry.narinfoBytes = some body)
    (hpasses : cachedPasses reg entry.upstreamUrl (some body) = true) :
    Replay (exec reg) (storedRoute crypto reg storeHash hop entry) s
      (s.rowEvents reg storeHash entry body) (.ok (some (rowAnswer reg storeHash entry body)))
      { s with lru := s.lru.insert s.clock storeHash (rowAnswer reg storeHash entry body) } := by
  let answer := rowAnswer reg storeHash entry body
  have hinsert : exec reg (.lruInsert storeHash answer) s ()
      { s with lru := s.lru.insert s.clock storeHash answer } := rfl
  have hserve : Replay (exec reg) (serveRoute reg storeHash entry) s
      [⟨.lruInsert storeHash answer, ()⟩] (.ok (some answer))
      { s with lru := s.lru.insert s.clock storeHash answer } := by
    unfold serveRoute
    rw [hbody]
    exact .call_bind hinsert (.ret _ _)
  have hcheck : cachedRouteFilterCheck crypto reg entry.upstreamUrl storeHash entry.narinfoBytes hop
      = .ret .cached := by
    rw [cachedRouteFilterCheck, hbody, if_pos hpasses]
    rfl
  have hnow : exec reg .timestampNow s s.wallClock s := ⟨rfl, rfl⟩
  have hask : exec reg (.getHealth entry.upstreamUrl) s none s := ⟨hhealth.symm, rfl⟩
  refine .call_bind hnow ?_
  rw [hvalid]
  refine .call_bind hask ?_
  rw [hcheck]
  simpa [hbody] using hserve

/-- A lookup on its own is answered from a live row whose bytes pass the
filters, when neither the negative caches nor the LRU know the hash. -/
theorem replay_resolve_of_row {candidates : List Str}
    (hmiss : s.missLru.get s.clock storeHash = (none, s.missLru))
    (hnegative : s.negatives.isNegative s.wallClock storeHash = false)
    (hlru : s.lru.get s.clock storeHash = (none, s.lru))
    (hrow : s.routes.getRoute storeHash = .ok (some entry))
    (hvalid : entry.isValid s.wallClock = true)
    (hhealth : s.health.get entry.upstreamUrl = none) (hbody : entry.narinfoBytes = some body)
    (hpasses : cachedPasses reg entry.upstreamUrl (some body) = true) :
    Replay (exec reg) (resolve crypto reg storeHash candidates hop) s
      (⟨.missLruGet storeHash, none⟩ :: ⟨.dbIsNegative storeHash, .ok false⟩ ::
        ⟨.lruGet storeHash, none⟩ :: ⟨.dbGetRoute storeHash, .ok (some entry)⟩ ::
        s.rowEvents reg storeHash entry body)
      (.ok (rowAnswer reg storeHash entry body))
      { s with lru := s.lru.insert s.clock storeHash (rowAnswer reg storeHash entry body) } := by
  have hmissGet : exec reg (.missLruGet storeHash) s none s := by rw [exec, hmiss]
  have hnegativeRead : exec reg (.dbIsNegative storeHash) s (.ok false) s :=
    ⟨.inr (by rw [hnegative]), rfl⟩
  have hget : exec reg (.lruGet storeHash) s none s := by rw [exec, hlru]
  have hread : exec reg (.dbGetRoute storeHash) s (.ok (some entry)) s := ⟨.inr hrow.symm, rfl⟩
  have hstored : Replay (exec reg) (storedRoute crypto reg storeHash hop entry) s _ _ _ :=
    replay_storedRoute hvalid hhealth hbody hpasses
  have hcached : Replay (exec reg) (resolveCached crypto reg storeHash hop) s _ _ _ :=
    .call_bind hmissGet (.call_bind hnegativeRead (.call_bind hget (.call_bind hread hstored)))
  exact hcached.bind (.ret _ _)

end

end Instance

end Ncro
