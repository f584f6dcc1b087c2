import Ncro.Instance
import Ncro.Mesh
import Ncro.Router.Footprint

/-!
# Properties of the bytes a lookup returns

The bytes of an answer come from a fresh commit, a refreshed or a stored row, the
LRU, or the fallback cache, and the LRU and the rows are written by other
lookups and by merges. `Gate` lists what a property has to satisfy on each of
these ways; `Gate.safe_resolve` then gives it for every lookup, whatever happens
to the instance between its operations.
-/

namespace Ncro

open Foundation Foundation.Process

/-- Bytes a fetch accepted: they parse, and the upstream's keys verify them. -/
structure Verified (crypto : Crypto) (reg : Registry) (upstream : Str) (body : Octets)
    (parsed : NarInfo) : Prop where
  parse : NarInfo.parse body = .ok parsed
  verifies : reg.verifies crypto upstream parsed = true

/-- A fetched narinfo was in the reply. -/
theorem eq_of_checkNarinfo_eq_ok {crypto : Crypto} {reg : Registry} {upstream : Str}
    {reply : Except BackendError (Option Octets)} {body : Option Octets} {parsed : NarInfo}
    (h : checkNarinfo crypto reg upstream reply = .ok (body, parsed)) :
    ∃ bytes, reply = .ok (some bytes) ∧ body = some bytes ∧
      Verified crypto reg upstream bytes parsed := by
  unfold checkNarinfo at h
  split at h
  · cases h
  · cases h
  · next bytes =>
    split at h
    · cases h
    · next narinfo hparse =>
      split at h
      · next hverifies =>
        cases h
        exact ⟨bytes, rfl, rfl, hparse, hverifies⟩
      · cases h

/-- A property of answers, with the properties of LRU entries and of rows that
it rests on. -/
structure Gate (crypto : Crypto) (reg : Registry) where
  /-- The property of an LRU entry. -/
  entry : Str → ResolveResult → Prop
  /-- The property of a row's upstream and bytes. -/
  row : Str → Option Octets → Prop
  /-- The property of an answer. -/
  answer : Str → ResolveResult → Prop
  /-- The property of an answer of the fallback cache. -/
  fallbackAnswer : Str → ResolveResult → Prop
  /-- An LRU entry that passes the filters is an answer. -/
  answer_of_entry : ∀ (storeHash : StoreHash) r, entry storeHash.val r →
    cachedPasses reg r.url r.narinfoBytes = true → answer storeHash.val { r with cacheHit := true }
  /-- Bytes that were fetched and pass the filters make an entry and an answer. -/
  of_fetched : ∀ (storeHash : StoreHash) upstream body parsed latencyMs cacheHit,
    Verified crypto reg upstream body parsed → reg.allows upstream parsed = true →
      let r : ResolveResult := ⟨upstream, latencyMs, cacheHit,
        reg.responseNarinfoBytes upstream storeHash.val (some body)⟩
      entry storeHash.val r ∧ answer storeHash.val r
  /-- Bytes of a row that pass the filters make an entry and an answer. -/
  of_row : ∀ (storeHash : StoreHash) upstream body latencyMs, row upstream (some body) →
    cachedPasses reg upstream (some body) = true →
      let r : ResolveResult := ⟨upstream, latencyMs, true,
        reg.responseNarinfoBytes upstream storeHash.val (some body)⟩
      entry storeHash.val r ∧ answer storeHash.val r
  /-- Fetched bytes may be written. -/
  row_of_fetched : ∀ upstream body parsed, Verified crypto reg upstream body parsed →
    row upstream (some body)
  fallback : ∀ (storeHash : StoreHash) upstream body parsed latencyMs,
    Verified crypto reg upstream body parsed →
      fallbackAnswer storeHash.val ⟨upstream, latencyMs, false,
        reg.responseNarinfoBytes upstream storeHash.val (some body)⟩

namespace Gate

variable {crypto : Crypto} {reg : Registry} (gate : Gate crypto reg)

/-- The invariant of an instance: every row and every LRU entry has its
property. -/
structure Inv (s : Instance) : Prop where
  rows : ∀ row ∈ s.routes.rows, gate.row row.upstreamUrl row.narinfoBytes
  lru : s.lru.Forall gate.entry

/-- The operations that keep the invariant. -/
def Keeps : Op → Prop
  | .lruInsert storeHash r => gate.entry storeHash r
  | .dbUpsertRoute entry => gate.row entry.upstreamUrl entry.narinfoBytes
  | _ => True

variable {gate}

theorem Inv.exec {op : Op} {s s' : Instance} {reply : op.Reply} (h : gate.Inv s)
    (hop : gate.Keeps op) (hexec : Instance.exec reg op s reply s') : gate.Inv s' := by
  cases op with
  | lruInsert storeHash r =>
      obtain rfl := hexec
      exact ⟨h.rows, h.lru.insert _ hop⟩
  | lruInvalidate storeHash =>
      obtain rfl := hexec
      exact ⟨h.rows, h.lru.invalidate _⟩
  | lruGet storeHash =>
      obtain ⟨-, rfl⟩ := Prod.mk.inj hexec
      exact ⟨h.rows, (h.lru.get _ _).1⟩
  | dbUpsertRoute entry =>
      rcases hexec with ⟨-, rfl⟩ | ⟨-, rfl⟩
      · exact h
      · refine ⟨fun row hrow => ?_, h.lru⟩
        rcases Table.mem_of_mem_upsert hrow with rfl | hrow
        · exact hop
        · exact h.rows row hrow
  | dbEvictIfNeeded =>
      rcases hexec with ⟨-, rfl⟩ | ⟨-, routes, hevicts, rfl⟩
      · exact h
      · exact ⟨fun row hrow => h.rows row (hevicts.sublist.subset hrow), h.lru⟩
  | missLruGet storeHash =>
      obtain ⟨-, rfl⟩ := Prod.mk.inj hexec
      exact ⟨h.rows, h.lru⟩
  | missLruInsert storeHash =>
      obtain rfl := hexec
      exact ⟨h.rows, h.lru⟩
  | dbSetNegative storePath ttl =>
      rcases hexec with ⟨-, rfl⟩ | ⟨-, rfl⟩
      · exact h
      · exact ⟨h.rows, h.lru⟩
  | dbCountWrite =>
      obtain ⟨-, rfl⟩ := hexec
      exact ⟨h.rows, h.lru⟩
  | recordLatency url ms =>
      obtain rfl := hexec
      exact ⟨h.rows, h.lru⟩
  | inCooldown url =>
      obtain ⟨-, rfl⟩ := hexec
      unfold Instance.dropExpiredCooldown
      split
      · exact h
      · exact ⟨h.rows, h.lru⟩
  | markCooldown url =>
      obtain rfl := hexec
      exact ⟨h.rows, h.lru⟩
  | acquireRacePermit =>
      obtain ⟨-, -, rfl⟩ := hexec
      exact ⟨h.rows, h.lru⟩
  | releaseRacePermit =>
      obtain rfl := hexec
      exact ⟨h.rows, h.lru⟩
  | inflightEntry storeHash =>
      simp only [Instance.exec] at hexec
      split at hexec
      · obtain ⟨-, rfl⟩ := hexec
        exact h
      · obtain ⟨-, rfl⟩ := hexec
        exact ⟨h.rows, h.lru⟩
  | lock lock =>
      obtain ⟨-, rfl⟩ := hexec
      exact ⟨h.rows, h.lru⟩
  | inflightRemoveIf storeHash lock =>
      simp only [Instance.exec] at hexec
      subst hexec
      split
      · exact ⟨h.rows, h.lru⟩
      · exact h
  | unlock lock =>
      obtain rfl := hexec
      exact ⟨h.rows, h.lru⟩
  | timestampNow | getHealth _ | dbIsNegative _ | dbGetRoute _ | dbGetRouteByNarUrl _
  | sortedByLatency =>
      obtain ⟨-, rfl⟩ := hexec
      exact h
  | elapsed | spawnHeads _ | joinHead _ | getBytes _ | proxy _ | countWin _ _ | spawnNar _ _
  | selectNar _ _ | sendNar _ =>
      obtain rfl := hexec
      exact h

theorem Inv.background {s s' : Instance} (h : gate.Inv s) (hstep : Instance.Background s s') :
    gate.Inv s' := by
  cases hstep with
  | tick wallClock clock hclock => exact ⟨h.rows, h.lru⟩
  | probe health => exact ⟨h.rows, h.lru⟩
  | expireRoutes => exact ⟨fun row hrow => h.rows row (Table.mem_filter.1 hrow).1, h.lru⟩
  | expireNegatives => exact ⟨h.rows, h.lru⟩

/-- A started instance satisfies the invariant when its database does. -/
theorem Inv.start {reg' : Registry} {routes : RouteTable} {negatives : NegativeTable}
    {health : HealthTable} {maxEntries : ℤ} {inMemoryNegativeTtl cooldownWindow : Duration}
    {maxConcurrentRaces : ℕ} {wallClock : Timestamp} {clock : Instant}
    (h : ∀ row ∈ routes.rows, gate.row row.upstreamUrl row.narinfoBytes) :
    gate.Inv (.start reg' routes negatives health maxEntries inMemoryNegativeTtl cooldownWindow
      maxConcurrentRaces wallClock clock) :=
  ⟨h, TtlCache.forall_new _ _⟩

/-! ## Safety of the parts of a lookup -/

section Safety

variable (gate) {G : Op → Prop} {storeHash : StoreHash} {hop : Hop}

/-- Safety for the gate's invariant. -/
abbrev SafeFor (gate : Gate crypto reg) (G : Op → Prop) {α : Type} (Q : α → Prop)
    (p : Handler α) : Prop :=
  Safe (Instance.exec reg) gate.Inv G Q p

theorem safe_of_performs {α : Type} {p : Handler α} (h : Performs gate.Keeps p) :
    gate.SafeFor G (fun _ => True) p :=
  .of_performs (fun _ _ _ _ hs hop hexec => hs.exec hop hexec) h

theorem safe_ask {op : Op} (h : gate.Keeps op) : gate.SafeFor G (fun _ => True) (ask op) :=
  gate.safe_of_performs (performs_call h)

theorem safe_ask_bind {α : Type} {op : Op} {f : op.Reply → Handler α} {Q : α → Prop}
    (hf : ∀ reply, gate.SafeFor G Q (f reply)) (h : gate.Keeps op) :
    gate.SafeFor G Q (ask op >>= f) :=
  (gate.safe_ask h).bind fun reply _ => hf reply

theorem safe_setRoute {entry : RouteEntry} (h : gate.row entry.upstreamUrl entry.narinfoBytes) :
    gate.SafeFor G (fun _ => True) (setRoute entry) := by
  refine gate.safe_ask_bind (fun reply => ?_) h
  cases reply with
  | error err => trivial
  | ok _ =>
      refine gate.safe_ask_bind (fun count => ?_) trivial
      show Safe _ _ _ _ (ite _ _ _)
      split
      · exact gate.safe_ask trivial
      · trivial

/-- What a fetch promises. -/
def Fetched (crypto : Crypto) (reg : Registry) (upstream : Str) :
    Except RouterError (Option Octets × NarInfo) → Prop
  | .ok (body, parsed) => ∃ bytes, body = some bytes ∧ Verified crypto reg upstream bytes parsed
  | .error _ => True

theorem fetched_checkNarinfo (upstream : Str) (reply : Except BackendError (Option Octets)) :
    Fetched crypto reg upstream (checkNarinfo crypto reg upstream reply) := by
  cases hcheck : checkNarinfo crypto reg upstream reply with
  | error err => trivial
  | ok fetched =>
      obtain ⟨bytes, -, hbody, hverified⟩ := eq_of_checkNarinfo_eq_ok hcheck
      exact ⟨bytes, hbody, hverified⟩

theorem safe_fetchNarinfo (upstream : Str) :
    gate.SafeFor G (Fetched crypto reg upstream)
      (fetchNarinfo crypto reg upstream storeHash.val hop) :=
  gate.safe_ask_bind (fun reply => fetched_checkNarinfo upstream reply) trivial

/-- What the check of a cached route promises. -/
def Checked (crypto : Crypto) (reg : Registry) (upstream : Str) (narinfoBytes : Option Octets) :
    CachedFilterCheck → Prop
  | .cached => cachedPasses reg upstream narinfoBytes = true
  | .fetched bytes => ∃ parsed, Verified crypto reg upstream bytes parsed ∧
      reg.allows upstream parsed = true
  | .rejected => True

theorem safe_cachedRouteFilterCheck (upstream : Str) (narinfoBytes : Option Octets) :
    gate.SafeFor G (Checked crypto reg upstream narinfoBytes)
      (cachedRouteFilterCheck crypto reg upstream storeHash.val narinfoBytes hop) := by
  unfold cachedRouteFilterCheck
  split
  · next hpasses => exact hpasses
  · refine (gate.safe_fetchNarinfo upstream).bind fun fetched hfetched => ?_
    match fetched with
    | .error err => trivial
    | .ok (none, parsed) => trivial
    | .ok (some body, parsed) =>
        obtain ⟨bytes, heq, hverified⟩ := hfetched
        obtain rfl := Option.some.inj heq
        show Checked _ _ _ _ (ite _ _ _)
        split
        · next hallows => exact ⟨parsed, hverified, hallows⟩
        · trivial

/-- The result of a cached lookup, if there is one, has the property of answers. -/
def Answers (gate : Gate crypto reg) (storeHash : Str) :
    Except RouterError (Option ResolveResult) → Prop
  | .ok (some r) => gate.answer storeHash r
  | _ => True

/-- The result of a lookup, if there is one, has the property of answers. -/
def Resolves (gate : Gate crypto reg) (storeHash : Str) : Except RouterError ResolveResult → Prop
  | .ok r => gate.answer storeHash r
  | .error _ => True

theorem safe_lruRoute {cached : ResolveResult} (h : gate.entry storeHash.val cached) :
    gate.SafeFor G (gate.Answers storeHash.val)
      (lruRoute crypto reg storeHash.val hop cached) := by
  refine (gate.safe_cachedRouteFilterCheck cached.url cached.narinfoBytes).bind
    fun check hcheck => ?_
  cases check with
  | cached => exact gate.answer_of_entry storeHash cached h hcheck
  | fetched bytes =>
      obtain ⟨parsed, hverified, hallows⟩ := hcheck
      obtain ⟨hentry, hanswer⟩ := gate.of_fetched storeHash cached.url bytes parsed
        cached.latencyMs true hverified hallows
      exact gate.safe_ask_bind (fun _ => hanswer) hentry
  | rejected => exact gate.safe_ask_bind (fun _ => trivial) trivial

theorem safe_serveRoute {entry : RouteEntry} {body : Octets}
    (hbody : entry.narinfoBytes = some body)
    (h : let r : ResolveResult := ⟨entry.upstreamUrl, entry.latencyEma, true,
        reg.responseNarinfoBytes entry.upstreamUrl storeHash.val (some body)⟩
      gate.entry storeHash.val r ∧ gate.answer storeHash.val r) :
    gate.SafeFor G (gate.Answers storeHash.val) (serveRoute reg storeHash.val entry) := by
  unfold serveRoute
  rw [hbody]
  exact gate.safe_ask_bind (fun _ => h.2) h.1

theorem safe_refreshRoute {entry : RouteEntry} {body : Octets} {parsed : NarInfo}
    (hverified : Verified crypto reg entry.upstreamUrl body parsed)
    (hallows : reg.allows entry.upstreamUrl parsed = true) :
    gate.SafeFor G (gate.Answers storeHash.val)
      (refreshRoute reg storeHash.val entry body) := by
  refine (gate.safe_setRoute (gate.row_of_fetched _ _ _ hverified)).bind fun stored _ => ?_
  cases stored with
  | error err => trivial
  | ok _ =>
      show gate.SafeFor G _ (serveRoute reg storeHash.val { entry with narinfoBytes := some body })
      exact gate.safe_serveRoute rfl
        (gate.of_fetched storeHash _ body parsed _ true hverified hallows)

theorem safe_storedRoute {entry : RouteEntry}
    (h : gate.row entry.upstreamUrl entry.narinfoBytes) :
    gate.SafeFor G (gate.Answers storeHash.val)
      (storedRoute crypto reg storeHash.val hop entry) := by
  refine gate.safe_ask_bind (fun now => ?_) trivial
  show Safe _ _ _ _ (ite _ _ _)
  split
  · trivial
  refine gate.safe_ask_bind (fun health => ?_) trivial
  show Safe _ _ _ _ (ite _ _ _)
  split
  · trivial
  refine (gate.safe_cachedRouteFilterCheck entry.upstreamUrl entry.narinfoBytes).bind
    fun check hcheck => ?_
  cases check with
  | cached =>
      have hpasses : cachedPasses reg entry.upstreamUrl entry.narinfoBytes = true := hcheck
      cases hbody : entry.narinfoBytes with
      | some body =>
          rw [hbody] at h hpasses
          exact gate.safe_serveRoute hbody (gate.of_row storeHash _ body _ h hpasses)
      | none =>
          rw [hbody] at hpasses
          refine (gate.safe_fetchNarinfo entry.upstreamUrl).bind fun fetched hfetched => ?_
          match fetched with
          | .error err => trivial
          | .ok (none, parsed) => trivial
          | .ok (some bytes, parsed) =>
              obtain ⟨bytes', heq, hverified⟩ := hfetched
              obtain rfl := Option.some.inj heq
              exact gate.safe_refreshRoute hverified (allows_of_cachedPasses_none hpasses parsed)
  | fetched bytes =>
      obtain ⟨parsed, hverified, hallows⟩ := hcheck
      exact gate.safe_refreshRoute hverified hallows
  | rejected => trivial

/-- A row that is read back has the property of rows. -/
theorem Inv.row_of_getRoute {s : Instance} (h : gate.Inv s) {storePath : Str} {entry : RouteEntry}
    (hget : s.routes.getRoute storePath = .ok (some entry)) :
    gate.row entry.upstreamUrl entry.narinfoBytes := by
  obtain ⟨row, hrow, hread⟩ := RouteTable.exists_row_of_getRoute hget
  rw [hread.upstreamUrl, hread.narinfoBytes]
  exact h.rows row (Table.mem_of_get hrow)

theorem safe_validCachedRoute :
    gate.SafeFor G (gate.Answers storeHash.val)
      (validCachedRoute crypto reg storeHash.val hop) := by
  have hlru : gate.SafeFor G
      (fun cached : Option ResolveResult => ∀ r, cached = some r → gate.entry storeHash.val r)
      (ask (.lruGet storeHash.val)) := by
    intro s reply s' hs _ hexec
    have hop : gate.Keeps (.lruGet storeHash.val) := trivial
    refine ⟨hs.exec hop hexec, ?_⟩
    rintro r rfl
    obtain ⟨heq, -⟩ := Prod.mk.inj hexec
    exact (hs.lru.get _ _).2 r heq.symm
  refine hlru.bind fun cached hcached => ?_
  cases cached with
  | some cached => exact gate.safe_lruRoute (hcached cached rfl)
  | none =>
      have hrow : gate.SafeFor G
          (fun row : Except DbError (Option RouteEntry) => ∀ entry, row = .ok (some entry) →
            gate.row entry.upstreamUrl entry.narinfoBytes)
          (ask (.dbGetRoute storeHash.val)) := by
        intro s reply s' hs _ hexec
        have hop : gate.Keeps (.dbGetRoute storeHash.val) := trivial
        refine ⟨hs.exec hop hexec, ?_⟩
        rintro entry rfl
        rcases hexec.1 with heq | heq
        · cases heq
        · exact hs.row_of_getRoute gate heq.symm
      refine hrow.bind fun row hrow => ?_
      match row with
      | .error err => trivial
      | .ok none => trivial
      | .ok (some entry) => exact gate.safe_storedRoute (hrow entry rfl)

theorem safe_resolveCached :
    gate.SafeFor G (gate.Answers storeHash.val)
      (resolveCached crypto reg storeHash.val hop) := by
  refine gate.safe_ask_bind (fun miss => ?_) trivial
  cases miss with
  | some _ => trivial
  | none =>
      refine gate.safe_ask_bind (fun negative => ?_) trivial
      match negative with
      | .error err => trivial
      | .ok true => trivial
      | .ok false => exact gate.safe_validCachedRoute

/-! ## Safety of the race -/

/-- An accepted winner has the property of answers. -/
def Commits (gate : Gate crypto reg) (storeHash : Str) : Except RouterError CommitOutcome → Prop
  | .ok (.accepted r) => gate.answer storeHash r
  | _ => True

theorem safe_commitWinner (winner : RaceResult) :
    gate.SafeFor G (gate.Commits storeHash.val)
      (commitWinner crypto reg winner storeHash.val hop) := by
  refine (gate.safe_fetchNarinfo winner.url).bind fun fetched hfetched => ?_
  match fetched with
  | .error err => trivial
  | .ok (body, parsed) =>
      obtain ⟨bytes, rfl, hverified⟩ := hfetched
      show Safe _ _ _ _ (ite _ _ _)
      split
      · trivial
      · next hallows =>
        have hallows : reg.allows winner.url parsed = true := by simpa using hallows
        obtain ⟨hentry, hanswer⟩ := gate.of_fetched storeHash winner.url bytes parsed
          winner.latencyMs false hverified hallows
        refine gate.safe_ask_bind (fun _ => ?_) trivial
        refine gate.safe_ask_bind (fun health => ?_) trivial
        refine gate.safe_ask_bind (fun _ => ?_) trivial
        refine gate.safe_ask_bind (fun now => ?_) trivial
        refine (gate.safe_setRoute (gate.row_of_fetched _ _ _ hverified)).bind fun stored _ => ?_
        cases stored with
        | error err => trivial
        | ok _ => exact gate.safe_ask_bind (fun _ => hanswer) hentry

theorem safe_raceGroup (group : List Str) :
    gate.SafeFor G (fun _ => True) (raceGroup reg storeHash.val group hop) :=
  gate.safe_of_performs
    ⟨trivial, fun _ => performs_joinHeads (fun _ => trivial) (fun _ => trivial) _ _ _ _ _⟩

/-- A finished loop over a group has an answer. -/
def Ends (gate : Gate crypto reg) (storeHash : Str) : GroupOutcome → Prop
  | .done result => gate.Resolves storeHash result
  | .next _ => True

theorem safe_raceWithinGroup (group : List Str) (anyNotFound : Bool) :
    gate.SafeFor G (gate.Ends storeHash.val)
      (raceWithinGroup crypto reg storeHash.val hop group anyNotFound) := by
  induction hlen : group.length using Nat.strongRecOn generalizing group anyNotFound with
  | ind n ih =>
  subst hlen
  rw [raceWithinGroup]
  split
  · trivial
  refine (gate.safe_raceGroup group).bind fun verdict _ => ?_
  cases verdict with
  | error err => cases err <;> trivial
  | ok winner =>
      have hlt := length_retainOthers_lt winner.2
      refine (gate.safe_commitWinner winner.val).bind fun commit hcommit => ?_
      cases commit with
      | ok outcome =>
          cases outcome with
          | accepted r => exact hcommit
          | rejected => exact ih _ hlt _ _ rfl
      | error err =>
          show Safe _ _ _ _ (ite _ _ _)
          split
          · split
            · exact gate.safe_ask_bind (fun _ => ih _ hlt _ _ rfl) trivial
            · exact ih _ hlt _ _ rfl
          · trivial

theorem safe_raceGroups (groups : List (ℤ × List Str)) (anyNotFound : Bool) :
    gate.SafeFor G (gate.Resolves storeHash.val)
      (raceGroups crypto reg storeHash.val hop groups anyNotFound) := by
  induction groups generalizing anyNotFound with
  | nil => trivial
  | cons head groups ih =>
      refine (gate.safe_raceWithinGroup head.2 anyNotFound).bind fun outcome houtcome => ?_
      cases outcome with
      | done result => exact houtcome
      | next anyNotFound' => exact ih anyNotFound'

theorem safe_raceCandidates (candidates : List Str) :
    gate.SafeFor G (gate.Resolves storeHash.val)
      (raceCandidates crypto reg storeHash.val candidates hop) := by
  refine (gate.safe_of_performs
    (performs_cooldownFilteredCandidates (fun _ => trivial) _)).bind fun filtered _ => ?_
  refine (gate.safe_of_performs
    (performs_priorityGroups (fun _ => trivial) _ _)).bind fun groups _ => ?_
  exact gate.safe_raceGroups groups false

theorem safe_race (candidates : List Str) :
    gate.SafeFor G (gate.Resolves storeHash.val)
      (race crypto reg storeHash.val candidates hop) := by
  unfold race
  split
  · trivial
  split
  · refine gate.safe_ask_bind (fun granted => ?_) trivial
    cases granted with
    | false => trivial
    | true =>
        exact (gate.safe_raceCandidates candidates).bind fun result hresult =>
          gate.safe_ask_bind (fun _ => hresult) trivial
  · exact gate.safe_raceCandidates candidates

/-! ## Safety of whole lookups and merges -/

theorem safe_raceAndRemember (candidates : List Str) :
    gate.SafeFor G (gate.Resolves storeHash.val)
      (raceAndRemember crypto reg storeHash.val candidates) := by
  refine (gate.safe_race candidates).bind fun result hresult => ?_
  split
  · exact gate.safe_ask_bind (fun _ => gate.safe_ask_bind (fun _ => hresult) trivial) trivial
  · exact hresult

theorem safe_resolveLocked (candidates : List Str) :
    gate.SafeFor G (gate.Resolves storeHash.val)
      (resolveLocked crypto reg storeHash.val candidates) := by
  refine gate.safe_resolveCached.bind fun cached hcached => ?_
  match cached with
  | .error err => trivial
  | .ok (some r) => exact hcached
  | .ok none => exact gate.safe_raceAndRemember candidates

/-- Every lookup keeps the invariant, and its answer has the property. -/
theorem safe_resolve (candidates : List Str) :
    gate.SafeFor G (gate.Resolves storeHash.val)
      (resolve crypto reg storeHash.val candidates hop) := by
  refine gate.safe_resolveCached.bind fun cached hcached => ?_
  match cached with
  | .error err => trivial
  | .ok (some r) => exact hcached
  | .ok none =>
      cases hop with
      | peerOfPeer => trivial
      | peer => exact gate.safe_race candidates
      | client =>
          refine gate.safe_ask_bind (fun lock => ?_) trivial
          refine gate.safe_ask_bind (fun _ => ?_) trivial
          refine (gate.safe_resolveLocked candidates).bind fun result hresult => ?_
          exact gate.safe_ask_bind (fun _ => gate.safe_ask_bind (fun _ => hresult) trivial) trivial

/-- Every fallback lookup keeps the invariant, and its answer has the property
of fallback answers. -/
theorem safe_resolveFallback (upstream : Str) :
    gate.SafeFor G
      (fun result => ∀ r, result = .ok r → gate.fallbackAnswer storeHash.val r)
      (resolveFallback crypto reg storeHash.val upstream hop) := by
  refine (gate.safe_fetchNarinfo upstream).bind fun fetched hfetched => ?_
  match fetched with
  | .error err => exact nofun
  | .ok (body, parsed) =>
      obtain ⟨bytes, rfl, hverified⟩ := hfetched
      refine gate.safe_ask_bind (fun latencyMs => ?_) trivial
      rintro r ⟨⟩
      exact gate.fallback storeHash upstream bytes parsed latencyMs hverified

/-- A merge keeps the invariant when what it writes has the property of rows. -/
theorem safe_mergeRoutes
    (hrow : ∀ entry, G (.dbUpsertRoute entry) → gate.row entry.upstreamUrl entry.narinfoBytes)
    (incoming : List RouteEntry) : gate.SafeFor G (fun _ => True) (mergeRoutes incoming) := by
  have hset : ∀ route, gate.SafeFor G (fun _ => True) (setRoute route) := by
    intro route
    have hupsert : gate.SafeFor G (fun _ => True) (ask (.dbUpsertRoute route)) :=
      fun s reply s' hs hop hexec =>
        have hkeeps : gate.Keeps (.dbUpsertRoute route) := hrow route hop
        ⟨hs.exec hkeeps hexec, trivial⟩
    refine hupsert.bind fun reply _ => ?_
    cases reply with
    | error err => trivial
    | ok _ =>
        refine gate.safe_ask_bind (fun count => ?_) trivial
        show Safe _ _ _ _ (ite _ _ _)
        split
        · exact gate.safe_ask trivial
        · trivial
  have heach : ∀ routes, gate.SafeFor G (fun _ => True) (mergeEach routes) := by
    intro routes
    induction routes with
    | nil => trivial
    | cons route routes ih =>
        refine gate.safe_ask_bind (fun existing => ?_) trivial
        cases existing with
        | error err => exact ih
        | ok existing =>
            show Safe _ _ _ _ (ite _ _ _)
            split
            · exact (hset route).bind fun _ _ => ih
            · exact ih
  exact gate.safe_ask_bind (fun now => heach _) trivial

end Safety

end Gate

end Ncro
