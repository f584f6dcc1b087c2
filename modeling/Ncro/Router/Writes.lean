import Ncro.History
import Ncro.Router.Footprint
import Ncro.Router.Gate

/-!
# What the tasks of an instance write, and why

A lookup writes a route in two places. `commit_winner` writes the route of a
winner right after reading the clock, and `valid_cached_route` writes back the
row it has read with freshly fetched bytes in it. A merge writes a route right
after reading the row it replaces, and only a client's lookup remembers a miss,
after its race ended with one. `TaskOp` says so for every operation of a task, in
terms of what the task did before, and every task of a history follows it.
-/

namespace Ncro

open Foundation Foundation.Process

/-! ## Writes -/

section

variable (crypto : Crypto) (reg : Registry) (storeHash : Str) (candidates : List Str) (hop : Hop)

/-- The write of `commit_winner`: the route of a winner, right after reading the
clock. -/
def CommitWrite (past : List HandlerEvent) (written : RouteEntry) : Prop :=
  ∃ winner body parsed ema now earlier, past = ⟨.timestampNow, now⟩ :: earlier ∧
    Verified crypto reg winner.url body parsed ∧ reg.allows winner.url parsed = true ∧
    written = winnerRoute reg winner storeHash (some body) parsed ema now

/-- The write of `valid_cached_route`: the row it has read, with the bytes that its
upstream has just replied with. -/
def RefreshWrite (past : List HandlerEvent) (written : RouteEntry) : Prop :=
  ∃ row bytes parsed health now earlier,
    past = ⟨.getBytes (narinfoRequest reg row.upstreamUrl storeHash hop), .ok (some bytes)⟩ ::
      ⟨.getHealth row.upstreamUrl, health⟩ :: ⟨.timestampNow, now⟩ ::
      ⟨.dbGetRoute storeHash, .ok (some row)⟩ :: earlier ∧
    Verified crypto reg row.upstreamUrl bytes parsed ∧
    reg.allows row.upstreamUrl parsed = true ∧ written = { row with narinfoBytes := some bytes }

/-- The other write of `commit_winner`: the answer of the winner whose route it has
stored. -/
def CommitInsert (past : List HandlerEvent) (value : ResolveResult) : Prop :=
  value.cacheHit = false ∧ ∃ written earlier,
    (⟨.dbUpsertRoute written, .ok ()⟩ : HandlerEvent) :: earlier <:+ past ∧
    CommitWrite crypto reg storeHash earlier written ∧ written.upstreamUrl = value.url

/-- A client's lookup records a miss: its last look at the caches found no route,
and its race ended with `NotFound`. -/
def RecordsMiss (past : List HandlerEvent) : Prop :=
  ∃ cached raced earlier, past = raced.reverse ++ (cached.reverse ++ earlier) ∧
    Run (fun _ _ => True) (resolveCached crypto reg storeHash .client) cached (.ok none) ∧
    Run (fun _ _ => True) (race crypto reg storeHash candidates .client) raced (.error .notFound)

/-- What a lookup may do after a past. -/
def LookupWrites (past : List HandlerEvent) : Op → Prop
  | .dbUpsertRoute written =>
      CommitWrite crypto reg storeHash past written ∨
        RefreshWrite crypto reg storeHash hop past written
  | .lruInsert key value =>
      key = storeHash ∧ (value.cacheHit = true ∨ CommitInsert crypto reg storeHash past value)
  | .missLruInsert key =>
      key = storeHash ∧ hop = .client ∧ RecordsMiss crypto reg storeHash candidates past
  | .dbSetNegative key ttl =>
      key = storeHash ∧ hop = .client ∧ ttl = reg.negativeTtl ∧
        ∃ earlier, past = ⟨.missLruInsert storeHash, ()⟩ :: earlier ∧
          RecordsMiss crypto reg storeHash candidates earlier
  | _ => True

/-- The write of a merge: a route that supersedes the row it has just read. -/
def MergeWrite (past : List HandlerEvent) (written : RouteEntry) : Prop :=
  ∃ existing earlier, past = ⟨.dbGetRoute written.storePath, .ok existing⟩ :: earlier ∧
    shouldSetRoute written existing = true

/-- What a merge may do after a past. -/
def MergeWrites (past : List HandlerEvent) : Op → Prop
  | .dbUpsertRoute written => MergeWrite past written
  | .lruInsert _ _ | .missLruInsert _ | .dbSetNegative _ _ => False
  | _ => True

/-- An operation that writes neither routes nor negatives. -/
def Quiet : Op → Prop
  | .dbUpsertRoute _ | .lruInsert _ _ | .missLruInsert _ | .dbSetNegative _ _ => False
  | _ => True

/-- A cached answer was taken from the LRU, or from a row that had not expired. -/
def Taken (url : Str) (past : List HandlerEvent) : Prop :=
  (∃ value earlier, value.url = url ∧
    (⟨.lruGet storeHash, some value⟩ : HandlerEvent) :: earlier <:+ past) ∨
  ∃ row now earlier, row.upstreamUrl = url ∧ row.isValid now = true ∧
    (⟨.timestampNow, now⟩ : HandlerEvent) ::
      (⟨.dbGetRoute storeHash, .ok (some row)⟩ : HandlerEvent) :: earlier <:+ past

/-- What the past of a lookup says about its result. -/
def LookupEnds (past : List HandlerEvent) : Except RouterError ResolveResult → Prop
  | .ok result => result.cacheHit = true → Taken storeHash result.url past
  | .error _ => True

end

variable {crypto : Crypto} {reg : Registry} {storeHash : Str} {candidates : List Str} {hop : Hop}
  {past : List HandlerEvent} {url : Str}

theorem Taken.mono {past' : List HandlerEvent} (h : Taken storeHash url past)
    (hsuffix : past <:+ past') : Taken storeHash url past' := by
  rcases h with ⟨value, earlier, hurl, hmem⟩ | ⟨row, now, earlier, hurl, hvalid, hmem⟩
  · exact .inl ⟨value, earlier, hurl, hmem.trans hsuffix⟩
  · exact .inr ⟨row, now, earlier, hurl, hvalid, hmem.trans hsuffix⟩

theorem Quiet.lookupWrites {op : Op} (h : Quiet op) :
    LookupWrites crypto reg storeHash candidates hop past op := by
  cases op <;> trivial

/-- A quiet part of a lookup. -/
theorem follows_of_quiet {α : Type} {p : Handler α} (h : Performs Quiet p) :
    Follows (LookupWrites crypto reg storeHash candidates hop) (fun _ _ => True) past p :=
  .of_performs (h.mono fun _ hop _ => hop.lookupWrites)

/-! ## Cached lookups -/

/-- The parts of a lookup follow what it may write. -/
abbrev LookupFollows (crypto : Crypto) (reg : Registry) (storeHash : Str) (candidates : List Str)
    (hop : Hop) {α : Type} (Q : List HandlerEvent → α → Prop) (past : List HandlerEvent)
    (p : Handler α) : Prop :=
  Follows (LookupWrites crypto reg storeHash candidates hop) Q past p

theorem follows_setRoute {P : List HandlerEvent → Op → Prop} {written : RouteEntry}
    (hwrite : P past (.dbUpsertRoute written)) (hcount : ∀ past, P past .dbCountWrite)
    (hevict : ∀ past, P past .dbEvictIfNeeded) :
    Follows P (fun past' stored => past <:+ past' ∧ (stored = .ok () →
        (⟨.dbUpsertRoute written, .ok ()⟩ : HandlerEvent) :: past <:+ past'))
      past (setRoute written) := by
  refine ⟨hwrite, fun reply => ?_⟩
  cases reply with
  | error err => exact ⟨List.suffix_cons _ _, nofun⟩
  | ok _ =>
      refine ⟨hcount _, fun count => ?_⟩
      show Follows _ _ _ (ite _ _ _)
      split
      · exact ⟨hevict _, fun _ => ⟨⟨[_, _, _], rfl⟩, fun _ => ⟨[_, _], rfl⟩⟩⟩
      · exact ⟨⟨[_, _], rfl⟩, fun _ => ⟨[_], rfl⟩⟩

/-- What the filter check of a cached route has done. -/
def CheckEnds (crypto : Crypto) (reg : Registry) (upstream storeHash : Str) (hop : Hop)
    (narinfoBytes : Option Octets) (past past' : List HandlerEvent) : CachedFilterCheck → Prop
  | .cached => past' = past ∧ cachedPasses reg upstream narinfoBytes = true
  | .fetched bytes =>
      past' = ⟨.getBytes (narinfoRequest reg upstream storeHash hop), .ok (some bytes)⟩ :: past ∧
        ∃ parsed, Verified crypto reg upstream bytes parsed ∧ reg.allows upstream parsed = true
  | .rejected => True

/-- A fetch that succeeds has got the bytes it returns. -/
theorem follows_fetchNarinfo (upstream : Str) :
    LookupFollows crypto reg storeHash candidates hop
      (fun past' fetched => ∀ body parsed, fetched = .ok (body, parsed) →
        ∃ bytes, body = some bytes ∧ Verified crypto reg upstream bytes parsed ∧
          past' = ⟨.getBytes (narinfoRequest reg upstream storeHash hop), .ok (some bytes)⟩ :: past)
      past (fetchNarinfo crypto reg upstream storeHash hop) := by
  refine ⟨trivial, fun reply body parsed hfetched => ?_⟩
  obtain ⟨bytes, rfl, hbody, hverified⟩ := eq_of_checkNarinfo_eq_ok hfetched
  exact ⟨bytes, hbody, hverified, rfl⟩

theorem follows_cachedRouteFilterCheck (upstream : Str) (narinfoBytes : Option Octets) :
    LookupFollows crypto reg storeHash candidates hop
      (fun past' check => past <:+ past' ∧
        CheckEnds crypto reg upstream storeHash hop narinfoBytes past past' check)
      past (cachedRouteFilterCheck crypto reg upstream storeHash narinfoBytes hop) := by
  unfold cachedRouteFilterCheck
  split
  · next hpasses => exact ⟨List.suffix_rfl, rfl, hpasses⟩
  · refine (follows_fetchNarinfo upstream).and_run.bind ?_
    rintro past' fetched ⟨hfetched, events, -, rfl⟩
    have hsuffix : past <:+ events.reverse ++ past := List.suffix_append _ _
    split
    · next body parsed =>
      obtain ⟨bytes, hbody, hverified, hpast⟩ := hfetched _ _ rfl
      cases hbody
      refine ⟨hsuffix, ?_⟩
      show CheckEnds _ _ _ _ _ _ _ _ (ite _ _ _)
      split
      · next hallows => exact ⟨hpast, parsed, hverified, hallows⟩
      · trivial
    · exact ⟨hsuffix, trivial⟩

/-- What the parts of a cached lookup promise of their results. -/
def CachedEnds (storeHash : Str) (past : List HandlerEvent) :
    Except RouterError (Option ResolveResult) → Prop
  | .ok (some result) => Taken storeHash result.url past
  | _ => True

theorem follows_lruRoute {value : ResolveResult} {earlier : List HandlerEvent}
    (hpast : past = ⟨.lruGet storeHash, some value⟩ :: earlier) :
    LookupFollows crypto reg storeHash candidates hop (CachedEnds storeHash) past
      (lruRoute crypto reg storeHash hop value) := by
  subst hpast
  have htaken : Taken storeHash value.url (⟨.lruGet storeHash, some value⟩ :: earlier) :=
    .inl ⟨value, earlier, rfl, List.suffix_rfl⟩
  refine (follows_cachedRouteFilterCheck value.url value.narinfoBytes).bind ?_
  rintro past' check ⟨hsuffix, -⟩
  cases check with
  | cached => exact htaken.mono hsuffix
  | fetched bytes =>
      exact ⟨⟨rfl, .inl rfl⟩, fun _ => htaken.mono (hsuffix.trans (List.suffix_cons _ _))⟩
  | rejected => exact ⟨trivial, fun _ => trivial⟩

theorem follows_serveRoute {entry : RouteEntry} (htaken : Taken storeHash entry.upstreamUrl past) :
    LookupFollows crypto reg storeHash candidates hop (CachedEnds storeHash) past
      (serveRoute reg storeHash entry) :=
  ⟨⟨rfl, .inl rfl⟩, fun _ => htaken.mono (List.suffix_cons _ _)⟩

theorem follows_refreshRoute {entry : RouteEntry} {bytes : Octets}
    (htaken : Taken storeHash entry.upstreamUrl past)
    (hwrite : RefreshWrite crypto reg storeHash hop past { entry with narinfoBytes := some bytes }) :
    LookupFollows crypto reg storeHash candidates hop (CachedEnds storeHash) past
      (refreshRoute reg storeHash entry bytes) := by
  refine (follows_setRoute (.inr hwrite) (fun _ => trivial) fun _ => trivial).bind ?_
  rintro past' stored ⟨hsuffix, -⟩
  cases stored with
  | error err => trivial
  | ok _ => exact follows_serveRoute (htaken.mono hsuffix)

theorem follows_storedRoute {entry : RouteEntry} {earlier : List HandlerEvent}
    (hpast : past = ⟨.dbGetRoute storeHash, .ok (some entry)⟩ :: earlier) :
    LookupFollows crypto reg storeHash candidates hop (CachedEnds storeHash) past
      (storedRoute crypto reg storeHash hop entry) := by
  subst hpast
  refine ⟨trivial, fun now => ?_⟩
  show Follows _ _ _ (ite _ _ _)
  split
  · trivial
  next hvalid =>
  refine ⟨trivial, fun health => ?_⟩
  show Follows _ _ _ (ite _ _ _)
  split
  · trivial
  have htaken : Taken storeHash entry.upstreamUrl
      (⟨.getHealth entry.upstreamUrl, health⟩ :: ⟨.timestampNow, now⟩ ::
        ⟨.dbGetRoute storeHash, .ok (some entry)⟩ :: earlier) :=
    .inr ⟨entry, now, earlier, rfl, by simpa using hvalid, List.suffix_cons _ _⟩
  refine (follows_cachedRouteFilterCheck entry.upstreamUrl entry.narinfoBytes).bind ?_
  rintro past' check ⟨hsuffix, hcheck⟩
  cases check with
  | cached =>
      obtain ⟨rfl, hpasses⟩ := hcheck
      show Follows _ _ _ (ite _ _ _)
      split
      · exact follows_serveRoute htaken
      · next hbare =>
        rw [Option.not_isSome_iff_eq_none.1 hbare] at hpasses
        refine (follows_fetchNarinfo entry.upstreamUrl).bind fun past' fetched hfetched => ?_
        split
        · next bytes parsed =>
          obtain ⟨bytes', hbody, hverified, rfl⟩ := hfetched _ _ rfl
          cases hbody
          exact follows_refreshRoute (htaken.mono (List.suffix_cons _ _))
            ⟨entry, bytes, parsed, health, now, earlier, rfl, hverified,
              allows_of_cachedPasses_none hpasses parsed, rfl⟩
        · trivial
  | fetched bytes =>
      obtain ⟨rfl, parsed, hverified, hallows⟩ := hcheck
      exact follows_refreshRoute (htaken.mono (List.suffix_cons _ _))
        ⟨entry, bytes, parsed, health, now, earlier, rfl, hverified, hallows, rfl⟩
  | rejected => trivial

theorem follows_resolveCached :
    LookupFollows crypto reg storeHash candidates hop (CachedEnds storeHash) past
      (resolveCached crypto reg storeHash hop) := by
  refine ⟨trivial, fun miss => ?_⟩
  cases miss with
  | some _ => trivial
  | none =>
      refine ⟨trivial, fun negative => ?_⟩
      match negative with
      | .error err => trivial
      | .ok true => trivial
      | .ok false =>
          refine ⟨trivial, fun value => ?_⟩
          cases value with
          | some value => exact follows_lruRoute rfl
          | none =>
              refine ⟨trivial, fun row => ?_⟩
              match row with
              | .error err => trivial
              | .ok none => trivial
              | .ok (some entry) => exact follows_storedRoute rfl

/-! ## Races -/

theorem quiet_raceGroup (group : List Str) :
    Performs Quiet (raceGroup reg storeHash group hop) :=
  ⟨trivial, fun _ => performs_joinHeads (fun _ => trivial) (fun _ => trivial) _ _ _ _ _⟩

/-- Races answer with fresh results. -/
def RaceEnds : Except RouterError ResolveResult → Prop
  | .ok result => result.cacheHit = false
  | .error _ => True

theorem follows_commitWinner (winner : RaceResult) :
    LookupFollows crypto reg storeHash candidates hop
      (fun _ outcome => ∀ result, outcome = .ok (.accepted result) → result.cacheHit = false)
      past (commitWinner crypto reg winner storeHash hop) := by
  refine (follows_fetchNarinfo winner.url).bind fun past' fetched hfetched => ?_
  match fetched with
  | .error err => exact nofun
  | .ok (body, parsed) =>
      obtain ⟨bytes, rfl, hverified, -⟩ := hfetched _ _ rfl
      show Follows _ _ _ (ite _ _ _)
      split
      · exact nofun
      next hallows =>
      refine ⟨trivial, fun _ => ⟨trivial, fun health => ⟨trivial, fun _ => ⟨trivial, fun now => ?_⟩⟩⟩⟩
      have hwrite : ∀ ema, CommitWrite crypto reg storeHash
          (⟨.timestampNow, now⟩ :: ⟨.recordLatency winner.url winner.latencyMs, ()⟩ ::
            ⟨.getHealth winner.url, health⟩ :: ⟨.countWin winner.url winner.latencyMs, ()⟩ :: past')
          (winnerRoute reg winner storeHash (some bytes) parsed ema now) :=
        fun ema => ⟨winner, bytes, parsed, ema, now, _, rfl, hverified, by simpa using hallows, rfl⟩
      refine (follows_setRoute (.inl (hwrite _)) (fun _ => trivial) fun _ => trivial).bind
        fun past'' stored hstored => ?_
      cases stored with
      | error err => exact nofun
      | ok _ =>
          have hinsert : ∀ value : ResolveResult, value.cacheHit = false → value.url = winner.url →
              CommitInsert crypto reg storeHash past'' value := fun value hfresh hurl =>
            ⟨hfresh, _, _, hstored.2 rfl, hwrite _, hurl.symm⟩
          refine ⟨⟨rfl, .inr (hinsert _ rfl rfl)⟩, fun _ result hresult => ?_⟩
          cases hresult
          rfl

theorem follows_raceWithinGroup (group : List Str) (anyNotFound : Bool) :
    LookupFollows crypto reg storeHash candidates hop
      (fun _ outcome => ∀ result, outcome = .done result → RaceEnds result)
      past (raceWithinGroup crypto reg storeHash hop group anyNotFound) := by
  induction hlen : group.length using Nat.strongRecOn generalizing group anyNotFound past with
  | ind n ih =>
  subst hlen
  rw [raceWithinGroup]
  split
  · intro result hresult
    cases hresult
  refine (follows_of_quiet (quiet_raceGroup group)).bind fun past' verdict _ => ?_
  cases verdict with
  | error err => cases err <;> exact fun result hresult => by cases hresult
  | ok winner =>
      have hlt := length_retainOthers_lt winner.2
      refine (follows_commitWinner winner.val).bind fun past'' commit hcommit => ?_
      cases commit with
      | ok outcome =>
          cases outcome with
          | accepted accepted =>
              intro result hresult
              cases hresult
              exact hcommit accepted rfl
          | rejected => exact ih _ hlt _ _ rfl
      | error err =>
          show Follows _ _ _ (ite _ _ _)
          split
          · split
            · exact ⟨trivial, fun _ => ih _ hlt _ _ rfl⟩
            · exact ih _ hlt _ _ rfl
          · intro result hresult
            cases hresult
            trivial

theorem follows_raceGroups (groups : List (ℤ × List Str)) (anyNotFound : Bool) :
    LookupFollows crypto reg storeHash candidates hop (fun _ result => RaceEnds result) past
      (raceGroups crypto reg storeHash hop groups anyNotFound) := by
  induction groups generalizing anyNotFound past with
  | nil => trivial
  | cons head groups ih =>
      refine (follows_raceWithinGroup head.2 anyNotFound).bind fun past' outcome houtcome => ?_
      cases outcome with
      | done result => exact houtcome result rfl
      | next anyNotFound' => exact ih anyNotFound'

theorem follows_race (urls : List Str) :
    LookupFollows crypto reg storeHash candidates hop (fun _ result => RaceEnds result) past
      (race crypto reg storeHash urls hop) := by
  have hrace : ∀ past, LookupFollows crypto reg storeHash candidates hop
      (fun _ result => RaceEnds result) past (raceCandidates crypto reg storeHash urls hop) := by
    intro past
    refine (follows_of_quiet
      (performs_cooldownFilteredCandidates (fun _ => trivial) urls)).bind fun _ _ _ => ?_
    refine (follows_of_quiet (performs_priorityGroups (fun _ => trivial) _ _)).bind fun _ _ _ => ?_
    exact follows_raceGroups _ _
  unfold race
  split
  · trivial
  split
  · refine ⟨trivial, fun granted => ?_⟩
    cases granted with
    | false => trivial
    | true => exact (hrace _).bind fun _ result hresult => ⟨trivial, fun _ => hresult⟩
  · exact hrace past

/-! ## Lookups -/

theorem RaceEnds.lookupEnds {result : Except RouterError ResolveResult} (h : RaceEnds result) :
    LookupEnds storeHash past result := by
  cases result with
  | error err => trivial
  | ok result =>
      have hfresh : result.cacheHit = false := h
      intro hcached
      rw [hfresh] at hcached
      cases hcached

theorem CachedEnds.lookupEnds {result : ResolveResult}
    (h : CachedEnds storeHash past (.ok (some result))) :
    LookupEnds storeHash past (.ok result) := fun _ => h

theorem LookupEnds.mono {past' : List HandlerEvent} {result : Except RouterError ResolveResult}
    (h : LookupEnds storeHash past result) (hsuffix : past <:+ past') :
    LookupEnds storeHash past' result := by
  cases result with
  | error err => trivial
  | ok result => exact fun hcached => (h hcached).mono hsuffix

theorem follows_resolveLocked :
    LookupFollows crypto reg storeHash candidates .client (LookupEnds storeHash) past
      (resolveLocked crypto reg storeHash candidates) := by
  refine follows_resolveCached.and_run.bind ?_
  rintro past' cached ⟨hcached, before, hbefore, rfl⟩
  match cached with
  | .error err => trivial
  | .ok (some result) => exact hcached.lookupEnds
  | .ok none =>
      refine (follows_race candidates).and_run.bind ?_
      rintro past'' result ⟨hresult, raced, hraced, rfl⟩
      split
      · have hmiss : RecordsMiss crypto reg storeHash candidates
            (raced.reverse ++ (before.reverse ++ past)) := ⟨before, raced, past, rfl, hbefore, hraced⟩
        exact ⟨⟨rfl, rfl, hmiss⟩, fun _ => ⟨⟨rfl, rfl, rfl, _, rfl, hmiss⟩, fun _ => trivial⟩⟩
      · exact hresult.lookupEnds

theorem follows_resolve :
    LookupFollows crypto reg storeHash candidates hop (LookupEnds storeHash) past
      (resolve crypto reg storeHash candidates hop) := by
  refine follows_resolveCached.bind fun past' cached hcached => ?_
  match cached with
  | .error err => trivial
  | .ok (some result) => exact hcached.lookupEnds
  | .ok none =>
      match hop with
      | .peerOfPeer => trivial
      | .peer => exact (follows_race candidates).mono fun _ _ h => h.lookupEnds
      | .client =>
          refine ⟨trivial, fun lock => ⟨trivial, fun _ => ?_⟩⟩
          refine follows_resolveLocked.bind fun past'' result hresult => ?_
          exact ⟨trivial, fun _ => ⟨trivial, fun _ => hresult.mono ⟨[_, _], rfl⟩⟩⟩

/-! ## Merges -/

theorem follows_mergeEach (routes : List RouteEntry) :
    Follows MergeWrites (fun _ _ => True) past (mergeEach routes) := by
  induction routes generalizing past with
  | nil => trivial
  | cons route routes ih =>
      refine ⟨trivial, fun row => ?_⟩
      match row with
      | .error err => exact ih
      | .ok existing =>
          show Follows _ _ _ (ite _ _ _)
          split
          · next hset =>
            have hwrite : MergeWrites (⟨.dbGetRoute route.storePath, .ok existing⟩ :: past)
                (.dbUpsertRoute route) := ⟨existing, past, rfl, hset⟩
            exact (follows_setRoute hwrite (fun _ => trivial) fun _ => trivial).bind
              fun _ _ _ => ih
          · exact ih

/-! ## Tasks -/

/-- What a task may do after a past. -/
def TaskOp (crypto : Crypto) (reg : Registry) : TaskKind → List HandlerEvent → Op → Prop
  | .resolve storeHash candidates hop, past, op =>
      LookupWrites crypto reg storeHash.val candidates hop past op
  | .fallback _ _ _, _, op => Quiet op
  | .merge _, past, op => MergeWrites past op

/-- What the past of a task says about its result. -/
def TaskEnds : TaskKind → List HandlerEvent → TaskResult → Prop
  | .resolve storeHash _ _, past, .lookup result => LookupEnds storeHash.val past result
  | _, _, _ => True

/-- Every task follows what it may do. -/
theorem follows_process (crypto : Crypto) (reg : Registry) (kind : TaskKind) :
    Follows (TaskOp crypto reg kind) (TaskEnds kind) [] (kind.process crypto reg) := by
  cases kind with
  | resolve storeHash candidates hop => exact follows_resolve.bind fun _ _ hresult => hresult
  | fallback storeHash upstream hop =>
      have hfetch : Performs Quiet (fetchNarinfo crypto reg upstream storeHash.val hop) :=
        ⟨trivial, fun _ => trivial⟩
      have hfallback : Performs Quiet (resolveFallback crypto reg storeHash.val upstream hop) := by
        refine hfetch.bind fun fetched => ?_
        cases fetched with
        | error err => trivial
        | ok fetched => exact ⟨trivial, fun _ => trivial⟩
      have hquiet : Performs Quiet ((TaskKind.fallback storeHash upstream hop).process crypto reg) :=
        hfallback.bind fun _ => trivial
      exact (Follows.of_performs (hquiet.mono fun _ h _ => h)).mono fun _ _ _ => trivial
  | merge incoming => exact ⟨trivial, fun _ => (follows_mergeEach _).bind fun _ _ _ => trivial⟩

namespace History

section

variable {meets : History → HistoryLabel → History → Prop} {s₀ s s' : History}
  {label : HistoryLabel}

/-- What is left of every task follows what it may do. -/
def TasksFollow (crypto : Crypto) (s : History) : Prop :=
  ∀ task ∈ s.tasks,
    Follows (TaskOp crypto s.registry task.kind) (TaskEnds task.kind) task.past task.process

theorem TasksFollow.step (h : s.TasksFollow crypto) (hstep : Step crypto s label s') :
    s'.TasksFollow crypto := by
  have htasks := hstep.tasks
    (T := fun reg task => Follows (TaskOp crypto reg task.kind) (TaskEnds task.kind) task.past
      task.process) h
  exact htasks (fun kind _ => follows_process crypto s.registry kind)
    fun number kind past op next reply _ hself => hself.2 reply

theorem Fresh.tasksFollow (h : s.Fresh) : s.TasksFollow crypto := by
  intro task htask
  rw [h.tasks] at htask
  cases htask

theorem Reached.tasksFollow (h₀ : s₀.Fresh) (h : Reached crypto meets s₀ s) :
    s.TasksFollow crypto :=
  h.invariant h₀.tasksFollow fun _ hfollow _ hstep => hfollow.step hstep

/-- A task that performs an operation might do so. -/
theorem TasksFollow.taskOp (h : s.TasksFollow crypto) {number : ℕ} {kind : TaskKind}
    {past : List HandlerEvent} {event : HandlerEvent}
    (hstep : Step crypto s (.perform number kind past event) s') :
    TaskOp crypto s.registry kind past event.1 := by
  cases hstep with
  | perform htasks hexec =>
      have hself := h ⟨number, kind, past, .perform _ _⟩
        (by rw [htasks]; exact List.mem_append_right _ List.mem_cons_self)
      exact hself.1

/-! ## Instances without mesh -/

/-- A label of a run without mesh. -/
def WithoutMesh : HistoryLabel → Prop
  | .start (.merge _) => False
  | _ => True

/-- Without mesh there are no merges under way. -/
theorem Reached.not_merge (hmesh : ∀ s label s', meets s label s' → WithoutMesh label)
    (h₀ : s₀.Fresh) (h : Reached crypto meets s₀ s) :
    ∀ task ∈ s.tasks, ∀ incoming, task.kind ≠ .merge incoming := by
  have hstart : ∀ task ∈ s₀.tasks, ∀ incoming, task.kind ≠ .merge incoming := by
    simp [h₀.tasks]
  refine h.invariant (I := fun s => ∀ task ∈ s.tasks, ∀ incoming, task.kind ≠ .merge incoming)
    hstart fun {s label s'} _ hnone hmeets hstep => ?_
  have hlabel := hmesh _ _ _ hmeets
  refine hstep.tasks (T := fun _ task => ∀ incoming, task.kind ≠ .merge incoming) hnone
    (fun kind heq incoming hkind => ?_) fun _ _ _ _ _ _ _ hself => hself
  obtain rfl : kind = .merge incoming := hkind
  rw [heq] at hlabel
  exact hlabel

/-- Without mesh, only lookups write routes. -/
theorem Reached.lookupWrites (hmesh : ∀ s label s', meets s label s' → WithoutMesh label)
    (h₀ : s₀.Fresh) (h : Reached crypto meets s₀ s) {number : ℕ} {kind : TaskKind}
    {past : List HandlerEvent} {written : RouteEntry} {reply : Except DbError Unit}
    (hstep : Step crypto s (.perform number kind past ⟨.dbUpsertRoute written, reply⟩) s') :
    ∃ storeHash candidates hop, kind = .resolve storeHash candidates hop ∧
      (CommitWrite crypto s.registry storeHash.val past written ∨
        RefreshWrite crypto s.registry storeHash.val hop past written) := by
  have hop := (h.tasksFollow h₀).taskOp hstep
  obtain ⟨process, htask⟩ := hstep.mem_tasks
  cases kind with
  | resolve storeHash candidates hop' => exact ⟨_, _, _, rfl, hop⟩
  | fallback storeHash upstream hop' => exact hop.elim
  | merge incoming => exact absurd rfl (h.not_merge hmesh h₀ _ htask incoming)

end

end History

end Ncro
