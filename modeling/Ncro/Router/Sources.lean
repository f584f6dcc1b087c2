import Ncro.Router.Writes

/-!
# Where the bytes of a lookup come from

A lookup answers with bytes that an upstream has just replied with, with the bytes of the row
it has read, or with what it has found in the LRU; it writes rows with replied bytes only, and
LRU entries with replied or read ones. `follows_process_sources` says so of every task in
terms of its past, and `History.Reached.fetchedInLog` of every write in the log of an
instance.
-/

namespace Ncro

open Foundation Foundation.Process

/-- The upstream has replied with these bytes to a request for the narinfo of the hash. -/
def RepliedNarinfo (storeHash upstream : Str) (body : Octets) (event : HandlerEvent) : Prop :=
  ∃ request : UpstreamRequest, request.upstream = upstream ∧ request.method = .get ∧
    request.path = narinfoPath storeHash ∧ event = ⟨.getBytes request, .ok (some body)⟩

/-- A lookup has got the bytes: the upstream has replied with them, or they were in the row of
the hash. -/
def Obtained (storeHash upstream : Str) (body : Octets) (past : List HandlerEvent) : Prop :=
  (∃ event ∈ past, RepliedNarinfo storeHash upstream body event) ∨
  ∃ row : RouteEntry, (⟨.dbGetRoute storeHash, .ok (some row)⟩ : HandlerEvent) ∈ past ∧
    row.upstreamUrl = upstream ∧ row.narinfoBytes = some body

/-- An answer is made of bytes that were got from its upstream. -/
def AnswerObtained (reg : Registry) (storeHash : Str) (past : List HandlerEvent)
    (result : ResolveResult) : Prop :=
  ∃ body, result.narinfoBytes = reg.responseNarinfoBytes result.url storeHash (some body) ∧
    Obtained storeHash result.url body past

/-- An answer has the bytes of an entry of the LRU. -/
def AnswerFound (storeHash : Str) (past : List HandlerEvent) (result : ResolveResult) : Prop :=
  ∃ value : ResolveResult, (⟨.lruGet storeHash, some value⟩ : HandlerEvent) ∈ past ∧
    value.url = result.url ∧ value.narinfoBytes = result.narinfoBytes

/-- The bytes of a route that is written are a reply, and its path is the hash or that of the
row that was read. -/
def WriteReplied (storeHash : Str) (past : List HandlerEvent) (written : RouteEntry) : Prop :=
  ∃ body, written.narinfoBytes = some body ∧
    (∃ event ∈ past, RepliedNarinfo storeHash written.upstreamUrl body event) ∧
    (written.storePath = storeHash ∨
      ∃ row : RouteEntry, (⟨.dbGetRoute storeHash, .ok (some row)⟩ : HandlerEvent) ∈ past ∧
        row.storePath = written.storePath)

/-- What a lookup may write after a past. -/
def SourceOp (reg : Registry) (storeHash : Str) (past : List HandlerEvent) : Op → Prop
  | .dbUpsertRoute written => WriteReplied storeHash past written
  | .lruInsert key value => key = storeHash ∧ AnswerObtained reg storeHash past value
  | _ => True

/-- What a lookup may end with after a past. -/
def SourceEnds (reg : Registry) (storeHash : Str) (past : List HandlerEvent) :
    Except RouterError ResolveResult → Prop
  | .ok result => AnswerObtained reg storeHash past result ∨ AnswerFound storeHash past result
  | .error _ => True

/-! ## Lookups -/

section

variable {crypto : Crypto} {reg : Registry} {storeHash upstream : Str} {hop : Hop} {body : Octets}
  {past past' : List HandlerEvent}

theorem Obtained.mono (h : Obtained storeHash upstream body past) (hpast : past <:+ past') :
    Obtained storeHash upstream body past' := by
  rcases h with ⟨event, hevent, hreplied⟩ | ⟨row, hrow, hbytes⟩
  · exact .inl ⟨event, hpast.subset hevent, hreplied⟩
  · exact .inr ⟨row, hpast.subset hrow, hbytes⟩

theorem SourceEnds.mono {result : Except RouterError ResolveResult}
    (h : SourceEnds reg storeHash past result) (hpast : past <:+ past') :
    SourceEnds reg storeHash past' result := by
  cases result with
  | error err => trivial
  | ok result =>
      rcases h with ⟨body, hbytes, hobtained⟩ | ⟨value, hvalue, hsame⟩
      · exact .inl ⟨body, hbytes, hobtained.mono hpast⟩
      · exact .inr ⟨value, hpast.subset hvalue, hsame⟩

theorem repliedNarinfo_request (storeHash upstream : Str) (hop : Hop) (body : Octets) :
    RepliedNarinfo storeHash upstream body
      ⟨.getBytes (narinfoRequest reg upstream storeHash hop), .ok (some body)⟩ :=
  ⟨_, rfl, rfl, rfl, rfl⟩

/-- An operation of which nothing is asked. -/
def SourceFree : Op → Prop
  | .dbUpsertRoute _ | .lruInsert _ _ => False
  | _ => True

theorem follows_of_sourceFree {α : Type} {p : Handler α} (h : Performs SourceFree p) :
    Follows (SourceOp reg storeHash) (fun _ _ => True) past p := by
  apply Follows.of_performs
  apply h.mono
  intro op hop past
  cases op <;> first | exact hop.elim | trivial

/-- What is fetched was replied right before. -/
theorem follows_fetchNarinfo_source (upstream : Str) :
    Follows (SourceOp reg storeHash)
      (fun past' fetched => past <:+ past' ∧ ∀ body parsed, fetched = .ok (body, parsed) →
        ∃ bytes, body = some bytes ∧
          ∃ event ∈ past', RepliedNarinfo storeHash upstream bytes event)
      past (fetchNarinfo crypto reg upstream storeHash hop) := by
  refine ⟨trivial, fun reply => ⟨List.suffix_cons _ _, fun body parsed hfetched => ?_⟩⟩
  rcases eq_of_checkNarinfo_eq_ok hfetched with ⟨bytes, rfl, hbody, -⟩
  exact ⟨bytes, hbody, _, List.mem_cons_self, repliedNarinfo_request _ _ _ _⟩

theorem follows_cachedRouteFilterCheck_source (upstream : Str) (narinfoBytes : Option Octets) :
    Follows (SourceOp reg storeHash)
      (fun past' check => past <:+ past' ∧ ∀ bytes, check = .fetched bytes →
        ∃ event ∈ past', RepliedNarinfo storeHash upstream bytes event)
      past (cachedRouteFilterCheck crypto reg upstream storeHash narinfoBytes hop) := by
  unfold cachedRouteFilterCheck
  split
  · exact ⟨List.suffix_rfl, fun bytes heq => by cases heq⟩
  · apply (follows_fetchNarinfo_source upstream).bind
    intro past' fetched hfetched
    rcases hfetched with ⟨hpast, hreplied⟩
    split
    · next body parsed =>
      rcases hreplied _ _ rfl with ⟨bytes, hbody, hevent⟩
      cases hbody
      refine ⟨hpast, fun bytes heq => ?_⟩
      by_cases hallows : reg.allows upstream parsed = true
      · rw [if_pos hallows] at heq
        cases heq
        exact hevent
      · rw [if_neg hallows] at heq
        cases heq
    · exact ⟨hpast, fun bytes heq => by cases heq⟩

/-- What a cached lookup may end with. -/
def CachedSource (reg : Registry) (storeHash : Str) (past : List HandlerEvent) :
    Except RouterError (Option ResolveResult) → Prop
  | .ok (some result) => SourceEnds reg storeHash past (.ok result)
  | _ => True

/-- An entry of the LRU is the answer, or is replaced by what was fetched. -/
theorem follows_lruRoute_source {value : ResolveResult}
    (hvalue : (⟨.lruGet storeHash, some value⟩ : HandlerEvent) ∈ past) :
    Follows (SourceOp reg storeHash) (CachedSource reg storeHash) past
      (lruRoute crypto reg storeHash hop value) := by
  apply (follows_cachedRouteFilterCheck_source value.url value.narinfoBytes).bind
  intro past' check hcheck
  rcases hcheck with ⟨hpast, hreplied⟩
  cases check with
  | cached => exact .inr ⟨value, hpast.subset hvalue, rfl, rfl⟩
  | fetched bytes =>
      have hobtained : Obtained storeHash value.url bytes past' := .inl (hreplied bytes rfl)
      constructor
      · exact ⟨rfl, bytes, rfl, hobtained⟩
      · exact fun _ => .inl ⟨bytes, rfl, hobtained.mono (List.suffix_cons _ _)⟩
  | rejected => exact ⟨trivial, fun _ => trivial⟩

/-- A row is served when its bytes were got. -/
theorem follows_serveRoute_source {entry : RouteEntry} (hbody : entry.narinfoBytes = some body)
    (hobtained : Obtained storeHash entry.upstreamUrl body past) :
    Follows (SourceOp reg storeHash) (CachedSource reg storeHash) past
      (serveRoute reg storeHash entry) := by
  unfold serveRoute
  rw [hbody]
  constructor
  · exact ⟨rfl, body, rfl, hobtained⟩
  · exact fun _ => .inl ⟨body, rfl, hobtained.mono (List.suffix_cons _ _)⟩

/-- The row that was read is written with the bytes that its upstream has replied with. -/
theorem follows_refreshRoute_source {entry : RouteEntry} {bytes : Octets}
    (hrow : (⟨.dbGetRoute storeHash, .ok (some entry)⟩ : HandlerEvent) ∈ past)
    (hreplied : ∃ event ∈ past, RepliedNarinfo storeHash entry.upstreamUrl bytes event) :
    Follows (SourceOp reg storeHash) (CachedSource reg storeHash) past
      (refreshRoute reg storeHash entry bytes) := by
  have hwrite : SourceOp reg storeHash past
      (.dbUpsertRoute { entry with narinfoBytes := some bytes }) :=
    ⟨bytes, rfl, hreplied, .inr ⟨entry, hrow, rfl⟩⟩
  apply (follows_setRoute hwrite (fun _ => trivial) fun _ => trivial).bind
  intro past' stored hstored
  have hobtained : Obtained storeHash entry.upstreamUrl bytes past' :=
    (Obtained.mono (.inl hreplied) hstored.1 : _)
  cases stored with
  | error err => trivial
  | ok _ =>
      show Follows _ _ _ (serveRoute reg storeHash { entry with narinfoBytes := some bytes })
      exact follows_serveRoute_source rfl hobtained

theorem follows_storedRoute_source {entry : RouteEntry}
    (hrow : (⟨.dbGetRoute storeHash, .ok (some entry)⟩ : HandlerEvent) ∈ past) :
    Follows (SourceOp reg storeHash) (CachedSource reg storeHash) past
      (storedRoute crypto reg storeHash hop entry) := by
  refine ⟨trivial, fun now => ?_⟩
  show Follows _ _ _ (ite _ _ _)
  split
  · trivial
  refine ⟨trivial, fun health => ?_⟩
  show Follows _ _ _ (ite _ _ _)
  split
  · trivial
  apply (follows_cachedRouteFilterCheck_source entry.upstreamUrl entry.narinfoBytes).bind
  intro past' check hcheck
  rcases hcheck with ⟨hpast, hreplied⟩
  have hread : (⟨.dbGetRoute storeHash, .ok (some entry)⟩ : HandlerEvent) ∈ past' :=
    hpast.subset (List.mem_cons_of_mem _ (List.mem_cons_of_mem _ hrow))
  cases check with
  | cached =>
      show Follows _ _ _ (ite _ _ _)
      split
      · next hsome =>
        rcases Option.isSome_iff_exists.1 hsome with ⟨body, hbody⟩
        exact follows_serveRoute_source hbody (.inr ⟨entry, hread, rfl, hbody⟩)
      · apply (follows_fetchNarinfo_source entry.upstreamUrl).bind
        intro past'' fetched hfetched
        rcases hfetched with ⟨hgrown, hfetched⟩
        split
        · next bytes parsed =>
          rcases hfetched _ _ rfl with ⟨bytes', hbody, hevent⟩
          cases hbody
          exact follows_refreshRoute_source (hgrown.subset hread) hevent
        · trivial
  | fetched bytes => exact follows_refreshRoute_source hread (hreplied bytes rfl)
  | rejected => trivial

theorem follows_resolveCached_source :
    Follows (SourceOp reg storeHash) (CachedSource reg storeHash) past
      (resolveCached crypto reg storeHash hop) := by
  refine ⟨trivial, fun miss => ?_⟩
  cases miss with
  | some _ => trivial
  | none =>
      refine ⟨trivial, fun negative => ?_⟩
      cases negative with
      | error err => trivial
      | ok negative =>
          cases negative with
          | true => trivial
          | false =>
              refine ⟨trivial, fun value => ?_⟩
              cases value with
              | some value => exact follows_lruRoute_source List.mem_cons_self
              | none =>
                  refine ⟨trivial, fun row => ?_⟩
                  cases row with
                  | error err => trivial
                  | ok row =>
                      cases row with
                      | none => trivial
                      | some entry => exact follows_storedRoute_source List.mem_cons_self

/-! ## Races -/

/-- A winner is committed with the bytes that it has replied with. -/
theorem follows_commitWinner_source (winner : RaceResult) :
    Follows (SourceOp reg storeHash)
      (fun past' outcome => ∀ result, outcome = .ok (.accepted result) →
        AnswerObtained reg storeHash past' result)
      past (commitWinner crypto reg winner storeHash hop) := by
  apply (follows_fetchNarinfo_source winner.url).bind
  intro past' fetched hfetched
  cases fetched with
  | error err => exact fun result heq => by cases heq
  | ok fetched =>
      rcases fetched with ⟨narinfo, parsed⟩
      rcases hfetched.2 _ _ rfl with ⟨bytes, rfl, hreplied⟩
      show Follows _ _ _ (ite _ _ _)
      split
      · exact fun result heq => by cases heq
      refine ⟨trivial, fun _ => ⟨trivial, fun health => ⟨trivial, fun _ => ⟨trivial, fun now => ?_⟩⟩⟩⟩
      have hpast : past' <:+ ⟨.timestampNow, now⟩ :: ⟨.recordLatency winner.url winner.latencyMs, ()⟩ ::
          ⟨.getHealth winner.url, health⟩ :: ⟨.countWin winner.url winner.latencyMs, ()⟩ :: past' :=
        ⟨[_, _, _, _], rfl⟩
      rcases hreplied with ⟨event, hevent, hreplied⟩
      have hwrite : ∀ ema, SourceOp reg storeHash _ (.dbUpsertRoute
          (winnerRoute reg winner storeHash (some bytes) parsed ema now)) :=
        fun ema => ⟨bytes, rfl, ⟨event, hpast.subset hevent, hreplied⟩, .inl rfl⟩
      apply (follows_setRoute (hwrite _) (fun _ => trivial) fun _ => trivial).bind
      intro past'' stored hstored
      have hobtained : Obtained storeHash winner.url bytes past'' :=
        .inl ⟨event, hstored.1.subset (hpast.subset hevent), hreplied⟩
      cases stored with
      | error err => exact fun result heq => by cases heq
      | ok _ =>
          refine ⟨⟨rfl, bytes, rfl, hobtained⟩, fun _ result heq => ?_⟩
          cases heq
          exact ⟨bytes, rfl, hobtained.mono (List.suffix_cons _ _)⟩

theorem sourceFree_raceGroup (group : List Str) :
    Performs SourceFree (raceGroup reg storeHash group hop) :=
  ⟨trivial, fun _ => performs_joinHeads (fun _ => trivial) (fun _ => trivial) _ _ _ _ _⟩

theorem follows_raceWithinGroup_source (group : List Str) (anyNotFound : Bool) :
    Follows (SourceOp reg storeHash)
      (fun past' outcome => ∀ result, outcome = .done result → SourceEnds reg storeHash past' result)
      past (raceWithinGroup crypto reg storeHash hop group anyNotFound) := by
  induction hlen : group.length using Nat.strongRecOn generalizing group anyNotFound past with
  | ind n ih =>
  subst hlen
  rw [raceWithinGroup]
  split
  · exact fun result heq => by cases heq
  apply (follows_of_sourceFree (sourceFree_raceGroup group)).bind
  intro past' verdict _
  cases verdict with
  | error err => cases err <;> exact fun result heq => by cases heq
  | ok winner =>
      have hlt := length_retainOthers_lt winner.2
      apply (follows_commitWinner_source winner.val).bind
      intro past'' commit hcommit
      cases commit with
      | ok outcome =>
          cases outcome with
          | accepted accepted =>
              intro result heq
              cases heq
              exact .inl (hcommit accepted rfl)
          | rejected => exact ih _ hlt _ _ rfl
      | error err =>
          show Follows _ _ _ (ite _ _ _)
          split
          · split
            · exact ⟨trivial, fun _ => ih _ hlt _ _ rfl⟩
            · exact ih _ hlt _ _ rfl
          · intro result heq
            cases heq
            trivial

theorem follows_raceGroups_source (groups : List (ℤ × List Str)) (anyNotFound : Bool) :
    Follows (SourceOp reg storeHash) (SourceEnds reg storeHash) past
      (raceGroups crypto reg storeHash hop groups anyNotFound) := by
  induction groups generalizing anyNotFound past with
  | nil => trivial
  | cons head groups ih =>
      apply (follows_raceWithinGroup_source head.2 anyNotFound).bind
      intro past' outcome houtcome
      cases outcome with
      | done result => exact houtcome result rfl
      | next anyNotFound' => exact ih anyNotFound'

theorem follows_race_source (candidates : List Str) :
    Follows (SourceOp reg storeHash) (SourceEnds reg storeHash) past
      (race crypto reg storeHash candidates hop) := by
  have hrace : ∀ past, Follows (SourceOp reg storeHash) (SourceEnds reg storeHash) past
      (raceCandidates crypto reg storeHash candidates hop) := by
    intro past
    apply (follows_of_sourceFree
      (performs_cooldownFilteredCandidates (fun _ => trivial) candidates)).bind
    intro _ filtered _
    apply (follows_of_sourceFree (performs_priorityGroups (fun _ => trivial) _ _)).bind
    exact fun _ _ _ => follows_raceGroups_source _ _
  unfold race
  split
  · trivial
  split
  · refine ⟨trivial, fun granted => ?_⟩
    cases granted with
    | false => trivial
    | true =>
        apply (hrace _).bind
        exact fun _ _ hresult => ⟨trivial, fun _ => hresult.mono (List.suffix_cons _ _)⟩
  · exact hrace past

/-! ## Tasks -/

theorem follows_resolveLocked_source (candidates : List Str) :
    Follows (SourceOp reg storeHash) (SourceEnds reg storeHash) past
      (resolveLocked crypto reg storeHash candidates) := by
  apply follows_resolveCached_source.bind
  intro past' cached hcached
  cases cached with
  | error err => trivial
  | ok cached =>
      cases cached with
      | some result => exact hcached
      | none =>
          apply (follows_race_source candidates).bind
          intro past'' result hresult
          split
          · exact ⟨trivial, fun _ => ⟨trivial, fun _ => trivial⟩⟩
          · exact hresult

theorem follows_resolve_source (candidates : List Str) :
    Follows (SourceOp reg storeHash) (SourceEnds reg storeHash) past
      (resolve crypto reg storeHash candidates hop) := by
  apply follows_resolveCached_source.bind
  intro past' cached hcached
  cases cached with
  | error err => trivial
  | ok cached =>
      cases cached with
      | some result => exact hcached
      | none =>
          cases hop with
          | peerOfPeer => trivial
          | peer => exact follows_race_source candidates
          | client =>
              refine ⟨trivial, fun lock => ⟨trivial, fun _ => ?_⟩⟩
              apply (follows_resolveLocked_source candidates).bind
              intro past'' result hresult
              exact ⟨trivial, fun _ => ⟨trivial, fun _ => hresult.mono ⟨[_, _], rfl⟩⟩⟩

theorem follows_resolveFallback_source (upstream : Str) :
    Follows (SourceOp reg storeHash) (SourceEnds reg storeHash) past
      (resolveFallback crypto reg storeHash upstream hop) := by
  apply (follows_fetchNarinfo_source upstream).bind
  intro past' fetched hfetched
  cases fetched with
  | error err => trivial
  | ok fetched =>
      rcases fetched with ⟨narinfo, parsed⟩
      rcases hfetched.2 _ _ rfl with ⟨bytes, rfl, hreplied⟩
      refine ⟨trivial, fun latencyMs => .inl ⟨bytes, rfl, ?_⟩⟩
      exact Obtained.mono (.inl hreplied) (List.suffix_cons _ _)

end

/-- What a task may write after a past. -/
def TaskSourceOp (reg : Registry) : TaskKind → List HandlerEvent → Op → Prop
  | .resolve storeHash _ _, past, op | .fallback storeHash _ _, past, op =>
      SourceOp reg storeHash.val past op
  | .merge _, past, op => MergeWrites past op

/-- What a task may end with after a past. -/
def TaskSourceEnds (reg : Registry) : TaskKind → List HandlerEvent → TaskResult → Prop
  | .resolve storeHash _ _, past, .lookup result | .fallback storeHash _ _, past, .lookup result =>
      SourceEnds reg storeHash.val past result
  | _, _, _ => True

theorem follows_process_source (crypto : Crypto) (reg : Registry) (kind : TaskKind) :
    Follows (TaskSourceOp reg kind) (TaskSourceEnds reg kind) [] (kind.process crypto reg) := by
  cases kind with
  | resolve storeHash candidates hop =>
      exact (follows_resolve_source candidates).bind fun _ _ hresult => hresult
  | fallback storeHash upstream hop =>
      exact (follows_resolveFallback_source upstream).bind fun _ _ hresult => hresult
  | merge incoming => exact ⟨trivial, fun _ => (follows_mergeEach _).bind fun _ _ _ => trivial⟩

/-! ## The log of an instance -/

/-- An upstream has replied with these bytes to a request for the narinfo of the hash. -/
def FetchedInLog (log : List LogEntry) (storeHash upstream : Str) (body : Octets) : Prop :=
  ∃ entry ∈ log, RepliedNarinfo storeHash upstream body entry.event

namespace History

variable {crypto : Crypto} {meets : History → HistoryLabel → History → Prop} {s₀ s s' : History}
  {label : HistoryLabel}

/-- Tasks and log entries keep to what is said of the sources of bytes, and rows are read under
their own path. -/
structure Sourced (s : History) : Prop where
  tasks : ∀ task ∈ s.tasks, Follows (TaskSourceOp s.registry task.kind)
    (TaskSourceEnds s.registry task.kind) task.past task.process
  log : ∀ entry ∈ s.log, TaskSourceOp entry.registry entry.kind entry.past entry.event.1
  read : ∀ entry ∈ s.log, ∀ path route,
    entry.event = ⟨.dbGetRoute path, .ok (some route)⟩ → route.storePath = path

theorem Fresh.sourced (h : s.Fresh) : s.Sourced := by
  constructor
  · simp [h.tasks]
  · simp [h.log]
  · simp [h.log]

/-- A row that is read has the path it was looked up under. -/
theorem storePath_of_exec {reg : Registry} {inst inst' : Instance} {path : Str}
    {route : RouteEntry} {reply : (Op.dbGetRoute path).Reply}
    (hexec : Instance.exec reg (.dbGetRoute path) inst reply inst')
    (hreply : reply = .ok (some route)) : route.storePath = path := by
  rcases hexec.1 with herror | hget
  · rw [hreply] at herror
    cases herror
  · rw [hreply] at hget
    rcases RouteTable.exists_row_of_getRoute hget.symm with ⟨row, hrow, hread⟩
    rw [hread.storePath]
    exact Table.key_of_get hrow

/-- A task that performs an operation might do so. -/
theorem Sourced.taskSourceOp (h : s.Sourced) {number : ℕ} {kind : TaskKind}
    {past : List HandlerEvent} {event : HandlerEvent}
    (hstep : Step crypto s (.perform number kind past event) s') :
    TaskSourceOp s.registry kind past event.1 := by
  cases hstep with
  | perform htasks hexec =>
      have hself := h.tasks ⟨number, kind, past, .perform _ _⟩
        (by rw [htasks]; exact List.mem_append_right _ List.mem_cons_self)
      exact hself.1

theorem Sourced.step (h : s.Sourced) (hstep : Step crypto s label s') : s'.Sourced := by
  constructor
  · have htasks := hstep.tasks
      (T := fun reg task => Follows (TaskSourceOp reg task.kind) (TaskSourceEnds reg task.kind)
        task.past task.process) h.tasks
    exact htasks (fun kind _ => follows_process_source crypto s.registry kind)
      fun number kind past op next reply _ hself => hself.2 reply
  · rcases hstep.log_eq with ⟨number, kind, past, event, rfl, hlog⟩ | hlog
    · rw [hlog]
      intro entry hentry
      rcases List.mem_cons.1 hentry with rfl | hentry
      · exact h.taskSourceOp hstep
      · exact h.log entry hentry
    · rw [hlog]
      exact h.log
  · rcases hstep.log_eq with ⟨number, kind, past, event, rfl, hlog⟩ | hlog
    · rw [hlog]
      intro entry hentry path route hevent
      rcases List.mem_cons.1 hentry with rfl | hentry
      · have hread : event = ⟨.dbGetRoute path, .ok (some route)⟩ := hevent
        subst hread
        exact storePath_of_exec hstep.perform_effect.1 rfl
      · exact h.read entry hentry path route hevent
    · rw [hlog]
      exact h.read

theorem Reached.sourced (h₀ : s₀.Fresh) (h : Reached crypto meets s₀ s) : s.Sourced :=
  h.invariant h₀.sourced fun _ hsourced _ hstep => hsourced.step hstep

/-- Only a restart changes the registry, and it empties the LRU. -/
theorem Step.registry_eq_or_lru_empty (h : Step crypto s label s') :
    s'.registry = s.registry ∨ s'.inst.lru.entries.rows = [] := by
  cases h with
  | restart reg health maxEntries inMemoryNegativeTtl cooldownWindow maxConcurrentRaces wallClock
      clock => exact .inr rfl
  | _ => exact .inl rfl

/-- What a task did before is in the log. -/
theorem exists_entry_of_mem_eventsOf {log : List LogEntry} {number : ℕ} {event : HandlerEvent}
    (h : event ∈ eventsOf log number) : ∃ entry ∈ log, entry.event = event := by
  rcases List.mem_map.1 h with ⟨entry, hentry, rfl⟩
  exact ⟨entry, (List.mem_filter.1 hentry).1, rfl⟩

/-- The bytes of a route that a lookup has written were replied by its upstream, to a request
for the narinfo of its path. -/
theorem Reached.fetchedInLog (h₀ : s₀.Fresh) (h : Reached crypto meets s₀ s) {entry : LogEntry}
    (hentry : entry ∈ s.log) {route : RouteEntry} {reply : (Op.dbUpsertRoute route).Reply}
    (hevent : entry.event = ⟨.dbUpsertRoute route, reply⟩) {storeHash : StoreHash}
    {candidates : List Str} {hop : Hop} (hkind : entry.kind = .resolve storeHash candidates hop) :
    ∃ body, route.narinfoBytes = some body ∧
      FetchedInLog s.log route.storePath route.upstreamUrl body := by
  have hsourced := h.sourced h₀
  have hwrite := hsourced.log entry hentry
  rw [hkind, hevent] at hwrite
  rcases List.append_of_mem hentry with ⟨newer, older, hlog⟩
  have hpast := h.entry_past h₀ newer entry older hlog
  have holder : older ⊆ s.log := by
    rw [hlog]
    exact List.subset_append_of_subset_right _ (List.subset_cons_self _ _)
  rcases hwrite with ⟨body, hbody, ⟨event, hreplied, hreply⟩, hpath⟩
  rw [hpast] at hreplied hpath
  rcases exists_entry_of_mem_eventsOf hreplied with ⟨fetched, hfetched, rfl⟩
  have hsame : route.storePath = storeHash.val := by
    rcases hpath with hpath | ⟨row, hrow, hpath⟩
    · exact hpath
    · rcases exists_entry_of_mem_eventsOf hrow with ⟨read, hread, hrow⟩
      rw [← hpath]
      exact hsourced.read read (holder hread) _ _ hrow
  refine ⟨body, hbody, fetched, holder hfetched, ?_⟩
  rw [hsame]
  exact hreply

end History

end Ncro
