import Ncro.Router.Footprint
import Ncro.Server.Narinfo
import Ncro.Upstream.Backend

/-!
# How long a lookup takes

A stopwatch runs while a lookup waits for upstreams: for the `HEAD` requests of a race, cut
off by the deadline of the race, and for what a backend takes to answer. Waiting for other
lookups, for their locks and permits, does not count. A race has at most as many rounds as
candidates, so whatever the upstreams do a lookup is over in time: `takes_narinfo`.
-/

namespace Ncro

open Foundation Foundation.Process

/-- The time a lookup has waited, and what is left until the deadline of its race. -/
structure Stopwatch where
  elapsed : Duration
  left : Duration

/-- How the upstreams of an instance are reached. -/
structure Reachability where
  signer : Signer
  backends : Upstreams
  /-- The time that an S3 client and its credentials take. -/
  clientTime : Duration
  credentialsTime : Duration

namespace Reachability

variable (reach : Reachability)

/-- What the backend of an upstream does with a whole request, and how long it takes. -/
def Fetches (request : UpstreamRequest) (elapsed : Duration)
    (reply : Except BackendError (Option Octets)) (elapsed' : Duration) : Prop :=
  ∃ clock, Execution (sendClock reach.clientTime reach.credentialsTime)
    ((reach.backends.get request.upstream).getBytes reach.signer request.path request.headers
      request.timeout) ⟨elapsed, 0⟩ reply clock ∧ elapsed' = clock.elapsed

/-- The same for a request whose response is streamed back, up to its status. -/
def Proxies (request : UpstreamRequest) (elapsed : Duration)
    (reply : Except BackendError (Option ℕ)) (elapsed' : Duration) : Prop :=
  ∃ clock response, Execution (sendClock reach.clientTime reach.credentialsTime)
    ((reach.backends.get request.upstream).send reach.signer request.method request.path
      request.headers request.timeout) ⟨elapsed, 0⟩ response clock ∧
    reply = response.map (Option.map WireResponse.status) ∧ elapsed' = clock.elapsed

/-- The operations of a lookup with the time they take. At most `upstreams` upstreams are
tracked. -/
def stopwatch (raceTimeout : Duration) (upstreams : ℕ) : Semantics Op Op.Reply Stopwatch
  | .spawnHeads _, s, _, s' => s' = ⟨s.elapsed, raceTimeout⟩
  | .joinHead _, s, _, s' => ∃ d ≤ s.left, s' = ⟨s.elapsed + d, s.left - d⟩
  | .getBytes request, s, reply, s' =>
      reach.Fetches request s.elapsed reply s'.elapsed
  | .proxy request, s, reply, s' =>
      reach.Proxies request s.elapsed reply s'.elapsed
  | .sortedByLatency, s, sorted, s' => sorted.length ≤ upstreams ∧ s' = s
  | .spawnNar _ _, s, _, s' | .selectNar _ _, s, _, s' | .sendNar _, s, _, s' =>
      s.elapsed ≤ s'.elapsed
  | _, s, _, s' => s' = s

/-- A part of a handler takes no more than a given time. -/
def Lasts {α : Type} (raceTimeout : Duration) (upstreams : ℕ) (p : Handler α) (time : Duration) :
    Prop :=
  Takes (reach.stopwatch raceTimeout upstreams) Stopwatch.elapsed (fun _ => True) p time
    fun _ _ => True

end Reachability

/-- The operations that do not wait for upstreams. -/
def Op.untimed : Op → Prop
  | .spawnHeads _ | .joinHead _ | .getBytes _ | .proxy _ | .sortedByLatency | .spawnNar _ _
  | .selectNar _ _ | .sendNar _ => False
  | _ => True

section

variable {reach : Reachability} {raceTimeout time : Duration} {upstreams : ℕ} {α β : Type}

theorem eq_of_untimed {op : Op} {s s' : Stopwatch} {reply : op.Reply} (huntimed : op.untimed)
    (h : reach.stopwatch raceTimeout upstreams op s reply s') : s' = s := by
  cases op with
  | spawnHeads => exact huntimed.elim
  | joinHead => exact huntimed.elim
  | getBytes => exact huntimed.elim
  | proxy => exact huntimed.elim
  | sortedByLatency => exact huntimed.elim
  | spawnNar => exact huntimed.elim
  | selectNar => exact huntimed.elim
  | sendNar => exact huntimed.elim
  | _ => exact h

theorem lasts_of_untimed {p : Handler α} (h : Performs Op.untimed p) (time : Duration) :
    reach.Lasts raceTimeout upstreams p time := by
  apply Takes.le _ (Nat.zero_le time)
  apply Takes.of_performs _ h
  intro op s reply s' huntimed _ hstep
  rw [eq_of_untimed huntimed hstep]
  exact ⟨le_rfl, trivial⟩

theorem lasts_ret (a : α) (time : Duration) : reach.Lasts raceTimeout upstreams (.ret a) time :=
  lasts_of_untimed (performs_ret a) time

theorem Reachability.Lasts.bind {p : Handler α} {f : α → Handler β} {time' : Duration}
    (hp : reach.Lasts raceTimeout upstreams p time)
    (hf : ∀ a, reach.Lasts raceTimeout upstreams (f a) time') :
    reach.Lasts raceTimeout upstreams (p >>= f) (time + time') :=
  Takes.bind hp hf

theorem Reachability.Lasts.le {p : Handler α} {time' : Duration}
    (hp : reach.Lasts raceTimeout upstreams p time) (hle : time ≤ time') :
    reach.Lasts raceTimeout upstreams p time' :=
  Takes.le hp hle

/-- The first part takes all the time. -/
theorem Reachability.Lasts.bind_zero {p : Handler α} {f : α → Handler β}
    (hp : reach.Lasts raceTimeout upstreams p time)
    (hf : ∀ a, reach.Lasts raceTimeout upstreams (f a) 0) :
    reach.Lasts raceTimeout upstreams (p >>= f) time :=
  hp.bind hf

/-- What comes after an operation that does not wait has all the time. -/
theorem lasts_ask_bind {op : Op} {f : op.Reply → Handler β} (huntimed : op.untimed)
    (hf : ∀ reply, reach.Lasts raceTimeout upstreams (f reply) time) :
    reach.Lasts raceTimeout upstreams (ask op >>= f) time := by
  have hop : reach.Lasts raceTimeout upstreams (ask op) 0 :=
    lasts_of_untimed (performs_call huntimed) 0
  exact (hop.bind hf).le (Nat.zero_add time).le

/-- A fetch takes what the backend of the upstream takes. -/
theorem lasts_getBytes {request : UpstreamRequest} {t : Duration}
    (htimeout : request.timeout = some t)
    (hle : (reach.backends.get request.upstream).answerTime reach.clientTime reach.credentialsTime t
      ≤ time) : reach.Lasts raceTimeout upstreams (ask (.getBytes request)) time := by
  apply takes_call
  rintro s reply s' - ⟨clock, hexec, helapsed⟩
  rw [htimeout] at hexec
  have htime := (takes_getBytes reach.signer _ request.path request.headers _ _ _ rfl hexec).1
  rw [helapsed]
  exact ⟨htime.trans (Nat.add_le_add_left hle _), trivial⟩

theorem lasts_proxy {request : UpstreamRequest} {t : Duration}
    (htimeout : request.timeout = some t)
    (hle : (reach.backends.get request.upstream).answerTime reach.clientTime reach.credentialsTime t
      ≤ time) : reach.Lasts raceTimeout upstreams (ask (.proxy request)) time := by
  apply takes_call
  rintro s reply s' - ⟨clock, response, hexec, -, helapsed⟩
  rw [htimeout] at hexec
  have htime := (takes_send reach.signer _ request.method request.path request.headers _ _ _
    trivial hexec).1
  have hclock : clock.elapsed ≤ clock.reserved := Nat.le_add_right _ _
  rw [helapsed]
  refine ⟨hclock.trans (htime.trans ?_), trivial⟩
  exact Nat.add_le_add_left hle _

end

/-! ## The cached part -/

section

variable {reach : Reachability} {upstreams : ℕ} {crypto : Crypto} {reg : Registry}
  {storeHash : Str} {hop : Hop} {time : Duration}

/-- A bound on the time to fetch a narinfo. -/
def Reachability.FetchesWithin (reach : Reachability) (reg : Registry) (time : Duration) : Prop :=
  ∀ upstream, (reach.backends.get upstream).answerTime reach.clientTime reach.credentialsTime
    (reg.narinfoTimeout upstream) ≤ time

theorem lasts_fetchNarinfo (h : reach.FetchesWithin reg time) (upstream : Str) :
    reach.Lasts reg.raceTimeout upstreams (fetchNarinfo crypto reg upstream storeHash hop) time := by
  have hreply : reach.Lasts reg.raceTimeout upstreams
      (ask (.getBytes (narinfoRequest reg upstream storeHash hop))) time :=
    lasts_getBytes rfl (h upstream)
  exact hreply.bind_zero fun reply => lasts_ret _ 0

theorem performs_untimed_setRoute (entry : RouteEntry) :
    Performs Op.untimed (setRoute entry) := by
  refine ⟨trivial, fun reply => ?_⟩
  cases reply with
  | error err => trivial
  | ok _ =>
      refine ⟨trivial, fun count => ?_⟩
      show Performs _ (ite _ _ _)
      split
      · exact performs_call trivial
      · trivial

theorem lasts_serveRoute (entry : RouteEntry) (time : Duration) :
    reach.Lasts reg.raceTimeout upstreams (serveRoute reg storeHash entry) time :=
  lasts_ask_bind trivial fun _ => lasts_ret _ time

theorem lasts_refreshRoute (entry : RouteEntry) (bytes : Octets) :
    reach.Lasts reg.raceTimeout upstreams (refreshRoute reg storeHash entry bytes) 0 := by
  have hset : reach.Lasts reg.raceTimeout upstreams
      (setRoute { entry with narinfoBytes := some bytes }) 0 :=
    lasts_of_untimed (performs_untimed_setRoute _) 0
  apply hset.bind_zero
  intro stored
  cases stored with
  | error err => exact lasts_ret _ 0
  | ok _ => exact lasts_serveRoute _ 0

theorem lasts_lruRoute (h : reach.FetchesWithin reg time) (cached : ResolveResult) :
    reach.Lasts reg.raceTimeout upstreams (lruRoute crypto reg storeHash hop cached) time := by
  have hcheck : reach.Lasts reg.raceTimeout upstreams
      (cachedRouteFilterCheck crypto reg cached.url storeHash cached.narinfoBytes hop) time := by
    unfold cachedRouteFilterCheck
    split
    · exact lasts_ret _ time
    · apply (lasts_fetchNarinfo h cached.url).bind_zero
      intro fetched
      split <;> exact lasts_ret _ 0
  apply hcheck.bind_zero
  intro checked
  cases checked with
  | cached => exact lasts_ret _ 0
  | fetched bytes => exact lasts_ask_bind trivial fun _ => lasts_ret _ 0
  | rejected => exact lasts_ask_bind trivial fun _ => lasts_ret _ 0

/-- A row is fetched again to pass the filters or for the bytes that it lacks, not both. -/
theorem lasts_storedRoute (h : reach.FetchesWithin reg time) (entry : RouteEntry) :
    reach.Lasts reg.raceTimeout upstreams (storedRoute crypto reg storeHash hop entry) time := by
  apply lasts_ask_bind (by trivial)
  intro now
  split
  · exact lasts_ret _ time
  apply lasts_ask_bind (by trivial)
  intro health
  split
  · exact lasts_ret _ time
  unfold cachedRouteFilterCheck
  split
  · rw [Process.pure_eq_ret, Process.ret_bind]
    simp only
    split
    · exact lasts_serveRoute _ time
    · apply (lasts_fetchNarinfo h entry.upstreamUrl).bind_zero
      intro fetched
      split
      · exact lasts_refreshRoute _ _
      · exact lasts_ret _ 0
  · rw [Process.bind_assoc]
    apply (lasts_fetchNarinfo h entry.upstreamUrl).bind_zero
    intro fetched
    split
    · rename_i body parsed
      cases hallows : reg.allows entry.upstreamUrl parsed with
      | true =>
          simp only [if_true, Process.pure_eq_ret, Process.ret_bind]
          exact lasts_refreshRoute _ _
      | false =>
          simp only [Bool.false_eq_true, if_false, Process.pure_eq_ret, Process.ret_bind]
          exact lasts_ret _ 0
    · exact lasts_ret _ 0

theorem lasts_resolveCached (h : reach.FetchesWithin reg time) :
    reach.Lasts reg.raceTimeout upstreams (resolveCached crypto reg storeHash hop) time := by
  apply lasts_ask_bind (by trivial)
  intro missed
  cases missed with
  | some _ => exact lasts_ret _ time
  | none =>
      apply lasts_ask_bind (by trivial)
      intro negative
      rcases negative with err | _ | _
      · exact lasts_ret _ time
      · apply lasts_ask_bind (by trivial)
        intro hit
        cases hit with
        | some cached => exact lasts_lruRoute h cached
        | none =>
            apply lasts_ask_bind (by trivial)
            intro row
            rcases row with err | _ | entry
            · exact lasts_ret _ time
            · exact lasts_ret _ time
            · exact lasts_storedRoute h entry
      · exact lasts_ret _ time

/-! ## The race -/

/-- The time waited, with what is left of a race. -/
def Stopwatch.reserved (s : Stopwatch) : Duration :=
  s.elapsed + s.left

theorem takes_joinHeads {raceTimeout : Duration} {group : List Str}
    {pending : List UpstreamRequest} (hpending : ∀ request ∈ pending, request.upstream ∈ group)
    (netErrs notFounds : ℕ) :
    Takes (reach.stopwatch raceTimeout upstreams) Stopwatch.reserved (fun _ => True)
      (joinHeads group pending hpending netErrs notFounds) 0 fun _ _ => True := by
  induction hlen : pending.length generalizing pending netErrs notFounds with
  | zero =>
      rw [joinHeads, if_pos (List.length_eq_zero_iff.1 hlen)]
      exact takes_ret fun _ _ => trivial
  | succ n ih =>
      have hne : pending ≠ [] := by
        intro hnil
        rw [hnil] at hlen
        cases hlen
      rw [joinHeads, if_neg hne, ← Nat.add_zero 0]
      apply takes_call_bind (M := fun _ _ => True)
      · rintro s reply s' - ⟨d, hle, rfl⟩
        refine ⟨?_, trivial⟩
        simp only [Stopwatch.reserved]
        lia
      intro reply
      rcases reply with _ | ⟨i, answer⟩
      · exact takes_ret fun _ _ => trivial
      · have hlen' : (pending.eraseIdx i).length = n := by
          rw [List.length_eraseIdx_of_lt i.isLt]
          omega
        cases answer with
        | found latencyMs => exact takes_ret fun _ _ => trivial
        | miss => exact ih _ _ _ hlen'
        | networkError =>
            rw [← Nat.add_zero 0]
            apply takes_call_bind (M := fun _ _ => True)
            · rintro s _ s' - rfl
              exact ⟨le_rfl, trivial⟩
            · exact fun _ => ih _ _ _ hlen'
        | joinError => exact ih _ _ _ hlen'

/-- A group is raced until the deadline at most. -/
theorem lasts_raceGroup (group : List Str) :
    reach.Lasts reg.raceTimeout upstreams (raceGroup reg storeHash group hop) reg.raceTimeout := by
  have hspawned : Takes (reach.stopwatch reg.raceTimeout upstreams) Stopwatch.elapsed
      (fun _ => True) (raceGroup reg storeHash group hop) (0 + (reg.raceTimeout + 0))
      fun _ _ => True := by
    apply takes_call_bind (M := fun _ s => s.left = reg.raceTimeout)
    · rintro s _ s' - rfl
      exact ⟨le_rfl, rfl⟩
    intro _
    apply Takes.of_potential Stopwatch.reserved
    · exact (takes_joinHeads _ 0 0).mono (fun _ _ => trivial) le_rfl fun _ _ => id
    · intro s hleft
      rw [Stopwatch.reserved, hleft]
    · exact fun s => Nat.le_add_right _ _
  exact hspawned.le (Nat.zero_add _).le

theorem performs_untimed_recordWinner (winner : RaceResult) (body : Option Octets)
    (parsed : NarInfo) : Performs Op.untimed (recordWinner reg winner storeHash body parsed) := by
  refine ⟨trivial, fun _ => ⟨trivial, fun _ => ⟨trivial, fun _ => ⟨trivial, fun _ => ?_⟩⟩⟩⟩
  apply (performs_untimed_setRoute _).bind
  intro stored
  cases stored with
  | error err => trivial
  | ok _ => exact ⟨trivial, fun _ => trivial⟩

theorem lasts_commitWinner (h : reach.FetchesWithin reg time) (winner : RaceResult) :
    reach.Lasts reg.raceTimeout upstreams (commitWinner crypto reg winner storeHash hop) time := by
  apply (lasts_fetchNarinfo h winner.url).bind_zero
  intro fetched
  rcases fetched with err | ⟨body, parsed⟩
  · exact lasts_ret _ 0
  · simp only
    split
    · exact lasts_ret _ 0
    · exact lasts_of_untimed (performs_untimed_recordWinner winner body parsed) 0

/-- Each round of a group leaves a candidate out. -/
theorem lasts_raceWithinGroup (h : reach.FetchesWithin reg time) (group : List Str)
    (anyNotFound : Bool) :
    reach.Lasts reg.raceTimeout upstreams
      (raceWithinGroup crypto reg storeHash hop group anyNotFound)
      (group.length * (reg.raceTimeout + time)) := by
  induction hlen : group.length using Nat.strongRecOn generalizing group anyNotFound with
  | ind n ih =>
  subst hlen
  rw [raceWithinGroup]
  split
  · exact lasts_ret _ _
  · next hne =>
    have hround : reg.raceTimeout + time + (group.length - 1) * (reg.raceTimeout + time) =
        group.length * (reg.raceTimeout + time) := by
      have hpos : group.length - 1 + 1 = group.length :=
        Nat.sub_add_cancel (List.length_pos_iff.2 hne)
      conv_rhs => rw [← hpos, Nat.succ_mul]
      exact Nat.add_comm _ _
    rw [← hround, Nat.add_assoc]
    apply (lasts_raceGroup group).bind
    intro raced
    rcases raced with err | winner
    · cases err <;> exact lasts_ret _ _
    · have hlt := length_retainOthers_lt winner.2
      have hrest : ∀ flag, reach.Lasts reg.raceTimeout upstreams (raceWithinGroup crypto reg
          storeHash hop (retainOthers winner.val.url group) flag)
          ((group.length - 1) * (reg.raceTimeout + time)) := fun flag =>
        (ih _ hlt _ flag rfl).le (Nat.mul_le_mul_right _ (Nat.le_sub_one_of_lt hlt))
      apply (lasts_commitWinner h winner.val).bind
      intro committed
      rcases committed with err | result | _
      · simp only
        split
        · split
          · exact lasts_ask_bind trivial fun _ => hrest anyNotFound
          · exact hrest true
        · exact lasts_ret _ _
      · exact lasts_ret _ _
      · exact hrest true

theorem lasts_raceGroups (h : reach.FetchesWithin reg time) (groups : List (ℤ × List Str))
    (anyNotFound : Bool) :
    reach.Lasts reg.raceTimeout upstreams (raceGroups crypto reg storeHash hop groups anyNotFound)
      ((groups.flatMap Prod.snd).length * (reg.raceTimeout + time)) := by
  induction groups generalizing anyNotFound with
  | nil => exact lasts_ret _ _
  | cons head groups ih =>
      rcases head with ⟨priority, group⟩
      rw [List.flatMap_cons, List.length_append, Nat.add_mul]
      apply (lasts_raceWithinGroup h group anyNotFound).bind
      intro outcome
      cases outcome with
      | done result => exact lasts_ret _ _
      | next anyNotFound' => exact ih anyNotFound'

theorem returns_cooldownFilteredCandidates (candidates : List Str) :
    Returns (fun filtered => filtered.length ≤ candidates.length)
      (cooldownFilteredCandidates candidates) := by
  induction candidates with
  | nil => exact le_rfl
  | cons url urls ih =>
      intro cooling
      apply ih.bind
      intro rest hrest
      cases cooling with
      | true => exact hrest.trans (Nat.le_succ _)
      | false => exact Nat.succ_le_succ hrest

theorem returns_priorityGroups (urls : List Str) (groups : List (ℤ × List Str)) :
    Returns (fun groups' => (groups'.flatMap Prod.snd).length =
      urls.length + (groups.flatMap Prod.snd).length) (priorityGroups urls groups) := by
  induction urls generalizing groups with
  | nil => exact (Nat.zero_add _).symm
  | cons url urls ih =>
      intro health
      apply (ih (pushGroup (racePriority health) url groups)).mono
      intro groups' hlen
      rw [hlen, (pushGroup_perm (racePriority health) url groups).length_eq, List.length_append,
        List.length_singleton, List.length_cons]
      omega

/-- A race has no more rounds than candidates. -/
theorem lasts_raceCandidates (h : reach.FetchesWithin reg time) (candidates : List Str) :
    reach.Lasts reg.raceTimeout upstreams (raceCandidates crypto reg storeHash candidates hop)
      (candidates.length * (reg.raceTimeout + time)) := by
  have hfiltered : reach.Lasts reg.raceTimeout upstreams (cooldownFilteredCandidates candidates) 0 :=
    lasts_of_untimed (performs_cooldownFilteredCandidates (fun _ => trivial) candidates) 0
  refine Takes.le (Takes.bind_returns hfiltered (returns_cooldownFilteredCandidates candidates)
    fun filtered hlen => ?_) (Nat.zero_add _).le
  let effective := if filtered = [] then candidates else filtered
  have heffective : effective.length ≤ candidates.length := by
    show (if filtered = [] then candidates else filtered).length ≤ _
    split
    · exact le_rfl
    · exact hlen
  have hgroups : reach.Lasts reg.raceTimeout upstreams (priorityGroups effective []) 0 :=
    lasts_of_untimed (performs_priorityGroups (fun _ => trivial) effective []) 0
  refine Takes.le (Takes.bind_returns hgroups (returns_priorityGroups effective [])
    fun groups hgroups => ?_) (Nat.zero_add _).le
  apply (lasts_raceGroups h groups false).le
  rw [hgroups]
  exact Nat.mul_le_mul_right _ heffective

theorem lasts_race (h : reach.FetchesWithin reg time) (candidates : List Str) :
    reach.Lasts reg.raceTimeout upstreams (race crypto reg storeHash candidates hop)
      (candidates.length * (reg.raceTimeout + time)) := by
  unfold race
  split
  · exact lasts_ret _ _
  split
  · apply lasts_ask_bind (by trivial)
    intro granted
    cases granted with
    | false => exact lasts_ret _ _
    | true =>
        apply (lasts_raceCandidates h candidates).bind_zero
        intro result
        exact lasts_ask_bind trivial fun _ => lasts_ret _ 0
  · exact lasts_raceCandidates h candidates

/-! ## The whole lookup -/

/-- How often a lookup looks into the caches: a client's looks again under the lock of its
hash. -/
def Hop.checks : Hop → ℕ
  | .client => 2
  | .peer | .peerOfPeer => 1

/-- A peer's peer does not race. -/
def Hop.rounds (candidates : ℕ) : Hop → ℕ
  | .client | .peer => candidates
  | .peerOfPeer => 0

theorem Hop.rounds_mono (hop : Hop) {n m : ℕ} (h : n ≤ m) : hop.rounds n ≤ hop.rounds m := by
  cases hop with
  | client => exact h
  | peer => exact h
  | peerOfPeer => exact le_rfl

theorem lasts_resolveLocked (h : reach.FetchesWithin reg time) (candidates : List Str) :
    reach.Lasts reg.raceTimeout upstreams (resolveLocked crypto reg storeHash candidates)
      (time + candidates.length * (reg.raceTimeout + time)) := by
  apply (lasts_resolveCached h).bind
  intro checked
  rcases checked with err | _ | result
  · exact lasts_ret _ _
  · apply (lasts_race h candidates).bind_zero
    intro result
    split
    · apply lasts_ask_bind (by trivial)
      intro _
      exact lasts_ask_bind trivial fun _ => lasts_ret _ 0
    · exact lasts_ret _ 0
  · exact lasts_ret _ _

theorem lasts_resolve (h : reach.FetchesWithin reg time) (candidates : List Str) :
    reach.Lasts reg.raceTimeout upstreams (resolve crypto reg storeHash candidates hop)
      (hop.checks * time + hop.rounds candidates.length * (reg.raceTimeout + time)) := by
  have hcached : ∀ rest, hop.checks * time + rest = time + ((hop.checks - 1) * time + rest) := by
    intro rest
    cases hop <;> simp [Hop.checks, Nat.two_mul, Nat.add_assoc]
  rw [hcached]
  apply (lasts_resolveCached h).bind
  intro checked
  rcases checked with err | _ | result
  · exact lasts_ret _ _
  · cases hop with
    | peerOfPeer => exact lasts_ret _ _
    | peer => exact (lasts_race h candidates).le (Nat.le_add_left _ _)
    | client =>
        apply lasts_ask_bind (by trivial)
        intro lock
        apply lasts_ask_bind (by trivial)
        intro _
        apply Reachability.Lasts.bind_zero
        · exact (lasts_resolveLocked h candidates).le (by simp [Hop.checks, Hop.rounds])
        · intro result
          apply lasts_ask_bind (by trivial)
          intro _
          exact lasts_ask_bind trivial fun _ => lasts_ret _ 0
  · exact lasts_ret _ _

end

section

variable {reach : Reachability} {upstreams : ℕ} {crypto : Crypto} {app : AppState}
  {storeHash : Str} {hop : Hop} {request : ClientRequest} {time proxyTime : Duration}

theorem takes_upstreamUrls {raceTimeout : Duration} (h : app.upstreams.length ≤ upstreams) :
    Takes (reach.stopwatch raceTimeout upstreams) Stopwatch.elapsed (fun _ => True)
      (upstreamUrls app) 0 fun urls _ => urls.length ≤ upstreams := by
  rw [← Nat.add_zero 0]
  apply takes_call_bind (M := fun sorted _ => sorted.length ≤ upstreams)
  · rintro s sorted s' - ⟨hlen, rfl⟩
    exact ⟨le_rfl, hlen⟩
  intro sorted
  apply takes_ret
  intro s hlen
  split
  · rwa [List.length_map]
  · rw [List.length_map]
    exact (List.length_filter_le _ _).trans hlen

/-- A bound on the time until the status of a proxied response. -/
def Reachability.ProxiesWithin (reach : Reachability) (app : AppState) (time : Duration) : Prop :=
  ∀ upstream, (reach.backends.get upstream).answerTime reach.clientTime reach.credentialsTime
    app.defaultNarTimeout ≤ time

theorem lasts_resolvedResponse {raceTimeout : Duration} (h : reach.ProxiesWithin app proxyTime)
    (result : ResolveResult) (route : RouteKind) :
    reach.Lasts raceTimeout upstreams (resolvedResponse app request hop result route)
      proxyTime := by
  unfold resolvedResponse
  split
  · exact lasts_ret _ _
  · have hproxy : reach.Lasts raceTimeout upstreams
        (proxyTo app result.url request (forwardedHeaders request.headers (some hop)))
        proxyTime := by
      apply (lasts_proxy rfl (h result.url)).bind_zero
      intro reply
      rcases reply with err | _ | status <;> exact lasts_ret _ 0
    exact hproxy.bind_zero fun response => lasts_ret _ 0

theorem lasts_narinfoResponse (hfetch : reach.FetchesWithin app.registry time)
    (hproxy : reach.ProxiesWithin app proxyTime) (result : Except RouterError ResolveResult) :
    reach.Lasts app.registry.raceTimeout upstreams
      (narinfoResponse crypto app storeHash request result) (time + proxyTime) := by
  have hfallback : reach.Lasts app.registry.raceTimeout upstreams
      (tryFallbackNarinfo crypto app storeHash request) (time + proxyTime) := by
    unfold tryFallbackNarinfo
    split
    · exact lasts_ret _ _
    · rename_i fallback hfallback
      have hresolve : reach.Lasts app.registry.raceTimeout upstreams
          (resolveFallback crypto app.registry storeHash fallback.url
            (Hop.fromHeaders request.headers)) time := by
        apply (lasts_fetchNarinfo hfetch fallback.url).bind_zero
        intro fetched
        rcases fetched with err | ⟨body, parsed⟩
        · exact lasts_ret _ 0
        · exact lasts_ask_bind trivial fun _ => lasts_ret _ 0
      apply hresolve.bind
      intro resolved
      split
      · exact (lasts_resolvedResponse hproxy _ _).bind_zero fun _ => lasts_ret _ 0
      · exact lasts_ret _ _
      · exact lasts_ret _ _
  have hunavailable : reach.Lasts app.registry.raceTimeout upstreams
      (narinfoResponse crypto app storeHash request (.error .upstreamUnavailable))
      (time + proxyTime) := by
    unfold narinfoResponse
    apply hfallback.bind_zero
    intro response
    cases response <;> exact lasts_ret _ 0
  unfold narinfoResponse
  split
  · exact (lasts_resolvedResponse hproxy _ _).le (Nat.le_add_left _ _)
  · exact lasts_ret _ _
  · exact hunavailable
  · exact hunavailable
  · exact lasts_ret _ _

/-- How long the handler waits for upstreams at most: for the fetches of its looks into the
caches, for a round of `HEAD` requests and a fetch for each upstream, and for the fallback. -/
def narinfoTime (hop : Hop) (upstreams : ℕ) (raceTimeout fetchTime proxyTime : Duration) :
    Duration :=
  hop.checks * fetchTime + hop.rounds upstreams * (raceTimeout + fetchTime) +
    (fetchTime + proxyTime)

/-- Every narinfo request is answered in time, whatever the upstreams do: however they
answer, or if they never do. -/
theorem takes_narinfo (hfetch : reach.FetchesWithin app.registry time)
    (hproxy : reach.ProxiesWithin app proxyTime) (hupstreams : app.upstreams.length ≤ upstreams)
    {hashNarinfo : Str} {response : Response} {s s' : Stopwatch}
    (h : Execution (reach.stopwatch app.registry.raceTimeout upstreams)
      (narinfo crypto app hashNarinfo request) s response s') :
    s'.elapsed ≤ s.elapsed + narinfoTime (Hop.fromHeaders request.headers) upstreams
      app.registry.raceTimeout time proxyTime := by
  have hlasts : reach.Lasts app.registry.raceTimeout upstreams
      (narinfo crypto app hashNarinfo request)
      (narinfoTime (Hop.fromHeaders request.headers) upstreams app.registry.raceTimeout time
        proxyTime) := by
    unfold narinfo
    split
    · exact lasts_ret _ _
    split
    · refine Takes.le (Takes.bind (takes_upstreamUrls hupstreams) fun candidates => ?_)
        (Nat.zero_add _).le
      refine Takes.bind (M := fun _ _ => True) ?_ fun result =>
        lasts_narinfoResponse hfetch hproxy result
      intro s result s' hlen hexec
      have hrounds := (Hop.fromHeaders request.headers).rounds_mono hlen
      exact (lasts_resolve hfetch candidates).le
        (Nat.add_le_add_left (Nat.mul_le_mul_right _ hrounds) _) s result s' trivial hexec
    · exact lasts_ret _ _
  exact (hlasts s response s' trivial h).1

end

/-! ## An upstream that does not answer -/

section

/-- Every upstream is plain HTTP. -/
def plainReach : Reachability where
  signer := plainSigner
  backends := fun _ => none
  clientTime := 0
  credentialsTime := 0

/-- An instance that waits for little. -/
def hurriedApp : AppState :=
  { (default : AppState) with
    registry := { (default : Registry) with raceTimeout := 5 }
    defaultNarTimeout := 60 }

/-- The lookup of a peer. -/
def peerRequest : ClientRequest := ⟨.get, narinfoPath (List.replicate 32 '0'), [], hopHeaders .client⟩

/-- A lookup of a peer whose only upstream does not answer. -/
theorem execution_narinfo_silent :
    ∃ response, Execution (plainReach.stopwatch 5 1)
      (narinfo default hurriedApp (List.replicate 32 '0' ++ ".narinfo".toList) peerRequest) ⟨0, 0⟩
      response ⟨5, 0⟩ := by
  let hash := List.replicate 32 '0'
  let sem := plainReach.stopwatch 5 1
  let reg := hurriedApp.registry
  have hjoin : ∀ hpending, Execution sem (joinHeads [['u']] [headRequest reg hash .peer ['u']]
      hpending 0 0) ⟨0, 5⟩ (.error .timeout) ⟨5, 0⟩ := by
    intro hpending
    unfold joinHeads
    rw [if_neg (List.cons_ne_nil _ _)]
    exact .perform (r := none) ⟨5, le_rfl, rfl⟩ (.ret _ _)
  have hgroup : Execution sem (raceGroup reg hash [['u']] .peer) ⟨0, 0⟩ (.error .timeout) ⟨5, 0⟩ :=
    .perform (r := ()) rfl (hjoin _)
  have hwithin : Execution sem (raceWithinGroup default reg hash .peer [['u']] false) ⟨0, 0⟩
      (.next false) ⟨5, 0⟩ := by
    rw [raceWithinGroup, if_neg (by simp)]
    exact hgroup.bind (.ret _ _)
  have hgroups : Execution sem (raceGroups default reg hash .peer [(30, [['u']])] false) ⟨0, 0⟩
      (.error .upstreamUnavailable) ⟨5, 0⟩ := hwithin.bind (.ret _ _)
  have hrace : Execution sem (race default reg hash [['u']] .peer) ⟨0, 0⟩
      (.error .upstreamUnavailable) ⟨5, 0⟩ :=
    .perform (r := false) rfl (.perform (r := some (.new ['u'] 30)) rfl hgroups)
  have hresolve : Execution sem (resolve default reg hash [['u']] .peer) ⟨0, 0⟩
      (.error .upstreamUnavailable) ⟨5, 0⟩ :=
    .perform (r := none) rfl (.perform (r := .ok false) rfl (.perform (r := none) rfl
      (.perform (r := .ok none) rfl hrace)))
  refine ⟨upstreamUnavailable, ?_⟩
  have hsorted : sem .sortedByLatency ⟨0, 0⟩ [.new ['u'] 30] ⟨0, 0⟩ := ⟨le_rfl, rfl⟩
  have hname : (hash ++ ".narinfo".toList).dropSuffix? ".narinfo".toList = some hash := by decide
  unfold narinfo
  simp only [hash, hname]
  rw [if_pos (by decide)]
  exact .perform hsorted (hresolve.bind (.ret _ _))

/-- It is held up until the deadline of the race, within the bound. -/
theorem takes_narinfo_silent :
    ∃ response, Execution (plainReach.stopwatch 5 1)
        (narinfo default hurriedApp (List.replicate 32 '0' ++ ".narinfo".toList) peerRequest)
        ⟨0, 0⟩ response ⟨5, 0⟩ ∧
      5 ≤ 0 + narinfoTime .peer 1 5 5 60 := by
  obtain ⟨response, hexec⟩ := execution_narinfo_silent
  have hfetch : plainReach.FetchesWithin hurriedApp.registry 5 := fun _ => le_rfl
  have hproxy : plainReach.ProxiesWithin hurriedApp 60 := fun _ => le_rfl
  have hhop : Hop.fromHeaders peerRequest.headers = .peer := by decide
  have htime := takes_narinfo hfetch hproxy (Nat.zero_le 1) hexec
  rw [hhop] at htime
  exact ⟨response, hexec, htime⟩

end

end Ncro
