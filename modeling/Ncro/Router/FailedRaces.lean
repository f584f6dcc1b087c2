import Ncro.Router.Commits

/-!
# What a failed race leaves behind

A race that ends with an error has found no upstream whose narinfo it could accept, or
it could not write the route of the one that it accepted. In the first case it has marked
cooldowns at most. In the second case the win and the latency have been counted already:
`race_failed_unchanged_iff`.
-/

namespace Ncro

open Foundation Foundation.Process Flights

/-! ## Counters -/

/-- `upstream_race_wins`, and what `upstream_latency` has observed, for each upstream. -/
structure WinMetrics where
  raceWins : Str → ℕ
  latency : Str → List Double

/-- The metrics of a race win. -/
def WinMetrics.countWin (metrics : WinMetrics) (url : Str) (latencyMs : Double) : WinMetrics where
  raceWins := Function.update metrics.raceWins url ((metrics.raceWins url + 1) % 2 ^ 64)
  latency := Function.update metrics.latency url
    (latencyMs.div (.fin 1000) :: metrics.latency url)

theorem WinMetrics.countWin_ne (metrics : WinMetrics) (url : Str) (latencyMs : Double) :
    metrics.countWin url latencyMs ≠ metrics := by
  intro h
  have hobserved : (metrics.countWin url latencyMs).latency url = metrics.latency url := by rw [h]
  have hlonger : (metrics.countWin url latencyMs).latency url =
      latencyMs.div (.fin 1000) :: metrics.latency url := Function.update_self _ _ _
  exact List.cons_ne_self _ _ (hlonger.symm.trans hobserved)

/-- An instance with its counters. -/
structure CountedInstance where
  inst : Instance
  metrics : WinMetrics

/-- What an operation counts. -/
def Op.count : Op → WinMetrics → WinMetrics
  | .countWin url latencyMs, metrics => metrics.countWin url latencyMs
  | _, metrics => metrics

/-- The effect of the operations on an instance and its counters. -/
def CountedInstance.exec (reg : Registry) : Semantics Op Op.Reply CountedInstance :=
  fun op s reply s' => Instance.exec reg op s.inst reply s'.inst ∧ s'.metrics = op.count s.metrics

namespace CountedInstance

/-- The route table, the LRU, the health table and the counters are the same. -/
structure Unchanged (s s' : CountedInstance) : Prop where
  routes : s'.inst.routes = s.inst.routes
  lru : s'.inst.lru = s.inst.lru
  health : s'.inst.health = s.inst.health
  metrics : s'.metrics = s.metrics

/-- Everything is the same but the cooldowns. -/
structure OnlyCooldown (s s' : CountedInstance) : Prop where
  inst : s'.inst = { s.inst with cooldown := s'.inst.cooldown }
  metrics : s'.metrics = s.metrics

theorem OnlyCooldown.refl (s : CountedInstance) : s.OnlyCooldown s := ⟨rfl, rfl⟩

theorem OnlyCooldown.trans {s s' s'' : CountedInstance} (h : s.OnlyCooldown s')
    (h' : s'.OnlyCooldown s'') : s.OnlyCooldown s'' where
  inst := by
    rw [h'.inst, h.inst]
  metrics := h'.metrics.trans h.metrics

theorem OnlyCooldown.unchanged {s s' : CountedInstance} (h : s.OnlyCooldown s') :
    s.Unchanged s' where
  routes := by rw [h.inst]
  lru := by rw [h.inst]
  health := by rw [h.inst]
  metrics := h.metrics

/-! ## The operations of a race that commits no winner -/

/-- The operations that a race performs apart from its permit and from recording a winner. -/
def Quiet : Op → Prop
  | .inCooldown _ | .markCooldown _ | .getHealth _ | .spawnHeads _ | .joinHead _ | .getBytes _ =>
      True
  | _ => False

theorem onlyCooldown_of_exec {reg : Registry} {op : Op} {s s' : CountedInstance} {reply : op.Reply}
    (hquiet : Quiet op) (h : exec reg op s reply s') : s.OnlyCooldown s' := by
  rcases h with ⟨hexec, hmetrics⟩
  cases op with
  | inCooldown url =>
      refine ⟨?_, hmetrics⟩
      rw [hexec.2, Instance.dropExpiredCooldown]
      split <;> rfl
  | markCooldown url =>
      refine ⟨?_, hmetrics⟩
      rw [hexec]
      rfl
  | getHealth url => exact ⟨by rw [hexec.2], hmetrics⟩
  | spawnHeads _ | joinHead _ | getBytes _ =>
      refine ⟨?_, hmetrics⟩
      rw [hexec]
  | _ => exact hquiet.elim

/-- No write has failed, and nothing is changed but cooldowns. -/
structure Quietly (s : CountedInstance) (events : List HandlerEvent) (s' : CountedInstance) :
    Prop where
  onlyCooldown : s.OnlyCooldown s'
  noFailure : ∀ e ∈ events, ¬SetRouteFailed e

/-- A write has failed, and a win has been counted. -/
structure Failing (s : CountedInstance) (events : List HandlerEvent) (s' : CountedInstance) :
    Prop where
  failure : ∃ e ∈ events, SetRouteFailed e
  counted : ∃ url latencyMs, s'.metrics = s.metrics.countWin url latencyMs

section

variable {crypto : Crypto} {reg : Registry} {storeHash : Str} {hop : Hop}
  {s s' s'' : CountedInstance} {events events' : List HandlerEvent}

theorem Quietly.nil (s : CountedInstance) : s.Quietly [] s where
  onlyCooldown := .refl s
  noFailure _ he := absurd he List.not_mem_nil

theorem Quietly.append (h : s.Quietly events s') (h' : s'.Quietly events' s'') :
    s.Quietly (events ++ events') s'' where
  onlyCooldown := h.onlyCooldown.trans h'.onlyCooldown
  noFailure e he := by
    rcases List.mem_append.1 he with he | he
    · exact h.noFailure e he
    · exact h'.noFailure e he

/-- What happens quietly before a failure does not matter. -/
theorem Quietly.failing (h : s.Quietly events s') (h' : s'.Failing events' s'') :
    s.Failing (events ++ events') s'' where
  failure := by
    rcases h'.failure with ⟨e, he, hfailed⟩
    exact ⟨e, List.mem_append_right _ he, hfailed⟩
  counted := by
    rw [← h.onlyCooldown.metrics]
    exact h'.counted

theorem quietly_of_exec {op : Op} {reply : op.Reply} (hquiet : Quiet op)
    (h : exec reg op s reply s') : s.Quietly [⟨op, reply⟩] s' where
  onlyCooldown := onlyCooldown_of_exec hquiet h
  noFailure e he := by
    rw [List.mem_singleton.1 he]
    intro hfailed
    cases hfailed <;> exact hquiet

/-- A part of a race that performs quiet operations only. -/
theorem quietly_of_performs {α : Type} {p : Handler α} {a : α} (hp : Performs Quiet p)
    (h : Replay (exec reg) p s events a s') : s.Quietly events s' := by
  have hrel := Replay.rel_of_performs OnlyCooldown.refl OnlyCooldown.trans
    (fun _ _ _ _ hquiet h => onlyCooldown_of_exec hquiet h) hp h
  refine ⟨hrel.1, ?_⟩
  rintro _ he (⟨entry, err⟩ | ⟨err⟩) <;> exact hrel.2 _ he

theorem quietly_raceGroup {group : List Str} {verdict : Except RaceGroupError (Winner group)}
    (h : Replay (exec reg) (raceGroup reg storeHash group hop) s events verdict s') :
    s.Quietly events s' := by
  have hperforms : Performs Quiet (raceGroup reg storeHash group hop) := by
    refine ⟨trivial, fun _ => ?_⟩
    exact performs_joinHeads (fun _ => trivial) (fun _ => trivial) _ _ _ _ _
  exact quietly_of_performs hperforms h

/-- A write of a route does not count anything. -/
theorem metrics_of_replay_setRoute {entry : RouteEntry} {reply : Except DbError Unit}
    (h : Replay (exec reg) (setRoute entry) s events reply s') : s'.metrics = s.metrics := by
  have hstep : ∀ (op : Op) (s : CountedInstance) (reply : op.Reply) (s' : CountedInstance),
      CachedOp .client op → exec reg op s reply s' → s'.metrics = s.metrics := by
    rintro op s reply s' hop ⟨-, hmetrics⟩
    cases op with
    | countWin url latencyMs => exact hop.elim
    | _ => exact hmetrics
  exact (Replay.rel_of_performs (R := fun s s' : CountedInstance => s'.metrics = s.metrics)
    (fun _ => rfl) (fun h h' => h'.trans h) hstep (performs_setRoute entry) h).1

/-- A commit that does not accept its winner has not touched anything, or could not write
the route. -/
theorem commitWinner_ends {winner : RaceResult} {result : Except RouterError CommitOutcome}
    (h : Replay (exec reg) (commitWinner crypto reg winner storeHash hop) s events result s') :
    (s.Quietly events s' ∧
        (result = .ok .rejected ∨ ∃ err, result = .error err ∧ commitErrorIsRetryable err = true)) ∨
      (s.Failing events s' ∧ ∃ err, result = .error (.db err)) ∨
      ∃ answer, result = .ok (.accepted answer) := by
  rcases replay_commitWinner_cases h with ⟨reply, s₁, tail, rfl, hfetch, hcases⟩
  have hquiet : Quiet (.getBytes (narinfoRequest reg winner.url storeHash hop)) := trivial
  have hfetched := quietly_of_exec hquiet hfetch
  rcases hcases with ⟨rfl, rfl, hresult⟩ | ⟨body, parsed, hrecorded⟩
  · exact .inl ⟨hfetched, hresult⟩
  cases hrecorded with
  | @mk s₂ s₃ s₄ s₅ s₆ _ health now written tail stored _ hcount hhealth hlatency hnow hwrite hend =>
  rcases hend with ⟨err, rfl, rfl, rfl, rfl⟩ | ⟨answer, -, rfl, -, -⟩
  · right
    left
    refine ⟨hfetched.failing ⟨?_, winner.url, winner.latencyMs, ?_⟩, err, rfl⟩
    · rcases setRouteFailed_of_replay hwrite with ⟨e, he, hfailed⟩
      exact ⟨e, by simp [he], hfailed⟩
    · rw [metrics_of_replay_setRoute hwrite, hnow.2, hlatency.2, hhealth.2, hcount.2]
      rfl
  · exact .inr (.inr ⟨answer, rfl⟩)

/-! ## The loops of a race -/

/-- By induction on the length of the group: the commits before the last one have not touched
anything. -/
theorem raceWithinGroup_ends {group : List Str} {anyNotFound : Bool} {outcome : GroupOutcome}
    (h : Replay (exec reg) (raceWithinGroup crypto reg storeHash hop group anyNotFound) s events
      outcome s') :
    (s.Quietly events s' ∧ ∃ flag, outcome = .next flag) ∨
      (s.Failing events s' ∧ ∃ err, outcome = .done (.error err)) ∨
      ∃ answer, outcome = .done (.ok answer) := by
  induction hlen : group.length using Nat.strongRecOn
    generalizing group anyNotFound s events with
  | ind n ih =>
  subst hlen
  rw [raceWithinGroup] at h
  split at h
  · rcases replay_ret_iff.1 h with ⟨rfl, rfl, rfl⟩
    exact .inl ⟨.nil s, _, rfl⟩
  rcases replay_bind_iff.1 h with ⟨raced, verdict, s₁, tail, rfl, hrace, h⟩
  have hraced := quietly_raceGroup hrace
  cases verdict with
  | error err =>
      have hnext : ∃ flag, Replay (exec reg) (.ret (.next flag)) s₁ tail outcome s' := by
        cases err with
        | notFound => exact ⟨_, h⟩
        | networkError => exact ⟨_, h⟩
        | timeout => exact ⟨_, h⟩
      rcases hnext with ⟨flag, hnext⟩
      rcases replay_ret_iff.1 hnext with ⟨rfl, rfl, rfl⟩
      exact .inl ⟨hraced.append (.nil s₁), flag, rfl⟩
  | ok winner =>
      have hlt := length_retainOthers_lt winner.2
      rcases replay_bind_iff.1 h with ⟨committed, commit, s₂, rest, rfl, hcommit, h⟩
      -- the others are raced after a commit that has not touched anything
      have hretry : ∀ {flag : Bool} {s₃ : CountedInstance} {quiet es : List HandlerEvent},
          s₂.Quietly quiet s₃ → s₁.Quietly committed s₂ →
          Replay (exec reg) (raceWithinGroup crypto reg storeHash hop
            (retainOthers winner.val.url group) flag) s₃ es outcome s' →
          (s.Quietly (raced ++ (committed ++ (quiet ++ es))) s' ∧ ∃ flag, outcome = .next flag) ∨
            (s.Failing (raced ++ (committed ++ (quiet ++ es))) s' ∧
              ∃ err, outcome = .done (.error err)) ∨
            ∃ answer, outcome = .done (.ok answer) := by
        intro flag s₃ quiet es hquiet hcommitted hrest
        rcases ih _ hlt hrest rfl with ⟨hquietly, hnext⟩ | ⟨hfailing, hdone⟩ | hdone
        · exact .inl ⟨hraced.append (hcommitted.append (hquiet.append hquietly)), hnext⟩
        · exact .inr (.inl ⟨hraced.failing (hcommitted.failing (hquiet.failing hfailing)), hdone⟩)
        · exact .inr (.inr hdone)
      rcases commitWinner_ends hcommit with
        ⟨hcommitted, rfl | ⟨err, rfl, hretryable⟩⟩ | ⟨hfailing, err, rfl⟩ | ⟨answer, rfl⟩
      · exact hretry (.nil s₂) hcommitted h
      · simp only [hretryable, if_true] at h
        split at h
        · rcases replay_call_bind_iff.1 h with ⟨_, s₃, es, rfl, hmark, h⟩
          have hquiet : Quiet (.markCooldown winner.val.url) := trivial
          exact hretry (quietly_of_exec hquiet hmark) hcommitted h
        · exact hretry (.nil s₂) hcommitted h
      · rcases replay_ret_iff.1 h with ⟨rfl, rfl, rfl⟩
        rw [List.append_nil]
        exact .inr (.inl ⟨hraced.failing hfailing, _, rfl⟩)
      · rcases replay_ret_iff.1 h with ⟨rfl, rfl, rfl⟩
        exact .inr (.inr ⟨answer, rfl⟩)

/-- How a part of a race ends that returns an error. -/
def Ends (s : CountedInstance) (events : List HandlerEvent) (s' : CountedInstance) : Prop :=
  s.Quietly events s' ∨ s.Failing events s'

theorem Quietly.ends (h : s.Quietly events s') (h' : s'.Ends events' s'') :
    s.Ends (events ++ events') s'' := by
  rcases h' with h' | h'
  · exact .inl (h.append h')
  · exact .inr (h.failing h')

theorem raceGroups_ends {groups : List (ℤ × List Str)} {anyNotFound : Bool} {err : RouterError}
    (h : Replay (exec reg) (raceGroups crypto reg storeHash hop groups anyNotFound) s events
      (.error err) s') : s.Ends events s' := by
  induction groups generalizing anyNotFound s events with
  | nil =>
      rcases replay_ret_iff.1 h with ⟨rfl, -, rfl⟩
      exact .inl (.nil s)
  | cons head groups ih =>
      rcases replay_bind_iff.1 h with ⟨raced, outcome, s₁, rest, rfl, hgroup, h⟩
      rcases raceWithinGroup_ends hgroup with ⟨hquietly, flag, rfl⟩ | ⟨hfailing, err, rfl⟩ | ⟨_, rfl⟩
      · exact hquietly.ends (ih h)
      · rcases replay_ret_iff.1 h with ⟨rfl, -, rfl⟩
        rw [List.append_nil]
        exact .inr hfailing
      · cases (replay_ret_iff.1 h).2.1

theorem raceCandidates_ends {candidates : List Str} {err : RouterError}
    (h : Replay (exec reg) (raceCandidates crypto reg storeHash candidates hop) s events
      (.error err) s') : s.Ends events s' := by
  rcases replay_bind_iff.1 h with ⟨cooled, filtered, s₁, rest, rfl, hcooled, h⟩
  rcases replay_bind_iff.1 h with ⟨grouped, groups, s₂, rest, rfl, hgrouped, h⟩
  have hcooled' := quietly_of_performs
    (performs_cooldownFilteredCandidates (fun _ => trivial) candidates) hcooled
  have hgrouped' := quietly_of_performs (performs_priorityGroups (fun _ => trivial) _ _) hgrouped
  exact hcooled'.ends (hgrouped'.ends (raceGroups_ends h))

/-- A permit that is taken and given back leaves everything as it is but the cooldowns. -/
theorem onlyCooldown_of_permit {s₁ s₂ : CountedInstance}
    (hacquire : exec reg .acquireRacePermit s true s₁) (h : s₁.OnlyCooldown s₂)
    (hrelease : exec reg .releaseRacePermit s₂ () s') : s.OnlyCooldown s' := by
  rcases hacquire with ⟨⟨hpermit, -, hacquired⟩, hmetrics₁⟩
  rcases hrelease with ⟨hreleased, hmetrics₂⟩
  constructor
  · have hpermits : s₂.inst.racePermits + 1 = s.inst.racePermits := by
      rw [h.inst, hacquired]
      exact Nat.sub_add_cancel hpermit
    rw [hreleased, hpermits, h.inst, hacquired]
  · exact hmetrics₂.trans (h.metrics.trans hmetrics₁)

theorem race_ends {candidates : List Str} {err : RouterError}
    (h : Replay (exec reg) (race crypto reg storeHash candidates hop) s events (.error err) s') :
    s.Ends events s' := by
  unfold race at h
  split at h
  · rcases replay_ret_iff.1 h with ⟨rfl, -, rfl⟩
    exact .inl (.nil s)
  split at h
  · rcases replay_call_bind_iff.1 h with ⟨granted, s₁, rest, rfl, hacquire, h⟩
    have hgranted : granted = true := hacquire.1.2.1
    subst hgranted
    rcases replay_bind_iff.1 h with ⟨raced, result, s₂, rest, rfl, hraced, h⟩
    rcases replay_call_bind_iff.1 h with ⟨_, s₃, rest, rfl, hrelease, h⟩
    rcases replay_ret_iff.1 h with ⟨rfl, rfl, rfl⟩
    rcases raceCandidates_ends hraced with hquietly | hfailing
    · left
      refine ⟨onlyCooldown_of_permit hacquire hquietly.onlyCooldown hrelease, ?_⟩
      intro e he hfailed
      rcases List.mem_cons.1 he with rfl | he
      · cases hfailed
      · rcases List.mem_append.1 he with he | he
        · exact hquietly.noFailure e he hfailed
        · rw [List.mem_singleton.1 he] at hfailed
          cases hfailed
    · right
      rcases hfailing with ⟨⟨e, he, hfailed⟩, url, latencyMs, hcounted⟩
      refine ⟨⟨e, .tail _ (List.mem_append_left _ he), hfailed⟩, url, latencyMs, ?_⟩
      have hacquired : s₁.metrics = s.metrics := hacquire.2
      have hreleased : s₃.metrics = s₂.metrics := hrelease.2
      rw [hreleased, hcounted, hacquired]
  · exact raceCandidates_ends h

end

/-- Whatever the upstreams answer and the database does, a race that ends with an error has left
the route table, the LRU, the health table and the counters as they were if and only if no write
of a route has failed, neither its upsert nor its eviction. Then it has changed cooldowns at
most. -/
theorem race_failed_unchanged_iff (crypto : Crypto) (reg : Registry) (storeHash : Str)
    (candidates : List Str) (hop : Hop) (s s' : CountedInstance) (events : List HandlerEvent)
    (err : RouterError)
    (h : Replay (exec reg) (race crypto reg storeHash candidates hop) s events (.error err) s') :
    (s.Unchanged s' ↔ ∀ e ∈ events, ¬SetRouteFailed e) ∧
      ((∀ e ∈ events, ¬SetRouteFailed e) → s.OnlyCooldown s') := by
  rcases race_ends h with hquietly | hfailing
  · constructor
    · exact iff_of_true hquietly.onlyCooldown.unchanged hquietly.noFailure
    · exact fun _ => hquietly.onlyCooldown
  · rcases hfailing with ⟨⟨e, he, hfailed⟩, url, latencyMs, hcounted⟩
    have hno : ¬∀ e ∈ events, ¬SetRouteFailed e := fun hnone => hnone e he hfailed
    constructor
    · apply iff_of_false _ hno
      intro hunchanged
      exact s.metrics.countWin_ne url latencyMs (hcounted.symm.trans hunchanged.metrics)
    · exact fun hnone => absurd hnone hno

/-! ## Races that fail -/

/-- What an instance does on its own, it does with its counters. -/
theorem exists_replay_of_inst {reg : Registry} {α : Type} {p : Handler α} {inst inst' : Instance}
    {events : List HandlerEvent} {a : α} (h : Replay (Instance.exec reg) p inst events a inst')
    (metrics : WinMetrics) :
    ∃ metrics', Replay (exec reg) p ⟨inst, metrics⟩ events a ⟨inst', metrics'⟩ := by
  induction h generalizing metrics with
  | ret a s => exact ⟨metrics, .ret a _⟩
  | @perform op next reply s s' s'' events a hexec _ ih =>
      rcases ih (op.count metrics) with ⟨metrics', hrest⟩
      have hcounted : exec reg op ⟨s, metrics⟩ reply ⟨s', op.count metrics⟩ := ⟨hexec, rfl⟩
      exact ⟨metrics', .perform hcounted hrest⟩

/-- An instance with nothing in its tables and counters. -/
def fresh : CountedInstance := ⟨emptyCaches, ⟨fun _ => 0, fun _ => []⟩⟩

/-- The only candidate does not have the path. -/
theorem race_failed_unchanged_missed :
    ∃ events s', Replay (exec default) (race default default zeroHash.val [['u']] .peer) fresh events
      (.error .notFound) s' ∧ fresh.Unchanged s' := by
  have hmissed : Replay (Instance.exec default)
      (race default default zeroHash.val [['u']] .peer) emptyCaches _ (.error .notFound) emptyCaches :=
    Instance.replay_raceCandidates_missed rfl rfl
  rcases exists_replay_of_inst hmissed fresh.metrics with ⟨metrics', hreplay⟩
  refine ⟨_, _, hreplay, ?_⟩
  apply (race_failed_unchanged_iff default default zeroHash.val [['u']] .peer fresh _ _ .notFound
    hreplay).1.2
  intro e he hfailed
  simp only [List.mem_cons, List.not_mem_nil, or_false] at he
  rcases he with rfl | rfl | rfl | rfl <;> cases hfailed

/-- The only candidate of a group wins, and an error of its commit ends the race. -/
theorem replay_raceWithinGroup_fatal {crypto : Crypto} {reg : Registry} {winner : RaceResult}
    {storeHash : Str} {hop : Hop} {inst inst' : Instance} {events : List HandlerEvent}
    {err : RouterError}
    (hcommit : Replay (Instance.exec reg) (commitWinner crypto reg winner storeHash hop) inst events
      (.error err) inst') (hfatal : commitErrorIsRetryable err = false) :
    Replay (Instance.exec reg) (raceWithinGroup crypto reg storeHash hop [winner.url] false) inst
      (⟨.spawnHeads [headRequest reg storeHash hop winner.url], ()⟩ ::
        ⟨.joinHead [headRequest reg storeHash hop winner.url], some (0, .found winner.latencyMs)⟩ ::
        events)
      (.done (.error err)) inst' := by
  have hraced : Replay (Instance.exec reg) (raceGroup reg storeHash [winner.url] hop) inst _
      (.ok ⟨winner, List.mem_singleton_self _⟩) inst :=
    Instance.replay_raceGroup_one (.inl ⟨winner.latencyMs, rfl, rfl⟩)
  rw [raceWithinGroup, if_neg (by simp)]
  exact hraced.bind (hcommit.bind_ret (by simp [hfatal]))

/-- The only candidate wins, and its route cannot be written. -/
theorem exists_replay_unwritten :
    ∃ events s', Replay (exec default) (race default default zeroHash.val [winnerOfU.url] .peer) fresh
      events (.error (.db .sqlx)) s' ∧ ∃ e ∈ events, SetRouteFailed e := by
  have hfetch : Instance.exec default
      (.getBytes (narinfoRequest default winnerOfU.url zeroHash.val .peer)) emptyCaches
      (.ok (some bodyOfU)) emptyCaches := rfl
  have hwin : Instance.exec default (.countWin winnerOfU.url winnerOfU.latencyMs) emptyCaches ()
      emptyCaches := rfl
  have hask : Instance.exec default (.getHealth winnerOfU.url) emptyCaches none emptyCaches :=
    ⟨rfl, rfl⟩
  have hlatency : Instance.exec default (.recordLatency winnerOfU.url winnerOfU.latencyMs) emptyCaches
      () emptyCaches := rfl
  have hnow : Instance.exec default .timestampNow emptyCaches emptyCaches.wallClock emptyCaches :=
    ⟨rfl, rfl⟩
  have hupsert : Instance.exec default (.dbUpsertRoute rowOfWinner) emptyCaches (.error .sqlx)
      emptyCaches := .inl ⟨rfl, rfl⟩
  have hwrite : Replay (Instance.exec default) (setRoute rowOfWinner) emptyCaches
      [⟨.dbUpsertRoute rowOfWinner, .error .sqlx⟩] (.error .sqlx) emptyCaches :=
    .call_bind hupsert (.ret _ _)
  have hrecord : Replay (Instance.exec default) (recordWinner default winnerOfU zeroHash.val
      (some bodyOfU) narinfoOfU) emptyCaches _ (.error (.db .sqlx)) emptyCaches :=
    .call_bind hwin (.call_bind hask (.call_bind hlatency (.call_bind hnow
      (hwrite.bind (.ret _ _)))))
  have hcheck : checkNarinfo default default winnerOfU.url (.ok (some bodyOfU)) =
      .ok (some bodyOfU, narinfoOfU) := checkNarinfo_bodyOfU
  have hcommit := replay_commitWinner_of_recordWinner hfetch hcheck rfl hrecord
  have hgroup := replay_raceWithinGroup_fatal hcommit rfl
  have hrace : Replay (Instance.exec default) (race default default zeroHash.val [winnerOfU.url]
      .peer) emptyCaches _ (.error (.db .sqlx)) emptyCaches :=
    Instance.replay_raceCandidates_one rfl rfl hgroup (.inl rfl)
  rcases exists_replay_of_inst hrace fresh.metrics with ⟨metrics', hreplay⟩
  exact ⟨_, _, hreplay, _, by simp, .upsert rowOfWinner .sqlx⟩

/-- A race that fails leaves a win behind. -/
theorem failed_race_counts_win :
    ¬∀ (crypto : Crypto) (reg : Registry) (storeHash : Str) (candidates : List Str) (hop : Hop)
      (s s' : CountedInstance) (events : List HandlerEvent) (err : RouterError),
      Replay (exec reg) (race crypto reg storeHash candidates hop) s events (.error err) s' →
      s.Unchanged s' := by
  intro hclaim
  rcases exists_replay_unwritten with ⟨events, s', hreplay, e, he, hfailed⟩
  have hunchanged := hclaim _ _ _ _ _ _ _ _ _ hreplay
  rcases race_ends hreplay with hquietly | ⟨-, url, latencyMs, hcounted⟩
  · exact hquietly.noFailure e he hfailed
  · exact fresh.metrics.countWin_ne url latencyMs (hcounted.symm.trans hunchanged.metrics)

end CountedInstance

end Ncro
