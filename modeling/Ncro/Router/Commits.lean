import Mathlib.Tactic.Ring
import Ncro.Health.Summary
import Ncro.Router.Replays

/-!
# What committing a winner records

Once it has accepted the narinfo of a winner, `commit_winner` counts the win, tells the
prober the latency, writes the route and keeps the answer. The average that it computes for
the route is that of the prober, but for the first latency of an upstream:
`commitWinner_ema_iff`.
-/

namespace Ncro

open Foundation Foundation.Process Flights

/-! ## The steps of a commit -/

section

variable {S : Type*} {sem : Semantics Op Op.Reply S} {crypto : Crypto} {reg : Registry}
  {winner : RaceResult} {storeHash : Str} {hop : Hop} {s s' : S} {events : List HandlerEvent}

/-- A write of `set_route` that fails: the upsert, or the eviction after it. -/
inductive SetRouteFailed : HandlerEvent → Prop
  | upsert (entry : RouteEntry) (err : DbError) : SetRouteFailed ⟨.dbUpsertRoute entry, .error err⟩
  | evict (err : DbError) : SetRouteFailed ⟨.dbEvictIfNeeded, .error err⟩

theorem setRouteFailed_of_replay {entry : RouteEntry} {err : DbError}
    (h : Replay sem (setRoute entry) s events (.error err) s') :
    ∃ e ∈ events, SetRouteFailed e := by
  rcases replay_call_bind_iff.1 h with ⟨reply, s₁, tail, rfl, -, h⟩
  cases reply with
  | error err => exact ⟨_, .head _, .upsert entry err⟩
  | ok _ =>
      rcases replay_call_bind_iff.1 h with ⟨count, s₂, tail, rfl, -, h⟩
      split at h
      · rcases replay_call_bind_iff.1 h with ⟨reply, s₃, tail, rfl, -, h⟩
        rcases replay_ret_iff.1 h with ⟨rfl, rfl, rfl⟩
        exact ⟨_, .tail _ (.tail _ (.head _)), .evict err⟩
      · rcases replay_ret_iff.1 h with ⟨-, heq, -⟩
        cases heq

/-- A write that succeeds upserts its route, and no other one. -/
theorem upserts_of_replay_setRoute {entry : RouteEntry}
    (h : Replay sem (setRoute entry) s events (.ok ()) s') :
    ∃ tail, events = ⟨.dbUpsertRoute entry, .ok ()⟩ :: tail ∧
      ∀ e ∈ tail, ∀ other, e.1 ≠ .dbUpsertRoute other := by
  rcases replay_call_bind_iff.1 h with ⟨reply, s₁, tail, rfl, -, h⟩
  cases reply with
  | error err => cases (replay_ret_iff.1 h).2.1
  | ok _ =>
      refine ⟨tail, rfl, ?_⟩
      rcases replay_call_bind_iff.1 h with ⟨count, s₂, tail, rfl, -, h⟩
      split at h
      · rcases replay_call_bind_iff.1 h with ⟨reply, s₃, tail, rfl, -, h⟩
        rcases replay_ret_iff.1 h with ⟨rfl, -⟩
        simp
      · rcases replay_ret_iff.1 h with ⟨rfl, -⟩
        simp

variable (reg) in
/-- The average that `commit_winner` computes from the entry that it finds. -/
def winnerEma (winner : RaceResult) (health : Option UpstreamHealth) : Double :=
  match health with
  | none => winner.latencyMs
  | some h => nextEma reg.alpha winner.latencyMs h.emaLatency

/-- What is done for a winner whose narinfo was accepted, up to the write of the route, which
fails or succeeds. -/
inductive Recorded (sem : Semantics Op Op.Reply S) (reg : Registry) (winner : RaceResult)
    (storeHash : Str) (body : Option Octets) (parsed : NarInfo) (s : S) :
    List HandlerEvent → Except RouterError CommitOutcome → S → Prop
  | mk {s₁ s₂ s₃ s₄ s₅ s' : S} {health : Option UpstreamHealth} {now : Timestamp}
      {written tail : List HandlerEvent} {stored : Except DbError Unit}
      {result : Except RouterError CommitOutcome}
      (hcount : sem (.countWin winner.url winner.latencyMs) s () s₁)
      (hhealth : sem (.getHealth winner.url) s₁ health s₂)
      (hlatency : sem (.recordLatency winner.url winner.latencyMs) s₂ () s₃)
      (hnow : sem .timestampNow s₃ now s₄)
      (hwrite : Replay sem (setRoute (winnerRoute reg winner storeHash body parsed
        (winnerEma reg winner health) now)) s₄ written stored s₅)
      (hend : (∃ err, stored = .error err ∧ result = .error (.db err) ∧ tail = [] ∧ s' = s₅) ∨
        ∃ answer, stored = .ok () ∧ result = .ok (.accepted answer) ∧
          tail = [⟨.lruInsert storeHash answer, ()⟩] ∧ sem (.lruInsert storeHash answer) s₅ () s') :
      Recorded sem reg winner storeHash body parsed s
        (⟨.countWin winner.url winner.latencyMs, ()⟩ :: ⟨.getHealth winner.url, health⟩ ::
          ⟨.recordLatency winner.url winner.latencyMs, ()⟩ :: ⟨.timestampNow, now⟩ ::
          (written ++ tail)) result s'

theorem recorded_of_replay {body : Option Octets} {parsed : NarInfo}
    {result : Except RouterError CommitOutcome}
    (h : Replay sem (recordWinner reg winner storeHash body parsed) s events result s') :
    Recorded sem reg winner storeHash body parsed s events result s' := by
  rcases replay_call_bind_iff.1 h with ⟨_, s₁, tail, rfl, hcount, h⟩
  rcases replay_call_bind_iff.1 h with ⟨health, s₂, tail, rfl, hhealth, h⟩
  rcases replay_call_bind_iff.1 h with ⟨_, s₃, tail, rfl, hlatency, h⟩
  rcases replay_call_bind_iff.1 h with ⟨now, s₄, tail, rfl, hnow, h⟩
  rcases replay_bind_iff.1 h with ⟨written, stored, s₅, tail, rfl, hwrite, h⟩
  replace hwrite : Replay sem (setRoute (winnerRoute reg winner storeHash body parsed
      (winnerEma reg winner health) now)) s₄ written stored s₅ := by
    cases health <;> exact hwrite
  apply Recorded.mk hcount hhealth hlatency hnow hwrite
  cases stored with
  | error err =>
      rcases replay_ret_iff.1 h with ⟨rfl, rfl, rfl⟩
      exact .inl ⟨err, rfl, rfl, rfl, rfl⟩
  | ok _ =>
      rcases replay_call_bind_iff.1 h with ⟨_, s₆, tail, rfl, hinsert, h⟩
      rcases replay_ret_iff.1 h with ⟨rfl, rfl, rfl⟩
      exact .inr ⟨_, rfl, rfl, rfl, hinsert⟩

/-- A commit ends before anything is recorded, with a rejection or an error after which the
race goes on, or it records the winner. -/
theorem replay_commitWinner_cases {result : Except RouterError CommitOutcome}
    (h : Replay sem (commitWinner crypto reg winner storeHash hop) s events result s') :
    ∃ reply s₁ tail,
      events = ⟨.getBytes (narinfoRequest reg winner.url storeHash hop), reply⟩ :: tail ∧
      sem (.getBytes (narinfoRequest reg winner.url storeHash hop)) s reply s₁ ∧
      ((tail = [] ∧ s' = s₁ ∧
          (result = .ok .rejected ∨ ∃ err, result = .error err ∧ commitErrorIsRetryable err = true)) ∨
        ∃ body parsed, Recorded sem reg winner storeHash body parsed s₁ tail result s') := by
  rcases replay_fetchNarinfo_bind_iff.1 h with ⟨reply, s₁, tail, rfl, hfetch, h⟩
  refine ⟨reply, s₁, tail, rfl, hfetch, ?_⟩
  cases hchecked : checkNarinfo crypto reg winner.url reply with
  | error err =>
      rw [hchecked] at h
      rcases replay_ret_iff.1 h with ⟨rfl, rfl, rfl⟩
      exact .inl ⟨rfl, rfl, .inr ⟨err, rfl, commitErrorIsRetryable_of_checkNarinfo hchecked⟩⟩
  | ok fetched =>
      rcases fetched with ⟨body, parsed⟩
      rw [hchecked] at h
      replace h : Replay sem (if !reg.allows winner.url parsed then return .ok .rejected
        else recordWinner reg winner storeHash body parsed) s₁ tail result s' := h
      split at h
      · rcases replay_ret_iff.1 h with ⟨rfl, rfl, rfl⟩
        exact .inl ⟨rfl, rfl, .inl rfl⟩
      · exact .inr ⟨body, parsed, recorded_of_replay h⟩

end

/-! ## The moving average -/

/-- The average of a latency with another value is this latency only if the value is. -/
theorem nextEma_eq_iff {a : ℚ} (hpos : 0 < a) (hlt : a < 1) (q : ℚ) (e : Double) :
    nextEma (.fin a) (.fin q) e = .fin q ↔ e.beq (.fin q) = true := by
  have hweight : 0 < 1 - a := sub_pos.2 hlt
  have hfin : ∀ x, a * q + (1 - a) * x = q ↔ x = q := by
    intro x
    have hdiff : a * q + (1 - a) * x - q = (1 - a) * (x - q) := by ring
    rw [← sub_eq_zero, hdiff, mul_eq_zero, or_iff_right hweight.ne', sub_eq_zero]
  have hnext : nextEma (.fin a) (.fin q) e =
      (Double.fin (a * q)).add ((Double.fin (1 - a)).mul e) := by
    rw [nextEma, Double.mulAdd, Double.fin_sub_fin 1 hpos.ne', Double.fin_mul_fin hpos]
  rw [hnext]
  cases e with
  | fin x =>
      rw [Double.fin_mul_fin hweight, Double.beq_of_isFinite rfl rfl, decide_eq_true_iff]
      exact (iff_of_eq (Double.fin.injEq _ _)).trans (hfin x)
  | negZero =>
      have hzero : (Double.fin (1 - a)).mul .negZero = .negZero := by
        apply if_pos
        simp [Double.toRat, Double.signBit, hlt.le]
      rw [hzero, Double.beq_of_isFinite rfl rfl, decide_eq_true_iff]
      apply Iff.trans _ (hfin 0)
      rw [mul_zero]
      exact iff_of_eq (Double.fin.injEq _ _)
  | inf negative =>
      have hinf : ∃ m, (Double.fin (1 - a)).mul (.inf negative) = .inf m :=
        ⟨_, if_neg hweight.ne'⟩
      rcases hinf with ⟨m, hm⟩
      rw [hm]
      apply iff_of_false
      · intro heq
        cases heq
      · cases negative <;> simp [Double.beq, Double.lt]
  | nan =>
      apply iff_of_false
      · intro heq
        cases heq
      · intro heq
        cases heq

namespace Instance

theorem health_of_exec {reg : Registry} {op : Op} {s s' : Instance} {reply : op.Reply}
    (h : exec reg op s reply s') (hop : ∀ url ms, op ≠ .recordLatency url ms) :
    s'.health = s.health := by
  cases op with
  | recordLatency url ms => exact absurd rfl (hop url ms)
  | missLruGet key | lruGet key =>
      rcases Prod.mk.inj h with ⟨-, rfl⟩
      rfl
  | dbSetNegative storePath ttl =>
      rcases h with ⟨-, rfl⟩ | ⟨-, rfl⟩ <;> rfl
  | dbUpsertRoute entry =>
      rcases h with ⟨-, rfl⟩ | ⟨-, rfl⟩ <;> rfl
  | dbEvictIfNeeded =>
      rcases h with ⟨-, rfl⟩ | ⟨-, routes, -, rfl⟩ <;> rfl
  | inflightEntry key =>
      simp only [exec] at h
      split at h <;> rcases h with ⟨-, rfl⟩ <;> rfl
  | inCooldown url =>
      rcases h with ⟨-, rfl⟩
      unfold dropExpiredCooldown
      split <;> rfl
  | inflightRemoveIf key lock =>
      rw [h]
      split <;> rfl
  | acquireRacePermit =>
      rcases h with ⟨-, -, rfl⟩
      rfl
  | markCooldown url =>
      rw [h]
      rfl
  | timestampNow | dbIsNegative _ | dbGetRoute _ | dbGetRouteByNarUrl _ | dbCountWrite
  | getHealth _ | sortedByLatency | lock _ =>
      rcases h with ⟨-, rfl⟩
      rfl
  | _ => rw [h]

/-- The operations of a request among other ones. Between them anything may happen but to the
health of one upstream. -/
def undisturbedFor (reg : Registry) (url : Str) : Semantics Op Op.Reply Instance :=
  fun op s reply s' => ∃ s₁ : Instance, s₁.health.get url = s.health.get url ∧
    exec reg op s₁ reply s'

theorem undisturbedFor_of_exec {reg : Registry} (url : Str) (op : Op) (s : Instance)
    (reply : op.Reply) (s' : Instance) (h : exec reg op s reply s') :
    undisturbedFor reg url op s reply s' := ⟨s, rfl, h⟩

section

variable {crypto : Crypto} {reg : Registry} {url : Str} {s s' : Instance}

theorem get_of_undisturbedFor {op : Op} {reply : op.Reply}
    (h : undisturbedFor reg url op s reply s') (hop : ∀ other ms, op ≠ .recordLatency other ms) :
    s'.health.get url = s.health.get url := by
  rcases h with ⟨s₁, hsame, hexec⟩
  rw [health_of_exec hexec hop, hsame]

/-- A write of a route leaves the health of the upstream alone. -/
theorem get_of_replay_setRoute {entry : RouteEntry} {events : List HandlerEvent}
    {reply : Except DbError Unit}
    (h : Replay (undisturbedFor reg url) (setRoute entry) s events reply s') :
    s'.health.get url = s.health.get url := by
  have hperforms : Performs (fun op => ∀ other ms, op ≠ .recordLatency other ms)
      (setRoute entry) := by
    have hlookup : Performs (CachedOp .client) (setRoute entry) := performs_setRoute entry
    apply hlookup.mono
    rintro op hop other ms rfl
    exact hop
  have hstep : ∀ (op : Op) (s : Instance) (reply : op.Reply) (s' : Instance),
      (∀ other ms, op ≠ .recordLatency other ms) → undisturbedFor reg url op s reply s' →
      s'.health.get url = s.health.get url := fun _ _ _ _ hop h => get_of_undisturbedFor h hop
  exact (Replay.rel_of_performs (R := fun s s' : Instance =>
    s'.health.get url = s.health.get url) (fun _ => rfl) (fun h h' => h'.trans h) hstep
    hperforms h).1

/-- What a commit that accepts its winner writes and records, when nothing else happens to the
health of the upstream. -/
theorem accepted_writes {winner : RaceResult} {storeHash : Str} {hop : Hop}
    {events : List HandlerEvent} {result : ResolveResult} {h : UpstreamHealth}
    (htracked : s.health.get winner.url = some h)
    (hcommit : Replay (undisturbedFor reg winner.url) (commitWinner crypto reg winner storeHash hop)
      s events (.ok (.accepted result)) s') :
    ∃ body parsed now before after clock,
      events = before ++ ⟨.dbUpsertRoute (winnerRoute reg winner storeHash body parsed
        (nextEma reg.alpha winner.latencyMs h.emaLatency) now), .ok ()⟩ :: after ∧
      (∀ e ∈ before ++ after, ∀ other, e.1 ≠ .dbUpsertRoute other) ∧
      s'.health.get winner.url =
        some (h.recorded reg.alpha (.latency clock winner.url winner.latencyMs)) := by
  rcases replay_commitWinner_cases hcommit with ⟨reply, s₁, tail, rfl, hfetch, hcases⟩
  rcases hcases with ⟨-, -, hother | ⟨err, hother, -⟩⟩ | ⟨body, parsed, hrecorded⟩
  · cases hother
  · cases hother
  cases hrecorded with
  | @mk s₂ s₃ s₄ s₅ s₆ _ health now written tail stored _ hcount hhealth hlatency hnow hwrite hend =>
  rcases hend with ⟨err, -, hother, -⟩ | ⟨answer, rfl, -, rfl, hinsert⟩
  · cases hother
  have hget₁ := (get_of_undisturbedFor hfetch nofun).trans htracked
  have hget₂ := (get_of_undisturbedFor hcount nofun).trans hget₁
  have hget₃ := (get_of_undisturbedFor hhealth nofun).trans hget₂
  have hfound : health = some h := by
    rcases hhealth with ⟨s₁', hsame, rfl, -⟩
    rw [hsame, hget₂]
  subst hfound
  rcases hlatency with ⟨s₃', hsame, rfl⟩
  have hget₄ : ((s₃'.health.recordLatency reg.alpha s₃'.clock winner.url winner.latencyMs).get
      winner.url) = some (h.recorded reg.alpha (.latency s₃'.clock winner.url winner.latencyMs)) := by
    apply (RecordCall.get_apply reg.alpha s₃'.health
      (.latency s₃'.clock winner.url winner.latencyMs) winner.url).trans
    have hurl : (RecordCall.latency s₃'.clock winner.url winner.latencyMs).url = winner.url := rfl
    rw [if_pos hurl, hsame, hget₃]
    rfl
  have hget₅ := (get_of_undisturbedFor hnow nofun).trans hget₄
  have hget₆ := (get_of_replay_setRoute hwrite).trans hget₅
  have hget₇ := (get_of_undisturbedFor hinsert nofun).trans hget₆
  rcases upserts_of_replay_setRoute hwrite with ⟨rest, rfl, hrest⟩
  refine ⟨body, parsed, now, [_, _, _, _, _], rest ++ [_], _, rfl, ?_, hget₇⟩
  intro e he other
  rcases List.mem_append.1 he with he | he
  · simp only [List.mem_cons, List.not_mem_nil, or_false] at he
    rcases he with rfl | rfl | rfl | rfl | rfl <;> exact nofun
  · rcases List.mem_append.1 he with he | he
    · exact hrest e he other
    · rw [List.mem_singleton.1 he]
      exact nofun

/-- When a commit accepts its winner and nothing else happens to the health of the upstream, the
route that it writes has the average of the prober if and only if the upstream had a success
before or its entry has the value of the latency already. -/
theorem commitWinner_ema_iff (crypto : Crypto) (reg : Registry) {a : ℚ} (halpha : reg.alpha = .fin a)
    (hpos : 0 < a) (hlt : a < 1) (winner : RaceResult) {q : ℚ} (hlatency : winner.latencyMs = .fin q)
    (storeHash : Str) (hop : Hop) (s s' : Instance) (events : List HandlerEvent)
    (result : ResolveResult) (h : UpstreamHealth) (htracked : s.health.get winner.url = some h)
    (hcommit : Replay (undisturbedFor reg winner.url) (commitWinner crypto reg winner storeHash hop)
      s events (.ok (.accepted result)) s') :
    ∃ entry h', ⟨.dbUpsertRoute entry, .ok ()⟩ ∈ events ∧
      (∀ other reply, ⟨.dbUpsertRoute other, reply⟩ ∈ events → other = entry) ∧
      entry.storePath = storeHash ∧ entry.upstreamUrl = winner.url ∧
      s'.health.get winner.url = some h' ∧
      (entry.latencyEma = h'.emaLatency ↔
        h.totalQueries ≠ 0 ∨ h.emaLatency.beq winner.latencyMs = true) := by
  rcases accepted_writes htracked hcommit with
    ⟨body, parsed, now, before, after, clock, rfl, hothers, hget⟩
  refine ⟨_, _, List.mem_append_right _ (.head _), ?_, rfl, rfl, hget, ?_⟩
  · intro other reply hmem
    rcases List.mem_append.1 hmem with hmem | hmem
    · exact absurd rfl (hothers _ (List.mem_append_left _ hmem) other)
    · rcases List.mem_cons.1 hmem with heq | hmem
      · cases heq
        rfl
      · exact absurd rfl (hothers _ (List.mem_append_right _ hmem) other)
  · show nextEma reg.alpha winner.latencyMs h.emaLatency =
      (if h.totalQueries = 0 then winner.latencyMs
        else nextEma reg.alpha winner.latencyMs h.emaLatency) ↔ _
    by_cases hfirst : h.totalQueries = 0
    · rw [if_pos hfirst, halpha, hlatency, nextEma_eq_iff hpos hlt]
      simp [hfirst]
    · rw [if_neg hfirst]
      simp [hfirst]

end

/-- An instance that tracks one upstream. -/
def tracking (h : UpstreamHealth) : Instance :=
  { emptyCaches with health := Table.upsert ∅ h }

theorem get_tracking {h : UpstreamHealth} (hurl : h.url = winnerOfU.url) :
    (tracking h).health.get winnerOfU.url = some h := by
  rw [← hurl]
  exact Table.get_upsert_self ∅ h

/-- The upstream wins a race, and its narinfo is accepted. -/
theorem exists_replay_tracking {h : UpstreamHealth} (hurl : h.url = winnerOfU.url) :
    ∃ events s', Replay (exec default) (commitWinner default default winnerOfU zeroHash.val .client)
      (tracking h) events (.ok (.accepted (winnerAnswer default winnerOfU zeroHash.val bodyOfU)))
      s' := by
  have hfetch : exec default (.getBytes (narinfoRequest default winnerOfU.url zeroHash.val .client))
      (tracking h) (.ok (some bodyOfU)) (tracking h) := rfl
  have hwin : exec default (.countWin winnerOfU.url winnerOfU.latencyMs) (tracking h) ()
      (tracking h) := rfl
  have hask : exec default (.getHealth winnerOfU.url) (tracking h) (some h) (tracking h) :=
    ⟨(get_tracking hurl).symm, rfl⟩
  let s₁ : Instance := { tracking h with
    health := (tracking h).health.recordLatency (default : Registry).alpha (tracking h).clock
      winnerOfU.url winnerOfU.latencyMs }
  have hlatency : exec default (.recordLatency winnerOfU.url winnerOfU.latencyMs) (tracking h) ()
      s₁ := rfl
  have hnow : exec default .timestampNow s₁ s₁.wallClock s₁ := ⟨rfl, rfl⟩
  let entry := winnerRoute default winnerOfU zeroHash.val (some bodyOfU) narinfoOfU
    (winnerEma default winnerOfU (some h)) s₁.wallClock
  let answer := winnerAnswer default winnerOfU zeroHash.val bodyOfU
  have hcount : s₁.writeCount % 100 ≠ 99 := by
    show 0 % 100 ≠ 99
    decide
  have hinsert : exec default (.lruInsert zeroHash.val answer) (s₁.stored entry) ()
      { s₁.stored entry with
        lru := (s₁.stored entry).lru.insert (s₁.stored entry).clock zeroHash.val answer } := rfl
  have hrecord : Replay (exec default) (recordWinner default winnerOfU zeroHash.val (some bodyOfU)
      narinfoOfU) (tracking h) _ (.ok (.accepted answer)) _ :=
    .call_bind hwin (.call_bind hask (.call_bind hlatency (.call_bind hnow
      ((replay_setRoute entry hcount).bind (.call_bind hinsert (.ret _ _))))))
  have hcheck : checkNarinfo default default winnerOfU.url (.ok (some bodyOfU)) =
      .ok (some bodyOfU, narinfoOfU) := checkNarinfo_bodyOfU
  exact ⟨_, _, replay_commitWinner_of_recordWinner hfetch hcheck rfl hrecord⟩

/-- An upstream that has answered before. -/
def knownU : UpstreamHealth :=
  { UpstreamHealth.new winnerOfU.url 0 with emaLatency := .fin 2, totalQueries := 1 }

theorem commitWinner_ema_iff_knownU :
    ∃ events s' entry h', ⟨.dbUpsertRoute entry, .ok ()⟩ ∈ events ∧
      Replay (exec default) (commitWinner default default winnerOfU zeroHash.val .client)
        (tracking knownU) events
        (.ok (.accepted (winnerAnswer default winnerOfU zeroHash.val bodyOfU))) s' ∧
      s'.health.get winnerOfU.url = some h' ∧ entry.latencyEma = h'.emaLatency := by
  rcases exists_replay_tracking (h := knownU) rfl with ⟨events, s', hreplay⟩
  rcases commitWinner_ema_iff default default (a := 3 / 10) rfl (by norm_num) (by norm_num) winnerOfU
    (q := 1) rfl zeroHash.val .client _ _ _ _ knownU (get_tracking rfl)
    (hreplay.mono (undisturbedFor_of_exec winnerOfU.url)) with
    ⟨entry, h', hwritten, -, -, -, hget, hiff⟩
  exact ⟨events, s', entry, h', hwritten, hreplay, hget, hiff.2 (.inl (by decide))⟩

/-- The first latency of an upstream: the route has a fraction of what the prober has. -/
theorem first_ema_differs :
    ¬∀ (crypto : Crypto) (reg : Registry) (a : ℚ), reg.alpha = .fin a → 0 < a → a < 1 →
      ∀ (winner : RaceResult) (q : ℚ), winner.latencyMs = .fin q →
      ∀ (storeHash : Str) (hop : Hop) (s s' : Instance) (events : List HandlerEvent)
        (result : ResolveResult) (h : UpstreamHealth), s.health.get winner.url = some h →
      Replay (undisturbedFor reg winner.url) (commitWinner crypto reg winner storeHash hop) s events
        (.ok (.accepted result)) s' →
      ∀ entry h', ⟨.dbUpsertRoute entry, .ok ()⟩ ∈ events → s'.health.get winner.url = some h' →
        entry.latencyEma = h'.emaLatency := by
  intro hclaim
  let fresh := UpstreamHealth.new winnerOfU.url 0
  have hfresh := get_tracking (h := fresh) rfl
  rcases exists_replay_tracking (h := fresh) rfl with ⟨events, s', hreplay⟩
  have hcommit := hreplay.mono (undisturbedFor_of_exec winnerOfU.url)
  rcases accepted_writes hfresh hcommit with
    ⟨body, parsed, now, before, after, clock, rfl, -, hget⟩
  have hsame : nextEma (.fin (3 / 10)) (.fin 1) (.fin 0) = .fin 1 :=
    hclaim default default (3 / 10) rfl (by norm_num) (by norm_num) winnerOfU 1 rfl _ _ _ _ _ _
      fresh hfresh hcommit _ _ (List.mem_append_right _ (.head _)) hget
  have hzero := (nextEma_eq_iff (by norm_num) (by norm_num) 1 (.fin 0)).1 hsame
  rw [Double.beq_of_isFinite rfl rfl] at hzero
  exact absurd (of_decide_eq_true hzero) (by norm_num [Double.toRat])

end Instance

end Ncro
