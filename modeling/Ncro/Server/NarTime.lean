import Ncro.Router.LookupTime
import Ncro.Server.Nar

/-!
# How long a NAR request takes

The attempts of a NAR request run at the same time, each within the timeout of its
upstream. The stopwatch keeps the time until the last of them is over: starting an attempt
puts it off by a timeout at most, and the loop of `hedged_nar` waits no longer. So a NAR
request is answered in time, or given up, whatever the upstreams do: `takes_nar`. Only
the body of the response is not timed.
-/

namespace Ncro

open Foundation Foundation.Process

/-! ## The stopwatch -/

namespace Reachability

variable (reach : Reachability)

/-- The operations of a NAR request with the time they take. What is left is the time until
the last attempt that was started is over. With no attempt under way it is the timer
that is waited for. -/
def narStopwatch (app : AppState) (upstreams : ℕ) : Semantics Op Op.Reply Stopwatch
  | .spawnNar _ request, s, _, s' => s' = ⟨s.elapsed, max s.left (request.timeout.getD 0)⟩
  | .selectNar pending _, s, _, s' =>
      ∃ d ≤ if pending = [] then app.narHedging.delay else s.left,
        s' = ⟨s.elapsed + d, s.left - d⟩
  | .sendNar request, s, _, s' => ∃ d ≤ request.timeout.getD 0, s' = ⟨s.elapsed + d, s.left⟩
  | .spawnHeads _, s, _, s' | .joinHead _, s, _, s' => s.elapsed ≤ s'.elapsed
  | op, s, reply, s' =>
      reach.stopwatch app.registry.raceTimeout upstreams op s reply s' ∧ s'.left = s.left

end Reachability

/-- The operations that wait for nothing that was started before. -/
def Op.alone : Op → Prop
  | .spawnHeads _ | .joinHead _ | .spawnNar _ _ | .selectNar _ _ | .sendNar _ => False
  | _ => True

section

variable {reach : Reachability} {crypto : Crypto} {app : AppState} {upstreams : ℕ}
  {method : Method} {headers : HeaderMap} {time fetchTime : Duration} {α : Type}

theorem stopwatch_of_narStopwatch {op : Op} {s s' : Stopwatch} {reply : op.Reply}
    (halone : op.alone) (h : reach.narStopwatch app upstreams op s reply s') :
    reach.stopwatch app.registry.raceTimeout upstreams op s reply s' ∧ s'.left = s.left := by
  cases op with
  | spawnHeads => exact halone.elim
  | joinHead => exact halone.elim
  | spawnNar => exact halone.elim
  | selectNar => exact halone.elim
  | sendNar => exact halone.elim
  | _ => exact h

/-- What is known of the time of a lookup holds of the parts of a NAR request, as long as
no attempt is under way. -/
theorem takes_alone {p : Handler α} {Q : α → Stopwatch → Prop}
    (h : Takes (reach.stopwatch app.registry.raceTimeout upstreams) Stopwatch.elapsed
      (fun _ => True) p time Q) (hp : Performs Op.alone p) :
    Takes (reach.narStopwatch app upstreams) Stopwatch.elapsed (fun s => s.left = 0) p time
      fun a s => Q a s ∧ s.left = 0 := by
  have hrefined : Takes (reach.narStopwatch app upstreams) Stopwatch.elapsed
      (fun s => True ∧ s.left = 0) p time fun a s => Q a s ∧ s.left = 0 := by
    apply h.refine _ hp
    intro op s reply s' halone hleft hstep
    rcases stopwatch_of_narStopwatch halone hstep with ⟨hsame, hkept⟩
    exact ⟨hsame, hkept.trans hleft⟩
  exact hrefined.mono (fun s hleft => ⟨trivial, hleft⟩) le_rfl fun _ _ => id

/-! ## The attempts -/

/-- A bound on the timeouts of the attempts. -/
def AppState.AttemptsWithin (app : AppState) (time : Duration) : Prop :=
  ∀ upstream, app.narTimeout upstream ≤ time

/-- An attempt puts off the end by its timeout at most. -/
theorem takes_spawnNarAttempt (h : app.AttemptsWithin time) (candidate : NarCandidate) :
    Takes (reach.narStopwatch app upstreams) Stopwatch.reserved (fun _ => True)
      (spawnNarAttempt app method headers candidate) time fun _ _ => True := by
  apply takes_call
  rintro s _ s' - rfl
  have htimeout : app.narTimeout candidate.upstream ≤ time := h candidate.upstream
  refine ⟨?_, trivial⟩
  show s.elapsed + max s.left (app.narTimeout candidate.upstream) ≤ s.elapsed + s.left + time
  lia

/-- Waiting for an attempt or for the timer takes none of the time that is set aside, unless
no attempt is under way. -/
theorem reserved_le_of_select {pending : List NarCandidate} {timer : Bool} {s s' : Stopwatch}
    {reply : (Op.selectNar pending timer).Reply}
    (h : reach.narStopwatch app upstreams (.selectNar pending timer) s reply s') :
    s'.reserved ≤ s.reserved + if pending = [] then app.narHedging.delay else 0 := by
  rcases h with ⟨d, hle, rfl⟩
  simp only [Stopwatch.reserved]
  split at hle <;> lia

/-- The loop takes a timeout, and the delay of the timer, for each candidate that waits. -/
theorem takes_hedgeLoop (h : app.AttemptsWithin time) (pending waiting : List NarCandidate) :
    Takes (reach.narStopwatch app upstreams) Stopwatch.reserved (fun _ => True)
      (hedgeLoop app method headers pending waiting)
      (waiting.length * (time + app.narHedging.delay)) fun _ _ => True := by
  induction hsize : 2 * waiting.length + pending.length using Nat.strongRecOn
    generalizing pending waiting with
  | ind n ih =>
  have hspawn : ∀ candidate pending' waiting',
      2 * waiting'.length + pending'.length < n →
      Takes (reach.narStopwatch app upstreams) Stopwatch.reserved (fun _ => True)
        (spawnNarAttempt app method headers candidate >>= fun _ =>
          hedgeLoop app method headers pending' waiting')
        (time + waiting'.length * (time + app.narHedging.delay)) fun _ _ => True := by
    intro candidate pending' waiting' hlt
    exact (takes_spawnNarAttempt h candidate).bind fun _ => ih _ hlt _ _ rfl
  rw [hedgeLoop]
  split
  · exact Takes.le (takes_ret fun _ _ => trivial) (Nat.zero_le _)
  next hsome =>
  by_cases hpending : pending = []
  · subst hpending
    have hwaiting : waiting ≠ [] := fun hnil => hsome ⟨rfl, hnil⟩
    rcases List.exists_cons_of_ne_nil hwaiting with ⟨candidate, rest, rfl⟩
    have hcredit : app.narHedging.delay + (time + rest.length * (time + app.narHedging.delay)) =
        (candidate :: rest).length * (time + app.narHedging.delay) := by
      rw [List.length_cons, Nat.succ_mul]
      lia
    rw [← hcredit]
    apply takes_call_bind (M := fun _ _ => True)
    · intro s reply s' _ hstep
      exact ⟨reserved_le_of_select hstep, trivial⟩
    intro reply
    cases reply with
    | completed i answer => exact i.elim0
    | panicked i => exact i.elim0
    | allDisabled hnil htimer => exact Takes.le (takes_ret fun _ _ => trivial) (Nat.zero_le _)
    | timer htimer =>
        apply hspawn
        simp only [List.length_cons, List.length_nil, List.length_append, List.tail_cons] at hsize ⊢
        omega
  · rw [← Nat.zero_add (waiting.length * _)]
    apply takes_call_bind (M := fun _ _ => True)
    · intro s reply s' _ hstep
      have hle := reserved_le_of_select hstep
      rw [if_neg hpending] at hle
      exact ⟨hle, trivial⟩
    intro reply
    cases reply with
    | allDisabled hnil htimer => exact absurd hnil hpending
    | panicked i =>
        have hlength := List.length_eraseIdx_of_lt i.isLt
        have hi := i.isLt
        exact ih _ (by omega) _ _ rfl
    | timer htimer =>
        rcases List.exists_cons_of_ne_nil (ne_nil_of_timerEnabled htimer) with
          ⟨candidate, rest, rfl⟩
        apply Takes.le (hspawn _ _ _ _) _
        · simp only [List.length_cons, List.length_nil, List.length_append, List.tail_cons]
            at hsize ⊢
          omega
        · simp only [List.length_cons, List.tail_cons, Nat.succ_mul]
          lia
    | completed i answer =>
        have hlength := List.length_eraseIdx_of_lt i.isLt
        have hi := i.isLt
        simp only
        split
        · exact Takes.le (takes_ret fun _ _ => trivial) (Nat.zero_le _)
        · cases waiting with
          | nil => exact ih _ (by simp at hsize ⊢; omega) _ _ rfl
          | cons candidate rest =>
              apply Takes.le (hspawn _ _ _ _) _
              · simp only [List.length_cons, List.length_nil, List.length_append] at hsize ⊢
                omega
              · rw [List.length_cons, Nat.succ_mul]
                lia

theorem takes_spawnAll (h : app.AttemptsWithin time) (candidates : List NarCandidate) :
    Takes (reach.narStopwatch app upstreams) Stopwatch.reserved (fun _ => True)
      (spawnAll app method headers candidates) (candidates.length * time) fun _ _ => True := by
  induction candidates with
  | nil => exact Takes.le (takes_ret fun _ _ => trivial) (Nat.zero_le _)
  | cons candidate candidates ih =>
      rw [List.length_cons, Nat.succ_mul, Nat.add_comm]
      exact (takes_spawnNarAttempt h candidate).bind fun _ => ih

/-- All attempts are over, or one is answered, in the time of the attempts. -/
theorem takes_hedgedNar (h : app.AttemptsWithin time) (initial : NarCandidate)
    (candidates : List NarCandidate) :
    Takes (reach.narStopwatch app upstreams) Stopwatch.elapsed (fun s => s.left = 0)
      (hedgedNar app method headers initial candidates)
      (time + candidates.length * (time + app.narHedging.delay)) fun _ _ => True := by
  have hreserved : Takes (reach.narStopwatch app upstreams) Stopwatch.reserved (fun _ => True)
      (hedgedNar app method headers initial candidates)
      (time + candidates.length * (time + app.narHedging.delay)) fun _ _ => True := by
    apply (takes_spawnNarAttempt h initial).bind
    intro _
    split
    · have hall : Takes (reach.narStopwatch app upstreams) Stopwatch.reserved (fun _ => True)
          (spawnAll app method headers candidates.reverse >>= fun _ =>
            hedgeLoop app method headers (initial :: candidates.reverse) []) _ fun _ _ => True :=
        (takes_spawnAll h _).bind fun _ => takes_hedgeLoop h _ _
      apply hall.le
      simp only [List.length_reverse, List.length_nil, Nat.zero_mul, Nat.add_zero]
      exact Nat.mul_le_mul_left _ (Nat.le_add_right _ _)
    · apply (takes_hedgeLoop h _ _).le
      rw [List.length_reverse]
  have hstart : ∀ s : Stopwatch, s.left = 0 → s.reserved ≤ s.elapsed + 0 := by
    intro s hleft
    rw [Stopwatch.reserved, hleft]
  have hheld : Takes (reach.narStopwatch app upstreams) Stopwatch.reserved (fun s => s.left = 0)
      (hedgedNar app method headers initial candidates)
      (time + candidates.length * (time + app.narHedging.delay)) fun _ _ => True :=
    hreserved.mono (fun _ _ => trivial) le_rfl fun _ _ => id
  have helapsed := hheld.of_potential _ hstart fun s => Nat.le_add_right _ _
  exact helapsed.le (Nat.zero_add _).le

/-! ## The candidates -/

theorem lasts_candidatePath (h : reach.FetchesWithin app.registry fetchTime)
    (storeHash : Option Str) (path : Str) (expectedNarinfo : Option NarInfo) (url : Str) :
    reach.Lasts app.registry.raceTimeout upstreams
      (candidatePath crypto app storeHash path expectedNarinfo url) fetchTime := by
  cases storeHash with
  | none => exact lasts_ret _ _
  | some storeHash =>
      apply (lasts_fetchNarinfo h url).bind_zero
      intro fetched
      rcases fetched with err | ⟨body, parsed⟩
      · exact lasts_ret _ 0
      · show reach.Lasts _ _ (ite _ _ (ite _ _ (ite _ _ _))) 0
        split
        · exact lasts_ret _ 0
        split
        · exact lasts_ret _ 0
        split <;> exact lasts_ret _ 0

/-- The narinfo of each upstream is fetched, one after the other. -/
theorem takes_candidatesAmong (h : reach.FetchesWithin app.registry fetchTime)
    (storeHash : Option Str) (path : Str) (expectedNarinfo : Option NarInfo)
    (healths : List UpstreamHealth) :
    Takes (reach.stopwatch app.registry.raceTimeout upstreams) Stopwatch.elapsed (fun _ => True)
      (candidatesAmong crypto app storeHash path expectedNarinfo healths)
      (healths.length * fetchTime) fun candidates _ => candidates.length ≤ healths.length := by
  induction healths with
  | nil => exact Takes.le (takes_ret fun _ _ => le_rfl) (Nat.zero_le _)
  | cons health healths ih =>
      rw [List.length_cons, Nat.succ_mul, Nat.add_comm]
      apply Takes.bind (lasts_candidatePath h storeHash path expectedNarinfo health.url)
      intro found
      apply Takes.bind (d := 0) ih
      intro candidates
      cases found with
      | error err => exact takes_ret fun _ hlen => hlen.trans (Nat.le_succ _)
      | ok candidatePath => exact takes_ret fun _ hlen => Nat.succ_le_succ hlen

theorem takes_hedgeCandidates (h : reach.FetchesWithin app.registry fetchTime)
    (storeHash : Option Str) (path skip : Str) (includeHedgingOptOuts : Bool)
    (expectedNarinfo : Option NarInfo) :
    Takes (reach.stopwatch app.registry.raceTimeout upstreams) Stopwatch.elapsed (fun _ => True)
      (hedgeCandidates crypto app storeHash path skip includeHedgingOptOuts expectedNarinfo)
      (upstreams * fetchTime) fun candidates _ => candidates.length ≤ upstreams := by
  rw [← Nat.zero_add (upstreams * fetchTime)]
  apply takes_call_bind (M := fun sorted _ => sorted.length ≤ upstreams)
  · rintro s sorted s' - ⟨hlen, rfl⟩
    exact ⟨le_rfl, hlen⟩
  intro sorted
  let eligible := (groupByKey UpstreamHealth.priority
    (sorted.filter (hedgeEligible app skip includeHedgingOptOuts))).flatMap Prod.snd
  have hlength : eligible.length ≤ sorted.length := by
    rw [(grouped_groupByKey UpstreamHealth.priority _).perm.length_eq]
    exact List.length_filter_le _ _
  intro s candidates s' hlen hexec
  have hreversed : Takes (reach.stopwatch app.registry.raceTimeout upstreams) Stopwatch.elapsed
      (fun _ => True) (candidatesAmong crypto app storeHash path expectedNarinfo eligible >>=
        fun candidates => pure candidates.reverse) (eligible.length * fetchTime + 0)
      fun candidates _ => candidates.length ≤ eligible.length := by
    apply (takes_candidatesAmong h storeHash path expectedNarinfo eligible).bind
    intro candidates
    exact takes_ret fun _ hle => (List.length_reverse).trans_le hle
  rcases hreversed s candidates s' trivial hexec with ⟨htime, hle⟩
  have hbound := hlength.trans hlen
  exact ⟨htime.trans (Nat.add_le_add_left (Nat.mul_le_mul_right _ hbound) _), hle.trans hbound⟩

theorem alone_of_hedgeCandidates {storeHash : Option Str} {path skip : Str}
    {includeHedgingOptOuts : Bool} {expectedNarinfo : Option NarInfo} :
    Performs Op.alone (hedgeCandidates crypto app storeHash path skip includeHedgingOptOuts
      expectedNarinfo) :=
  performs_hedgeCandidates trivial fun _ _ _ => trivial

/-! ## The handler -/

/-- How long the handler waits for upstreams at most: for a narinfo of each upstream, for an
attempt at each of them and at the routed one, and for the fallback. -/
def narTime (upstreams : ℕ) (fetchTime attemptTime delay : Duration) : Duration :=
  upstreams * fetchTime + (attemptTime + upstreams * (attemptTime + delay)) + attemptTime

/-- The candidates of a path are found and tried in time. -/
theorem takes_tryCandidates (h : app.AttemptsWithin time) {find : Handler (List NarCandidate)}
    (hfind : Takes (reach.stopwatch app.registry.raceTimeout upstreams) Stopwatch.elapsed
      (fun _ => True) find (upstreams * fetchTime)
      fun candidates _ => candidates.length ≤ upstreams)
    (halone : Performs Op.alone find) {f : List NarCandidate → Handler HedgeOutcome}
    (hf : ∀ candidates, f candidates = .ret .exhausted ∨
      ∃ method headers initial others, others.length ≤ candidates.length ∧
        f candidates = hedgedNar app method headers initial others) :
    Takes (reach.narStopwatch app upstreams) Stopwatch.elapsed (fun s => s.left = 0) (find >>= f)
      (upstreams * fetchTime + (time + upstreams * (time + app.narHedging.delay)))
      fun _ _ => True := by
  apply (takes_alone hfind halone).bind
  intro candidates s outcome s' hs hexec
  rcases hf candidates with hnone | ⟨method, headers, initial, others, hothers, hsome⟩
  · rw [hnone] at hexec
    rcases execution_ret_iff.1 hexec with ⟨rfl, rfl⟩
    exact ⟨Nat.le_add_right _ _, trivial⟩
  · rw [hsome] at hexec
    have hlength : others.length ≤ upstreams := hothers.trans hs.1
    rcases takes_hedgedNar h initial others s outcome s' hs.2 hexec with ⟨htime, -⟩
    have hbound := Nat.mul_le_mul_right (time + app.narHedging.delay) hlength
    exact ⟨htime.trans (Nat.add_le_add_left (Nat.add_le_add_left hbound _) _), trivial⟩

theorem takes_tryRouted (hfetch : reach.FetchesWithin app.registry fetchTime)
    (h : app.AttemptsWithin time) (request : ClientRequest) (entry : RouteEntry) :
    Takes (reach.narStopwatch app upstreams) Stopwatch.elapsed (fun s => s.left = 0)
      (tryRouted crypto app request entry)
      (upstreams * fetchTime + (time + upstreams * (time + app.narHedging.delay)))
      fun _ _ => True := by
  unfold tryRouted
  apply takes_tryCandidates h
  · split
    · exact takes_hedgeCandidates hfetch _ _ _ _ _
    · exact Takes.le (takes_ret fun _ _ => Nat.zero_le _) (Nat.zero_le _)
  · split
    · exact alone_of_hedgeCandidates
    · trivial
  · exact fun candidates => .inr ⟨_, _, _, candidates, le_rfl, rfl⟩

theorem takes_tryUnrouted (hfetch : reach.FetchesWithin app.registry fetchTime)
    (h : app.AttemptsWithin time) (request : ClientRequest) :
    Takes (reach.narStopwatch app upstreams) Stopwatch.elapsed (fun s => s.left = 0)
      (tryUnrouted crypto app request)
      (upstreams * fetchTime + (time + upstreams * (time + app.narHedging.delay)))
      fun _ _ => True := by
  apply takes_tryCandidates h (takes_hedgeCandidates hfetch _ _ _ _ _) alone_of_hedgeCandidates
  intro candidates
  cases hlast : candidates.getLast? with
  | none => exact .inl rfl
  | some initial =>
      refine .inr ⟨_, _, _, _, ?_, rfl⟩
      apply (List.length_filter_le _ _).trans
      rw [List.length_dropLast]
      exact Nat.sub_le _ _

theorem takes_tryFallbackNar (h : app.AttemptsWithin time) (request : ClientRequest) :
    Takes (reach.narStopwatch app upstreams) Stopwatch.elapsed (fun _ => True)
      (tryFallbackNar app request) time fun _ _ => True := by
  unfold tryFallbackNar
  split
  · exact Takes.le (takes_ret fun _ _ => trivial) (Nat.zero_le _)
  · next fallback hfallback =>
    rw [← Nat.add_zero time]
    apply takes_call_bind (M := fun _ _ => True)
    · rintro s answer s' - ⟨d, hle, rfl⟩
      have htimeout : app.narTimeout fallback.url ≤ time := h fallback.url
      exact ⟨Nat.add_le_add_left (hle.trans htimeout) _, trivial⟩
    · exact fun _ => takes_ret fun _ _ => trivial

/-- Every NAR request is answered or given up in time, whatever the upstreams do: however
they answer, or if they never do. -/
theorem takes_nar (hfetch : reach.FetchesWithin app.registry fetchTime)
    (h : app.AttemptsWithin time) {request : ClientRequest} {response : Option Response}
    {s s' : Stopwatch} (hs : s.left = 0)
    (hexec : Execution (reach.narStopwatch app upstreams) (nar crypto app request) s response s') :
    s'.elapsed ≤ s.elapsed + narTime upstreams fetchTime time app.narHedging.delay := by
  have hrouted : Takes (reach.narStopwatch app upstreams) Stopwatch.elapsed (fun s => s.left = 0)
      (routedNar request) 0 fun _ s => s.left = 0 := by
    have huntimed : Performs Op.untimed (routedNar request) := by
      refine ⟨trivial, fun reply => ?_⟩
      rcases reply with err | _ | entry
      · trivial
      · trivial
      · exact ⟨trivial, fun _ => trivial⟩
    have halone : Performs Op.alone (routedNar request) := by
      refine huntimed.mono fun op hop => ?_
      cases op <;> first | exact hop.elim | trivial
    exact (takes_alone (lasts_of_untimed huntimed 0) halone).mono (fun _ => id) le_rfl
      fun _ _ hend => hend.2
  have hnar : Takes (reach.narStopwatch app upstreams) Stopwatch.elapsed (fun s => s.left = 0)
      (nar crypto app request) (narTime upstreams fetchTime time app.narHedging.delay)
      fun _ _ => True := by
    unfold nar narTime
    apply Takes.bind (M := fun _ _ => True)
    · refine Takes.le (hrouted.bind fun route => ?_) (Nat.zero_add _).le
      cases route with
      | some entry => exact takes_tryRouted hfetch h request entry
      | none => exact takes_tryUnrouted hfetch h request
    · intro outcome
      cases outcome with
      | answered response => exact Takes.le (takes_ret fun _ _ => trivial) (Nat.zero_le _)
      | allDisabled => exact Takes.le (takes_ret fun _ _ => trivial) (Nat.zero_le _)
      | exhausted =>
          rw [← Nat.add_zero time]
          exact (takes_tryFallbackNar h request).bind fun _ => takes_ret fun _ _ => trivial
  exact (hnar s response s' hs hexec).1

end

/-! ## An upstream that does not answer -/

/-- A request for a path that no route names. -/
def unroutedRequest : ClientRequest := ⟨.get, "/nar/x.nar".toList, [], []⟩

/-- A request whose only upstream does not answer. -/
theorem execution_nar_silent :
    Execution (plainReach.narStopwatch hurriedApp 1) (nar default hurriedApp unroutedRequest)
      ⟨0, 0⟩ (some .notFound) ⟨60, 0⟩ := by
  let sem := plainReach.narStopwatch hurriedApp 1
  let candidate : NarCandidate := ⟨['u'], "/nar/x.nar".toList, .direct⟩
  have hread : sem (.dbGetRouteByNarUrl ("/nar/x.nar".toList.dropWhile (· = '/'))) ⟨0, 0⟩ (.ok none)
      ⟨0, 0⟩ := ⟨rfl, rfl⟩
  have hsorted : sem .sortedByLatency ⟨0, 0⟩ [.new ['u'] 30] ⟨0, 0⟩ := ⟨⟨le_rfl, rfl⟩, rfl⟩
  have hspawn : sem (.spawnNar candidate (narRequest hurriedApp .get [] candidate)) ⟨0, 0⟩ ()
      ⟨0, 60⟩ := rfl
  have hselect : sem (.selectNar [candidate] (timerEnabled hurriedApp .get [candidate] [])) ⟨0, 60⟩
      (.completed 0 .timeout) ⟨60, 0⟩ := ⟨60, le_rfl, rfl⟩
  have hloop : Execution sem (hedgeLoop hurriedApp .get [] [candidate] []) ⟨0, 60⟩ .exhausted
      ⟨60, 0⟩ := by
    rw [hedgeLoop, if_neg (by simp)]
    apply Execution.perform hselect
    show Execution sem (hedgeLoop hurriedApp .get [] [] []) _ _ _
    rw [hedgeLoop, if_pos (by simp)]
    exact .ret _ _
  have hhedged : Execution sem (hedgedNar hurriedApp .get [] candidate []) ⟨0, 0⟩ .exhausted
      ⟨60, 0⟩ := .perform hspawn hloop
  exact .perform hread (.perform hsorted (hhedged.bind (.ret _ _)))

/-- It is held up for the timeout of its only attempt, within the bound. -/
theorem takes_nar_silent :
    Execution (plainReach.narStopwatch hurriedApp 1) (nar default hurriedApp unroutedRequest)
        ⟨0, 0⟩ (some .notFound) ⟨60, 0⟩ ∧
      60 ≤ 0 + narTime 1 5 60 hurriedApp.narHedging.delay := by
  have hfetch : plainReach.FetchesWithin hurriedApp.registry 5 := fun _ => le_rfl
  have hattempts : hurriedApp.AttemptsWithin 60 := fun _ => le_rfl
  exact ⟨execution_nar_silent, takes_nar hfetch hattempts rfl execution_nar_silent⟩

end Ncro
