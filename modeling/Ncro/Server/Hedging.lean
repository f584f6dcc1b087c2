import Ncro.Server.Nar

/-!
# Hedged NAR requests

`HedgeRun` lists the ways the loop of `hedgedNar` can go when no attempt panics,
and every run of the loop is one of them. As there is always an attempt under
way while candidates are waiting, the select is never reached with all of its
branches disabled, and the candidates are exhausted only once all of them were
started and have failed.
-/

namespace Ncro

open Foundation Foundation.Process

/-- No attempt panics. -/
def noTaskPanics : (op : Op) → op.Reply → Prop
  | .selectNar _ _, .panicked _ => False
  | _, _ => True

/-- The attempt an event starts. -/
def startedAttempt : HandlerEvent → Option NarCandidate
  | ⟨.spawnNar candidate _, _⟩ => some candidate
  | _ => none

/-- The attempt an event ends, and its answer. -/
def finishedAttempt : HandlerEvent → Option (NarCandidate × NarAnswer)
  | ⟨.selectNar pending _, .completed i answer⟩ => some (pending.get i, answer)
  | _ => none

/-- The attempts started in some events, in order. -/
def startedNar (events : List HandlerEvent) : List NarCandidate :=
  events.filterMap startedAttempt

/-- The attempts that ended in some events, in order. -/
def finishedNar (events : List HandlerEvent) : List (NarCandidate × NarAnswer) :=
  events.filterMap finishedAttempt

/-! ## The loop -/

section Loop

variable {app : AppState} {method : Method} {headers : HeaderMap}

variable (app method) in
/-- Waiting for something to happen to the pending attempts. -/
abbrev selectOp (pending waiting : List NarCandidate) : Op :=
  .selectNar pending (timerEnabled app method pending waiting)

variable (app method headers) in
abbrev spawnEvent (candidate : NarCandidate) : HandlerEvent :=
  ⟨.spawnNar candidate (narRequest app method headers candidate), ()⟩

section

variable {pending waiting : List NarCandidate} {events : List HandlerEvent}

@[simp] theorem startedNar_select (reply : (selectOp app method pending waiting).Reply) :
    startedNar (⟨selectOp app method pending waiting, reply⟩ :: events) = startedNar events := rfl

@[simp] theorem startedNar_spawn (candidate : NarCandidate) :
    startedNar (spawnEvent app method headers candidate :: events)
      = candidate :: startedNar events := rfl

@[simp] theorem finishedNar_completed (i : Fin pending.length) (answer : NarAnswer) :
    finishedNar (⟨selectOp app method pending waiting, .completed i answer⟩ :: events)
      = (pending.get i, answer) :: finishedNar events := rfl

@[simp] theorem finishedNar_timer (h : timerEnabled app method pending waiting = true) :
    finishedNar (⟨selectOp app method pending waiting, .timer h⟩ :: events) = finishedNar events :=
  rfl

@[simp] theorem finishedNar_spawn (candidate : NarCandidate) :
    finishedNar (spawnEvent app method headers candidate :: events) = finishedNar events := rfl

@[simp] theorem startedNar_nil : startedNar [] = [] := rfl

@[simp] theorem finishedNar_nil : finishedNar [] = [] := rfl

end

variable (app method headers) in
/-- The runs of the loop in which no attempt panics. -/
inductive HedgeRun : List NarCandidate → List NarCandidate → List HandlerEvent → HedgeOutcome → Prop
  | exhausted : HedgeRun [] [] [] .exhausted
  | answered {pending waiting : List NarCandidate} (i : Fin pending.length) (answer : NarAnswer)
      {response : Response} (h : narResponse method (pending.get i) answer = some response) :
      HedgeRun pending waiting [⟨selectOp app method pending waiting, .completed i answer⟩]
        (.answered response)
  | failed {pending : List NarCandidate} {events : List HandlerEvent} {outcome : HedgeOutcome}
      (i : Fin pending.length) (answer : NarAnswer)
      (h : narResponse method (pending.get i) answer = none)
      (hrest : HedgeRun (pending.eraseIdx i) [] events outcome) :
      HedgeRun pending [] (⟨selectOp app method pending [], .completed i answer⟩ :: events) outcome
  | replaced {pending waiting : List NarCandidate} {candidate : NarCandidate}
      {events : List HandlerEvent} {outcome : HedgeOutcome}
      (i : Fin pending.length) (answer : NarAnswer)
      (h : narResponse method (pending.get i) answer = none)
      (hrest : HedgeRun (pending.eraseIdx i ++ [candidate]) waiting events outcome) :
      HedgeRun pending (candidate :: waiting)
        (⟨selectOp app method pending (candidate :: waiting), .completed i answer⟩ ::
          spawnEvent app method headers candidate :: events) outcome
  | hedged {pending waiting : List NarCandidate} {candidate : NarCandidate}
      {events : List HandlerEvent} {outcome : HedgeOutcome} (hpending : pending ≠ [])
      (h : timerEnabled app method pending (candidate :: waiting) = true)
      (hrest : HedgeRun (pending ++ [candidate]) waiting events outcome) :
      HedgeRun pending (candidate :: waiting)
        (⟨selectOp app method pending (candidate :: waiting), .timer h⟩ ::
          spawnEvent app method headers candidate :: events) outcome

/-- Every run of the loop without panics is one of these, if there is an attempt
under way while candidates are waiting. -/
theorem hedgeRun_of_run {pending waiting : List NarCandidate} {events : List HandlerEvent}
    {outcome : HedgeOutcome} (hpending : pending = [] → waiting = [])
    (h : Run noTaskPanics (hedgeLoop app method headers pending waiting) events outcome) :
    HedgeRun app method headers pending waiting events outcome := by
  induction hsize : 2 * waiting.length + pending.length using Nat.strongRecOn
    generalizing pending waiting events with
  | ind n ih =>
  rw [hedgeLoop] at h
  split at h
  · next hnil =>
    obtain ⟨rfl, rfl⟩ := hnil
    obtain ⟨rfl, rfl⟩ := run_ret_iff.1 h
    exact .exhausted
  · next hsome =>
    obtain ⟨reply, events, rfl, hreply, h⟩ := run_call_bind_iff.1 h
    cases reply with
    | panicked i => exact hreply.elim
    | allDisabled hnil htimer => exact absurd ⟨hnil, hpending hnil⟩ hsome
    | completed i answer =>
        have hlength : (pending.eraseIdx i).length + 1 = pending.length := by
          rw [List.length_eraseIdx_of_lt i.isLt]
          have := i.isLt
          omega
        cases hresponse : narResponse method (pending.get i) answer with
        | some response =>
            simp only [hresponse] at h
            obtain ⟨rfl, rfl⟩ := run_ret_iff.1 h
            exact .answered i answer hresponse
        | none =>
            simp only [hresponse] at h
            cases waiting with
            | nil =>
                exact .failed i answer hresponse
                  (ih _ (by simp at hsize ⊢; omega) (fun _ => rfl) h rfl)
            | cons candidate waiting =>
                obtain ⟨_, events, rfl, -, h⟩ := run_call_bind_iff.1 h
                exact .replaced i answer hresponse
                  (ih _ (by simp at hsize ⊢; omega) (fun hnil => by simp at hnil) h rfl)
    | timer htimer =>
        have hwaiting := ne_nil_of_timerEnabled htimer
        obtain ⟨candidate, waiting, rfl⟩ := List.exists_cons_of_ne_nil hwaiting
        obtain ⟨_, events, rfl, -, h⟩ := run_call_bind_iff.1 h
        have hne : pending ≠ [] := fun hnil => hwaiting (hpending hnil)
        exact .hedged hne htimer
          (ih _ (by simp at hsize ⊢; omega) (fun hnil => by simp at hnil) h rfl)

namespace HedgeRun

variable {pending waiting : List NarCandidate} {events : List HandlerEvent}
  {outcome : HedgeOutcome}

/-- Candidates are started in the order in which they wait. -/
theorem started (h : HedgeRun app method headers pending waiting events outcome) :
    startedNar events <+: waiting := by
  induction h with
  | exhausted => exact List.nil_prefix
  | answered i answer h => exact List.nil_prefix
  | failed i answer h _ ih => exact ih
  | replaced i answer h _ ih => exact (List.prefix_cons_inj _).2 ih
  | hedged hpending h _ ih => exact (List.prefix_cons_inj _).2 ih

/-- The select is only reached with an attempt under way. -/
theorem pending_ne_nil (h : HedgeRun app method headers pending waiting events outcome)
    (hpending : pending = [] → waiting = []) {selected : List NarCandidate} {timer : Bool}
    {reply : HedgeEvent selected timer} (hmem : ⟨.selectNar selected timer, reply⟩ ∈ events) :
    selected ≠ [] := by
  induction h with
  | exhausted => cases hmem
  | answered i answer h =>
      have heq := List.mem_singleton.1 hmem
      cases heq
      exact List.ne_nil_of_length_pos i.pos
  | failed i answer h _ ih =>
      rcases List.mem_cons.1 hmem with heq | hmem
      · cases heq
        exact List.ne_nil_of_length_pos i.pos
      · exact ih (fun _ => rfl) hmem
  | replaced i answer h _ ih =>
      rcases List.mem_cons.1 hmem with heq | hmem
      · cases heq
        exact List.ne_nil_of_length_pos i.pos
      · rcases List.mem_cons.1 hmem with heq | hmem
        · cases heq
        · exact ih (by simp) hmem
  | hedged hne h _ ih =>
      rcases List.mem_cons.1 hmem with heq | hmem
      · cases heq
        exact hne
      · rcases List.mem_cons.1 hmem with heq | hmem
        · cases heq
        · exact ih (by simp) hmem

/-- The first response is the answer, and without one the loop is exhausted. -/
theorem outcome_eq (h : HedgeRun app method headers pending waiting events outcome) :
    outcome = match (finishedNar events).findSome? fun f => narResponse method f.1 f.2 with
      | some response => .answered response
      | none => .exhausted := by
  induction h with
  | exhausted => rfl
  | answered i answer h => rw [finishedNar_completed, List.findSome?_cons, h]
  | failed i answer h _ ih => rw [ih, finishedNar_completed, List.findSome?_cons, h]
  | replaced i answer h _ ih =>
      rw [ih, finishedNar_completed, finishedNar_spawn, List.findSome?_cons, h]
  | hedged hpending h _ ih => exact ih

/-- In the end every attempt under way has finished and every candidate was
started, unless there is an answer. -/
theorem exhausted_perm (h : HedgeRun app method headers pending waiting events outcome)
    (hexhausted : outcome = .exhausted) :
    startedNar events = waiting ∧
      ((finishedNar events).map Prod.fst).Perm (pending ++ startedNar events) := by
  have hfinish : ∀ {pending : List NarCandidate} (i : Fin pending.length)
      {finished rest : List NarCandidate}, finished.Perm (pending.eraseIdx i ++ rest) →
      (pending.get i :: finished).Perm (pending ++ rest) := by
    intro pending i finished rest hperm
    refine (hperm.cons _).trans ?_
    rw [← List.cons_append]
    exact (List.getElem_cons_eraseIdx_perm i.isLt).append_right rest
  induction h with
  | exhausted => exact ⟨rfl, .nil⟩
  | answered i answer h => cases hexhausted
  | failed i answer h _ ih =>
      obtain ⟨hstarted, hperm⟩ := ih hexhausted
      exact ⟨hstarted, hfinish i hperm⟩
  | @replaced pending waiting candidate events outcome i answer h _ ih =>
      obtain ⟨hstarted, hperm⟩ := ih hexhausted
      refine ⟨congrArg (candidate :: ·) hstarted, hfinish i ?_⟩
      rwa [List.append_assoc] at hperm
  | @hedged pending waiting candidate events outcome hpending h _ ih =>
      obtain ⟨hstarted, hperm⟩ := ih hexhausted
      refine ⟨congrArg (candidate :: ·) hstarted, ?_⟩
      rwa [List.append_assoc] at hperm

/-- At any time there are at most `max 1 (maxInflight app)` attempts under way, if
there were no more to begin with. -/
theorem inflight (h : HedgeRun app method headers pending waiting events outcome)
    (hpending : pending.length ≤ max 1 (maxInflight app)) {past : List HandlerEvent}
    (hpast : past <+: events) :
    pending.length + (startedNar past).length ≤
      (finishedNar past).length + max 1 (maxInflight app) := by
  have hnil : ∀ {pending : List NarCandidate}, pending.length ≤ max 1 (maxInflight app) →
      pending.length + (startedNar []).length ≤
        (finishedNar []).length + max 1 (maxInflight app) := by simp
  have hlength : ∀ {pending : List NarCandidate} (i : Fin pending.length),
      (pending.eraseIdx i).length + 1 = pending.length := by
    intro pending i
    rw [List.length_eraseIdx_of_lt i.isLt]
    have := i.isLt
    omega
  induction h generalizing past with
  | exhausted =>
      rw [List.prefix_nil.1 hpast]
      exact hnil hpending
  | answered i answer h =>
      rcases List.prefix_cons_iff.1 hpast with rfl | ⟨tail, rfl, htail⟩
      · exact hnil hpending
      · rw [List.prefix_nil.1 htail]
        simp
        omega
  | failed i answer h _ ih =>
      have hi := hlength i
      rcases List.prefix_cons_iff.1 hpast with rfl | ⟨tail, rfl, htail⟩
      · exact hnil hpending
      · have hrest := ih (by omega) htail
        simp
        omega
  | replaced i answer h _ ih =>
      have hi := hlength i
      rcases List.prefix_cons_iff.1 hpast with rfl | ⟨tail, rfl, htail⟩
      · exact hnil hpending
      rcases List.prefix_cons_iff.1 htail with rfl | ⟨later, rfl, hlater⟩
      · simp
        omega
      · have hrest := ih (by simp; omega) hlater
        simp at hrest ⊢
        omega
  | @hedged pending _ _ _ _ hne h _ ih =>
      have hlt : pending.length < maxInflight app := by
        simp only [timerEnabled, Bool.and_eq_true, decide_eq_true_eq] at h
        exact h.1.2
      rcases List.prefix_cons_iff.1 hpast with rfl | ⟨tail, rfl, htail⟩
      · exact hnil hpending
      rcases List.prefix_cons_iff.1 htail with rfl | ⟨later, rfl, hlater⟩
      · simpa using hpending
      · have hrest := ih (by simp; omega) hlater
        simp at hrest ⊢
        omega

end HedgeRun

end Loop

/-! ## The whole request -/

/-- What is promised of a hedged request. -/
structure HedgeSpec (app : AppState) (method : Method) (initial : NarCandidate)
    (candidates : List NarCandidate) (events : List HandlerEvent) (outcome : HedgeOutcome) :
    Prop where
  /-- Every candidate is started at most once, and in the order of popping. -/
  started : startedNar events <+: initial :: candidates.reverse
  inflight : method = .get → ∀ past, past <+: events →
    (startedNar past).length ≤ (finishedNar past).length + max 1 (maxInflight app)
  /-- The select is reached only with an attempt to wait for. -/
  enabled : ∀ pending timer (reply : HedgeEvent pending timer),
    ⟨.selectNar pending timer, reply⟩ ∈ events → pending ≠ []
  not_allDisabled : outcome ≠ .allDisabled
  /-- The answer is the response of the first attempt that has one. -/
  answered : ∀ response, outcome = .answered response ↔
    (finishedNar events).findSome? (fun f => narResponse method f.1 f.2) = some response
  /-- There is no answer exactly when all were started and all have failed. -/
  exhausted : outcome = .exhausted ↔
    startedNar events = initial :: candidates.reverse ∧
      ((finishedNar events).map Prod.fst).Perm (startedNar events) ∧
      ∀ f ∈ finishedNar events, narResponse method f.1 f.2 = none

section

variable {app : AppState} {method : Method} {headers : HeaderMap}

variable (app method headers) in
theorem startedNar_map_spawnEvent (candidates : List NarCandidate) (events : List HandlerEvent) :
    startedNar (candidates.map (spawnEvent app method headers) ++ events)
      = candidates ++ startedNar events := by
  induction candidates with
  | nil => rfl
  | cons candidate candidates ih => exact congrArg (candidate :: ·) ih

variable (app method headers) in
theorem finishedNar_map_spawnEvent (candidates : List NarCandidate) (events : List HandlerEvent) :
    finishedNar (candidates.map (spawnEvent app method headers) ++ events)
      = finishedNar events := by
  induction candidates with
  | nil => rfl
  | cons candidate candidates ih => exact ih

/-- A loop that begins with some candidates just started. -/
theorem HedgeRun.spec {initial : NarCandidate} {pending waiting candidates : List NarCandidate}
    {events : List HandlerEvent} {outcome : HedgeOutcome}
    (h : HedgeRun app method headers pending waiting events outcome) (hne : pending ≠ [])
    (hall : pending ++ waiting = initial :: candidates.reverse)
    (hone : method = .get → pending.length ≤ 1) :
    HedgeSpec app method initial candidates
      (pending.map (spawnEvent app method headers) ++ events) outcome := by
  have hstarted := startedNar_map_spawnEvent app method headers pending events
  have hfinished := finishedNar_map_spawnEvent app method headers pending events
  have houtcome := h.outcome_eq
  refine ⟨?_, fun hget past hpast => ?_, fun selected timer reply hmem => ?_, ?_,
    fun response => ?_, ?_⟩
  · rw [hstarted, ← hall]
    exact (List.prefix_append_right_inj _).2 h.started
  · obtain ⟨candidate, rfl⟩ := List.length_eq_one_iff.1
      (le_antisymm (hone hget) (List.length_pos_iff.2 hne))
    rcases List.prefix_cons_iff.1 hpast with rfl | ⟨tail, rfl, htail⟩
    · simp
    · have hinflight := h.inflight (by simp) htail
      simp at hinflight ⊢
      omega
  · rcases List.mem_append.1 hmem with hmem | hmem
    · obtain ⟨candidate, -, heq⟩ := List.mem_map.1 hmem
      cases heq
    · exact h.pending_ne_nil (fun hnil => absurd hnil hne) hmem
  · rw [houtcome]
    split <;> simp
  · rw [hfinished, houtcome]
    split
    · next response' hfirst => rw [hfirst, HedgeOutcome.answered.injEq, Option.some.injEq]
    · next hnone => simp [hnone]
  · rw [hstarted, hfinished]
    constructor
    · intro hexhausted
      obtain ⟨hwaiting, hperm⟩ := h.exhausted_perm hexhausted
      refine ⟨by rw [hwaiting, hall], hperm, ?_⟩
      rw [houtcome] at hexhausted
      split at hexhausted
      · cases hexhausted
      · next hnone => exact List.findSome?_eq_none_iff.1 hnone
    · rintro ⟨-, -, hfailed⟩
      rw [houtcome, List.findSome?_eq_none_iff.2 hfailed]

theorem run_spawnAll {candidates : List NarCandidate} {allowed : (op : Op) → op.Reply → Prop}
    {events : List HandlerEvent}
    (h : Run allowed (spawnAll app method headers candidates) events ()) :
    events = candidates.map (spawnEvent app method headers) := by
  induction candidates generalizing events with
  | nil => exact (run_ret_iff.1 h).1
  | cons candidate candidates ih =>
      obtain ⟨_, tail, rfl, -, h⟩ := run_call_bind_iff.1 h
      rw [ih h]
      rfl

theorem run_hedgedNar_spec {initial : NarCandidate} {candidates : List NarCandidate}
    {events : List HandlerEvent} {outcome : HedgeOutcome}
    (h : Run noTaskPanics (hedgedNar app method headers initial candidates) events outcome) :
    HedgeSpec app method initial candidates events outcome := by
  obtain ⟨_, events, rfl, -, h⟩ := run_call_bind_iff.1 h
  split at h
  · next hhead =>
    obtain ⟨spawned, _, tail, rfl, hspawned, h⟩ := run_bind_iff.1 h
    rw [run_spawnAll hspawned]
    exact (hedgeRun_of_run (fun _ => rfl) h).spec (by simp) (by simp)
      (by simp [hhead.1])
  · exact (hedgeRun_of_run (by simp) h).spec (by simp) (by simp) (by simp)

/-! ## The order of the candidates -/

/-- `candidates` is popped in ascending order of the priorities, and within a
priority in the order in which the prober sorted the upstreams. -/
def PopOrder (app : AppState) (skip : Str) (includeHedgingOptOuts : Bool)
    (sorted : List UpstreamHealth) (candidates : List NarCandidate) : Prop :=
  ∃ chosen : List UpstreamHealth,
    candidates.reverse.map NarCandidate.upstream = chosen.map UpstreamHealth.url ∧
    (chosen.Pairwise fun a b => a.priority ≤ b.priority) ∧
    ∀ priority, (chosen.filter fun h => h.priority = priority).Sublist
      (sorted.filter (hedgeEligible app skip includeHedgingOptOuts))

variable {crypto : Crypto} {allowed : (op : Op) → op.Reply → Prop} {storeHash : Option Str}
  {path : Str} {expectedNarinfo : Option NarInfo}

/-- The candidates are some of the upstreams, in their order. -/
theorem run_candidatesAmong_sublist {healths : List UpstreamHealth} {events : List HandlerEvent}
    {candidates : List NarCandidate}
    (h : Run allowed (candidatesAmong crypto app storeHash path expectedNarinfo healths) events
      candidates) :
    ∃ chosen : List UpstreamHealth, chosen.Sublist healths ∧
      candidates.map NarCandidate.upstream = chosen.map UpstreamHealth.url := by
  induction healths generalizing events candidates with
  | nil =>
      obtain ⟨-, rfl⟩ := run_ret_iff.1 h
      exact ⟨[], .slnil, rfl⟩
  | cons health healths ih =>
      obtain ⟨_, found, _, rfl, -, h⟩ := run_bind_iff.1 h
      obtain ⟨_, rest, _, rfl, hrest, h⟩ := run_bind_iff.1 h
      obtain ⟨chosen, hsub, hmap⟩ := ih hrest
      cases found with
      | error err =>
          obtain ⟨-, rfl⟩ := run_ret_iff.1 h
          exact ⟨chosen, hsub.cons health, hmap⟩
      | ok candidatePath =>
          obtain ⟨-, rfl⟩ := run_ret_iff.1 h
          exact ⟨health :: chosen, hsub.cons_cons health, congrArg (health.url :: ·) hmap⟩

theorem run_hedgeCandidates_popOrder {skip : Str} {includeHedgingOptOuts : Bool}
    {events : List HandlerEvent} {candidates : List NarCandidate}
    (h : Run allowed (hedgeCandidates crypto app storeHash path skip includeHedgingOptOuts
      expectedNarinfo) events candidates) :
    ∃ sorted : List UpstreamHealth, (⟨.sortedByLatency, sorted⟩ : HandlerEvent) ∈ events ∧
      PopOrder app skip includeHedgingOptOuts sorted candidates := by
  obtain ⟨sorted, events, rfl, -, h⟩ := run_call_bind_iff.1 h
  obtain ⟨_, among, _, rfl, hamong, h⟩ := run_bind_iff.1 h
  obtain ⟨-, rfl⟩ := run_ret_iff.1 h
  obtain ⟨chosen, hsub, hmap⟩ := run_candidatesAmong_sublist hamong
  have hgrouped := grouped_groupByKey UpstreamHealth.priority
    (sorted.filter (hedgeEligible app skip includeHedgingOptOuts))
  refine ⟨sorted, List.mem_cons_self, chosen, by rwa [List.reverse_reverse],
    hgrouped.flatMap_ascending.sublist hsub, fun priority => ?_⟩
  have hpriority := hsub.filter fun health => health.priority = priority
  rw [hgrouped.filter_flatMap] at hpriority
  exact hpriority.trans List.filter_sublist

end

/-- The candidates are among the upstreams that are considered. -/
theorem PopOrder.exists_health {app : AppState} {skip : Str} {includeHedgingOptOuts : Bool}
    {sorted : List UpstreamHealth} {candidates : List NarCandidate}
    (h : PopOrder app skip includeHedgingOptOuts sorted candidates) {candidate : NarCandidate}
    (hcandidate : candidate ∈ candidates) :
    ∃ health ∈ sorted, hedgeEligible app skip includeHedgingOptOuts health = true ∧
      health.url = candidate.upstream := by
  obtain ⟨chosen, hmap, -, hsub⟩ := h
  have hmem : candidate.upstream ∈ chosen.map UpstreamHealth.url := by
    rw [← hmap]
    exact List.mem_map_of_mem (List.mem_reverse.2 hcandidate)
  obtain ⟨health, hhealth, hurl⟩ := List.mem_map.1 hmem
  have hin := (hsub health.priority).subset (List.mem_filter.2 ⟨hhealth, by simp⟩)
  obtain ⟨hsorted, heligible⟩ := List.mem_filter.1 hin
  exact ⟨health, hsorted, heligible, hurl⟩

/-! ## Conclusion -/

/-- NAR hedging is exhaustive, bounded and ordered. Without panicking attempts,
every run of a hedged request meets `HedgeSpec`, whatever finishes when and
whenever the timer fires, and the candidates it starts further attempts from are
popped in the order of their priorities and then of their health. -/
theorem nar_hedging (crypto : Crypto) (app : AppState) :
    (∀ method headers initial candidates events outcome,
      Run noTaskPanics (hedgedNar app method headers initial candidates) events outcome →
        HedgeSpec app method initial candidates events outcome) ∧
    ∀ storeHash path skip includeHedgingOptOuts expectedNarinfo events candidates,
      Run noTaskPanics (hedgeCandidates crypto app storeHash path skip includeHedgingOptOuts
        expectedNarinfo) events candidates →
      ∃ sorted : List UpstreamHealth, (⟨.sortedByLatency, sorted⟩ : HandlerEvent) ∈ events ∧
        PopOrder app skip includeHedgingOptOuts sorted candidates :=
  ⟨fun _ _ _ _ _ _ => run_hedgedNar_spec, fun _ _ _ _ _ _ _ => run_hedgeCandidates_popOrder⟩

/-- The first upstream is slow, the second one is hedged and has the NAR. -/
theorem nar_hedging_two :
    let app : AppState := { (default : AppState) with narHedging := ⟨true, 0, 2⟩ }
    let first : NarCandidate := ⟨['a'], ['n'], .direct⟩
    let second : NarCandidate := ⟨['b'], ['n'], .hedge⟩
    HedgeSpec app .get first [second]
      [spawnEvent app .get [] first, ⟨selectOp app .get [first] [second], .timer rfl⟩,
        spawnEvent app .get [] second,
        ⟨selectOp app .get [first, second] [], .completed 1 (.response 200 (some []))⟩]
      (.answered ⟨200, .stream, some (['b'], .hedge)⟩) ∧
    ∃ sorted : List UpstreamHealth,
      (⟨.sortedByLatency, sorted⟩ : HandlerEvent) ∈
        ([⟨.sortedByLatency, [.new ['b'] 2, .new ['a'] 1]⟩] : List HandlerEvent) ∧
      PopOrder app [] true sorted [⟨['b'], ['n'], .hedge⟩, ⟨['a'], ['n'], .hedge⟩] := by
  intro app first second
  have hall := nar_hedging default app
  constructor
  · refine hall.1 .get [] first [second] _ _ (.perform trivial ?_)
    rw [if_neg (by decide), hedgeLoop, if_neg (by decide)]
    refine .perform trivial (.perform trivial ?_)
    show Run _ (hedgeLoop app .get [] [first, second] []) _ _
    rw [hedgeLoop, if_neg (by decide)]
    exact .perform trivial (.ret _)
  · exact hall.2 none ['n'] [] true none _ _ (.perform trivial (.ret _))

end Ncro
