import Ncro.Foundation.Deadline
import Ncro.Router.Race

/-!
# The two clocks of a race

Each `HEAD` request of a race has the timeout of its upstream, and the race has
a deadline of its own, the race timeout. Fix what every upstream answers and
when. An answer counts if it comes before both, so an upstream's own timeout
cannot give it longer than the race timeout.
-/

namespace Ncro

open Foundation Foundation.Process

/-! ## Timed answers -/

/-- How each upstream ends a `HEAD` request, and after how long; `⊤` if it never does. -/
structure TimedAnswers where
  head : Str → HeadOutcome
  delay : Str → WithTop Duration

/-- The time a request has. -/
def UpstreamRequest.limit (request : UpstreamRequest) : WithTop Duration :=
  match request.timeout with
  | some timeout => timeout
  | none => ⊤

namespace TimedAnswers

variable (answers : TimedAnswers)

/-- A request ends with its answer or with its timeout. -/
def endsAt (request : UpstreamRequest) : WithTop Duration :=
  min (answers.delay request.upstream) request.limit

/-- What a request may end with: an answer in time, or a timeout. -/
def Ends (request : UpstreamRequest) (answer : HeadAnswer) : Prop :=
  (answers.delay request.upstream ≤ request.limit ∧
      (answers.head request.upstream).Matches answer) ∨
    (request.limit ≤ answers.delay request.upstream ∧ answer = .networkError)

/-- An upstream answers with success, and before a point in time. -/
def SucceedsBefore (upstream : Str) (time : WithTop Duration) : Prop :=
  answers.head upstream = .found ∧ answers.delay upstream < time

/-- The operations of a race, with the time since its requests were sent. The gates have permits,
and nothing but waiting takes time. -/
def timed (deadline : Duration) : Semantics Op Op.Reply Duration
  | .spawnHeads _, _, _, elapsed' => elapsed' = 0
  | .joinHead pending, elapsed, reply, elapsed' =>
      Awaits answers.endsAt deadline pending elapsed (reply.map Prod.fst) elapsed' ∧
        ∀ i answer, reply = some (i, answer) → answers.Ends (pending.get i) answer
  | _, elapsed, _, elapsed' => elapsed' = elapsed

end TimedAnswers

section

variable {answers : TimedAnswers} {deadline elapsed elapsed' : Duration}

/-- A request whose upstream succeeds in time ends with that answer. -/
theorem TimedAnswers.Ends.exists_found {request : UpstreamRequest} {answer : HeadAnswer}
    {time : WithTop Duration} (h : answers.Ends request answer)
    (hsucceeds : answers.SucceedsBefore request.upstream (min request.limit time)) :
    ∃ latencyMs, answer = .found latencyMs := by
  rcases hsucceeds with ⟨hhead, hdelay⟩
  have hlimit := hdelay.trans_le (min_le_left _ _)
  rcases h with ⟨-, hmatch⟩ | ⟨hexpired, -⟩
  · rw [hhead] at hmatch
    exact hmatch.exists_found
  · exact absurd hlimit (not_lt.2 hexpired)

/-- A request that ends ends somehow, and with success only if its upstream succeeds in time. -/
theorem TimedAnswers.exists_ends {request : UpstreamRequest} {time : WithTop Duration}
    (htime : answers.endsAt request < time) :
    ∃ answer, answers.Ends request answer ∧
      ∀ latencyMs, answer = .found latencyMs →
        answers.SucceedsBefore request.upstream (min request.limit time) := by
  by_cases hlimit : request.limit ≤ answers.delay request.upstream
  · exact ⟨.networkError, Or.inr ⟨hlimit, rfl⟩, nofun⟩
  · have hdelay := not_le.1 hlimit
    rw [endsAt, min_eq_left hdelay.le] at htime
    rcases (answers.head request.upstream).exists_matches with ⟨answer, hmatch⟩
    refine ⟨answer, Or.inl ⟨hdelay.le, hmatch⟩, ?_⟩
    rintro latencyMs rfl
    exact ⟨HeadOutcome.matches_found_iff.1 hmatch, lt_min hdelay htime⟩

/-! ## The loop of a race -/

variable {group : List Str} {pending : List UpstreamRequest}
  {hpending : ∀ request ∈ pending, request.upstream ∈ group} {netErrs notFounds : ℕ}
  {result : Except RaceGroupError (Winner group)}

/-- While a request is pending whose upstream succeeds in time, the race will have a winner. -/
theorem execution_joinHeads_winner
    (h : Execution (answers.timed deadline) (joinHeads group pending hpending netErrs notFounds)
      elapsed result elapsed')
    (hsucceeds : ∃ request ∈ pending,
      answers.SucceedsBefore request.upstream (min request.limit deadline)) :
    ∃ winner, result = .ok winner := by
  induction hlen : pending.length generalizing pending netErrs notFounds elapsed with
  | zero =>
      rcases hsucceeds with ⟨request, hrequest, -⟩
      rw [List.length_eq_zero_iff.1 hlen] at hrequest
      cases hrequest
  | succ n ih =>
      rcases hsucceeds with ⟨request, hrequest, hsucceeds⟩
      rw [joinHeads, if_neg (List.ne_nil_of_mem hrequest)] at h
      rcases execution_call_bind_iff.1 h with ⟨reply, elapsed₁, ⟨hawaits, hends⟩, h⟩
      have hbefore : answers.endsAt request < deadline :=
        (min_le_left _ _).trans_lt (hsucceeds.2.trans_le (min_le_right _ _))
      rcases hawaits.exists_next hrequest hbefore with ⟨_, hnext⟩
      rcases Option.map_eq_some_iff.1 hnext with ⟨⟨i, answer⟩, rfl, -⟩
      have hlen' : (pending.eraseIdx i).length = n := by
        rw [List.length_eraseIdx_of_lt i.isLt]
        omega
      rcases List.mem_cons.1 ((List.getElem_cons_eraseIdx_perm i.isLt).mem_iff.2 hrequest) with
        rfl | hrest
      · rcases (hends i answer rfl).exists_found hsucceeds with ⟨latencyMs, rfl⟩
        rcases execution_ret_iff.1 h with ⟨rfl, -⟩
        exact ⟨_, rfl⟩
      · cases answer with
        | found latencyMs =>
            rcases execution_ret_iff.1 h with ⟨rfl, -⟩
            exact ⟨_, rfl⟩
        | miss => exact ih h ⟨request, hrest, hsucceeds⟩ hlen'
        | networkError =>
            rcases execution_call_bind_iff.1 h with ⟨-, elapsed₂, -, h⟩
            exact ih h ⟨request, hrest, hsucceeds⟩ hlen'
        | joinError => exact ih h ⟨request, hrest, hsucceeds⟩ hlen'

/-- The race comes to an end, and has a winner only if some upstream succeeds in time. -/
theorem exists_execution_joinHeads (hdeadline : elapsed ≤ deadline)
    (hfirst : ∀ request ∈ pending, elapsed ≤ answers.endsAt request) :
    ∃ result elapsed', Execution (answers.timed deadline)
        (joinHeads group pending hpending netErrs notFounds) elapsed result elapsed' ∧
      ∀ winner, result = .ok winner → ∃ request ∈ pending,
        answers.SucceedsBefore request.upstream (min request.limit deadline) := by
  induction hlen : pending.length generalizing pending netErrs notFounds elapsed with
  | zero =>
      rw [joinHeads, if_pos (List.length_eq_zero_iff.1 hlen)]
      exact ⟨_, _, Execution.ret _ _, fun winner heq => by cases heq⟩
  | succ n ih =>
      have hne : pending ≠ [] := by
        rintro rfl
        cases hlen
      rw [joinHeads, if_neg hne]
      rcases exists_awaits hdeadline hfirst with ⟨next, elapsed₁, hawaits, hbefore⟩
      cases next with
      | none =>
          have hjoin : answers.timed deadline (.joinHead pending) elapsed none elapsed₁ :=
            ⟨hawaits, fun j other heq => by cases heq⟩
          exact ⟨_, elapsed₁, Execution.call_bind hjoin (Execution.ret _ _),
            fun winner heq => by cases heq⟩
      | some i =>
          rcases TimedAnswers.exists_ends (hbefore i rfl) with ⟨answer, hends, hfound⟩
          have hjoin : answers.timed deadline (.joinHead pending) elapsed (some (i, answer))
              elapsed₁ := by
            refine ⟨hawaits, fun j other heq => ?_⟩
            cases heq
            exact hends
          -- what is left of the race, whatever has been counted so far
          have hrest : ∀ netErrs notFounds, ∃ result elapsed', Execution (answers.timed deadline)
              (joinHeads group (pending.eraseIdx i)
                (fun request h => hpending request (List.mem_of_mem_eraseIdx h)) netErrs notFounds)
                elapsed₁ result elapsed' ∧
              ∀ winner, result = .ok winner → ∃ request ∈ pending,
                answers.SucceedsBefore request.upstream (min request.limit deadline) := by
            intro netErrs notFounds
            have hlater : ∀ request ∈ pending.eraseIdx i, elapsed₁ ≤ answers.endsAt request :=
              fun request hrequest => hawaits.first request (List.mem_of_mem_eraseIdx hrequest)
            have hlen' : (pending.eraseIdx i).length = n := by
              rw [List.length_eraseIdx_of_lt i.isLt]
              omega
            rcases ih hawaits.le_deadline hlater hlen' with ⟨result, elapsed₂, hexec, hwinner⟩
            refine ⟨result, elapsed₂, hexec, fun winner hok => ?_⟩
            rcases hwinner winner hok with ⟨request, hrequest, hsucceeds⟩
            exact ⟨request, List.mem_of_mem_eraseIdx hrequest, hsucceeds⟩
          cases answer with
          | found latencyMs =>
              refine ⟨_, elapsed₁, Execution.call_bind hjoin (Execution.ret _ _), fun _ _ => ?_⟩
              exact ⟨pending.get i, List.get_mem pending i, hfound latencyMs rfl⟩
          | miss =>
              rcases hrest netErrs (notFounds + 1) with ⟨result, elapsed₂, hexec, hwinner⟩
              exact ⟨result, elapsed₂, Execution.call_bind hjoin hexec, hwinner⟩
          | networkError =>
              rcases hrest (netErrs + 1) notFounds with ⟨result, elapsed₂, hexec, hwinner⟩
              refine ⟨result, elapsed₂, Execution.call_bind hjoin ?_, hwinner⟩
              exact Execution.call_bind (r := ()) rfl hexec
          | joinError =>
              rcases hrest (netErrs + 1) notFounds with ⟨result, elapsed₂, hexec, hwinner⟩
              exact ⟨result, elapsed₂, Execution.call_bind hjoin hexec, hwinner⟩

end

/-! ## A group -/

section

variable {reg : Registry} {answers : TimedAnswers} {storeHash : Str} {group : List Str} {hop : Hop}

/-- A race of a group always has a winner exactly if some upstream succeeds before its own timeout
and before the race timeout. -/
theorem raceGroup_winner_iff {elapsed : Duration} :
    (∀ result elapsed', Execution (answers.timed reg.raceTimeout)
      (raceGroup reg storeHash group hop) elapsed result elapsed' →
        ∃ winner, result = .ok winner) ↔
      ∃ upstream ∈ group, answers.SucceedsBefore upstream
        (min (reg.narinfoTimeout upstream : Duration) (reg.raceTimeout : Duration)) := by
  have hrequests : (∃ request ∈ group.map (headRequest reg storeHash hop),
      answers.SucceedsBefore request.upstream (min request.limit (reg.raceTimeout : Duration))) ↔
      ∃ upstream ∈ group, answers.SucceedsBefore upstream
        (min (reg.narinfoTimeout upstream : Duration) (reg.raceTimeout : Duration)) := by
    simp only [List.mem_map, exists_exists_and_eq_and, headRequest, UpstreamRequest.limit]
  rw [← hrequests]
  constructor
  · intro hall
    rcases exists_execution_joinHeads (Nat.zero_le reg.raceTimeout)
      (fun request _ => bot_le) with ⟨result, elapsed', hexec, hwinner⟩
    rcases hall result elapsed' (Execution.call_bind (r := ()) rfl hexec) with ⟨winner, hok⟩
    exact hwinner winner hok
  · intro hsucceeds result elapsed' h
    rcases execution_call_bind_iff.1 h with ⟨-, _, -, h⟩
    exact execution_joinHeads_winner h hsucceeds

/-- The race honours the timeouts of its upstreams: it has a winner whenever some upstream
succeeds before its own timeout. -/
def HonoursTimeouts (reg : Registry) (answers : TimedAnswers) (storeHash : Str)
    (group : List Str) (hop : Hop) : Prop :=
  (∃ upstream ∈ group,
    answers.SucceedsBefore upstream (reg.narinfoTimeout upstream : Duration)) →
  ∀ result elapsed, Execution (answers.timed reg.raceTimeout)
    (raceGroup reg storeHash group hop) 0 result elapsed → ∃ winner, result = .ok winner

/-- When the race honours the timeouts of its upstreams. -/
theorem raceGroup_honoursTimeouts_iff (reg : Registry) (answers : TimedAnswers) (storeHash : Str)
    (group : List Str) (hop : Hop) :
    HonoursTimeouts reg answers storeHash group hop ↔
      ((∃ upstream ∈ group,
        answers.SucceedsBefore upstream (reg.narinfoTimeout upstream : Duration)) →
      ∃ upstream ∈ group, answers.SucceedsBefore upstream
        (min (reg.narinfoTimeout upstream : Duration) (reg.raceTimeout : Duration))) :=
  imp_congr_right fun _ => raceGroup_winner_iff

/-- Timeouts that are no longer than the race timeout are honoured. -/
theorem honoursTimeouts_of_le
    (hshort : ∀ upstream ∈ group, reg.narinfoTimeout upstream ≤ reg.raceTimeout) :
    HonoursTimeouts reg answers storeHash group hop := by
  rintro ⟨upstream, hupstream, hsucceeds⟩
  apply raceGroup_winner_iff.2
  have hshort := WithTop.coe_le_coe.2 (hshort upstream hupstream)
  exact ⟨upstream, hupstream, hsucceeds.1, lt_min hsucceeds.2 (hsucceeds.2.trans_le hshort)⟩

end

/-! ## An upstream that is given longer -/

/-- One upstream is given ten seconds, twice the race timeout. -/
def patientRegistry : Registry :=
  { (default : Registry) with
    narinfoTimeouts := setEntry (default : Registry).narinfoTimeouts ['u'] (some (10 * 10 ^ 9)) }

/-- It succeeds after six seconds. -/
def slowAnswers : TimedAnswers where
  head _ := .found
  delay _ := (6 * 10 ^ 9 : Duration)

/-- The race is over after five seconds. -/
theorem raceGroup_cuts_override :
    ¬ HonoursTimeouts patientRegistry slowAnswers ['h'] [['u']] .client := by
  intro h
  have hsucceeds : slowAnswers.SucceedsBefore ['u']
      (patientRegistry.narinfoTimeout ['u'] : Duration) := by
    refine ⟨rfl, WithTop.coe_lt_coe.2 ?_⟩
    change 6 * 10 ^ 9 < 10 * 10 ^ 9
    norm_num
  have hwait : slowAnswers.timed patientRegistry.raceTimeout
      (.joinHead [headRequest patientRegistry ['h'] .client ['u']]) 0 none (5 * 10 ^ 9) := by
    refine ⟨⟨Nat.zero_le _, le_refl _, ?_, nofun, fun _ => rfl⟩, nofun⟩
    intro request hrequest
    cases List.mem_singleton.1 hrequest
    apply le_min
    · apply WithTop.coe_le_coe.2
      norm_num
    · apply WithTop.coe_le_coe.2
      change 5 * 10 ^ 9 ≤ 10 * 10 ^ 9
      norm_num
  have hrace : Execution (slowAnswers.timed patientRegistry.raceTimeout)
      (raceGroup patientRegistry ['h'] [['u']] .client) 0 (.error .timeout) (5 * 10 ^ 9) := by
    have hspawn : slowAnswers.timed patientRegistry.raceTimeout
        (.spawnHeads [headRequest patientRegistry ['h'] .client ['u']]) 0 () 0 := rfl
    apply Execution.call_bind hspawn
    rw [joinHeads, if_neg (by simp)]
    exact Execution.call_bind hwait (Execution.ret _ _)
  rcases h ⟨['u'], List.mem_singleton_self _, hsucceeds⟩ _ _ hrace with ⟨winner, hok⟩
  cases hok

end Ncro
