import Ncro.Router.Resolve
import Mathlib.Data.List.Perm.Basic

/-!
# Completeness of the race

Fix what every upstream answers: its priority, whether it is cooling down, how
it ends a `HEAD` request and what it replies to a narinfo fetch. `Answers.allows`
is then the race's environment, in which the `HEAD` answers of a group may
arrive in any order, no deadline expires and no database write fails. The race
finds an acceptable candidate whenever there is one, whatever the order.
-/

namespace Ncro

open Foundation Foundation.Process

/-! ## Fixed answers -/

/-- How an upstream ends a `HEAD` request. -/
inductive HeadOutcome
  | found
  | miss
  | error
  deriving DecidableEq, Repr

/-- Whether an answer met by the race is the given outcome. A found path comes
with a latency that is not fixed. -/
def HeadOutcome.Matches : HeadOutcome → HeadAnswer → Prop
  | .found, .found _ => True
  | .miss, .miss => True
  | .error, .networkError => True
  | _, _ => False

/-- Every outcome is met by some answer. -/
theorem HeadOutcome.exists_matches (outcome : HeadOutcome) : ∃ answer, outcome.Matches answer := by
  cases outcome with
  | found => exact ⟨.found default, trivial⟩
  | miss => exact ⟨.miss, trivial⟩
  | error => exact ⟨.networkError, trivial⟩

theorem HeadOutcome.matches_found_iff {outcome : HeadOutcome} {latencyMs : Double} :
    outcome.Matches (.found latencyMs) ↔ outcome = .found := by
  cases outcome <;> simp [Matches]

/-- An upstream that has the path answers so. -/
theorem HeadOutcome.Matches.exists_found {answer : HeadAnswer}
    (h : HeadOutcome.found.Matches answer) : ∃ latencyMs, answer = .found latencyMs := by
  cases answer with
  | found latencyMs => exact ⟨latencyMs, rfl⟩
  | miss => cases h
  | networkError => cases h
  | joinError => cases h

theorem HeadOutcome.Matches.ne_found {outcome : HeadOutcome} {answer : HeadAnswer}
    (h : outcome.Matches answer) (hanswer : ∀ latencyMs, answer ≠ .found latencyMs) :
    outcome ≠ .found := by
  rintro rfl
  rcases h.exists_found with ⟨latencyMs, hfound⟩
  exact hanswer latencyMs hfound

/-- What each upstream answers, and which of them are cooling down. -/
structure Answers where
  priority : Str → Option ℤ
  cooling : Str → Bool
  head : Str → HeadOutcome
  narinfo : Str → Except BackendError (Option Octets)

namespace Answers

/-- The priority an upstream is raced with. -/
def rank (answers : Answers) (url : Str) : ℤ :=
  (answers.priority url).getD 2147483647

/-- The replies of an environment that gives these answers. -/
def allows (answers : Answers) : (op : Op) → op.Reply → Prop
  | .getHealth url, health => health.map UpstreamHealth.priority = answers.priority url
  | .inCooldown url, cooling => cooling = answers.cooling url
  | .joinHead pending, reply => pending ≠ [] →
      ∃ i answer, reply = some (i, answer) ∧ (answers.head (pending.get i).upstream).Matches answer
  | .getBytes request, reply => reply = answers.narinfo request.upstream
  | .dbUpsertRoute _, reply => reply = .ok ()
  | .dbEvictIfNeeded, reply => reply = .ok ()
  | .acquireRacePermit, granted => granted = true
  | _, _ => True

/-- The candidates that are raced: those not cooling down, or all of them. -/
def effective (answers : Answers) (candidates : List Str) : List Str :=
  let filtered := candidates.filter fun url => !answers.cooling url
  if filtered = [] then candidates else filtered

/-- `url` has the path and its narinfo is accepted. -/
def Acceptable (crypto : Crypto) (reg : Registry) (answers : Answers) (url : Str) : Prop :=
  answers.head url = .found ∧
    ∃ body parsed, checkNarinfo crypto reg url (answers.narinfo url) = .ok (body, parsed) ∧
      reg.allows url parsed = true

/-- Every operation gets a reply. -/
theorem exists_allowed (answers : Answers) (op : Op) : ∃ reply, answers.allows op reply := by
  cases op with
  | getHealth url =>
      refine ⟨(answers.priority url).map (UpstreamHealth.new url), ?_⟩
      cases hpriority : answers.priority url <;> simp [allows, hpriority, UpstreamHealth.new]
  | inCooldown url => exact ⟨answers.cooling url, rfl⟩
  | joinHead pending =>
      by_cases hne : pending = []
      · exact ⟨none, fun h => absurd hne h⟩
      · let i : Fin pending.length := ⟨0, List.length_pos_iff.2 hne⟩
        obtain ⟨answer, hmatch⟩ := (answers.head (pending.get i).upstream).exists_matches
        exact ⟨some (i, answer), fun _ => ⟨i, answer, rfl, hmatch⟩⟩
  | getBytes request => exact ⟨answers.narinfo request.upstream, rfl⟩
  | dbUpsertRoute entry => exact ⟨.ok (), rfl⟩
  | dbEvictIfNeeded => exact ⟨.ok (), rfl⟩
  | acquireRacePermit => exact ⟨true, rfl⟩
  | _ => exact ⟨default, trivial⟩

theorem racePriority_of_allows {answers : Answers} {url : Str} {health : Option UpstreamHealth}
    (h : answers.allows (.getHealth url) health) : racePriority health = answers.rank url := by
  have hpriority : health.map UpstreamHealth.priority = answers.priority url := h
  unfold rank
  rw [← hpriority]
  cases health <;> rfl

end Answers

/-! ## Counting requests -/

/-- How often the narinfo of an upstream was fetched. -/
def fetches (url : Str) (events : List HandlerEvent) : ℕ :=
  (sentRequests events).countP fun request => request.upstream = url ∧ request.method = .get

/-- How many groups were raced. -/
def rounds (events : List HandlerEvent) : ℕ :=
  events.countP fun event => match event.1 with
    | .spawnHeads _ => true
    | _ => false

@[simp] theorem fetches_nil (url : Str) : fetches url [] = 0 := rfl

@[simp] theorem fetches_cons (url : Str) (event : HandlerEvent) (events : List HandlerEvent) :
    fetches url (event :: events) =
      (event.1.sent.countP fun request => request.upstream = url ∧ request.method = .get) +
        fetches url events := by
  simp [fetches]

@[simp] theorem fetches_append (url : Str) (events events' : List HandlerEvent) :
    fetches url (events ++ events') = fetches url events + fetches url events' := by
  simp [fetches]

@[simp] theorem rounds_nil : rounds [] = 0 := rfl

theorem rounds_append (events events' : List HandlerEvent) :
    rounds (events ++ events') = rounds events + rounds events' := List.countP_append

/-- Some events that fetch no narinfo and race no group. -/
def Idle (events : List HandlerEvent) : Prop :=
  (∀ url, fetches url events = 0) ∧ rounds events = 0

theorem idle_nil : Idle [] := ⟨fun _ => rfl, rfl⟩

/-- An operation that is neither a fetch nor the start of a race. -/
def Op.idle : Op → Bool
  | .spawnHeads _ | .getBytes _ | .proxy _ | .spawnNar _ _ | .sendNar _ => false
  | _ => true

theorem Idle.cons {event : HandlerEvent} {events : List HandlerEvent} (hop : event.1.idle = true)
    (h : Idle events) : Idle (event :: events) := by
  obtain ⟨op, reply⟩ := event
  refine ⟨fun url => ?_, ?_⟩
  · rw [fetches_cons, h.1 url]
    cases op <;> first | rfl | cases hop
  · have hrest : rounds events = 0 := h.2
    unfold rounds at hrest ⊢
    rw [List.countP_cons, hrest]
    cases op <;> first | rfl | cases hop

theorem Idle.append {events events' : List HandlerEvent} (h : Idle events) (h' : Idle events') :
    Idle (events ++ events') :=
  ⟨fun url => by rw [fetches_append, h.1, h'.1], by rw [rounds_append, h.2, h'.2]⟩

/-! ## One group -/

section

variable {crypto : Crypto} {reg : Registry} {answers : Answers} {storeHash : Str} {hop : Hop}
  {events : List HandlerEvent}

/-- What a group's race says about the `HEAD` answers of its upstreams. -/
def GroupVerdict (answers : Answers) (pending : List Str) {group : List Str} :
    Except RaceGroupError (Winner group) → Prop
  | .ok winner => answers.head winner.val.url = .found
  | .error _ => ∀ url ∈ pending, answers.head url ≠ .found

theorem run_joinHeads {group : List Str} {pending : List UpstreamRequest}
    {hpending : ∀ request ∈ pending, request.upstream ∈ group} {netErrs notFounds : ℕ}
    {result : Except RaceGroupError (Winner group)}
    (h : Run answers.allows (joinHeads group pending hpending netErrs notFounds) events result) :
    Idle events ∧ GroupVerdict answers (pending.map UpstreamRequest.upstream) result := by
  induction hlen : pending.length generalizing pending netErrs notFounds events with
  | zero =>
      obtain rfl := List.length_eq_zero_iff.1 hlen
      rw [joinHeads, if_pos rfl, pure_eq_ret, run_ret_iff] at h
      obtain ⟨rfl, rfl⟩ := h
      exact ⟨idle_nil, by simp [GroupVerdict]⟩
  | succ n ih =>
      have hne : pending ≠ [] := by
        rintro rfl
        cases hlen
      rw [joinHeads, if_neg hne, run_call_bind_iff] at h
      obtain ⟨reply, tail, rfl, hreply, h⟩ := h
      obtain ⟨i, answer, rfl, hmatch⟩ := hreply hne
      have hrest : (pending.eraseIdx i).length = n := by
        rw [List.length_eraseIdx_of_lt i.isLt]
        omega
      have hcovers : ∀ request ∈ pending,
          request = pending.get i ∨ request ∈ pending.eraseIdx i := fun request hrequest =>
        List.mem_cons.1 ((List.getElem_cons_eraseIdx_perm i.isLt).mem_iff.2 hrequest)
      have hlift : answers.head (pending.get i).upstream ≠ .found →
          ∀ {r : Except RaceGroupError (Winner group)},
            GroupVerdict answers ((pending.eraseIdx i).map UpstreamRequest.upstream) r →
              GroupVerdict answers (pending.map UpstreamRequest.upstream) r := by
        intro hhead r hr
        cases r with
        | ok winner => exact hr
        | error err =>
            intro url hurl
            obtain ⟨request, hrequest, rfl⟩ := List.mem_map.1 hurl
            rcases hcovers request hrequest with rfl | hin
            · exact hhead
            · exact hr _ (List.mem_map_of_mem hin)
      cases answer with
      | found latencyMs =>
          obtain ⟨rfl, rfl⟩ := run_ret_iff.1 h
          exact ⟨idle_nil.cons rfl, HeadOutcome.matches_found_iff.1 hmatch⟩
      | miss =>
          obtain ⟨hidle, hverdict⟩ := ih h hrest
          exact ⟨hidle.cons rfl, hlift (hmatch.ne_found nofun) hverdict⟩
      | networkError =>
          obtain ⟨-, tail, rfl, -, h⟩ := run_call_bind_iff.1 h
          obtain ⟨hidle, hverdict⟩ := ih h hrest
          exact ⟨(hidle.cons rfl).cons rfl, hlift (hmatch.ne_found nofun) hverdict⟩
      | joinError =>
          obtain ⟨hidle, hverdict⟩ := ih h hrest
          exact ⟨hidle.cons rfl, hlift (hmatch.ne_found nofun) hverdict⟩

theorem run_raceGroup {group : List Str} {result : Except RaceGroupError (Winner group)}
    (h : Run answers.allows (raceGroup reg storeHash group hop) events result) :
    (∀ url, fetches url events = 0) ∧ rounds events = 1 ∧ GroupVerdict answers group result := by
  obtain ⟨-, tail, rfl, -, h⟩ := run_call_bind_iff.1 h
  obtain ⟨hidle, hverdict⟩ := run_joinHeads h
  refine ⟨fun url => ?_, ?_, ?_⟩
  · rw [fetches_cons, hidle.1 url]
    simp [Op.sent, headRequest]
  · have hrest : rounds tail = 0 := hidle.2
    unfold rounds at hrest ⊢
    rw [List.countP_cons, hrest]
    rfl
  · simpa [headRequest, Function.comp_def] using hverdict

/-! ## Committing -/

theorem run_setRoute {entry : RouteEntry} {result : Except DbError Unit}
    (h : Run answers.allows (setRoute entry) events result) : Idle events ∧ result = .ok () := by
  obtain ⟨reply, tail, rfl, rfl, h⟩ := run_call_bind_iff.1 h
  obtain ⟨count, tail, rfl, -, h⟩ := run_call_bind_iff.1 h
  split at h
  · obtain ⟨rfl, rfl⟩ := run_call_iff.1 h
    exact ⟨((idle_nil.cons rfl).cons rfl).cons rfl, rfl⟩
  · obtain ⟨rfl, rfl⟩ := run_ret_iff.1 h
    exact ⟨(idle_nil.cons rfl).cons rfl, rfl⟩

theorem run_recordWinner {winner : RaceResult} {body : Option Octets} {parsed : NarInfo}
    {result : Except RouterError CommitOutcome}
    (h : Run answers.allows (recordWinner reg winner storeHash body parsed) events result) :
    Idle events ∧ ∃ r : ResolveResult, result = .ok (.accepted r) ∧ r.url = winner.url := by
  obtain ⟨-, tail, rfl, -, h⟩ := run_call_bind_iff.1 h
  obtain ⟨health, tail, rfl, -, h⟩ := run_call_bind_iff.1 h
  obtain ⟨-, tail, rfl, -, h⟩ := run_call_bind_iff.1 h
  obtain ⟨now, tail, rfl, -, h⟩ := run_call_bind_iff.1 h
  obtain ⟨es, stored, es', rfl, hset, h⟩ := run_bind_iff.1 h
  obtain ⟨hidle, rfl⟩ := run_setRoute hset
  obtain ⟨-, tail, rfl, -, h⟩ := run_call_bind_iff.1 h
  obtain ⟨rfl, rfl⟩ := run_ret_iff.1 h
  exact ⟨((((hidle.append (idle_nil.cons rfl)).cons rfl).cons rfl).cons rfl).cons rfl, _, rfl, rfl⟩

/-- A commit fetches the winner's narinfo once. It accepts the winner when that
narinfo is accepted, and otherwise ends in a way that lets the race go on. -/
theorem run_commitWinner {winner : RaceResult} {result : Except RouterError CommitOutcome}
    (hhead : answers.head winner.url = .found)
    (h : Run answers.allows (commitWinner crypto reg winner storeHash hop) events result) :
    (∀ url, fetches url events = if url = winner.url then 1 else 0) ∧ rounds events = 0 ∧
      ((∃ r : ResolveResult, result = .ok (.accepted r) ∧ r.url = winner.url ∧
          answers.Acceptable crypto reg winner.url) ∨
        ¬answers.Acceptable crypto reg winner.url ∧
          (result = .ok .rejected ∨
            ∃ err, result = .error err ∧ commitErrorIsRetryable err = true)) := by
  obtain ⟨reply, tail, rfl, hreply, h⟩ := run_fetchNarinfo_bind_iff.1 h
  obtain rfl : reply = answers.narinfo winner.url := hreply
  have hcount : ∀ {es : List HandlerEvent}, Idle es → ∀ url,
      fetches url (⟨.getBytes (narinfoRequest reg winner.url storeHash hop),
        answers.narinfo winner.url⟩ :: es) = if url = winner.url then 1 else 0 := by
    intro es hidle url
    rw [fetches_cons, hidle.1 url]
    simp only [Op.sent, narinfoRequest, List.countP_singleton, eq_comm]
    simp
  have hrounds : ∀ {es : List HandlerEvent}, Idle es →
      rounds (⟨.getBytes (narinfoRequest reg winner.url storeHash hop),
        answers.narinfo winner.url⟩ :: es) = 0 := fun hidle => hidle.2
  cases hcheck : checkNarinfo crypto reg winner.url (answers.narinfo winner.url) with
  | error err =>
      rw [hcheck] at h
      obtain ⟨rfl, rfl⟩ := run_ret_iff.1 h
      refine ⟨hcount idle_nil, hrounds idle_nil, .inr ⟨?_, .inr ⟨err, rfl, ?_⟩⟩⟩
      · rintro ⟨-, body, parsed, hok, -⟩
        rw [hcheck] at hok
        cases hok
      · exact commitErrorIsRetryable_of_checkNarinfo hcheck
  | ok fetched =>
      obtain ⟨body, parsed⟩ := fetched
      rw [hcheck] at h
      cases hallows : reg.allows winner.url parsed with
      | false =>
          simp only [hallows, Bool.not_false, if_true] at h
          obtain ⟨rfl, rfl⟩ := run_ret_iff.1 h
          refine ⟨hcount idle_nil, hrounds idle_nil, .inr ⟨?_, .inl rfl⟩⟩
          rintro ⟨-, body', parsed', hok, hyes⟩
          rw [hcheck] at hok
          cases hok
          rw [hallows] at hyes
          cases hyes
      | true =>
          simp only [hallows, Bool.not_true, Bool.false_eq_true, if_false] at h
          obtain ⟨hidle, r, rfl, hurl⟩ := run_recordWinner h
          exact ⟨hcount hidle, hrounds hidle,
            .inl ⟨r, rfl, hurl, hhead, body, parsed, hcheck, hallows⟩⟩

/-! ## Retrying within a group -/

/-- What the end of the loop over a group says about its upstreams. -/
def GroupEnd (crypto : Crypto) (reg : Registry) (answers : Answers) (group : List Str) :
    GroupOutcome → Prop
  | .done result => ∃ r : ResolveResult, result = .ok r ∧ r.url ∈ group ∧
      answers.Acceptable crypto reg r.url
  | .next _ => ∀ url ∈ group, ¬answers.Acceptable crypto reg url

/-- A winner that is not acceptable can be left out of its group. -/
theorem GroupEnd.of_retainOthers {group : List Str} {url : Str} {outcome : GroupOutcome}
    (hnot : ¬answers.Acceptable crypto reg url)
    (h : GroupEnd crypto reg answers (retainOthers url group) outcome) :
    GroupEnd crypto reg answers group outcome := by
  cases outcome with
  | done result =>
      obtain ⟨r, rfl, hmem, hacc⟩ := h
      exact ⟨r, rfl, List.mem_of_mem_filter hmem, hacc⟩
  | next anyNotFound =>
      intro other hother
      by_cases heq : other = url
      · rw [heq]
        exact hnot
      · exact h other (List.mem_filter.2 ⟨hother, by simpa using heq⟩)

theorem run_raceWithinGroup {group : List Str} {anyNotFound : Bool} {outcome : GroupOutcome}
    (h : Run answers.allows (raceWithinGroup crypto reg storeHash hop group anyNotFound)
      events outcome) :
    (∀ url, fetches url events ≤ if url ∈ group then 1 else 0) ∧
      rounds events ≤ group.length ∧ GroupEnd crypto reg answers group outcome := by
  induction hlen : group.length using Nat.strongRecOn generalizing group anyNotFound events with
  | ind n ih =>
  subst hlen
  rw [raceWithinGroup] at h
  split at h
  · next hnil =>
    subst hnil
    obtain ⟨rfl, rfl⟩ := run_ret_iff.1 h
    exact ⟨by simp, le_refl _, by simp [GroupEnd]⟩
  obtain ⟨raced, verdict, tail, rfl, hrace, h⟩ := run_bind_iff.1 h
  obtain ⟨hraced, hround, hverdict⟩ := run_raceGroup hrace
  cases verdict with
  | error err =>
      have hnone : ∀ url ∈ group, ¬answers.Acceptable crypto reg url :=
        fun url hurl hacc => hverdict url hurl hacc.1
      have hpos : 1 ≤ group.length := List.length_pos_iff.2 ‹_›
      cases err <;>
      · obtain ⟨rfl, rfl⟩ := run_ret_iff.1 h
        refine ⟨fun url => ?_, ?_, hnone⟩
        · simp [hraced url]
        · simpa [hround] using hpos
  | ok winner =>
      obtain ⟨committed, commit, tail', rfl, hcommit, h⟩ := run_bind_iff.1 h
      obtain ⟨hfetch, hcommitted, hend⟩ := run_commitWinner hverdict hcommit
      have hlt := length_retainOthers_lt winner.2
      have hretry : ∀ {flag : Bool} {idle es : List HandlerEvent}, Idle idle →
          ¬answers.Acceptable crypto reg winner.val.url →
          Run answers.allows (raceWithinGroup crypto reg storeHash hop
            (retainOthers winner.val.url group) flag) es outcome →
          (∀ url, fetches url (raced ++ (committed ++ (idle ++ es))) ≤
              if url ∈ group then 1 else 0) ∧
            rounds (raced ++ (committed ++ (idle ++ es))) ≤ group.length ∧
              GroupEnd crypto reg answers group outcome := by
        intro flag idle es hidle hnot hrun
        obtain ⟨hfetches, hrounds, hdone⟩ := ih _ hlt hrun rfl
        refine ⟨fun url => ?_, ?_, hdone.of_retainOthers hnot⟩
        · have hes := hfetches url
          rw [fetches_append, fetches_append, fetches_append, hraced, hfetch, hidle.1]
          by_cases heq : url = winner.val.url
          · subst heq
            have hout : winner.val.url ∉ retainOthers winner.val.url group := by
              simp [retainOthers]
            rw [if_neg hout] at hes
            rw [if_pos rfl, if_pos winner.2]
            omega
          · have hiff : url ∈ retainOthers winner.val.url group ↔ url ∈ group := by
              simp [retainOthers, heq]
            simp only [hiff] at hes
            rw [if_neg heq]
            omega
        · rw [rounds_append, rounds_append, rounds_append, hround, hcommitted, hidle.2]
          omega
      rcases hend with ⟨r, rfl, hurl, hacc⟩ | ⟨hnot, rfl | ⟨err, rfl, hretryable⟩⟩
      · obtain ⟨rfl, rfl⟩ := run_ret_iff.1 h
        refine ⟨fun url => ?_, ?_, r, rfl, hurl ▸ winner.2, hurl ▸ hacc⟩
        · rw [fetches_append, fetches_append, hraced, hfetch, fetches_nil]
          by_cases heq : url = winner.val.url
          · rw [if_pos heq, if_pos (heq ▸ winner.2)]
          · simp [heq]
        · rw [rounds_append, rounds_append, hround, hcommitted, rounds_nil]
          exact List.length_pos_of_mem winner.2
      · exact hretry idle_nil hnot h
      · simp only [hretryable, if_true] at h
        split at h
        · obtain ⟨-, tail, rfl, -, h⟩ := run_call_bind_iff.1 h
          exact hretry (idle_nil.cons rfl) hnot h
        · exact hretry idle_nil hnot h

/-! ## All groups -/

theorem run_cooldownFilteredCandidates {candidates filtered : List Str}
    (h : Run answers.allows (cooldownFilteredCandidates candidates) events filtered) :
    Idle events ∧ filtered = candidates.filter fun url => !answers.cooling url := by
  induction candidates generalizing events filtered with
  | nil =>
      obtain ⟨rfl, rfl⟩ := run_ret_iff.1 h
      exact ⟨idle_nil, rfl⟩
  | cons url urls ih =>
      obtain ⟨cooling, tail, rfl, hcooling, h⟩ := run_call_bind_iff.1 h
      obtain rfl : cooling = answers.cooling url := hcooling
      obtain ⟨es, rest, es', rfl, hrest, h⟩ := run_bind_iff.1 h
      obtain ⟨hidle, rfl⟩ := ih hrest
      obtain ⟨rfl, rfl⟩ := run_ret_iff.1 h
      refine ⟨(hidle.append idle_nil).cons rfl, ?_⟩
      cases hc : answers.cooling url <;> simp [hc]

theorem run_priorityGroups {urls : List Str} {groups groups' : List (ℤ × List Str)}
    (h : Run answers.allows (priorityGroups urls groups) events groups') :
    Idle events ∧
      groups' = urls.foldl (fun gs url => pushGroup (answers.rank url) url gs) groups := by
  induction urls generalizing events groups with
  | nil =>
      obtain ⟨rfl, rfl⟩ := run_ret_iff.1 h
      exact ⟨idle_nil, rfl⟩
  | cons url urls ih =>
      obtain ⟨health, tail, rfl, hhealth, h⟩ := run_call_bind_iff.1 h
      obtain ⟨hidle, rfl⟩ := ih h
      refine ⟨hidle.cons rfl, ?_⟩
      rw [Answers.racePriority_of_allows hhealth, List.foldl_cons]

/-- What the result of the loop over the groups says about their upstreams. -/
def RaceVerdict (crypto : Crypto) (reg : Registry) (answers : Answers)
    (groups : List (ℤ × List Str)) : Except RouterError ResolveResult → Prop
  | .ok r => ∃ g ∈ groups, r.url ∈ g.2 ∧ answers.Acceptable crypto reg r.url ∧
      ∀ g' ∈ groups, ∀ url ∈ g'.2, answers.Acceptable crypto reg url → g.1 ≤ g'.1
  | .error _ => ∀ g ∈ groups, ∀ url ∈ g.2, ¬answers.Acceptable crypto reg url

theorem run_raceGroups {groups : List (ℤ × List Str)} {anyNotFound : Bool}
    {result : Except RouterError ResolveResult}
    (hascending : groups.Pairwise fun g g' => g.1 < g'.1)
    (hrank : ∀ g ∈ groups, ∀ url ∈ g.2, answers.rank url = g.1)
    (h : Run answers.allows (raceGroups crypto reg storeHash hop groups anyNotFound)
      events result) :
    (∀ url, fetches url events ≤ if ∃ g ∈ groups, url ∈ g.2 then 1 else 0) ∧
      rounds events ≤ (groups.flatMap Prod.snd).length ∧
        RaceVerdict crypto reg answers groups result := by
  induction groups generalizing anyNotFound events with
  | nil =>
      obtain ⟨rfl, rfl⟩ := run_ret_iff.1 h
      exact ⟨by simp, le_refl _, by simp [RaceVerdict]⟩
  | cons head groups ih =>
      obtain ⟨priority, group⟩ := head
      obtain ⟨hhead, htail⟩ := List.pairwise_cons.1 hascending
      obtain ⟨raced, outcome, tail, rfl, hraced, h⟩ := run_bind_iff.1 h
      obtain ⟨hfetch, hround, hend⟩ := run_raceWithinGroup hraced
      cases outcome with
      | done outcome =>
          obtain ⟨r, rfl, hmem, hacc⟩ := hend
          obtain ⟨rfl, rfl⟩ := run_ret_iff.1 h
          refine ⟨fun url => ?_, ?_, (priority, group), List.mem_cons_self, hmem, hacc, ?_⟩
          · rw [fetches_append, fetches_nil]
            refine (hfetch url).trans ?_
            by_cases hin : url ∈ group <;> simp [hin]
          · rw [rounds_append, rounds_nil, List.flatMap_cons, List.length_append]
            exact Nat.le_add_right_of_le hround
          · intro g' hg' url hurl _
            rcases List.mem_cons.1 hg' with rfl | hg'
            · exact le_refl _
            · exact (hhead g' hg').le
      | next anyNotFound' =>
          obtain ⟨hfetches, hrounds, hverdict⟩ :=
            ih htail (fun g hg => hrank g (List.mem_cons_of_mem _ hg)) h
          refine ⟨fun url => ?_, ?_, ?_⟩
          · have hone := hfetch url
            have hrest := hfetches url
            rw [fetches_append]
            by_cases hin : url ∈ group
            · have hout : ¬∃ g ∈ groups, url ∈ g.2 := by
                rintro ⟨g, hg, hurl⟩
                have heq := hrank _ List.mem_cons_self url hin
                rw [hrank g (List.mem_cons_of_mem _ hg) url hurl] at heq
                exact (hhead g hg).ne' heq
              rw [if_pos hin] at hone
              rw [if_neg hout] at hrest
              rw [if_pos ⟨_, List.mem_cons_self, hin⟩]
              omega
            · rw [if_neg hin] at hone
              have hiff : (∃ g ∈ (priority, group) :: groups, url ∈ g.2) ↔
                  ∃ g ∈ groups, url ∈ g.2 := by simp [hin]
              simp only [hiff]
              omega
          · rw [rounds_append, List.flatMap_cons, List.length_append]
            exact Nat.add_le_add hround hrounds
          · cases result with
            | error err =>
                intro g hg url hurl
                rcases List.mem_cons.1 hg with rfl | hg
                · exact hend url hurl
                · exact hverdict g hg url hurl
            | ok r =>
                obtain ⟨g, hg, hurl, hacc, hleast⟩ := hverdict
                refine ⟨g, List.mem_cons_of_mem _ hg, hurl, hacc, fun g' hg' url' hurl' hacc' => ?_⟩
                rcases List.mem_cons.1 hg' with rfl | hg'
                · exact absurd hacc' (hend url' hurl')
                · exact hleast g' hg' url' hurl' hacc'

/-- What is promised of a race: no upstream's narinfo is fetched twice, no more
groups are raced than there are candidates, and the result is an acceptable
candidate of the least rank, or an error when there is no acceptable one. -/
structure RaceSpec (crypto : Crypto) (reg : Registry) (answers : Answers) (candidates : List Str)
    (events : List HandlerEvent) (result : Except RouterError ResolveResult) : Prop where
  fetches_le_one : ∀ url, fetches url events ≤ 1
  rounds_le : rounds events ≤ candidates.length
  ok_iff : (∃ r, result = .ok r) ↔
    ∃ url ∈ answers.effective candidates, answers.Acceptable crypto reg url
  least : ∀ r, result = .ok r → r.url ∈ answers.effective candidates ∧
    answers.Acceptable crypto reg r.url ∧
    ∀ url ∈ answers.effective candidates, answers.Acceptable crypto reg url →
      answers.rank r.url ≤ answers.rank url

theorem run_raceCandidates {candidates : List Str} {result : Except RouterError ResolveResult}
    (h : Run answers.allows (raceCandidates crypto reg storeHash candidates hop) events result) :
    RaceSpec crypto reg answers candidates events result := by
  obtain ⟨es₁, filtered, tail, rfl, hfiltered, h⟩ := run_bind_iff.1 h
  obtain ⟨hidle₁, rfl⟩ := run_cooldownFilteredCandidates hfiltered
  obtain ⟨es₂, groups, tail, rfl, hgroups, h⟩ := run_bind_iff.1 h
  obtain ⟨hidle₂, hgroups⟩ := run_priorityGroups hgroups
  have hgrouped : Grouped answers.rank (answers.effective candidates) groups := by
    rw [hgroups]
    exact grouped_groupByKey answers.rank _
  obtain ⟨hfetch, hround, hverdict⟩ := run_raceGroups hgrouped.ascending
    (fun g hg url hurl => hgrouped.key_eq hg hurl) h
  refine ⟨fun url => ?_, ?_, ?_, ?_⟩
  · rw [fetches_append, fetches_append, hidle₁.1, hidle₂.1]
    have hle := hfetch url
    split at hle <;> omega
  · rw [rounds_append, rounds_append, hidle₁.2, hidle₂.2]
    have hlen : (answers.effective candidates).length ≤ candidates.length := by
      unfold Answers.effective
      simp only
      split
      · exact le_refl _
      · exact List.length_filter_le _ _
    have hflat := hgrouped.perm.length_eq
    omega
  · cases result with
    | error err =>
        constructor
        · rintro ⟨r, hr⟩
          cases hr
        · rintro ⟨url, hurl, hacc⟩
          obtain ⟨g, hg, hin⟩ := hgrouped.mem_iff.1 hurl
          exact absurd hacc (hverdict g hg url hin)
    | ok r =>
        obtain ⟨g, hg, hurl, hacc, -⟩ := hverdict
        exact ⟨fun _ => ⟨r.url, hgrouped.mem_iff.2 ⟨g, hg, hurl⟩, hacc⟩, fun _ => ⟨r, rfl⟩⟩
  · rintro r rfl
    obtain ⟨g, hg, hurl, hacc, hleast⟩ := hverdict
    refine ⟨hgrouped.mem_iff.2 ⟨g, hg, hurl⟩, hacc, fun url' hurl' hacc' => ?_⟩
    obtain ⟨g', hg', hin'⟩ := hgrouped.mem_iff.1 hurl'
    rw [hgrouped.key_eq hg hurl, hgrouped.key_eq hg' hin']
    exact hleast g' hg' url' hin' hacc'

theorem run_race {candidates : List Str} {result : Except RouterError ResolveResult}
    (h : Run answers.allows (race crypto reg storeHash candidates hop) events result) :
    RaceSpec crypto reg answers candidates events result := by
  unfold race at h
  split at h
  · next hnil =>
    subst hnil
    obtain ⟨rfl, rfl⟩ := run_ret_iff.1 h
    exact ⟨by simp, le_refl _, by simp [Answers.effective], by simp⟩
  · split at h
    · obtain ⟨granted, tail, rfl, rfl, h⟩ := run_call_bind_iff.1 h
      simp only [if_true] at h
      obtain ⟨es, r, es', rfl, hraced, h⟩ := run_bind_iff.1 h
      obtain ⟨-, tail, rfl, -, h⟩ := run_call_bind_iff.1 h
      obtain ⟨rfl, rfl⟩ := run_ret_iff.1 h
      have hspec := run_raceCandidates hraced
      refine ⟨fun url => ?_, ?_, hspec.ok_iff, hspec.least⟩
      · rw [fetches_cons, fetches_append, (idle_nil.cons rfl).1 url]
        simpa [Op.sent] using hspec.fetches_le_one url
      · have hrounds := hspec.rounds_le
        have hsplit := rounds_append es [⟨.releaseRacePermit, ()⟩]
        rw [(idle_nil.cons rfl).2] at hsplit
        show rounds (es ++ [⟨.releaseRacePermit, ()⟩]) ≤ candidates.length
        omega
    · exact run_raceCandidates h

end

/-- Whatever the candidates and their answers, the race comes to an end, and it
keeps its promise in every order in which the answers can arrive. -/
theorem race_complete (crypto : Crypto) (reg : Registry) (answers : Answers) (storeHash : Str)
    (candidates : List Str) (hop : Hop) :
    (∃ events result,
      Run answers.allows (race crypto reg storeHash candidates hop) events result) ∧
    ∀ events result, Run answers.allows (race crypto reg storeHash candidates hop) events result →
      RaceSpec crypto reg answers candidates events result :=
  ⟨exists_run answers.exists_allowed _, fun _ _ => run_race⟩

/-- Two untracked upstreams, of which only `b` has the path. -/
def answersOfTwo : Answers where
  priority := fun _ => none
  cooling := fun _ => false
  head := fun url => if url = ['b'] then .found else .miss
  narinfo := fun _ => .ok (some (toUtf8 "StorePath: /nix/store/x".toList))

theorem race_complete_two :
    ∃ events r, RaceSpec default default answersOfTwo [['a'], ['b']] events (.ok r) ∧
      r.url = ['b'] := by
  obtain ⟨⟨events, result, hrun⟩, hspec⟩ :=
    race_complete default default answersOfTwo ['h'] [['a'], ['b']] .client
  have hspec := hspec events result hrun
  have hacceptable : answersOfTwo.Acceptable default default ['b'] :=
    ⟨rfl, some (toUtf8 "StorePath: /nix/store/x".toList),
      { storePath := "/nix/store/x".toList }, by decide, rfl⟩
  obtain ⟨r, rfl⟩ := hspec.ok_iff.2 ⟨['b'], by decide, hacceptable⟩
  refine ⟨events, r, hspec, ?_⟩
  have hfound : answersOfTwo.head r.url = .found := (hspec.least r rfl).2.1.1
  by_contra hne
  simp [answersOfTwo, hne] at hfound

end Ncro
