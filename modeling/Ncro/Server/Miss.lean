import Ncro.Router.Footprint
import Ncro.Server.Narinfo

/-!
# When a miss is concluded

A race that ends without an accepted narinfo reports `notFound` or
`upstreamUnavailable`. It may only report `notFound`, which hides the path for
the negative TTL and keeps the fallback cache out, after some upstream gave a
definite negative answer. The statements hold for every run, whatever the
replies are.
-/

namespace Ncro

open Foundation Foundation.Process

/-! ## Answers met on a run -/

/-- In the event `url` said that it does not have the path, or offered a narinfo
that was rejected. -/
def DefiniteNegative (crypto : Crypto) (reg : Registry) (url : Str) : HandlerEvent → Prop
  | ⟨.joinHead pending, some (i, .miss)⟩ => (pending.get i).upstream = url
  | ⟨.getBytes request, reply⟩ => request.upstream = url ∧
      match checkNarinfo crypto reg url reply with
      | .ok (_, parsed) => reg.allows url parsed = false
      | .error err => commitErrorIsNetworkLike err = false
  | _ => False

/-- Some upstream of `urls` gave a definite negative answer. -/
def SomeNegative (crypto : Crypto) (reg : Registry) (urls : List Str)
    (events : List HandlerEvent) : Prop :=
  ∃ url ∈ urls, ∃ event ∈ events, DefiniteNegative crypto reg url event

/-- A `HEAD` request was sent to `url`. -/
def Asked (url : Str) (events : List HandlerEvent) : Prop :=
  ∃ requests, ⟨.spawnHeads requests, ()⟩ ∈ events ∧
    url ∈ requests.map UpstreamRequest.upstream

/-- `url` was left out because it was cooling down. -/
def Skipped (url : Str) (events : List HandlerEvent) : Prop :=
  ⟨.inCooldown url, true⟩ ∈ events

/-- The `HEAD` request to `url` failed. -/
def Errored (url : Str) (events : List HandlerEvent) : Prop :=
  ∃ pending i, ⟨.joinHead pending, some (i, .networkError)⟩ ∈ events ∧
    (pending.get i).upstream = url

section

variable {crypto : Crypto} {reg : Registry} {allowed : (op : Op) → op.Reply → Prop}
  {storeHash : Str} {hop : Hop} {urls : List Str} {events events' : List HandlerEvent}

theorem SomeNegative.mono {urls' : List Str} (h : SomeNegative crypto reg urls events)
    (hurls : ∀ url ∈ urls, url ∈ urls') (hevents : ∀ e ∈ events, e ∈ events') :
    SomeNegative crypto reg urls' events' := by
  obtain ⟨url, hurl, e, he, hneg⟩ := h
  exact ⟨url, hurls url hurl, e, hevents e he, hneg⟩

theorem SomeNegative.cons {event : HandlerEvent} (h : SomeNegative crypto reg urls events) :
    SomeNegative crypto reg urls (event :: events) :=
  h.mono (fun _ => id) fun _ => List.mem_cons_of_mem _

theorem SomeNegative.append_left (h : SomeNegative crypto reg urls events) :
    SomeNegative crypto reg urls (events ++ events') :=
  h.mono (fun _ => id) fun _ => List.mem_append_left _

theorem Asked.append_left {url : Str} (h : Asked url events) : Asked url (events ++ events') := by
  obtain ⟨requests, hmem, hurl⟩ := h
  exact ⟨requests, List.mem_append_left _ hmem, hurl⟩

theorem Asked.append_right {url : Str} (h : Asked url events') : Asked url (events ++ events') := by
  obtain ⟨requests, hmem, hurl⟩ := h
  exact ⟨requests, List.mem_append_right _ hmem, hurl⟩

/-! ## One group -/

theorem joinHeads_notFound {group : List Str} {pending : List UpstreamRequest}
    {hpending : ∀ request ∈ pending, request.upstream ∈ group} {netErrs notFounds : ℕ}
    (h : Run allowed (joinHeads group pending hpending netErrs notFounds) events
      (.error .notFound)) :
    0 < notFounds ∨ SomeNegative crypto reg group events := by
  induction hlen : pending.length generalizing pending netErrs notFounds events with
  | zero =>
      obtain rfl := List.length_eq_zero_iff.1 hlen
      rw [joinHeads, if_pos rfl, pure_eq_ret, run_ret_iff] at h
      exact .inl (notFounds_pos_of_raceFailure (Except.error.inj h.2))
  | succ n ih =>
      have hne : pending ≠ [] := by
        rintro rfl
        cases hlen
      rw [joinHeads, if_neg hne, run_call_bind_iff] at h
      obtain ⟨reply, tail, rfl, -, h⟩ := h
      cases reply with
      | none =>
          obtain ⟨rfl, heq⟩ := run_ret_iff.1 h
          exact .inl (notFounds_pos_of_raceFailure (Except.error.inj heq))
      | some reply =>
          obtain ⟨i, answer⟩ := reply
          have hrest : (pending.eraseIdx i).length = n := by
            rw [List.length_eraseIdx_of_lt i.isLt]
            omega
          cases answer with
          | found latencyMs =>
              obtain ⟨rfl, heq⟩ := run_ret_iff.1 h
              cases heq
          | miss =>
              exact .inr ⟨_, hpending _ (List.get_mem pending i), _, List.mem_cons_self, rfl⟩
          | networkError =>
              obtain ⟨-, tail, rfl, -, h⟩ := run_call_bind_iff.1 h
              exact (ih h hrest).imp id fun hneg => hneg.cons.cons
          | joinError => exact (ih h hrest).imp id SomeNegative.cons

theorem raceGroup_asked (crypto : Crypto) {group : List Str}
    {result : Except RaceGroupError (Winner group)}
    (h : Run allowed (raceGroup reg storeHash group hop) events result) :
    (∀ url ∈ group, Asked url events) ∧
      (result = .error .notFound → SomeNegative crypto reg group events) := by
  obtain ⟨-, tail, rfl, -, h⟩ := run_call_bind_iff.1 h
  refine ⟨fun url hurl => ⟨_, List.mem_cons_self, ?_⟩, ?_⟩
  · simpa [headRequest] using hurl
  · rintro rfl
    exact ((joinHeads_notFound h).resolve_left (lt_irrefl 0)).cons

/-- How a commit can end. -/
theorem commitWinner_cases {winner : RaceResult} {result : Except RouterError CommitOutcome}
    (h : Run allowed (commitWinner crypto reg winner storeHash hop) events result) :
    (∃ r, result = .ok (.accepted r)) ∨ (∃ err, result = .error (.db err)) ∨
      result = .ok .rejected ∧ SomeNegative crypto reg [winner.url] events ∨
      ∃ err, result = .error err ∧ commitErrorIsRetryable err = true ∧
        (commitErrorIsNetworkLike err = true ∨ SomeNegative crypto reg [winner.url] events) := by
  obtain ⟨reply, tail, rfl, -, h⟩ := run_fetchNarinfo_bind_iff.1 h
  cases hcheck : checkNarinfo crypto reg winner.url reply with
  | error err =>
      rw [hcheck] at h
      obtain ⟨rfl, rfl⟩ := run_ret_iff.1 h
      refine .inr (.inr (.inr ⟨err, rfl, commitErrorIsRetryable_of_checkNarinfo hcheck, ?_⟩))
      cases hnet : commitErrorIsNetworkLike err with
      | true => exact .inl rfl
      | false =>
          refine .inr ⟨winner.url, List.mem_cons_self, _, List.mem_cons_self, rfl, ?_⟩
          rw [hcheck]
          exact hnet
  | ok fetched =>
      obtain ⟨body, parsed⟩ := fetched
      rw [hcheck] at h
      cases hallows : reg.allows winner.url parsed with
      | false =>
          simp only [hallows, Bool.not_false, if_true] at h
          obtain ⟨rfl, rfl⟩ := run_ret_iff.1 h
          refine .inr (.inr (.inl ⟨rfl, winner.url, List.mem_cons_self, _, List.mem_cons_self,
            rfl, ?_⟩))
          rw [hcheck]
          exact hallows
      | true =>
          simp only [hallows, Bool.not_true, Bool.false_eq_true, if_false] at h
          obtain ⟨-, tail, rfl, -, h⟩ := run_call_bind_iff.1 h
          obtain ⟨health, tail, rfl, -, h⟩ := run_call_bind_iff.1 h
          obtain ⟨-, tail, rfl, -, h⟩ := run_call_bind_iff.1 h
          obtain ⟨now, tail, rfl, -, h⟩ := run_call_bind_iff.1 h
          obtain ⟨es, stored, es', rfl, hset, h⟩ := run_bind_iff.1 h
          cases stored with
          | error err =>
              obtain ⟨rfl, rfl⟩ := run_ret_iff.1 h
              exact .inr (.inl ⟨err, rfl⟩)
          | ok _ =>
              obtain ⟨-, tail, rfl, -, h⟩ := run_call_bind_iff.1 h
              obtain ⟨rfl, rfl⟩ := run_ret_iff.1 h
              exact .inl ⟨_, rfl⟩

/-- What the end of the loop over a group says about a miss: the flag is only
raised by a definite negative answer, and before the next group every upstream
of this one has been asked. -/
def MissEnd (crypto : Crypto) (reg : Registry) (group : List Str) (anyNotFound : Bool)
    (events : List HandlerEvent) : GroupOutcome → Prop
  | .done result => (∃ r, result = .ok r) ∨ ∃ err, result = .error (.db err)
  | .next anyNotFound' => (∀ url ∈ group, Asked url events) ∧
      (anyNotFound' = true → anyNotFound = true ∨ SomeNegative crypto reg group events)

theorem raceWithinGroup_missEnd {group : List Str} {anyNotFound : Bool} {outcome : GroupOutcome}
    (h : Run allowed (raceWithinGroup crypto reg storeHash hop group anyNotFound)
      events outcome) :
    MissEnd crypto reg group anyNotFound events outcome := by
  induction hlen : group.length using Nat.strongRecOn generalizing group anyNotFound events with
  | ind n ih =>
  subst hlen
  rw [raceWithinGroup] at h
  split at h
  · next hnil =>
    subst hnil
    obtain ⟨rfl, rfl⟩ := run_ret_iff.1 h
    exact ⟨by simp, .inl⟩
  obtain ⟨raced, verdict, tail, rfl, hrace, h⟩ := run_bind_iff.1 h
  obtain ⟨hasked, hmiss⟩ := raceGroup_asked crypto hrace
  cases verdict with
  | error err =>
      cases err with
      | notFound =>
          obtain ⟨rfl, rfl⟩ := run_ret_iff.1 h
          exact ⟨fun url hurl => (hasked url hurl).append_left,
            fun _ => .inr (hmiss rfl).append_left⟩
      | networkError =>
          obtain ⟨rfl, rfl⟩ := run_ret_iff.1 h
          exact ⟨fun url hurl => (hasked url hurl).append_left, .inl⟩
      | timeout =>
          obtain ⟨rfl, rfl⟩ := run_ret_iff.1 h
          exact ⟨fun url hurl => (hasked url hurl).append_left, .inl⟩
  | ok winner =>
      obtain ⟨committed, commit, tail', rfl, hcommit, h⟩ := run_bind_iff.1 h
      have hlt := length_retainOthers_lt winner.2
      -- The rest of the group is raced again; `flag` was raised only by the commit.
      have hretry : ∀ {flag : Bool} {es es' : List HandlerEvent},
          (flag = true → anyNotFound = true ∨
            SomeNegative crypto reg [winner.val.url] committed) →
          (∀ e ∈ es', e ∈ es) →
          Run allowed (raceWithinGroup crypto reg storeHash hop
            (retainOthers winner.val.url group) flag) es' outcome →
          MissEnd crypto reg group anyNotFound (raced ++ (committed ++ es)) outcome := by
        intro flag es es' hflag hsub hrun
        have hend := ih _ hlt hrun rfl
        cases outcome with
        | done result => exact hend
        | next anyNotFound' =>
            refine ⟨fun url hurl => (hasked url hurl).append_left, fun htrue => ?_⟩
            rcases hend.2 htrue with hflag' | hneg
            · rcases hflag hflag' with hany | hneg
              · exact .inl hany
              · refine .inr (hneg.mono (fun url hurl => ?_) fun e he => by simp [he])
                rw [List.mem_singleton.1 hurl]
                exact winner.2
            · exact .inr (hneg.mono (fun url hurl => List.mem_of_mem_filter hurl)
                fun e he => by simp [hsub e he])
      rcases commitWinner_cases hcommit with ⟨r, rfl⟩ | ⟨err, rfl⟩ | ⟨rfl, hneg⟩ |
        ⟨err, rfl, hretryable, hneg⟩
      · obtain ⟨rfl, rfl⟩ := run_ret_iff.1 h
        exact .inl ⟨r, rfl⟩
      · simp only [commitErrorIsRetryable, Bool.false_eq_true, if_false] at h
        obtain ⟨rfl, rfl⟩ := run_ret_iff.1 h
        exact .inr ⟨err, rfl⟩
      · exact hretry (fun _ => .inr hneg) (fun _ => id) h
      · simp only [hretryable, if_true] at h
        split at h
        · obtain ⟨-, tail, rfl, -, h⟩ := run_call_bind_iff.1 h
          exact hretry .inl (fun _ => List.mem_cons_of_mem _) h
        · next hnet =>
          exact hretry (fun _ => .inr (hneg.resolve_left hnet)) (fun _ => id) h

/-! ## The race -/

theorem raceGroups_notFound {groups : List (ℤ × List Str)} {anyNotFound : Bool}
    (h : Run allowed (raceGroups crypto reg storeHash hop groups anyNotFound) events
      (.error .notFound)) :
    (∀ g ∈ groups, ∀ url ∈ g.2, Asked url events) ∧
      (anyNotFound = true ∨ SomeNegative crypto reg (groups.flatMap Prod.snd) events) := by
  induction groups generalizing anyNotFound events with
  | nil =>
      obtain ⟨rfl, heq⟩ := run_ret_iff.1 h
      cases anyNotFound with
      | true => exact ⟨by simp, .inl rfl⟩
      | false => cases heq
  | cons head groups ih =>
      obtain ⟨priority, group⟩ := head
      obtain ⟨raced, outcome, tail, rfl, hraced, h⟩ := run_bind_iff.1 h
      have hend := raceWithinGroup_missEnd hraced
      cases outcome with
      | done result =>
          obtain ⟨-, rfl⟩ := run_ret_iff.1 h
          rcases hend with ⟨r, heq⟩ | ⟨err, heq⟩ <;> cases heq
      | next anyNotFound' =>
          obtain ⟨hasked, hneg⟩ := ih h
          refine ⟨fun g hg url hurl => ?_, ?_⟩
          · rcases List.mem_cons.1 hg with rfl | hg
            · exact (hend.1 url hurl).append_left
            · exact (hasked g hg url hurl).append_right
          · rcases hneg with htrue | hneg
            · refine (hend.2 htrue).imp id fun hneg => ?_
              exact hneg.mono (fun url hurl => List.mem_append_left _ hurl)
                fun e => List.mem_append_left _
            · exact .inr (hneg.mono (fun url hurl => List.mem_append_right _ hurl)
                fun e => List.mem_append_right _)

/-- The results a race can have. -/
def RaceResultCases (candidates : List Str) (result : Except RouterError ResolveResult) : Prop :=
  (∃ r, result = .ok r) ∨ (∃ err, result = .error (.db err)) ∨ result = .error .notFound ∨
    result = .error .upstreamUnavailable ∨
      candidates = [] ∧ ∃ storeHash, result = .error (.noCandidates storeHash)

theorem raceGroups_cases {groups : List (ℤ × List Str)} {anyNotFound : Bool}
    {candidates : List Str} {result : Except RouterError ResolveResult}
    (h : Run allowed (raceGroups crypto reg storeHash hop groups anyNotFound) events result) :
    RaceResultCases candidates result := by
  induction groups generalizing anyNotFound events with
  | nil =>
      obtain ⟨rfl, rfl⟩ := run_ret_iff.1 h
      cases anyNotFound with
      | true => exact .inr (.inr (.inl rfl))
      | false => exact .inr (.inr (.inr (.inl rfl)))
  | cons head groups ih =>
      obtain ⟨raced, outcome, tail, rfl, hraced, h⟩ := run_bind_iff.1 h
      have hend := raceWithinGroup_missEnd hraced
      cases outcome with
      | done result' =>
          obtain ⟨-, rfl⟩ := run_ret_iff.1 h
          rcases hend with hok | hdb
          · exact .inl hok
          · exact .inr (.inl hdb)
      | next anyNotFound' => exact ih h

theorem mem_or_skipped {candidates filtered : List Str}
    (h : Run allowed (cooldownFilteredCandidates candidates) events filtered) :
    (∀ url ∈ filtered, url ∈ candidates) ∧
      ∀ url ∈ candidates, url ∈ filtered ∨ Skipped url events := by
  induction candidates generalizing events filtered with
  | nil =>
      obtain ⟨rfl, rfl⟩ := run_ret_iff.1 h
      exact ⟨fun _ => id, by simp⟩
  | cons url urls ih =>
      obtain ⟨cooling, tail, rfl, -, h⟩ := run_call_bind_iff.1 h
      obtain ⟨es, rest, es', rfl, hrest, h⟩ := run_bind_iff.1 h
      obtain ⟨hsub, hall⟩ := ih hrest
      obtain ⟨rfl, rfl⟩ := run_ret_iff.1 h
      rw [List.append_nil]
      cases cooling with
      | true =>
          refine ⟨fun other hother => List.mem_cons_of_mem _ (hsub other hother),
            fun other hother => ?_⟩
          rcases List.mem_cons.1 hother with rfl | hother
          · exact .inr List.mem_cons_self
          · exact (hall other hother).imp id (List.mem_cons_of_mem _)
      | false =>
          refine ⟨fun other hother => ?_, fun other hother => ?_⟩
          · rcases List.mem_cons.1 hother with rfl | hother
            · exact List.mem_cons_self
            · exact List.mem_cons_of_mem _ (hsub other hother)
          · rcases List.mem_cons.1 hother with rfl | hother
            · exact .inl List.mem_cons_self
            · exact (hall other hother).imp (List.mem_cons_of_mem _) (List.mem_cons_of_mem _)

/-- Grouping loses no candidate and adds none. -/
theorem priorityGroups_perm {urls : List Str} {groups groups' : List (ℤ × List Str)}
    (h : Run allowed (priorityGroups urls groups) events groups') :
    (groups'.flatMap Prod.snd).Perm (groups.flatMap Prod.snd ++ urls) := by
  induction urls generalizing events groups with
  | nil =>
      obtain ⟨rfl, rfl⟩ := run_ret_iff.1 h
      simp
  | cons url urls ih =>
      obtain ⟨health, tail, rfl, -, h⟩ := run_call_bind_iff.1 h
      refine (ih h).trans ?_
      rw [← List.singleton_append (l := urls), ← List.append_assoc]
      exact (pushGroup_perm _ url groups).append_right urls

/-- What is promised of a race's conclusion. A miss needs a definite negative
answer, and every candidate that was not skipped has been asked by then. -/
structure MissSpec (crypto : Crypto) (reg : Registry) (candidates : List Str)
    (events : List HandlerEvent) (result : Except RouterError ResolveResult) : Prop where
  cases : RaceResultCases candidates result
  negative : result = .error .notFound → SomeNegative crypto reg candidates events
  asked : result = .error .notFound →
    ∀ url ∈ candidates, Asked url events ∨ Skipped url events

theorem raceCandidates_missSpec {candidates : List Str}
    {result : Except RouterError ResolveResult}
    (h : Run allowed (raceCandidates crypto reg storeHash candidates hop) events result) :
    MissSpec crypto reg candidates events result := by
  obtain ⟨es₁, filtered, tail, rfl, hfiltered, h⟩ := run_bind_iff.1 h
  obtain ⟨es₂, groups, tail, rfl, hgroups, h⟩ := run_bind_iff.1 h
  obtain ⟨hsub, hall⟩ := mem_or_skipped hfiltered
  have hperm := priorityGroups_perm hgroups
  rw [List.flatMap_nil, List.nil_append] at hperm
  have hmem : ∀ url ∈ groups.flatMap Prod.snd, url ∈ candidates := by
    intro url hurl
    have hin := hperm.mem_iff.1 hurl
    split at hin
    · exact hin
    · exact hsub url hin
  refine ⟨raceGroups_cases h, ?_, ?_⟩
  · rintro rfl
    have hneg := (raceGroups_notFound h).2.resolve_left Bool.false_ne_true
    exact hneg.mono hmem fun e he => by simp [he]
  · rintro rfl url hurl
    have hasked := (raceGroups_notFound h).1
    have hask : url ∈ groups.flatMap Prod.snd → Asked url (es₁ ++ (es₂ ++ tail)) := by
      intro hin
      obtain ⟨g, hg, hurl⟩ := List.mem_flatMap.1 hin
      exact (hasked g hg url hurl).append_right.append_right
    by_cases hnil : filtered = []
    · rw [if_pos hnil] at hperm
      exact .inl (hask (hperm.mem_iff.2 hurl))
    · rw [if_neg hnil] at hperm
      exact (hall url hurl).imp (fun hin => hask (hperm.mem_iff.2 hin))
        (List.mem_append_left _)

theorem race_missSpec {candidates : List Str} {result : Except RouterError ResolveResult}
    (h : Run allowed (race crypto reg storeHash candidates hop) events result) :
    MissSpec crypto reg candidates events result := by
  unfold race at h
  split at h
  · next hnil =>
    obtain ⟨rfl, rfl⟩ := run_ret_iff.1 h
    exact ⟨.inr (.inr (.inr (.inr ⟨hnil, _, rfl⟩))), nofun, nofun⟩
  · split at h
    · obtain ⟨granted, tail, rfl, -, h⟩ := run_call_bind_iff.1 h
      cases granted with
      | false =>
          obtain ⟨rfl, rfl⟩ := run_ret_iff.1 h
          exact ⟨.inr (.inr (.inr (.inl rfl))), nofun, nofun⟩
      | true =>
          obtain ⟨es, r, es', rfl, hraced, h⟩ := run_bind_iff.1 h
          obtain ⟨-, tail, rfl, -, h⟩ := run_call_bind_iff.1 h
          obtain ⟨rfl, rfl⟩ := run_ret_iff.1 h
          have hspec := raceCandidates_missSpec hraced
          refine ⟨hspec.cases, fun hmiss => (hspec.negative hmiss).append_left.cons,
            fun hmiss url hurl => (hspec.asked hmiss url hurl).imp (fun hasked => ?_) fun hskip => ?_⟩
          · obtain ⟨requests, hin, hurl⟩ := (hasked.append_left :
              Asked url (es ++ [⟨.releaseRacePermit, ()⟩]))
            exact ⟨requests, List.mem_cons_of_mem _ hin, hurl⟩
          · exact List.mem_cons_of_mem _ (List.mem_append_left _ hskip)
    · exact raceCandidates_missSpec h

/-! ## Remembering a miss -/

/-- The operations that record a miss. -/
def Op.recordsMiss : Op → Prop
  | .missLruInsert _ | .dbSetNegative _ _ => True
  | _ => False

theorem LookupOp.not_recordsMiss {op : Op} (h : LookupOp hop op) : ¬op.recordsMiss := by
  cases op <;> first | exact h.elim | exact not_false

theorem RaceOp.not_recordsMiss {op : Op} (h : RaceOp hop op) : ¬op.recordsMiss := by
  rcases h with h | rfl | rfl
  · exact h.not_recordsMiss
  · exact not_false
  · exact not_false

/-- Both negative caches take the hash in these events. -/
def Remembered (reg : Registry) (storeHash : Str) (events : List HandlerEvent) : Prop :=
  (∃ event ∈ events, event.1 = .missLruInsert storeHash) ∧
    ∃ event ∈ events, event.1 = .dbSetNegative storeHash reg.negativeTtl

/-- How a client's lookup relates to its race: without one it records no miss,
and with one it records a miss just when the race reported one. -/
def RememberSpec (crypto : Crypto) (reg : Registry) (allowed : (op : Op) → op.Reply → Prop)
    (storeHash : Str) (candidates : List Str) (events : List HandlerEvent)
    (result : Except RouterError ResolveResult) : Prop :=
  (∀ event ∈ events, ¬event.1.recordsMiss) ∨
    ∃ before raced after, events = before ++ (raced ++ after) ∧
      Run allowed (race crypto reg storeHash candidates .client) raced result ∧
      (∀ event ∈ before ++ raced, ¬event.1.recordsMiss) ∧
      (result = .error .notFound → Remembered reg storeHash after) ∧
      (result ≠ .error .notFound → ∀ event ∈ after, ¬event.1.recordsMiss)

theorem raceAndRemember_spec {candidates : List Str} {result : Except RouterError ResolveResult}
    (h : Run allowed (raceAndRemember crypto reg storeHash candidates) events result) :
    ∃ raced after, events = raced ++ after ∧
      Run allowed (race crypto reg storeHash candidates .client) raced result ∧
      (result = .error .notFound → Remembered reg storeHash after) ∧
      (result ≠ .error .notFound → after = []) := by
  obtain ⟨raced, raceResult, after, rfl, hraced, h⟩ := run_bind_iff.1 h
  by_cases hmiss : raceResult = .error .notFound
  · subst hmiss
    obtain ⟨-, tail, rfl, -, h⟩ := run_call_bind_iff.1 h
    obtain ⟨reply, tail, rfl, -, h⟩ := run_call_bind_iff.1 h
    obtain ⟨rfl, rfl⟩ := run_ret_iff.1 h
    refine ⟨raced, _, rfl, hraced, fun _ => ⟨⟨_, List.mem_cons_self, rfl⟩, ?_⟩, fun hne => ?_⟩
    · exact ⟨_, List.mem_cons_of_mem _ List.mem_cons_self, rfl⟩
    · exact absurd rfl hne
  · have hafter : after = [] ∧ raceResult = result := by
      revert h
      split
      · exact absurd rfl hmiss
      · exact run_ret_iff.1
    obtain ⟨rfl, rfl⟩ := hafter
    exact ⟨raced, [], rfl, hraced, fun heq => absurd heq hmiss, fun _ => rfl⟩

theorem resolve_rememberSpec {candidates : List Str} {result : Except RouterError ResolveResult}
    (h : Run allowed (resolve crypto reg storeHash candidates .client) events result) :
    RememberSpec crypto reg allowed storeHash candidates events result := by
  have hcached : ∀ {es r}, Run allowed (resolveCached crypto reg storeHash .client) es r →
      ∀ event ∈ es, ¬event.1.recordsMiss := fun hrun event he =>
    (hrun.performs performs_resolveCached event he).lookupOp.not_recordsMiss
  obtain ⟨first, cached, tail, rfl, hfirst, h⟩ := run_bind_iff.1 h
  have quietFirst := hcached hfirst
  match cached with
  | .error err =>
      obtain ⟨rfl, rfl⟩ := run_ret_iff.1 h
      exact .inl (by simpa using quietFirst)
  | .ok (some r) =>
      obtain ⟨rfl, rfl⟩ := run_ret_iff.1 h
      exact .inl (by simpa using quietFirst)
  | .ok none =>
      obtain ⟨lock, tail, rfl, -, h⟩ := run_call_bind_iff.1 h
      obtain ⟨-, tail, rfl, -, h⟩ := run_call_bind_iff.1 h
      obtain ⟨locked, r, cleanup, rfl, hlocked, h⟩ := run_bind_iff.1 h
      obtain ⟨-, tail, rfl, -, h⟩ := run_call_bind_iff.1 h
      obtain ⟨-, tail, rfl, -, h⟩ := run_call_bind_iff.1 h
      obtain ⟨rfl, rfl⟩ := run_ret_iff.1 h
      obtain ⟨second, cached', tail, rfl, hsecond, hlocked⟩ := run_bind_iff.1 hlocked
      have quietSecond := hcached hsecond
      have hquiet : tail = [] → ∀ event ∈ first ++ (⟨.inflightEntry storeHash, lock⟩ ::
          ⟨.lock lock, ()⟩ :: (second ++ tail ++
            [⟨.inflightRemoveIf storeHash lock, ()⟩, ⟨.unlock lock, ()⟩])),
          ¬event.1.recordsMiss := by
        rintro rfl event he
        simp only [List.append_nil, List.mem_append, List.mem_cons, List.not_mem_nil, or_false]
          at he
        rcases he with he | rfl | rfl | he | rfl | rfl
        · exact quietFirst event he
        · exact not_false
        · exact not_false
        · exact quietSecond event he
        · exact not_false
        · exact not_false
      match cached' with
      | .error err =>
          obtain ⟨rfl, rfl⟩ := run_ret_iff.1 hlocked
          exact .inl (hquiet rfl)
      | .ok (some r) =>
          obtain ⟨rfl, rfl⟩ := run_ret_iff.1 hlocked
          exact .inl (hquiet rfl)
      | .ok none =>
          obtain ⟨raced, after, rfl, hraced, hmiss, hother⟩ := raceAndRemember_spec hlocked
          refine .inr ⟨first ++ [⟨.inflightEntry storeHash, lock⟩, ⟨.lock lock, ()⟩] ++ second,
            raced, after ++ [⟨.inflightRemoveIf storeHash lock, ()⟩, ⟨.unlock lock, ()⟩],
            by simp, hraced, ?_, ?_, ?_⟩
          · intro event he
            simp only [List.mem_append, List.mem_cons, List.not_mem_nil, or_false] at he
            rcases he with ((he | rfl | rfl) | he) | he
            · exact quietFirst event he
            · exact not_false
            · exact not_false
            · exact quietSecond event he
            · exact (hraced.performs (performs_race candidates) event he).not_recordsMiss
          · intro heq
            obtain ⟨⟨e, he, hop⟩, ⟨e', he', hop'⟩⟩ := hmiss heq
            exact ⟨⟨e, List.mem_append_left _ he, hop⟩, e', List.mem_append_left _ he', hop'⟩
          · intro hne event he
            rw [hother hne] at he
            simp only [List.nil_append, List.mem_cons, List.not_mem_nil, or_false] at he
            rcases he with rfl | rfl <;> exact not_false

end

/-! ## Conclusion -/

/-- The events of a race between `a`, which does not have the path, and `b`,
which fails. -/
def missAndError : List HandlerEvent :=
  let a : UpstreamRequest := headRequest default ['h'] .client ['a']
  let b : UpstreamRequest := headRequest default ['h'] .client ['b']
  [⟨.acquireRacePermit, true⟩, ⟨.inCooldown ['a'], false⟩, ⟨.inCooldown ['b'], false⟩,
    ⟨.getHealth ['a'], none⟩, ⟨.getHealth ['b'], none⟩, ⟨.spawnHeads [a, b], ()⟩,
    ⟨.joinHead [a, b], some (0, .miss)⟩, ⟨.joinHead [b], some (0, .networkError)⟩,
    ⟨.markCooldown ['b'], ()⟩, ⟨.releaseRacePermit, ()⟩]

theorem run_missAndError :
    Run (fun _ _ => True) (race default default ['h'] [['a'], ['b']] .client) missAndError
      (.error .notFound) := by
  unfold race
  rw [if_neg (by decide), if_pos rfl]
  refine .perform trivial (.perform trivial (.perform trivial (.perform trivial
    (.perform trivial ?_))))
  show Run _ (raceWithinGroup _ _ _ _ _ _ >>= _ >>= _) _ _
  rw [raceWithinGroup, if_neg (by decide)]
  refine .perform trivial ?_
  show Run _ (joinHeads _ _ _ _ _ >>= _ >>= _ >>= _) _ _
  rw [joinHeads, if_neg (by decide)]
  refine .perform trivial ?_
  show Run _ (joinHeads _ _ _ _ _ >>= _ >>= _ >>= _) _ _
  rw [joinHeads, if_neg (by decide)]
  refine .perform trivial (.perform trivial ?_)
  show Run _ (joinHeads _ _ _ _ _ >>= _ >>= _ >>= _) _ _
  rw [joinHeads, if_pos (by decide)]
  exact .perform trivial (.ret _)

end Ncro
