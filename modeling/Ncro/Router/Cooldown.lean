import Ncro.Router.Replays

/-!
# Cooldowns are kept

An upstream that fails on the network is left out of the races of the next while, unless
all candidates of a lookup have failed like that. The instance only keeps a map which
forgets what has expired. Over a history, being in the map means a mark in the log that is
younger than the window, `Reached.inCooldown_iff`. What a lookup asks and marks is read
off its process, `follows_process_cooldown`, and `History.cooldownsKept` puts the two
together: every race of a run leaves out the upstreams that were marked less than a window
before the lookup looked, and every mark comes right after a failure of its upstream.
-/

namespace Ncro

open Foundation Foundation.Process

/-! ## What a lookup asks and marks -/

/-- The last thing that happened is that a request to `url` failed on the network. -/
def JustFailed (url : Str) (past : List HandlerEvent) : Prop :=
  (∃ pending i earlier, past = ⟨.joinHead pending, some (i, .networkError)⟩ :: earlier ∧
    (pending.get i).upstream = url) ∨
  ∃ request err earlier, past = ⟨.getBytes request, .error err⟩ :: earlier ∧
    request.upstream = url

/-- The candidates `urls` may be raced after a past: none of them was cooling down, or all
candidates were. -/
def MayRace (candidates urls : List Str) (past : List HandlerEvent) : Prop :=
  urls ⊆ candidates ∧
    ((∀ url ∈ urls, (⟨.inCooldown url, false⟩ : HandlerEvent) ∈ past) ∨
      ∀ url ∈ candidates, (⟨.inCooldown url, true⟩ : HandlerEvent) ∈ past)

/-- What a lookup may race and mark after a past. -/
def CooldownOp (candidates : List Str) (past : List HandlerEvent) : Op → Prop
  | .spawnHeads requests => MayRace candidates (requests.map UpstreamRequest.upstream) past
  | .markCooldown url => JustFailed url past
  | _ => True

section

variable {crypto : Crypto} {reg : Registry} {storeHash : Str} {candidates urls : List Str}
  {hop : Hop} {past past' : List HandlerEvent}

theorem MayRace.mono (h : MayRace candidates urls past) (hpast : past <:+ past')
    {urls' : List Str} (hurls : urls' ⊆ urls) : MayRace candidates urls' past' := by
  constructor
  · exact List.Subset.trans hurls h.1
  · rcases h.2 with hrested | hall
    · exact .inl fun url hurl => hpast.subset (hrested url (hurls hurl))
    · exact .inr fun url hurl => hpast.subset (hall url hurl)

theorem CachedOp.cooldownOp {op : Op} (h : CachedOp hop op) : CooldownOp candidates past op := by
  cases op <;> first | exact h.elim | trivial

/-- A cached lookup neither races nor marks. -/
theorem follows_of_cachedOp {α : Type} {p : Handler α} (h : Performs (CachedOp hop) p) :
    Follows (CooldownOp candidates) (fun _ _ => True) past p :=
  .of_performs (h.mono fun _ hop _ => hop.cooldownOp)

/-- A failed `HEAD` request is followed by a mark of its upstream. -/
theorem follows_joinHeads_cooldown {group : List Str} (pending : List UpstreamRequest)
    (hpending : ∀ request ∈ pending, request.upstream ∈ group) (netErrs notFounds : ℕ) :
    Follows (CooldownOp candidates) (fun _ _ => True) past
      (joinHeads group pending hpending netErrs notFounds) := by
  induction hlen : pending.length generalizing pending netErrs notFounds past with
  | zero =>
      rw [joinHeads, if_pos (List.length_eq_zero_iff.1 hlen)]
      trivial
  | succ n ih =>
      have hne : pending ≠ [] := by
        intro hnil
        rw [hnil] at hlen
        cases hlen
      rw [joinHeads, if_neg hne]
      refine ⟨trivial, fun reply => ?_⟩
      cases reply with
      | none => trivial
      | some reply =>
          rcases reply with ⟨i, answer⟩
          have hrest : (pending.eraseIdx i).length = n := by
            rw [List.length_eraseIdx_of_lt i.isLt]
            omega
          cases answer with
          | found latencyMs => trivial
          | miss => exact ih _ _ _ _ hrest
          | networkError =>
              constructor
              · exact .inl ⟨pending, i, past, rfl, rfl⟩
              · exact fun _ => ih _ _ _ _ hrest
          | joinError => exact ih _ _ _ _ hrest

theorem follows_raceGroup_cooldown {group : List Str} (h : MayRace candidates group past) :
    Follows (CooldownOp candidates) (fun _ _ => True) past (raceGroup reg storeHash group hop) := by
  constructor
  · show MayRace candidates ((group.map (headRequest reg storeHash hop)).map _) past
    rw [List.map_map]
    have hupstreams : UpstreamRequest.upstream ∘ headRequest reg storeHash hop = id := rfl
    rw [hupstreams, List.map_id]
    exact h
  · exact fun _ => follows_joinHeads_cooldown _ _ _ _

/-- Only a failed fetch is an error of the network. -/
theorem error_of_networkLike {upstream : Str} {reply : Except BackendError (Option Octets)}
    {err : RouterError} (h : checkNarinfo crypto reg upstream reply = .error err)
    (hnetwork : commitErrorIsNetworkLike err = true) : ∃ failure, reply = .error failure := by
  unfold checkNarinfo at h
  split at h
  · exact ⟨_, rfl⟩
  · cases h
    cases hnetwork
  · split at h
    · cases h
      cases hnetwork
    · split at h
      · cases h
      · cases h
        cases hnetwork

/-- What a fetch returns was checked right before. -/
theorem follows_fetchNarinfo_cooldown (upstream : Str) :
    Follows (CooldownOp candidates)
      (fun past' fetched => ∃ reply, fetched = checkNarinfo crypto reg upstream reply ∧
        past' = ⟨.getBytes (narinfoRequest reg upstream storeHash hop), reply⟩ :: past)
      past (fetchNarinfo crypto reg upstream storeHash hop) :=
  ⟨trivial, fun reply => ⟨reply, rfl, rfl⟩⟩

/-- A commit that fails on the network has just failed to fetch the narinfo. -/
theorem follows_commitWinner_cooldown (winner : RaceResult) :
    Follows (CooldownOp candidates)
      (fun past' outcome => ∀ err, outcome = .error err → commitErrorIsNetworkLike err = true →
        JustFailed winner.url past') past (commitWinner crypto reg winner storeHash hop) := by
  apply (follows_fetchNarinfo_cooldown winner.url).bind
  intro past' fetched hfetched
  rcases hfetched with ⟨reply, hchecked, rfl⟩
  cases fetched with
  | error err =>
      intro err' heq hnetwork
      cases heq
      rcases error_of_networkLike hchecked.symm hnetwork with ⟨failure, rfl⟩
      exact .inr ⟨_, failure, past, rfl, rfl⟩
  | ok fetched =>
      show Follows _ _ _ (ite _ _ _)
      split
      · exact fun err heq => by cases heq
      · refine ⟨trivial, fun _ => ⟨trivial, fun _ => ⟨trivial, fun _ => ⟨trivial, fun _ => ?_⟩⟩⟩⟩
        have hset : ∀ route, Performs (CachedOp hop) (setRoute route) := fun route =>
          performs_setRoute route
        apply (follows_of_cachedOp (hset _)).bind
        intro past' stored _
        cases stored with
        | error err =>
            intro err' heq hnetwork
            cases heq
            cases hnetwork
        | ok _ => exact ⟨trivial, fun _ err heq => by cases heq⟩

theorem retainOthers_subset (url : Str) (group : List Str) : retainOthers url group ⊆ group :=
  List.filter_sublist.subset

theorem follows_raceWithinGroup_cooldown {group : List Str} (anyNotFound : Bool)
    (h : MayRace candidates group past) :
    Follows (CooldownOp candidates) (fun _ _ => True) past
      (raceWithinGroup crypto reg storeHash hop group anyNotFound) := by
  induction hlen : group.length using Nat.strongRecOn generalizing group anyNotFound past with
  | ind n ih =>
  subst hlen
  rw [raceWithinGroup]
  split
  · trivial
  apply (follows_raceGroup_cooldown h).and_suffix.bind
  intro past' verdict hpast
  cases verdict with
  | error err => cases err <;> trivial
  | ok winner =>
      have hlt := length_retainOthers_lt winner.2
      have hsubset := retainOthers_subset winner.val.url group
      apply (follows_commitWinner_cooldown winner.val).and_suffix.bind
      intro past'' commit hcommit
      have hgrown := hpast.2.trans hcommit.2
      cases commit with
      | ok outcome =>
          cases outcome with
          | accepted accepted => trivial
          | rejected => exact ih _ hlt _ (h.mono hgrown hsubset) rfl
      | error err =>
          show Follows _ _ _ (ite _ _ _)
          split
          · split
            · next hnetwork =>
              constructor
              · exact hcommit.1 err rfl hnetwork
              · exact fun _ =>
                  ih _ hlt _ (h.mono (hgrown.trans (List.suffix_cons _ _)) hsubset) rfl
            · exact ih _ hlt _ (h.mono hgrown hsubset) rfl
          · trivial

theorem follows_raceGroups_cooldown (groups : List (ℤ × List Str)) (anyNotFound : Bool)
    (h : MayRace candidates (groups.flatMap Prod.snd) past) :
    Follows (CooldownOp candidates) (fun _ _ => True) past
      (raceGroups crypto reg storeHash hop groups anyNotFound) := by
  induction groups generalizing anyNotFound past with
  | nil => trivial
  | cons head groups ih =>
      rcases head with ⟨priority, group⟩
      rw [List.flatMap_cons] at h
      have hhead := h.mono List.suffix_rfl (List.subset_append_left _ _)
      have htail := h.mono List.suffix_rfl (List.subset_append_right group _)
      apply (follows_raceWithinGroup_cooldown anyNotFound hhead).and_suffix.bind
      intro past' outcome hpast
      cases outcome with
      | done result => trivial
      | next anyNotFound' => exact ih anyNotFound' (htail.mono hpast.2 (List.Subset.refl _))

/-- Every candidate is asked for; those that are cooling down are left out. -/
theorem follows_cooldownFilteredCandidates (candidates' : List Str) :
    Follows (CooldownOp candidates)
      (fun past' filtered => filtered ⊆ candidates' ∧
        (∀ url ∈ filtered, (⟨.inCooldown url, false⟩ : HandlerEvent) ∈ past') ∧
        ∀ url ∈ candidates', url ∈ filtered ∨ (⟨.inCooldown url, true⟩ : HandlerEvent) ∈ past')
      past (cooldownFilteredCandidates candidates') := by
  induction candidates' generalizing past with
  | nil => exact ⟨List.Subset.refl _, by simp, by simp⟩
  | cons url urls ih =>
      refine ⟨trivial, fun cooling => ?_⟩
      apply ih.and_suffix.bind
      intro past' rest hrest
      rcases hrest with ⟨⟨hsubset, hrested, hcovered⟩, hpast⟩
      have hasked : (⟨.inCooldown url, cooling⟩ : HandlerEvent) ∈ past' :=
        hpast.subset List.mem_cons_self
      cases cooling with
      | true =>
          refine ⟨List.subset_cons_of_subset url hsubset, hrested, fun other hother => ?_⟩
          rcases List.mem_cons.1 hother with rfl | hother
          · exact .inr hasked
          · exact hcovered other hother
      | false =>
          refine ⟨List.cons_subset_cons url hsubset, fun other hother => ?_, fun other hother => ?_⟩
          · rcases List.mem_cons.1 hother with rfl | hother
            · exact hasked
            · exact hrested other hother
          · rcases List.mem_cons.1 hother with rfl | hother
            · exact .inl List.mem_cons_self
            · exact (hcovered other hother).imp_left (List.mem_cons_of_mem _)

/-- The groups hold the candidates they are made of. -/
theorem follows_priorityGroups_cooldown (urls : List Str) (groups : List (ℤ × List Str)) :
    Follows (CooldownOp candidates)
      (fun _ groups' => groups'.flatMap Prod.snd ⊆ groups.flatMap Prod.snd ++ urls) past
      (priorityGroups urls groups) := by
  induction urls generalizing groups past with
  | nil =>
      show groups.flatMap Prod.snd ⊆ groups.flatMap Prod.snd ++ []
      rw [List.append_nil]
      exact List.Subset.refl _
  | cons url urls ih =>
      refine ⟨trivial, fun health => ?_⟩
      apply (ih (pushGroup (racePriority health) url groups)).mono
      intro past' groups' hsubset other hother
      have hperm := pushGroup_perm (racePriority health) url groups
      rcases List.mem_append.1 (hsubset hother) with hold | hnew
      · rcases List.mem_append.1 (hperm.mem_iff.1 hold) with hold | hnew
        · exact List.mem_append_left _ hold
        · rw [List.mem_singleton.1 hnew]
          exact List.mem_append_right _ List.mem_cons_self
      · exact List.mem_append_right _ (List.mem_cons_of_mem _ hnew)

theorem follows_raceCandidates_cooldown :
    Follows (CooldownOp candidates) (fun _ _ => True) past
      (raceCandidates crypto reg storeHash candidates hop) := by
  apply (follows_cooldownFilteredCandidates candidates).bind
  intro past' filtered hfiltered
  rcases hfiltered with ⟨hsubset, hrested, hcovered⟩
  have hmay : MayRace candidates (if filtered = [] then candidates else filtered) past' := by
    split
    · next hnil =>
      refine ⟨List.Subset.refl _, .inr fun url hurl => ?_⟩
      rcases hcovered url hurl with hin | hcooling
      · rw [hnil] at hin
        cases hin
      · exact hcooling
    · exact ⟨hsubset, .inl hrested⟩
  apply (follows_priorityGroups_cooldown _ _).and_suffix.bind
  intro past'' groups hgroups
  exact follows_raceGroups_cooldown _ _ (hmay.mono hgroups.2 hgroups.1)

theorem follows_race_cooldown :
    Follows (CooldownOp candidates) (fun _ _ => True) past
      (race crypto reg storeHash candidates hop) := by
  unfold race
  split
  · trivial
  split
  · refine ⟨trivial, fun granted => ?_⟩
    cases granted with
    | false => trivial
    | true => exact follows_raceCandidates_cooldown.bind fun _ _ _ => ⟨trivial, fun _ => trivial⟩
  · exact follows_raceCandidates_cooldown

theorem follows_resolve_cooldown :
    Follows (CooldownOp candidates) (fun _ _ => True) past
      (resolve crypto reg storeHash candidates hop) := by
  have hcached : ∀ past, Follows (CooldownOp candidates) (fun _ _ => True) past
      (resolveCached crypto reg storeHash hop) := fun past =>
    follows_of_cachedOp performs_resolveCached
  apply (hcached past).bind
  intro past' cached _
  cases cached with
  | error err => trivial
  | ok cached =>
      cases cached with
      | some result => trivial
      | none =>
          cases hop with
          | peerOfPeer => trivial
          | peer => exact follows_race_cooldown
          | client =>
              refine ⟨trivial, fun lock => ⟨trivial, fun _ => ?_⟩⟩
              have hlocked : Follows (CooldownOp candidates) (fun _ _ => True)
                  (⟨.lock lock, ()⟩ :: ⟨.inflightEntry storeHash, lock⟩ :: past')
                  (resolveLocked crypto reg storeHash candidates) := by
                apply (hcached _).bind
                intro past'' again _
                cases again with
                | error err => trivial
                | ok again =>
                    cases again with
                    | some result => trivial
                    | none =>
                        apply follows_race_cooldown.bind
                        intro past''' result _
                        split
                        · exact ⟨trivial, fun _ => ⟨trivial, fun _ => trivial⟩⟩
                        · trivial
              exact hlocked.bind fun _ _ _ => ⟨trivial, fun _ => ⟨trivial, fun _ => trivial⟩⟩

theorem follows_resolveFallback_cooldown (upstream : Str) :
    Follows (CooldownOp candidates) (fun _ _ => True) past
      (resolveFallback crypto reg storeHash upstream hop) := by
  apply (follows_fetchNarinfo_cooldown upstream).bind
  intro past' fetched _
  cases fetched with
  | error err => trivial
  | ok fetched => exact ⟨trivial, fun _ => trivial⟩

theorem follows_mergeEach_cooldown (routes : List RouteEntry) :
    Follows (CooldownOp candidates) (fun _ _ => True) past (mergeEach routes) := by
  induction routes generalizing past with
  | nil => trivial
  | cons route routes ih =>
      have hset : Performs (CachedOp .client) (setRoute route) := performs_setRoute route
      refine ⟨trivial, fun row => ?_⟩
      cases row with
      | error err => exact ih
      | ok existing =>
          show Follows _ _ _ (ite _ _ _)
          split
          · exact (follows_of_cachedOp hset).bind fun _ _ _ => ih
          · exact ih

end

/-- The candidates of a lookup. -/
def TaskKind.candidates : TaskKind → List Str
  | .resolve _ candidates _ => candidates
  | .fallback _ _ _ | .merge _ => []

/-- Every task races and marks only what it may. -/
theorem follows_process_cooldown (crypto : Crypto) (reg : Registry) (kind : TaskKind) :
    Follows (CooldownOp kind.candidates) (fun _ _ => True) [] (kind.process crypto reg) := by
  cases kind with
  | resolve storeHash candidates hop => exact follows_resolve_cooldown.bind fun _ _ _ => trivial
  | fallback storeHash upstream hop =>
      exact (follows_resolveFallback_cooldown upstream).bind fun _ _ _ => trivial
  | merge incoming =>
      exact ⟨trivial, fun _ => (follows_mergeEach_cooldown _).bind fun _ _ _ => trivial⟩

/-! ## The cooldowns of an instance -/

namespace Instance

/-- What an operation other than a mark does to the cooldowns: some that have expired are
dropped. -/
structure CooldownsStay (s s' : Instance) : Prop where
  window : s'.cooldownWindow = s.cooldownWindow
  old : ∀ url row, s'.cooldown.get url = some row → s.cooldown.get url = some row
  kept : ∀ url row, s.cooldown.get url = some row → s.clock < row.2 →
    s'.cooldown.get url = some row

theorem CooldownsStay.of_eq {s s' : Instance} (hwindow : s'.cooldownWindow = s.cooldownWindow)
    (hcooldown : s'.cooldown = s.cooldown) : CooldownsStay s s' := by
  constructor
  · exact hwindow
  · intro url row hrow
    rwa [hcooldown] at hrow
  · intro url row hrow _
    rwa [hcooldown]

theorem cooldownsStay_dropExpiredCooldown (s : Instance) (url : Str) :
    CooldownsStay s (s.dropExpiredCooldown url) := by
  unfold dropExpiredCooldown
  split
  · exact .of_eq rfl rfl
  next hexpired =>
  constructor
  · rfl
  · intro other row hrow
    rw [Table.get_erase] at hrow
    split at hrow
    · cases hrow
    · exact hrow
  · intro other row hrow hlive
    rw [Table.get_erase]
    split
    · next heq =>
      subst heq
      rw [inCooldown, hrow] at hexpired
      exact absurd (by simpa using hlive) hexpired
    · exact hrow

theorem cooldownsStay_of_exec {reg : Registry} {op : Op} {s s' : Instance} {reply : op.Reply}
    (h : exec reg op s reply s') (hop : ∀ url, op ≠ .markCooldown url) : CooldownsStay s s' := by
  cases op with
  | markCooldown url => exact absurd rfl (hop url)
  | inCooldown url =>
      rcases h with ⟨-, rfl⟩
      exact cooldownsStay_dropExpiredCooldown s url
  | missLruGet key | lruGet key =>
      rcases Prod.mk.inj h with ⟨-, rfl⟩
      exact .of_eq rfl rfl
  | dbSetNegative storePath ttl =>
      rcases h with ⟨-, rfl⟩ | ⟨-, rfl⟩ <;> exact .of_eq rfl rfl
  | dbUpsertRoute entry =>
      rcases h with ⟨-, rfl⟩ | ⟨-, rfl⟩ <;> exact .of_eq rfl rfl
  | dbEvictIfNeeded =>
      rcases h with ⟨-, rfl⟩ | ⟨-, routes, -, rfl⟩ <;> exact .of_eq rfl rfl
  | inflightEntry key =>
      simp only [exec] at h
      split at h <;> rcases h with ⟨-, rfl⟩ <;> exact .of_eq rfl rfl
  | inflightRemoveIf key lock =>
      rw [h]
      split <;> exact .of_eq rfl rfl
  | acquireRacePermit =>
      rcases h with ⟨-, -, rfl⟩
      exact .of_eq rfl rfl
  | timestampNow | dbIsNegative _ | dbGetRoute _ | dbGetRouteByNarUrl _ | dbCountWrite
  | getHealth _ | sortedByLatency | lock _ =>
      rcases h with ⟨-, rfl⟩
      exact .of_eq rfl rfl
  | _ =>
      rw [h]
      exact .of_eq rfl rfl

end Instance

/-! ## Marks in the log -/

/-- The entry is a mark of the upstream, made since the given restart. -/
def LogEntry.Marks (mark : LogEntry) (boot : ℕ) (url : Str) : Prop :=
  mark.boot = boot ∧ mark.event.1 = .markCooldown url

/-- The log has a mark of the upstream that is younger than the window. -/
def Cooling (log : List LogEntry) (boot : ℕ) (window : Duration) (url : Str)
    (now : Instant) : Prop :=
  ∃ mark ∈ log, mark.Marks boot url ∧ now < mark.clock + window

namespace History

section

variable {crypto : Crypto} {meets : History → HistoryLabel → History → Prop} {s₀ s s' : History}
  {label : HistoryLabel}

/-- The cooldowns of an instance are the marks in its log that are younger than the window,
and perhaps some older ones. -/
structure CooldownsLogged (s : History) : Prop where
  boot_le : ∀ entry ∈ s.log, entry.boot ≤ s.boot
  clock_le : ∀ entry ∈ s.log, entry.boot = s.boot → entry.clock ≤ s.inst.clock
  marked : ∀ url row, s.inst.cooldown.get url = some row →
    ∃ mark ∈ s.log, mark.Marks s.boot url ∧ row.2 = mark.clock + s.inst.cooldownWindow
  kept : ∀ url, ∀ mark ∈ s.log, mark.Marks s.boot url →
    s.inst.clock < mark.clock + s.inst.cooldownWindow →
    ∃ row, s.inst.cooldown.get url = some row ∧ mark.clock + s.inst.cooldownWindow ≤ row.2

theorem Fresh.cooldownsLogged (h : s.Fresh) : s.CooldownsLogged := by
  have hlog := h.log
  rcases h.inst with ⟨maxEntries, inMemoryNegativeTtl, cooldownWindow, maxConcurrentRaces, hinst⟩
  have hcooldown : s.inst.cooldown = ∅ := by
    rw [hinst]
    rfl
  constructor
  · simp [hlog]
  · simp [hlog]
  · simp [hcooldown]
  · simp [hlog]

/-- Time passes, and marks expire. -/
theorem CooldownsLogged.background (h : s.CooldownsLogged) {inst : Instance}
    (hbackground : Instance.Background s.inst inst) :
    CooldownsLogged { s with inst := inst } := by
  have hwindow : inst.cooldownWindow = s.inst.cooldownWindow := by
    cases hbackground <;> rfl
  have hcooldown : inst.cooldown = s.inst.cooldown := by
    cases hbackground <;> rfl
  have hclock : s.inst.clock ≤ inst.clock := by
    cases hbackground with
    | tick wallClock clock hle => exact hle
    | _ => exact le_rfl
  constructor
  · exact h.boot_le
  · exact fun entry hentry hboot => (h.clock_le entry hentry hboot).trans hclock
  · intro url row hrow
    rw [hcooldown] at hrow
    rw [hwindow]
    exact h.marked url row hrow
  · intro url mark hmark hmarks hyoung
    rw [hwindow] at hyoung ⊢
    rw [hcooldown]
    exact h.kept url mark hmark hmarks (hclock.trans_lt hyoung)

/-- An operation that marks nothing. -/
theorem CooldownsLogged.stay (h : s.CooldownsLogged) {number : ℕ} {kind : TaskKind}
    {past : List HandlerEvent} {event : HandlerEvent} (hevent : ∀ url, event.1 ≠ .markCooldown url)
    (hstay : Instance.CooldownsStay s.inst s'.inst) (hclock : s'.inst.clock = s.inst.clock)
    (hboot : s'.boot = s.boot) (hlog : s'.log = s.entry number kind past event :: s.log) :
    s'.CooldownsLogged := by
  constructor
  · intro entry hentry
    rw [hlog] at hentry
    rw [hboot]
    rcases List.mem_cons.1 hentry with rfl | hentry
    · exact le_rfl
    · exact h.boot_le entry hentry
  · intro entry hentry hsame
    rw [hlog] at hentry
    rw [hclock]
    rcases List.mem_cons.1 hentry with rfl | hentry
    · exact le_rfl
    · exact h.clock_le entry hentry (hsame.trans hboot)
  · intro url row hrow
    rcases h.marked url row (hstay.old url row hrow) with ⟨mark, hmark, hmarks, hrow⟩
    rw [hlog, hboot, hstay.window]
    exact ⟨mark, List.mem_cons_of_mem _ hmark, hmarks, hrow⟩
  · intro url mark hmark hmarks hyoung
    rw [hlog] at hmark
    rw [hboot] at hmarks
    rw [hclock, hstay.window] at hyoung
    rcases List.mem_cons.1 hmark with rfl | hmark
    · exact absurd hmarks.2 (hevent url)
    · rcases h.kept url mark hmark hmarks hyoung with ⟨row, hrow, hle⟩
      refine ⟨row, hstay.kept url row hrow (hyoung.trans_le hle), ?_⟩
      rwa [hstay.window]

/-- A mark is younger than all the others. -/
theorem CooldownsLogged.mark (h : s.CooldownsLogged) {number : ℕ} {kind : TaskKind}
    {past : List HandlerEvent} {event : HandlerEvent} {url : Str}
    (hevent : event.1 = .markCooldown url) (hinst : s'.inst = s.inst.markCooldown url)
    (hboot : s'.boot = s.boot) (hlog : s'.log = s.entry number kind past event :: s.log) :
    s'.CooldownsLogged := by
  have hwindow : s'.inst.cooldownWindow = s.inst.cooldownWindow := by
    rw [hinst]
    rfl
  have hclock : s'.inst.clock = s.inst.clock := by
    rw [hinst]
    rfl
  have hget : ∀ other, s'.inst.cooldown.get other =
      if url = other then some (url, s.inst.clock + s.inst.cooldownWindow)
      else s.inst.cooldown.get other := by
    intro other
    rw [hinst]
    exact Table.get_upsert _ _ _
  have hnewest : ∀ entry ∈ s.log, entry.boot = s.boot → entry.clock ≤ s.inst.clock := h.clock_le
  constructor
  · intro entry hentry
    rw [hlog] at hentry
    rw [hboot]
    rcases List.mem_cons.1 hentry with rfl | hentry
    · exact le_rfl
    · exact h.boot_le entry hentry
  · intro entry hentry hsame
    rw [hlog] at hentry
    rw [hclock]
    rcases List.mem_cons.1 hentry with rfl | hentry
    · exact le_rfl
    · exact hnewest entry hentry (hsame.trans hboot)
  · intro other row hrow
    rw [hlog, hboot, hwindow]
    rw [hget] at hrow
    split at hrow
    · next heq =>
      cases hrow
      exact ⟨_, List.mem_cons_self, ⟨rfl, heq ▸ hevent⟩, rfl⟩
    · rcases h.marked other row hrow with ⟨mark, hmark, hmarks, hrow⟩
      exact ⟨mark, List.mem_cons_of_mem _ hmark, hmarks, hrow⟩
  · intro other mark hmark hmarks hyoung
    rw [hlog] at hmark
    rw [hboot] at hmarks
    rw [hclock, hwindow] at hyoung
    rw [hget, hwindow]
    have hle : mark.clock ≤ s.inst.clock := by
      rcases List.mem_cons.1 hmark with rfl | hmark
      · exact le_rfl
      · exact hnewest mark hmark hmarks.1
    split
    · exact ⟨_, rfl, Nat.add_le_add_right hle _⟩
    · next hne =>
      rcases List.mem_cons.1 hmark with rfl | hmark
      · have hsame : Op.markCooldown url = .markCooldown other := hevent.symm.trans hmarks.2
        cases hsame
        exact absurd rfl hne
      · exact h.kept other mark hmark hmarks hyoung

theorem CooldownsLogged.step (h : s.CooldownsLogged) (hstep : Step crypto s label s') :
    s'.CooldownsLogged := by
  cases hstep with
  | start kind => exact ⟨h.boot_le, h.clock_le, h.marked, h.kept⟩
  | @perform inst before after number kind past op next reply htasks hexec =>
      by_cases hmark : ∃ url, op = .markCooldown url
      · rcases hmark with ⟨url, rfl⟩
        have hinst : inst = s.inst.markCooldown url := hexec
        have hevent : (⟨.markCooldown url, reply⟩ : HandlerEvent).1 = .markCooldown url := rfl
        exact h.mark hevent hinst rfl rfl
      · rw [not_exists] at hmark
        have hevent : ∀ url, (⟨op, reply⟩ : HandlerEvent).1 ≠ .markCooldown url := hmark
        exact h.stay hevent (Instance.cooldownsStay_of_exec hexec hmark)
          (Instance.effect_of_exec hexec).clock rfl rfl
  | background hbackground => exact h.background hbackground
  | drop htasks racePermits inflight held => exact ⟨h.boot_le, h.clock_le, h.marked, h.kept⟩
  | restart reg health maxEntries inMemoryNegativeTtl cooldownWindow maxConcurrentRaces wallClock
      clock =>
      have hold : ∀ entry ∈ s.log, entry.boot ≠ s.boot + 1 := fun entry hentry heq => by
        have hle := h.boot_le entry hentry
        omega
      constructor
      · exact fun entry hentry => (h.boot_le entry hentry).trans (Nat.le_succ _)
      · exact fun entry hentry heq => absurd heq (hold entry hentry)
      · intro url row hrow
        cases hrow
      · exact fun url mark hmark hmarks _ => absurd hmarks.1 (hold mark hmark)

theorem Reached.cooldownsLogged (h₀ : s₀.Fresh) (h : Reached crypto meets s₀ s) :
    s.CooldownsLogged :=
  h.invariant h₀.cooldownsLogged fun _ hlogged _ hstep => hlogged.step hstep

/-- An upstream is cooling down if and only if it was marked within the window. -/
theorem CooldownsLogged.inCooldown_iff (h : s.CooldownsLogged) (url : Str) :
    s.inst.inCooldown url = true ↔
      Cooling s.log s.boot s.inst.cooldownWindow url s.inst.clock := by
  unfold Instance.inCooldown
  constructor
  · intro hin
    cases hrow : s.inst.cooldown.get url with
    | none =>
        rw [hrow] at hin
        cases hin
    | some row =>
        rw [hrow] at hin
        have hlive : s.inst.clock < row.2 := by simpa using hin
        rcases h.marked url row hrow with ⟨mark, hmark, hmarks, heq⟩
        exact ⟨mark, hmark, hmarks, heq ▸ hlive⟩
  · intro hcooling
    rcases hcooling with ⟨mark, hmark, hmarks, hyoung⟩
    rcases h.kept url mark hmark hmarks hyoung with ⟨row, hrow, hle⟩
    rw [hrow]
    simpa using hyoung.trans_le hle

/-! ## Looks in the log -/

/-- A lookup that looked saw whether the upstream was cooling down. -/
def LooksAgree (s : History) : Prop :=
  ∀ newer look older url cooling, s.log = newer ++ look :: older → look.boot = s.boot →
    look.event = ⟨.inCooldown url, cooling⟩ →
    (cooling = true ↔ Cooling older s.boot s.inst.cooldownWindow url look.clock)

theorem Step.cooldownWindow (hstep : Step crypto s label s') :
    s'.inst.cooldownWindow = s.inst.cooldownWindow ∧ s'.boot = s.boot ∨ s'.boot = s.boot + 1 := by
  cases hstep with
  | @perform inst before after number kind past op next reply htasks hexec =>
      by_cases hmark : ∃ url, op = .markCooldown url
      · rcases hmark with ⟨url, rfl⟩
        have hinst : inst = s.inst.markCooldown url := hexec
        subst hinst
        exact .inl ⟨rfl, rfl⟩
      · exact .inl ⟨(Instance.cooldownsStay_of_exec hexec (not_exists.1 hmark)).window, rfl⟩
  | background hbackground => cases hbackground <;> exact .inl ⟨rfl, rfl⟩
  | start kind => exact .inl ⟨rfl, rfl⟩
  | drop htasks racePermits inflight held => exact .inl ⟨rfl, rfl⟩
  | restart reg health maxEntries inMemoryNegativeTtl cooldownWindow maxConcurrentRaces wallClock
      clock => exact .inr rfl

theorem LooksAgree.step (h : s.LooksAgree) (hlogged : s.CooldownsLogged)
    (hstep : Step crypto s label s') : s'.LooksAgree := by
  intro newer look older url cooling hlog hboot hlook
  have holder : ∀ newer, s.log = newer ++ look :: older →
      (cooling = true ↔ Cooling older s'.boot s'.inst.cooldownWindow url look.clock) := by
    intro newer hlog
    rcases hstep.cooldownWindow with ⟨hwindow, hsame⟩ | hnext
    · rw [hwindow, hsame]
      exact h newer look older url cooling hlog (hboot.trans hsame) hlook
    · have hle := hlogged.boot_le look (hlog ▸ List.mem_append_right _ List.mem_cons_self)
      omega
  rcases hstep.log_eq with ⟨number, kind, past, event, rfl, hnew⟩ | hsame
  · rcases hstep.perform_effect with ⟨hexec, -, hboots, -⟩
    rw [hnew] at hlog
    cases newer with
    | nil =>
        rcases List.cons.inj hlog with ⟨rfl, rfl⟩
        have hevent : event = ⟨.inCooldown url, cooling⟩ := hlook
        subst hevent
        rcases hexec with ⟨rfl, hinst⟩
        have hwindow := (hinst ▸ Instance.cooldownsStay_dropExpiredCooldown s.inst url).window
        rw [hboots, hwindow]
        exact hlogged.inCooldown_iff url
    | cons _ newer => exact holder newer (List.cons.inj hlog).2
  · exact holder newer (hsame ▸ hlog)

theorem Reached.looksAgree (h₀ : s₀.Fresh) (h : Reached crypto meets s₀ s) : s.LooksAgree := by
  have hstart : s₀.LooksAgree := by
    intro newer look older url cooling hlog
    rw [h₀.log] at hlog
    exact absurd hlog.symm (by simp)
  exact h.invariant (I := LooksAgree) hstart fun hreached hlooks _ hstep =>
    hlooks.step (hreached.cooldownsLogged h₀) hstep

/-! ## Boots -/

/-- What a task did, it did since the same restart. -/
structure BootsAgree (s : History) : Prop where
  task : ∀ task ∈ s.tasks, ∀ entry ∈ s.log, entry.task = task.number → entry.boot = s.boot
  entry : ∀ entry ∈ s.log, ∀ other ∈ s.log, entry.task = other.task → entry.boot = other.boot

theorem BootsAgree.step (h : s.BootsAgree) (haccounted : s.Accounted)
    (hstep : Step crypto s label s') : s'.BootsAgree := by
  cases hstep with
  | start kind =>
      refine ⟨fun task htask entry hentry heq => ?_, h.entry⟩
      rcases List.mem_cons.1 htask with rfl | htask
      · exact absurd (haccounted.entry_lt entry hentry) (by rw [heq]; exact Nat.lt_irrefl _)
      · exact h.task task htask entry hentry heq
  | @perform inst before after number kind past op next reply htasks hexec =>
      have hself : ∀ entry ∈ s.log, entry.task = number → entry.boot = s.boot :=
        h.task ⟨number, kind, past, .perform op next⟩ (by simp [htasks])
      constructor
      · intro task htask entry hentry heq
        rcases List.mem_cons.1 hentry with rfl | hentry
        · rfl
        · simp only [List.mem_append, List.mem_cons] at htask
          rcases htask with htask | rfl | htask
          · exact h.task task (by simp [htasks, htask]) entry hentry heq
          · exact hself entry hentry heq
          · exact h.task task (by simp [htasks, htask]) entry hentry heq
      · intro entry hentry other hother heq
        rcases List.mem_cons.1 hentry with rfl | hentry
        · rcases List.mem_cons.1 hother with rfl | hother
          · rfl
          · exact (hself other hother heq.symm).symm
        · rcases List.mem_cons.1 hother with rfl | hother
          · exact hself entry hentry heq
          · exact h.entry entry hentry other hother heq
  | background hbackground => exact ⟨h.task, h.entry⟩
  | @drop before after task htasks racePermits inflight held =>
      refine ⟨fun other hother => h.task other ?_, h.entry⟩
      rw [htasks]
      rcases List.mem_append.1 hother with hother | hother <;> simp [hother]
  | restart reg health maxEntries inMemoryNegativeTtl cooldownWindow maxConcurrentRaces wallClock
      clock => exact ⟨fun task htask => (List.not_mem_nil htask).elim, h.entry⟩

theorem Reached.bootsAgree (h₀ : s₀.Fresh) (h : Reached crypto meets s₀ s) : s.BootsAgree := by
  have hstart : s₀.BootsAgree := by
    constructor <;> simp [h₀.tasks, h₀.log]
  exact h.invariant hstart fun hreached hboots _ hstep =>
    hboots.step (hreached.accounted h₀) hstep

/-! ## Races in the log -/

/-- Every operation in the log was one that its task might perform. -/
theorem Reached.cooldownOp (h₀ : s₀.Fresh) (h : Reached crypto meets s₀ s) :
    ∀ entry ∈ s.log, CooldownOp entry.kind.candidates entry.past entry.event.1 := by
  let I : History → Prop := fun s =>
    (∀ task ∈ s.tasks,
      Follows (CooldownOp task.kind.candidates) (fun _ _ => True) task.past task.process) ∧
    ∀ entry ∈ s.log, CooldownOp entry.kind.candidates entry.past entry.event.1
  have hstart : I s₀ := by simp [I, h₀.tasks, h₀.log]
  have hall : I s := by
    refine h.invariant (I := I) hstart fun {s label s'} _ hfollow _ hstep => ⟨?_, ?_⟩
    · exact hstep.tasks
        (T := fun _ task => Follows (CooldownOp task.kind.candidates) (fun _ _ => True) task.past
          task.process) hfollow.1
        (fun kind _ => follows_process_cooldown crypto s.registry kind)
        fun number kind past op next reply _ hself => hself.2 reply
    · cases hstep with
      | @perform inst before after number kind past op next reply htasks hexec =>
          intro entry hentry
          rcases List.mem_cons.1 hentry with rfl | hentry
          · exact (hfollow.1 ⟨number, kind, past, .perform op next⟩ (by simp [htasks])).1
          · exact hfollow.2 entry hentry
      | _ => exact hfollow.2
  exact hall.2

/-- Before what `older` is followed by, the task saw whether the upstream was cooling down,
and it saw right. -/
def Looked (s : History) (older : List LogEntry) (task : ℕ) (url : Str) (cooling : Bool) : Prop :=
  ∃ newer look earlier, older = newer ++ look :: earlier ∧ look.task = task ∧
    look.boot = s.boot ∧ look.event = ⟨.inCooldown url, cooling⟩ ∧
    (cooling = true ↔ Cooling earlier s.boot s.inst.cooldownWindow url look.clock)

/-- Since the last restart lookups have raced only upstreams that were not cooling down when
they looked, or else all their candidates were; and they have marked upstreams only
right after these failed. -/
def CooldownsKept (s : History) : Prop :=
  ∀ newer entry older, s.log = newer ++ entry :: older → entry.boot = s.boot →
    (∀ requests, entry.event.1 = .spawnHeads requests →
      (∀ request ∈ requests, request.upstream ∈ entry.kind.candidates) ∧
      ((∀ request ∈ requests, s.Looked older entry.task request.upstream false) ∨
        ∀ url ∈ entry.kind.candidates, s.Looked older entry.task url true)) ∧
    ∀ url, entry.event.1 = .markCooldown url → JustFailed url entry.past

theorem cooldownsKept (h₀ : s₀.Fresh) (h : Reached crypto meets s₀ s) : s.CooldownsKept := by
  intro newer entry older hlog hboot
  have hentry : entry ∈ s.log := hlog ▸ List.mem_append_right _ List.mem_cons_self
  have hmay := h.cooldownOp h₀ entry hentry
  have hpast := h.entry_past h₀ newer entry older hlog
  have hlooked : ∀ url cooling, (⟨.inCooldown url, cooling⟩ : HandlerEvent) ∈ entry.past →
      s.Looked older entry.task url cooling := by
    intro url cooling hmem
    rw [hpast] at hmem
    rcases List.mem_map.1 hmem with ⟨look, hfiltered, hevent⟩
    rcases List.mem_filter.1 hfiltered with ⟨hlook, htask⟩
    have hsame : look.task = entry.task := by simpa using htask
    rcases List.append_of_mem hlook with ⟨between, earlier, hsplit⟩
    have hwhole : s.log = (newer ++ entry :: between) ++ look :: earlier := by
      simp [hlog, hsplit]
    have hmemlog : look ∈ s.log := hwhole ▸ List.mem_append_right _ List.mem_cons_self
    have hlookboot : look.boot = s.boot :=
      ((h.bootsAgree h₀).entry look hmemlog entry hentry hsame).trans hboot
    exact ⟨between, look, earlier, hsplit, hsame, hlookboot, hevent,
      h.looksAgree h₀ _ look earlier url cooling hwhole hlookboot hevent⟩
  constructor
  · intro requests hrace
    rw [hrace] at hmay
    rcases hmay with ⟨hsubset, hrested⟩
    refine ⟨fun request hrequest => hsubset (List.mem_map_of_mem hrequest), ?_⟩
    rcases hrested with hrested | hall
    · exact .inl fun request hrequest =>
        hlooked _ false (hrested _ (List.mem_map_of_mem hrequest))
    · exact .inr fun url hurl => hlooked url true (hall url hurl)
  · intro url hmark
    rw [hmark] at hmay
    exact hmay

end

/-- A first lookup whose only candidate cannot be reached. -/
def unreachableEvents : List HandlerEvent :=
  Flights.missedEvents zeroHash.val ++
    [⟨.inCooldown ['u'], false⟩, ⟨.getHealth ['u'], none⟩,
      ⟨.spawnHeads [headRequest default zeroHash.val .peer ['u']], ()⟩,
      ⟨.joinHead [headRequest default zeroHash.val .peer ['u']], some (0, .networkError)⟩,
      ⟨.markCooldown ['u'], ()⟩]

/-- An instance with nothing in its caches whose cooldowns last. -/
def restingCaches : Instance := { Flights.emptyCaches with cooldownWindow := 15 }

theorem replay_resolve_unreachable :
    Replay (Instance.exec default) (resolve default default zeroHash.val [['u']] .peer)
      restingCaches unreachableEvents (.error .upstreamUnavailable)
      (restingCaches.markCooldown ['u']) := by
  have hmiss : Flights.CachesMiss restingCaches zeroHash.val := ⟨rfl, rfl, rfl, rfl⟩
  have hcooled : Instance.exec default (.inCooldown ['u']) restingCaches false restingCaches :=
    Instance.exec_inCooldown rfl _
  have hask : Instance.exec default (.getHealth ['u']) restingCaches none restingCaches :=
    ⟨rfl, rfl⟩
  have hspawn : Instance.exec default
      (.spawnHeads [headRequest default zeroHash.val .peer ['u']]) restingCaches ()
      restingCaches := rfl
  have hjoin : Instance.exec default
      (.joinHead [headRequest default zeroHash.val .peer ['u']]) restingCaches
      (some (0, .networkError)) restingCaches := rfl
  have hmark : Instance.exec default (.markCooldown ['u']) restingCaches ()
      (restingCaches.markCooldown ['u']) := rfl
  apply hmiss.replay.bind
  apply Replay.call_bind hcooled
  apply Replay.call_bind hask
  show Replay _ (raceWithinGroup _ _ _ _ _ _ >>= _) _ _ _ _
  rw [raceWithinGroup, if_neg (by simp)]
  apply Replay.call_bind hspawn
  show Replay _ (joinHeads _ _ _ _ _ >>= _ >>= _) _ _ _ _
  rw [joinHeads, if_neg (by simp)]
  apply Replay.call_bind hjoin
  apply Replay.call_bind hmark
  show Replay _ (joinHeads _ _ _ _ _ >>= _ >>= _) _ _ _ _
  rw [joinHeads, if_pos (by simp)]
  exact .ret _ _

/-- After the lookup its candidate is cooling down. -/
theorem cooldownsKept_unreachable :
    ∃ s, Reached default (fun _ _ _ => True) ⟨default, restingCaches, [], 0, 0, []⟩ s ∧
      s.inst.inCooldown ['u'] = true ∧ s.CooldownsKept := by
  have hfresh : Fresh ⟨default, restingCaches, [], 0, 0, []⟩ :=
    ⟨⟨100000, 0, 15, 2, rfl⟩, rfl, rfl⟩
  have hresolve : Replay (Instance.exec default)
      ((TaskKind.resolve zeroHash [['u']] .peer).process default default) restingCaches
      unreachableEvents (.lookup (.error .upstreamUnavailable))
      (restingCaches.markCooldown ['u']) := replay_resolve_unreachable.bind_ret rfl
  have hrefl : Reached default (fun _ _ _ => True) ⟨default, restingCaches, [], 0, 0, []⟩ _ := .refl
  rcases hrefl.task hresolve (fun _ => trivial) fun _ _ _ _ _ _ _ _ => trivial with
    ⟨log, hreached, hlog⟩
  have hcooling : (restingCaches.markCooldown ['u']).inCooldown ['u'] = true := by decide
  exact ⟨_, hreached, hcooling, cooldownsKept hfresh hreached⟩

end History

end Ncro
