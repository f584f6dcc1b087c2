import Ncro.Network.Deadlock

/-!
# Permits

Semaphores bound what an instance does at a time: one the races of its clients, and one
for each upstream and hop the `HEAD` requests that are under way. A permit is given back
by whatever ends the race or the attempt, be it a result, the deadline or a client that
goes away. So no permit is ever lost, `racePermits_add_permitsHeld`, and an upstream has at
most two gates full of requests to answer, `headsSent_le`.
-/

namespace Ncro

open Foundation Foundation.Process

/-! ## Race permits -/

/-- The operations on the race permits. -/
def Op.onPermits : Op → Prop
  | .acquireRacePermit | .releaseRacePermit => True
  | _ => False

theorem LookupOp.not_onPermits {hop : Hop} {op : Op} (h : LookupOp hop op) : ¬op.onPermits := by
  cases op <;> first | exact h.elim | exact not_false

theorem ResponseOp.not_onPermits {hop : Hop} {op : Op} (h : ResponseOp hop op) :
    ¬op.onPermits := by
  cases op <;> first | exact h.elim | exact not_false

theorem Instance.exec_racePermits {reg : Registry} {op : Op} {s s' : Instance} {reply : op.Reply}
    (h : Instance.exec reg op s reply s') (hop : ¬op.onPermits) :
    s'.racePermits = s.racePermits := by
  cases op with
  | acquireRacePermit => exact (hop trivial).elim
  | releaseRacePermit => exact (hop trivial).elim
  | inflightEntry storeHash =>
      cases hget : s.inflight.get storeHash with
      | some entry =>
          simp only [exec, hget] at h
          rw [h.2]
      | none =>
          simp only [exec, hget] at h
          rw [h.2]
  | inCooldown url =>
      rw [h.2, dropExpiredCooldown]
      split <;> rfl
  | dbSetNegative storePath ttl => rcases h with ⟨-, rfl⟩ | ⟨-, rfl⟩ <;> rfl
  | dbUpsertRoute entry => rcases h with ⟨-, rfl⟩ | ⟨-, rfl⟩ <;> rfl
  | dbEvictIfNeeded => rcases h with ⟨-, rfl⟩ | ⟨-, _, -, rfl⟩ <;> rfl
  | inflightRemoveIf storeHash lock =>
      rw [exec] at h
      rw [h]
      split <;> rfl
  | _ =>
      simp only [exec, Prod.mk.injEq] at h
      first
        | obtain rfl := h; rfl
        | obtain ⟨-, rfl⟩ := h; rfl

namespace Phase

variable {crypto : Crypto} {reg : Registry} {storeHash : Str} {candidates : List Str} {hop : Hop}
  {φ φ' : Phase hop}

theorem holdsPermit_afterFirstCheck (checked : Except RouterError (Option ResolveResult)) :
    (afterFirstCheck crypto reg storeHash candidates checked : Phase hop).holdsPermit = false := by
  rcases checked with err | result | result
  · rfl
  · cases hop with
    | client => rfl
    | peerOfPeer => rfl
    | peer =>
        simp only [afterFirstCheck, missed]
        split <;> rfl
  · rfl

theorem holdsPermit_afterSecondCheck (lock : LockId)
    (checked : Except RouterError (Option ResolveResult)) :
    (afterSecondCheck storeHash candidates lock checked).holdsPermit = false := by
  rcases checked with err | result | result
  · rfl
  · simp only [afterSecondCheck]
    split <;> rfl
  · rfl

theorem holdsPermit_afterRace (lock : LockId) (result : Except RouterError ResolveResult) :
    (afterRace lock result).holdsPermit = false := by
  unfold afterRace
  split <;> rfl

/-- Passing a result on keeps the permit. -/
theorem Step.holdsPermit_eq (h : φ.Step crypto reg storeHash candidates none φ') :
    φ'.holdsPermit = φ.holdsPermit := by
  cases h with
  | checked checked => exact holdsPermit_afterFirstCheck checked
  | rechecked lock checked => exact holdsPermit_afterSecondCheck lock checked
  | raced lock result => rfl
  | unguardedRaced result => rfl

/-- So does any operation on something else. -/
theorem Step.holdsPermit_of_not_onPermits {op : Op} {reply : op.Reply}
    (h : φ.Step crypto reg storeHash candidates (some ⟨op, reply⟩) φ') (hop : ¬op.onPermits) :
    φ'.holdsPermit = φ.holdsPermit := by
  cases h with
  | permit lock granted => exact (hop trivial).elim
  | release lock result => exact (hop trivial).elim
  | _ => rfl

/-- A permit that an instance gives away is the lookup's, and the other way round. -/
theorem Step.racePermits_add {op : Op} {reply : op.Reply} {s s' : Instance}
    (h : φ.Step crypto reg storeHash candidates (some ⟨op, reply⟩) φ')
    (hexec : Instance.exec reg op s reply s') :
    s'.racePermits + φ'.holdsPermit.toNat = s.racePermits + φ.holdsPermit.toNat := by
  by_cases hop : op.onPermits
  · cases h with
    | permit lock granted =>
        rcases hexec with ⟨hpos, rfl, rfl⟩
        exact Nat.sub_add_cancel hpos
    | release lock result =>
        rw [Instance.exec] at hexec
        rw [hexec, holdsPermit_afterRace]
        rfl
    | checking h => exact absurd hop h.1.lookupOp.not_onPermits
    | rechecking lock h => exact absurd hop h.1.lookupOp.not_onPermits
    | racing lock h => exact absurd hop h.1.not_onPermits
    | unguarded h => exact absurd hop h.1.not_onPermits
    | _ => exact hop.elim
  · rw [Instance.exec_racePermits hexec hop, h.holdsPermit_of_not_onPermits hop]

end Phase

namespace Activity

variable {crypto : Crypto} {app : AppState} {storeHash : Str} {candidates : List Str}
  {request : ClientRequest} {activity activity' : Activity request.hop}

theorem Step.holdsPermit_eq
    (h : Step crypto app storeHash candidates request activity none activity') :
    activity'.holdsPermit = activity.holdsPermit := by
  cases h with
  | resolving h => exact h.holdsPermit_eq
  | resolved result => rfl

theorem Step.holdsPermit_of_not_onPermits {op : Op} {reply : op.Reply}
    (h : Step crypto app storeHash candidates request activity (some ⟨op, reply⟩) activity')
    (hop : ¬op.onPermits) : activity'.holdsPermit = activity.holdsPermit := by
  cases h with
  | resolving h => exact h.holdsPermit_of_not_onPermits hop
  | responding h reply => rfl

theorem Step.racePermits_add {op : Op} {reply : op.Reply} {s s' : Instance}
    (h : Step crypto app storeHash candidates request activity (some ⟨op, reply⟩) activity')
    (hexec : Instance.exec app.registry op s reply s') :
    s'.racePermits + activity'.holdsPermit.toNat =
      s.racePermits + activity.holdsPermit.toNat := by
  cases h with
  | resolving h => exact h.racePermits_add hexec
  | responding h reply => rw [Instance.exec_racePermits hexec h.1.not_onPermits]; rfl

end Activity

namespace LookupNetwork

variable {ι : Type} [DecidableEq ι] {crypto : Crypto} {net : Network ι} {gateLimit : ι → ℕ}

/-- How many lookups of an instance hold a race permit. -/
def permitsHeld (lookups : List (ServedLookup ι)) (host : ι) : ℕ :=
  lookups.countP fun lookup => lookup.host = host ∧ lookup.activity.holdsPermit = true

/-- The race permits of an instance, given away or not. -/
def permits (s : LookupNetwork ι) (host : ι) : ℕ :=
  (s.inst host).racePermits + permitsHeld s.lookups host

section

variable {inst inst' : ι → Instance} {before after : List (ServedLookup ι)} {n m : ℕ}
  {lookup : ServedLookup ι}

theorem permitsHeld_append (host : ι) :
    permitsHeld (before ++ lookup :: after) host = permitsHeld (before ++ after) host +
      if lookup.host = host then lookup.activity.holdsPermit.toNat else 0 := by
  simp only [permitsHeld, List.countP_append, List.countP_cons]
  by_cases hhost : lookup.host = host
  · cases hholds : lookup.activity.holdsPermit <;> simp [hhost, add_assoc]
  · simp [hhost]

variable {activity : Activity lookup.request.hop} {attempts : List Attempt} {number : ℕ}

/-- A lookup that goes on keeps the permits, if it does so together with its instance. -/
theorem permits_replace (hother : ∀ host, host ≠ lookup.host → inst' host = inst host)
    (hpermits : (inst' lookup.host).racePermits + activity.holdsPermit.toNat =
      (inst lookup.host).racePermits + lookup.activity.holdsPermit.toNat) (host : ι) :
    permits ⟨inst', before ++ { lookup with activity, attempts, number } :: after, m⟩ host =
      permits ⟨inst, before ++ lookup :: after, n⟩ host := by
  rw [permits, permits, permitsHeld_append, permitsHeld_append]
  by_cases heq : lookup.host = host
  · subst heq
    simp only [if_true]
    omega
  · simp only [if_neg heq, hother host (Ne.symm heq)]

/-- The instances stay as they are. -/
theorem permits_replace_lookup (hholds : activity.holdsPermit = lookup.activity.holdsPermit)
    (host : ι) :
    permits ⟨inst, before ++ { lookup with activity, attempts, number } :: after, m⟩ host =
      permits ⟨inst, before ++ lookup :: after, n⟩ host :=
  permits_replace (fun _ _ => rfl) (by rw [hholds]) host

end

/-- A lookup with a permit has a lock as well. -/
theorem holdsPermit_of_lock?_eq_none {hop : Hop} {activity : Activity hop}
    (h : activity.lock? = none) : activity.holdsPermit = false := by
  cases activity with
  | responding part => rfl
  | resolving φ =>
      cases φ with
      | racing lock part => cases h
      | release lock result => cases h
      | _ => rfl

theorem holdsPermit_dropped {hop : Hop} (φ : Phase hop)
    (result : Except RouterError ResolveResult) : (φ.dropped result).holdsPermit = false := by
  cases φ <;> rfl

/-- One step keeps the permits of every instance. -/
theorem Step.permits_eq {s s' : LookupNetwork ι} (h : Step crypto net gateLimit s s') (host : ι) :
    s'.permits host = s.permits host := by
  cases h with
  | receive _ other request storeHash candidates caller hpath hcandidates hcaller =>
      simp [permits, permitsHeld, Activity.holdsPermit, Phase.holdsPermit]
  | pass hgoes => exact permits_replace_lookup (Activity.Step.holdsPermit_eq hgoes) host
  | perform hgoes hlocal hexec =>
      apply permits_replace
      · intro other hne
        rw [Function.update_of_ne hne]
      · rw [Function.update_self]
        exact Activity.Step.racePermits_add hgoes hexec
  | spawnHeads hgoes =>
      exact permits_replace_lookup
        (Activity.Step.holdsPermit_of_not_onPermits hgoes not_false) host
  | acquire hattempts hgate => exact permits_replace_lookup rfl host
  | answer answer hattempts => exact permits_replace_lookup rfl host
  | joinHead hgoes hfinished =>
      exact permits_replace_lookup
        (Activity.Step.holdsPermit_of_not_onPermits hgoes not_false) host
  | deadline hgoes =>
      exact permits_replace_lookup
        (Activity.Step.holdsPermit_of_not_onPermits hgoes not_false) host
  | @reply inst before after n lookup activity op reply hgoes hawaited =>
      apply permits_replace_lookup
      apply Activity.Step.holdsPermit_of_not_onPermits hgoes
      cases op with
      | getBytes _ => exact not_false
      | proxy _ => exact not_false
      | _ => cases hawaited
  | drop hlock =>
      rw [permits, permits, permitsHeld_append, holdsPermit_of_lock?_eq_none hlock]
      simp
  | @dropLocked inst before after n lookup φ hactivity hlock result =>
      apply permits_replace
      · intro other hne
        rw [Function.update_of_ne hne]
      · have hholds : lookup.activity.holdsPermit = φ.holdsPermit := by rw [hactivity]; rfl
        have hdropped := holdsPermit_dropped φ result
        rw [Function.update_self, hholds]
        simp only [Activity.holdsPermit, hdropped]
        cases φ.holdsPermit <;> rfl
  | other _ changed inst' hlocks hpermits =>
      have hupdate : (Function.update s.inst changed inst' host).racePermits =
          (s.inst host).racePermits := by
        by_cases heq : host = changed
        · subst heq
          rw [Function.update_self, hpermits]
        · rw [Function.update_of_ne heq]
      rw [permits, permits, hupdate]

/-- No race permit is lost or made up: in every run from a network without lookups the
permits an instance has left and the lookups that hold one are as many as it started with. -/
theorem racePermits_add_permitsHeld {s₀ s : LookupNetwork ι} (hempty : s₀.lookups = [])
    (h : Relation.ReflTransGen (Step crypto net gateLimit) s₀ s) (host : ι) :
    (s.inst host).racePermits + permitsHeld s.lookups host = (s₀.inst host).racePermits := by
  have hkept : s.permits host = s₀.permits host := by
    clear hempty
    induction h with
    | refl => rfl
    | tail _ hstep ih => rw [hstep.permits_eq, ih]
  rw [← permits, hkept, permits, hempty]
  rfl

/-- Two lookups race, and an instance that started with two permits has none left. -/
theorem racePermits_add_permitsHeld_twoRaces :
    ∃ φ φ', ((twoRaces φ φ').inst ()).racePermits + permitsHeld (twoRaces φ φ').lookups () = 2 := by
  obtain ⟨φ, φ', hreached⟩ := exists_reached_twoRaces
  exact ⟨φ, φ', racePermits_add_permitsHeld rfl hreached ()⟩

/-! ## Gates -/

/-- The requests of a lookup that are under way to an upstream. -/
def sentTo (upstream : Str) (attempts : List Attempt) : ℕ :=
  attempts.countP fun attempt => attempt.request.upstream = upstream ∧ attempt.state = .sent

/-- The `HEAD` requests of an instance that are under way to an upstream. -/
def headsSent (s : LookupNetwork ι) (host : ι) (upstream : Str) : ℕ :=
  sentTo upstream ((s.lookups.filter fun lookup => lookup.host = host).flatMap
    ServedLookup.attempts)

section

variable {inst inst' : ι → Instance} {before after : List (ServedLookup ι)} {n m : ℕ}
  {lookup : ServedLookup ι} {host : ι} {upstream : Str} {hop : Hop}

theorem gateTaken_append :
    gateTaken ⟨inst, before ++ lookup :: after, n⟩ host upstream hop =
      gateTaken ⟨inst', before ++ after, m⟩ host upstream hop +
        if lookup.host = host ∧ lookup.hop = hop then sentTo upstream lookup.attempts else 0 := by
  by_cases hhere : lookup.host = host ∧ lookup.hop = hop
  · simp [gateTaken, sentTo, List.filter_append, hhere]
    omega
  · simp [gateTaken, List.filter_append, hhere]

/-- A lookup that goes on takes no gate, if it sends nothing new. -/
theorem gateTaken_replace_le {activity : Activity lookup.request.hop} {attempts : List Attempt}
    {number : ℕ} (hle : sentTo upstream attempts ≤ sentTo upstream lookup.attempts) :
    gateTaken ⟨inst', before ++ { lookup with activity, attempts, number } :: after, m⟩ host
        upstream hop ≤
      gateTaken ⟨inst, before ++ lookup :: after, n⟩ host upstream hop := by
  rw [@gateTaken_append _ _ inst' inst' _ _ _ 0, @gateTaken_append _ _ inst inst' _ _ _ 0]
  apply Nat.add_le_add_left
  split
  · exact hle
  · exact le_rfl

end

theorem sentTo_append (upstream : Str) (early late : List Attempt) (attempt : Attempt) :
    sentTo upstream (early ++ attempt :: late) = sentTo upstream (early ++ late) +
      if attempt.request.upstream = upstream ∧ attempt.state = .sent then 1 else 0 := by
  simp [sentTo, List.countP_append, List.countP_cons, add_assoc]

theorem sentTo_startedAttempts (upstream : Str) (n : ℕ) (requests : List UpstreamRequest) :
    sentTo upstream (startedAttempts n requests) = 0 := by
  apply List.countP_eq_zero.2
  intro attempt hmem
  rcases List.mem_map.1 hmem with ⟨_, -, rfl⟩
  simp

theorem sentTo_joinedAttempts_le (upstream : Str) (attempts : List Attempt) (i : ℕ)
    (answer : HeadAnswer) :
    sentTo upstream (joinedAttempts attempts i answer) ≤ sentTo upstream attempts := by
  cases answer with
  | found _ => exact Nat.zero_le _
  | _ => exact (List.eraseIdx_sublist attempts i).countP_le

/-- A gate is taken by an attempt that finds it open, one at a time. -/
theorem Step.gateTaken_le {s s' : LookupNetwork ι} (h : Step crypto net gateLimit s s') (host : ι)
    (upstream : Str) (hop : Hop) :
    s'.gateTaken host upstream hop ≤ s.gateTaken host upstream hop ∨
      s'.gateTaken host upstream hop ≤ gateLimit host := by
  cases h with
  | receive _ other request storeHash candidates caller hpath hcandidates hcaller =>
      apply Or.inl
      simp only [gateTaken, List.filter_cons]
      split <;> exact le_rfl
  | pass hgoes => exact .inl (gateTaken_replace_le le_rfl)
  | perform hgoes hlocal hexec => exact .inl (gateTaken_replace_le le_rfl)
  | spawnHeads hgoes =>
      apply Or.inl
      apply gateTaken_replace_le
      rw [sentTo_startedAttempts]
      exact Nat.zero_le _
  | @acquire inst before after n lookup early late number request hattempts hgate =>
      by_cases hsame : (lookup.host = host ∧ lookup.hop = hop) ∧ request.upstream = upstream
      · rcases hsame with ⟨⟨rfl, rfl⟩, rfl⟩
        apply Or.inr
        rw [@gateTaken_append _ _ inst inst before after n n lookup, hattempts,
          sentTo_append] at hgate
        rw [@gateTaken_append _ _ inst inst before after n n, sentTo_append]
        simp at hgate ⊢
        omega
      · apply Or.inl
        rw [@gateTaken_append _ _ inst inst before after n n,
          @gateTaken_append _ _ inst inst before after n n lookup, hattempts, sentTo_append,
          sentTo_append]
        apply Nat.add_le_add_left
        by_cases hhere : lookup.host = host ∧ lookup.hop = hop
        · have hne : request.upstream ≠ upstream := fun heq => hsame ⟨hhere, heq⟩
          simp [hne]
        · rw [if_neg hhere]
          exact Nat.zero_le _
  | @answer inst before after n lookup early late number request answer hattempts =>
      apply Or.inl
      apply gateTaken_replace_le
      rw [hattempts, sentTo_append, sentTo_append]
      simp
  | joinHead hgoes hfinished =>
      exact .inl (gateTaken_replace_le (sentTo_joinedAttempts_le upstream _ _ _))
  | deadline hgoes => exact .inl (gateTaken_replace_le (Nat.zero_le _))
  | reply hgoes hawaited => exact .inl (gateTaken_replace_le le_rfl)
  | @drop inst before after n lookup hlock =>
      apply Or.inl
      rw [@gateTaken_append _ _ inst inst before after n n lookup]
      exact Nat.le_add_right _ _
  | dropLocked hactivity hlock result => exact .inl (gateTaken_replace_le (Nat.zero_le _))
  | other _ changed inst' hlocks hpermits => exact .inl le_rfl

/-- A gate never lets more requests through than its limit. -/
theorem gateTaken_le_gateLimit {s₀ s : LookupNetwork ι} (hempty : s₀.lookups = [])
    (h : Relation.ReflTransGen (Step crypto net gateLimit) s₀ s) (host : ι) (upstream : Str)
    (hop : Hop) : s.gateTaken host upstream hop ≤ gateLimit host := by
  induction h with
  | refl =>
      rw [gateTaken, hempty]
      exact Nat.zero_le _
  | tail _ hstep ih =>
      rcases hstep.gateTaken_le host upstream hop with hle | hle
      · exact hle.trans ih
      · exact hle

/-- The requests to an upstream went through the gate of one of the hops. -/
theorem headsSent_eq (s : LookupNetwork ι) (host : ι) (upstream : Str) :
    s.headsSent host upstream = s.gateTaken host upstream .client +
      s.gateTaken host upstream .peer + s.gateTaken host upstream .peerOfPeer := by
  rcases s with ⟨inst, lookups, n⟩
  induction lookups with
  | nil => rfl
  | cons lookup rest ih =>
      have hgate : ∀ hop, gateTaken ⟨inst, lookup :: rest, n⟩ host upstream hop =
          gateTaken ⟨inst, rest, n⟩ host upstream hop +
            if lookup.host = host ∧ lookup.hop = hop then sentTo upstream lookup.attempts else 0 :=
        fun hop => @gateTaken_append _ _ inst inst [] rest n n lookup host upstream hop
      have hheads : headsSent ⟨inst, lookup :: rest, n⟩ host upstream =
          headsSent ⟨inst, rest, n⟩ host upstream +
            if lookup.host = host then sentTo upstream lookup.attempts else 0 := by
        by_cases hhost : lookup.host = host
        · simp [headsSent, sentTo, hhost, Nat.add_comm]
        · simp [headsSent, hhost]
      rw [hheads, ih, hgate, hgate, hgate]
      by_cases hhost : lookup.host = host
      · cases lookup.hop <;> simp [hhost] <;> omega
      · simp [hhost]

theorem Sound.gateTaken_peerOfPeer {s : LookupNetwork ι} (hsound : s.Sound) (host : ι)
    (upstream : Str) : s.gateTaken host upstream .peerOfPeer = 0 := by
  apply List.countP_eq_zero.2
  intro attempt hmem
  rcases List.mem_flatMap.1 hmem with ⟨lookup, hlookup, hattempt⟩
  rcases List.mem_filter.1 hlookup with ⟨hlookup, hfilter⟩
  have hhop : lookup.hop = .peerOfPeer := (of_decide_eq_true hfilter).2
  exact absurd hhop ((hsound lookup hlookup).hop_ne (List.ne_nil_of_mem hattempt))

/-- In every run an instance has at most two gates full of `HEAD` requests under way to an
upstream, one for its clients and one for its peers, whatever lookups come and go. -/
theorem headsSent_le {s₀ s : LookupNetwork ι} (hempty : s₀.lookups = [])
    (h : Relation.ReflTransGen (Step crypto net gateLimit) s₀ s) (host : ι) (upstream : Str) :
    s.headsSent host upstream ≤ 2 * gateLimit host := by
  have hsound : s.Sound := by
    clear host upstream
    induction h with
    | refl =>
        intro lookup hmem
        rw [hempty] at hmem
        cases hmem
    | tail _ hstep ih => exact ih.step hstep
  have hclient := gateTaken_le_gateLimit hempty h host upstream .client
  have hpeer := gateTaken_le_gateLimit hempty h host upstream .peer
  rw [headsSent_eq, hsound.gateTaken_peerOfPeer]
  omega

/-- Of two races that use the same upstreams each has one gate. -/
theorem headsSent_le_twoRaces :
    ∃ φ φ', (twoRaces φ φ').headsSent () ['u'] ≤ 2 * 1 := by
  obtain ⟨φ, φ', hreached⟩ := exists_reached_twoRaces
  exact ⟨φ, φ', headsSent_le rfl hreached () ['u']⟩

end LookupNetwork

end Ncro
