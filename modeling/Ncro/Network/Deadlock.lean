import Ncro.Network.Lookups
import Ncro.Router.FilterGate
import Mathlib.Data.Prod.Lex

/-!
# Lookups do not deadlock

A task of a network is a lookup or one of its attempts. `WaitsFor` says which task
waits for which: for the lock of a hash, a race permit or a gate permit that the
other one holds, for the answer to a request that the other one serves, or for an
attempt of its own. Along it the hop rises, or the hop stays and the stage rises, or
a peer's peer waits for a younger request: `no_waiting_cycle`.
-/

namespace Ncro

open Foundation Foundation.Process

/-! ## Stages -/

/-- How far a lookup has come with its locks and permits. -/
def Phase.stage : {hop : Hop} → Phase hop → ℕ
  | _, .secondCheck _ _ | _, .permit _ => 1
  | _, .racing _ _ | _, .unguarded _ => 2
  | _, .release _ _ | _, .remember _ | _, .recordNegative _ | _, .cleanup _ _
  | _, .unlocking _ _ => 3
  | _, _ => 0

def Activity.stage {hop : Hop} : Activity hop → ℕ
  | .resolving φ => φ.stage
  | .responding _ => 0

namespace Phase

variable {crypto : Crypto} {reg : Registry} {storeHash : Str} {candidates : List Str} {hop : Hop}
  {φ φ' : Phase hop}

theorem stage_of_lock? {lock : LockId} (h : φ.lock? = some lock) :
    hop = .client ∧ 1 ≤ φ.stage := by
  cases φ with
  | firstCheck => cases h
  | entry => cases h
  | waiting => cases h
  | unguarded => cases h
  | done => cases h
  | _ => exact ⟨rfl, by simp [stage]⟩

theorem stage_of_holdsPermit (h : φ.holdsPermit = true) : hop = .client ∧ 2 ≤ φ.stage := by
  cases φ with
  | racing => exact ⟨rfl, le_rfl⟩
  | release => exact ⟨rfl, by simp [stage]⟩
  | _ => cases h

/-- The stage of a peer's peer, which takes no locks and does not race. -/
theorem stage_eq_zero (φ : Phase hop) (h : hop = .peerOfPeer) : φ.stage = 0 := by
  subst h
  cases φ with
  | firstCheck => rfl
  | done => rfl

/-- A lookup that is about to take a lock is at the first stage. -/
theorem Step.stage_of_lock {lock : LockId} {reply : Unit}
    (h : φ.Step crypto reg storeHash candidates (some ⟨.lock lock, reply⟩) φ') :
    hop = .client ∧ φ.stage = 0 := by
  cases h with
  | checking h => exact h.1.elim
  | lock => exact ⟨rfl, rfl⟩
  | rechecking _ h => exact h.1.elim
  | racing _ h => exact h.1.elim
  | unguarded h => exact h.1.elim

theorem Step.stage_of_acquireRacePermit {granted : Bool}
    (h : φ.Step crypto reg storeHash candidates (some ⟨.acquireRacePermit, granted⟩) φ') :
    hop = .client ∧ φ.stage = 1 := by
  cases h with
  | checking h => exact h.1.elim
  | rechecking _ h => exact h.1.elim
  | permit => exact ⟨rfl, rfl⟩
  | racing _ h => exact h.1.elim
  | unguarded h => exact h.1.elim

theorem Step.stage_of_joinHead {pending : List UpstreamRequest} {reply : (Op.joinHead pending).Reply}
    (h : φ.Step crypto reg storeHash candidates (some ⟨.joinHead pending, reply⟩) φ') :
    φ.stage = 2 := by
  cases h with
  | checking h => exact h.1.elim
  | rechecking _ h => exact h.1.elim
  | racing => rfl
  | unguarded => rfl

/-- A peer's peer starts no attempts. -/
theorem Step.hop_ne_of_spawnHeads {requests : List UpstreamRequest} {reply : Unit}
    (h : φ.Step crypto reg storeHash candidates (some ⟨.spawnHeads requests, reply⟩) φ') :
    hop ≠ .peerOfPeer := by
  cases h with
  | checking h => exact h.1.elim
  | rechecking => nofun
  | racing => nofun
  | unguarded => nofun

theorem Step.carriesHop {op : Op} {reply : op.Reply}
    (h : φ.Step crypto reg storeHash candidates (some ⟨op, reply⟩) φ') : CarriesHop hop op := by
  cases h with
  | checking h => exact h.1.lookupOp.carriesHop
  | rechecking _ h => exact h.1.lookupOp.carriesHop
  | racing _ h => exact h.1.carriesHop
  | unguarded h => exact h.1.carriesHop
  | _ => exact carriesHop_of_sent_eq_nil rfl

end Phase

namespace Activity

variable {crypto : Crypto} {app : AppState} {storeHash : Str} {candidates : List Str}
  {request : ClientRequest} {activity activity' : Activity request.hop}

theorem stage_eq_zero {hop : Hop} (activity : Activity hop) (h : hop = .peerOfPeer) :
    activity.stage = 0 := by
  cases activity with
  | resolving φ => exact φ.stage_eq_zero h
  | responding => rfl

theorem stage_of_lock? {hop : Hop} {activity : Activity hop} {lock : LockId}
    (h : activity.lock? = some lock) : hop = .client ∧ 1 ≤ activity.stage := by
  cases activity with
  | resolving φ => exact Phase.stage_of_lock? h
  | responding => cases h

theorem stage_of_holdsPermit {hop : Hop} {activity : Activity hop}
    (h : activity.holdsPermit = true) : hop = .client ∧ 2 ≤ activity.stage := by
  cases activity with
  | resolving φ => exact Phase.stage_of_holdsPermit h
  | responding => cases h

theorem Step.carriesHop {op : Op} {reply : op.Reply}
    (h : Step crypto app storeHash candidates request activity (some ⟨op, reply⟩) activity') :
    CarriesHop request.hop op := by
  cases h with
  | resolving h => exact h.carriesHop
  | responding h => exact h.1.carriesHop

theorem Step.stage_of_lock {lock : LockId} {reply : Unit}
    (h : Step crypto app storeHash candidates request activity (some ⟨.lock lock, reply⟩)
      activity') : request.hop = .client ∧ activity.stage = 0 := by
  cases h with
  | resolving h => exact h.stage_of_lock
  | responding h => exact h.1.elim

theorem Step.stage_of_acquireRacePermit {granted : Bool}
    (h : Step crypto app storeHash candidates request activity
      (some ⟨.acquireRacePermit, granted⟩) activity') :
    request.hop = .client ∧ activity.stage = 1 := by
  cases h with
  | resolving h => exact h.stage_of_acquireRacePermit
  | responding h => exact h.1.elim

theorem Step.stage_of_joinHead {pending : List UpstreamRequest} {reply : (Op.joinHead pending).Reply}
    (h : Step crypto app storeHash candidates request activity (some ⟨.joinHead pending, reply⟩)
      activity') : activity.stage = 2 := by
  cases h with
  | resolving h => exact h.stage_of_joinHead
  | responding h => exact h.1.elim

theorem Step.hop_ne_of_spawnHeads {requests : List UpstreamRequest} {reply : Unit}
    (h : Step crypto app storeHash candidates request activity
      (some ⟨.spawnHeads requests, reply⟩) activity') : request.hop ≠ .peerOfPeer := by
  cases h with
  | resolving h => exact h.hop_ne_of_spawnHeads
  | responding h => exact h.1.elim

end Activity

/-! ## Numbers and hops -/

/-- What holds of a lookup while less than `n` tasks have been numbered: its caller is an
older task, of the hop before its own. -/
structure ServedLookup.Sound {ι : Type} (n : ℕ) (lookup : ServedLookup ι) : Prop where
  number_lt : lookup.number < n
  attempt_lt : ∀ attempt ∈ lookup.attempts, attempt.number < n
  attempt_hop : ∀ attempt ∈ lookup.attempts,
    Hop.fromHeaders attempt.request.headers = lookup.hop.next
  hop_ne : lookup.attempts ≠ [] → lookup.hop ≠ .peerOfPeer
  caller_hop : ∀ task, lookup.caller = some task → lookup.hop = task.hop.next
  caller_lt : ∀ task, lookup.caller = some task → task.number < lookup.number

namespace ServedLookup.Sound

variable {ι : Type} {n m : ℕ} {lookup : ServedLookup ι}

theorem mono (h : lookup.Sound n) (hle : n ≤ m) : lookup.Sound m :=
  { h with
    number_lt := h.number_lt.trans_le hle
    attempt_lt := fun attempt hmem => (h.attempt_lt attempt hmem).trans_le hle }

/-- What a lookup does next does not matter, and attempts may be dropped and change what
they wait for. -/
theorem going (h : lookup.Sound n) (activity : Activity lookup.request.hop)
    {attempts : List Attempt}
    (hattempts : ∀ attempt ∈ attempts, ∃ old ∈ lookup.attempts, old.number = attempt.number ∧
      old.request = attempt.request) : { lookup with activity, attempts }.Sound n := by
  constructor
  · exact h.number_lt
  · intro attempt hmem
    obtain ⟨old, hold, hnumber, -⟩ := hattempts attempt hmem
    exact hnumber ▸ h.attempt_lt old hold
  · intro attempt hmem
    obtain ⟨old, hold, -, hrequest⟩ := hattempts attempt hmem
    exact hrequest ▸ h.attempt_hop old hold
  · intro hne
    obtain ⟨attempt, hmem⟩ := List.exists_mem_of_ne_nil attempts hne
    obtain ⟨old, hold, -, -⟩ := hattempts attempt hmem
    exact h.hop_ne (List.ne_nil_of_mem hold)
  · exact h.caller_hop
  · exact h.caller_lt

theorem withActivity (h : lookup.Sound n) (activity : Activity lookup.request.hop) :
    { lookup with activity }.Sound n :=
  h.going activity fun attempt hmem => ⟨attempt, hmem, rfl, rfl⟩

/-- The attempt at one place changes what it waits for. -/
theorem withState (h : lookup.Sound n) {early late : List Attempt} {attempt : Attempt}
    (hattempts : lookup.attempts = early ++ attempt :: late) (state : AttemptState) :
    { lookup with attempts := early ++ { attempt with state } :: late }.Sound n := by
  apply h.going lookup.activity
  intro other hother
  rw [hattempts]
  rcases List.mem_append.1 hother with hmem | hmem
  · exact ⟨other, List.mem_append_left _ hmem, rfl, rfl⟩
  · rcases List.mem_cons.1 hmem with rfl | hmem
    · exact ⟨attempt, List.mem_append_right _ (.head _), rfl, rfl⟩
    · exact ⟨other, List.mem_append_right _ (.tail _ hmem), rfl, rfl⟩

end ServedLookup.Sound

namespace LookupNetwork

variable {ι : Type} {crypto : Crypto} {net : Network ι}

/-- Every lookup is sound. -/
def Sound (s : LookupNetwork ι) : Prop :=
  ∀ lookup ∈ s.lookups, lookup.Sound s.nextNumber

/-- A task that sends has an older number than those to come, and its requests carry the
next hop. -/
theorem Sound.sends {s : LookupNetwork ι} (hsound : s.Sound) {task : TaskId}
    {sent : UpstreamRequest} (h : s.Sends crypto net task sent) :
    sent.received.hop = task.hop.next ∧ task.number < s.nextNumber := by
  obtain ⟨lookup, hmem, ⟨op, ⟨reply, activity, hgoes⟩, hawaited, rfl⟩ |
    ⟨attempt, hattempt, -, rfl, rfl⟩⟩ := h
  · refine ⟨?_, (hsound lookup hmem).number_lt⟩
    apply hgoes.carriesHop
    cases op with
    | getBytes request =>
        cases hawaited
        exact .head _
    | proxy request =>
        cases hawaited
        exact .head _
    | _ => cases hawaited
  · exact ⟨(hsound lookup hmem).attempt_hop attempt hattempt,
      (hsound lookup hmem).attempt_lt attempt hattempt⟩

section

variable {gateLimit : ι → ℕ} {inst inst' : ι → Instance}
  {before after : List (ServedLookup ι)} {n m : ℕ} {lookup lookup' : ServedLookup ι}

/-- A lookup going on keeps the others sound. -/
theorem Sound.replace (h : Sound ⟨inst, before ++ lookup :: after, n⟩) (hle : n ≤ m)
    (hlookup : lookup.Sound n → lookup'.Sound m) :
    Sound ⟨inst', before ++ lookup' :: after, m⟩ := by
  intro other hother
  rcases List.mem_append.1 hother with hmem | hmem
  · exact (h other (List.mem_append_left _ hmem)).mono hle
  · rcases List.mem_cons.1 hmem with rfl | hmem
    · exact hlookup (h lookup (List.mem_append_right _ (.head _)))
    · exact (h other (List.mem_append_right _ (.tail _ hmem))).mono hle

theorem mem_startedAttempts {requests : List UpstreamRequest} {attempt : Attempt}
    (h : attempt ∈ startedAttempts n requests) :
    attempt.number < n + requests.length ∧ attempt.request ∈ requests := by
  obtain ⟨⟨request, i⟩, hzip, rfl⟩ := List.mem_map.1 h
  obtain ⟨hlt, hget⟩ := List.getElem?_eq_some_iff.1 (List.mem_zipIdx_iff_getElem?.1 hzip)
  exact ⟨Nat.add_lt_add_left hlt n, List.fst_mem_of_mem_zipIdx hzip⟩

theorem mem_of_mem_joinedAttempts {attempts : List Attempt} {i : ℕ} {answer : HeadAnswer}
    {attempt : Attempt} (h : attempt ∈ joinedAttempts attempts i answer) :
    attempt ∈ attempts := by
  cases answer with
  | found => cases h
  | _ => exact List.mem_of_mem_eraseIdx h

/-- One step keeps every lookup sound. -/
theorem Sound.step [DecidableEq ι] {s s' : LookupNetwork ι} (h : s.Sound)
    (hstep : Step crypto net gateLimit s s') : s'.Sound := by
  cases hstep with
  | receive _ host request storeHash candidates caller hpath hcandidates hcaller =>
      intro other hother
      rcases List.mem_cons.1 hother with rfl | hmem
      · constructor
        · exact Nat.lt_succ_self _
        · exact nofun
        · exact nofun
        · exact fun hne => absurd rfl hne
        · intro task htask
          obtain ⟨sent, hsends, -, rfl⟩ := hcaller task htask
          exact (h.sends hsends).1
        · intro task htask
          obtain ⟨sent, hsends, -, -⟩ := hcaller task htask
          exact (h.sends hsends).2
      · exact (h other hmem).mono (Nat.le_succ _)
  | pass hgoes => exact h.replace le_rfl fun hsound => hsound.withActivity _
  | perform hgoes hlocal hexec => exact h.replace le_rfl fun hsound => hsound.withActivity _
  | @spawnHeads inst before after n lookup activity requests hgoes =>
      apply h.replace (Nat.le_add_right _ _)
      intro hsound
      constructor
      · exact hsound.number_lt.trans_le (Nat.le_add_right _ _)
      · exact fun attempt hmem => (mem_startedAttempts hmem).1
      · exact fun attempt hmem => hgoes.carriesHop _ (mem_startedAttempts hmem).2
      · exact fun _ => hgoes.hop_ne_of_spawnHeads
      · exact hsound.caller_hop
      · exact hsound.caller_lt
  | acquire hattempts hgate => exact h.replace le_rfl fun hsound => hsound.withState hattempts _
  | answer answer hattempts => exact h.replace le_rfl fun hsound => hsound.withState hattempts _
  | joinHead hgoes hfinished =>
      apply h.replace le_rfl
      intro hsound
      apply hsound.going
      exact fun attempt hmem => ⟨attempt, mem_of_mem_joinedAttempts hmem, rfl, rfl⟩
  | deadline hgoes => exact h.replace le_rfl fun hsound => hsound.going _ nofun
  | @reply inst before after n lookup activity op reply hgoes hawaited =>
      apply h.replace (Nat.le_succ _)
      intro hsound
      refine { (hsound.withActivity activity).mono (Nat.le_succ n) with
        number_lt := Nat.lt_succ_self n, caller_lt := ?_ }
      exact fun task htask => (hsound.caller_lt task htask).trans hsound.number_lt
  | drop hlock =>
      intro other hother
      apply h other
      rcases List.mem_append.1 hother with hmem | hmem
      · exact List.mem_append_left _ hmem
      · exact List.mem_append_right _ (.tail _ hmem)
  | dropLocked hactivity hlock result =>
      exact h.replace le_rfl fun hsound => hsound.going _ nofun
  | other _ host inst' hlocks hpermits => exact h

end

end LookupNetwork

/-! ## Waiting -/

variable {ι : Type} {crypto : Crypto} {net : Network ι}

/-- A task of the network. -/
inductive Party (ι : Type)
  /-- The task of a lookup. -/
  | own (lookup : ServedLookup ι)
  | attempt (lookup : ServedLookup ι) (attempt : Attempt)

/-- The lookup that a task belongs to. -/
def Party.lookup : Party ι → ServedLookup ι
  | .own lookup => lookup
  | .attempt lookup _ => lookup

/-- The stage of an attempt comes after those of its race. -/
def AttemptState.stage : AttemptState → ℕ
  | .waiting => 3
  | .sent => 4
  | .finished _ => 5

theorem AttemptState.three_le_stage (state : AttemptState) : 3 ≤ state.stage := by
  cases state with
  | waiting => exact le_rfl
  | sent => exact Nat.le_succ 3
  | finished => exact Nat.le_add_right 3 2

/-- The rank of a task: its hop, its stage and its number. -/
def Party.rank : Party ι → ℕ ×ₗ ℕ ×ₗ ℕ
  | .own lookup => toLex (lookup.hop.rank, toLex (lookup.activity.stage, lookup.number))
  | .attempt lookup head => toLex (lookup.hop.rank, toLex (head.state.stage, head.number))

namespace LookupNetwork

section

variable (crypto net) (gateLimit : ι → ℕ)

/-- A task waits for a lock or a permit that the next one holds, or for the answer to a
request that the next one serves. -/
inductive WaitsForOther [DecidableEq ι] (s : LookupNetwork ι) : Party ι → Party ι → Prop
  | lock {lookup holder : ServedLookup ι} {lock : LockId} (hlookup : lookup ∈ s.lookups)
      (hholder : holder ∈ s.lookups) (hhost : holder.host = lookup.host)
      (hwaits : lookup.AboutTo crypto net (.lock lock))
      (hholds : holder.activity.lock? = some lock) : WaitsForOther s (.own lookup) (.own holder)
  | permit {lookup holder : ServedLookup ι} (hlookup : lookup ∈ s.lookups)
      (hholder : holder ∈ s.lookups) (hhost : holder.host = lookup.host)
      (hnone : (s.inst lookup.host).racePermits = 0)
      (hwaits : lookup.AboutTo crypto net .acquireRacePermit)
      (hholds : holder.activity.holdsPermit = true) :
      WaitsForOther s (.own lookup) (.own holder)
  | gate {lookup holder : ServedLookup ι} {attempt held : Attempt} (hlookup : lookup ∈ s.lookups)
      (hholder : holder ∈ s.lookups) (hattempt : attempt ∈ lookup.attempts)
      (hheld : held ∈ holder.attempts) (hhost : holder.host = lookup.host)
      (hhop : holder.hop = lookup.hop)
      (hupstream : held.request.upstream = attempt.request.upstream)
      (hfull : gateLimit lookup.host ≤
        s.gateTaken lookup.host attempt.request.upstream lookup.hop)
      (hwaits : attempt.state = .waiting) (hholds : held.state = .sent) :
      WaitsForOther s (.attempt lookup attempt) (.attempt holder held)
  | answer {lookup server : ServedLookup ι} {op : Op} {sent : UpstreamRequest}
      (hlookup : lookup ∈ s.lookups) (hserver : server ∈ s.lookups)
      (hwaits : lookup.AboutTo crypto net op) (hawaited : op.awaited = some sent)
      (hserves : server.caller = some lookup.task) : WaitsForOther s (.own lookup) (.own server)
  | headAnswer {lookup server : ServedLookup ι} {attempt : Attempt} (hlookup : lookup ∈ s.lookups)
      (hserver : server ∈ s.lookups) (hattempt : attempt ∈ lookup.attempts)
      (hwaits : attempt.state = .sent)
      (hserves : server.caller = some (lookup.attemptTask attempt)) :
      WaitsForOther s (.attempt lookup attempt) (.own server)

/-- A task waits for another lookup, or for an attempt of its own race. -/
inductive WaitsFor [DecidableEq ι] (s : LookupNetwork ι) : Party ι → Party ι → Prop
  | other {party party' : Party ι} (h : s.WaitsForOther crypto net gateLimit party party') :
      WaitsFor s party party'
  | joinHead {lookup : ServedLookup ι} {attempt : Attempt} {pending : List UpstreamRequest}
      (hlookup : lookup ∈ s.lookups) (hattempt : attempt ∈ lookup.attempts)
      (hwaits : lookup.AboutTo crypto net (.joinHead pending))
      (hstate : ∀ answer, attempt.state ≠ .finished answer) :
      WaitsFor s (.own lookup) (.attempt lookup attempt)

end

theorem rank_lt_of_stage {hop hop' : Hop} {stage stage' number number' : ℕ} (hhop : hop = hop')
    (h : stage < stage') :
    (toLex (hop.rank, toLex (stage, number)) : ℕ ×ₗ ℕ ×ₗ ℕ) <
      toLex (hop'.rank, toLex (stage', number')) :=
  Prod.Lex.toLex_lt_toLex.2 (.inr ⟨congrArg Hop.rank hhop, Prod.Lex.toLex_lt_toLex.2 (.inl h)⟩)

/-- A task is outranked by the lookup that serves its request. -/
theorem rank_lt_of_serves {task : TaskId} {stage : ℕ} {server : ServedLookup ι} {n : ℕ}
    (hsound : server.Sound n) (hcaller : server.caller = some task)
    (hstage : task.hop = .peerOfPeer → stage = 0) :
    toLex (task.hop.rank, toLex (stage, task.number)) < Party.rank (.own server) := by
  have hhop := hsound.caller_hop task hcaller
  have hlt := hsound.caller_lt task hcaller
  rw [Party.rank, hhop]
  cases hcase : task.hop with
  | client => exact Prod.Lex.toLex_lt_toLex.2 (.inl Nat.zero_lt_one)
  | peer => exact Prod.Lex.toLex_lt_toLex.2 (.inl Nat.one_lt_two)
  | peerOfPeer =>
      have hserver : server.activity.stage = 0 :=
        server.activity.stage_eq_zero (hhop.trans (congrArg Hop.next hcase))
      rw [hstage hcase, hserver]
      exact Prod.Lex.toLex_lt_toLex.2 (.inr ⟨rfl, Prod.Lex.toLex_lt_toLex.2 (.inr ⟨rfl, hlt⟩)⟩)

variable [DecidableEq ι] {gateLimit : ι → ℕ} {s : LookupNetwork ι}

/-- Whoever waits is outranked by whoever is waited for. -/
theorem Sound.rank_lt (hsound : s.Sound) {party party' : Party ι}
    (h : s.WaitsFor crypto net gateLimit party party') : party.rank < party'.rank := by
  cases h with
  | other h =>
      cases h with
      | @lock lookup holder _ _ _ _ hwaits hholds =>
          obtain ⟨_, _, hgoes⟩ := hwaits
          obtain ⟨hclient, hstage⟩ := hgoes.stage_of_lock
          obtain ⟨hclient', hstage'⟩ := Activity.stage_of_lock? hholds
          exact rank_lt_of_stage (hclient.trans hclient'.symm) (hstage.trans_lt hstage')
      | @permit lookup holder _ _ _ _ hwaits hholds =>
          obtain ⟨_, _, hgoes⟩ := hwaits
          obtain ⟨hclient, hstage⟩ := hgoes.stage_of_acquireRacePermit
          obtain ⟨hclient', hstage'⟩ := Activity.stage_of_holdsPermit hholds
          exact rank_lt_of_stage (hclient.trans hclient'.symm) (hstage.trans_lt hstage')
      | @gate lookup holder attempt held _ _ _ _ _ hhop _ _ hwaits hholds =>
          apply rank_lt_of_stage hhop.symm
          rw [hwaits, hholds]
          exact Nat.lt_succ_self 3
      | @answer lookup server op sent _ hserver hwaits _ hserves =>
          apply rank_lt_of_serves (hsound server hserver) hserves
          exact lookup.activity.stage_eq_zero
      | @headAnswer lookup server attempt hlookup hserver hattempt hwaits hserves =>
          apply rank_lt_of_serves (hsound server hserver) hserves
          intro hpeer
          exact absurd hpeer ((hsound lookup hlookup).hop_ne (List.ne_nil_of_mem hattempt))
  | @joinHead lookup attempt pending _ _ hwaits _ =>
      obtain ⟨_, _, hgoes⟩ := hwaits
      apply rank_lt_of_stage rfl
      rw [hgoes.stage_of_joinHead]
      exact attempt.state.three_le_stage

/-- No deadlock. In every state that a network reaches from one without lookups, whatever
its instances have for upstreams and however the steps interleave, no tasks wait for each
other in a cycle. -/
theorem no_waiting_cycle (crypto : Crypto) (net : Network ι) (gateLimit : ι → ℕ)
    {s₀ s : LookupNetwork ι} (hfresh : s₀.lookups = [])
    (hreached : Relation.ReflTransGen (Step crypto net gateLimit) s₀ s) :
    Acyclic (s.WaitsFor crypto net gateLimit) := by
  have hsound : s.Sound := by
    induction hreached with
    | refl =>
        intro lookup hmem
        rw [hfresh] at hmem
        cases hmem
    | tail _ hstep ih => exact ih.step hstep
  exact acyclic_of_rank Party.rank fun _ _ h => hsound.rank_lt h

end LookupNetwork

/-! ## Races that wait for each other's gates -/

/-- A process runs on with operations that have nothing to do with the network. -/
inductive LocalRun (reg : Registry) {α : Type} :
    Handler α → Instance → Handler α → Instance → Prop
  | refl (p : Handler α) (s : Instance) : LocalRun reg p s p s
  | perform {op : Op} {next : op.Reply → Handler α} {reply : op.Reply} {p : Handler α}
      {s s' s'' : Instance} (hlocal : op.isLocal = true) (hexec : Instance.exec reg op s reply s')
      (hnext : LocalRun reg (next reply) s' p s'') : LocalRun reg (.perform op next) s p s''

section

variable {reg : Registry} {α : Type} {p : Handler α} {s s' : Instance}

theorem LocalRun.of_replay {events : List HandlerEvent} {a : α}
    (h : Replay (Instance.exec reg) p s events a s')
    (hlocal : ∀ event ∈ events, event.1.isLocal = true) : LocalRun reg p s (.ret a) s' := by
  induction h with
  | ret a s => exact .refl _ s
  | perform hexec _ ih =>
      apply LocalRun.perform (hlocal _ (.head _)) hexec
      exact ih fun event hmem => hlocal event (.tail _ hmem)

/-- A race starts with the attempts for its candidates. -/
theorem raceGroups_eq_perform (crypto : Crypto) (reg : Registry) (storeHash : Str) (hop : Hop)
    (priority : ℤ) {group : List Str} (hne : group ≠ []) :
    ∃ next, raceGroups crypto reg storeHash hop [(priority, group)] false =
      .perform (.spawnHeads (group.map (headRequest reg storeHash hop))) next := by
  rw [raceGroups, raceWithinGroup, if_neg hne]
  exact ⟨_, rfl⟩

end

namespace LookupNetwork

/-- Instance of a network of its own, with the upstreams `u` and `v`. -/
def oneInstance : Network Unit where
  app _ := { (default : AppState) with
    upstreams := [⟨['u'], false, false⟩, ⟨['v'], false, false⟩] }
  instanceAt _ := none
  instanceAt_nil := rfl

/-- The health of two upstreams that have not been probed. -/
def healthOfTwo : HealthTable :=
  Table.upsert (Table.upsert ∅ (.new ['u'] 30)) (.new ['v'] 30)

/-- An instance that has just been started. -/
def startOfTwo : Instance := .start default ∅ ∅ healthOfTwo 100000 0 0 2 default 0

/-- The lookup of a hash for a client. -/
def clientLookup (storeHash : StoreHash) (number : ℕ) (φ : Phase .client)
    (attempts : List Attempt) : ServedLookup Unit where
  host := ()
  request := ⟨.get, narinfoPath storeHash.val, [], []⟩
  storeHash := storeHash
  candidates := [['u'], ['v']]
  caller := none
  number := number
  activity := .resolving φ
  attempts := attempts

/-- What has happened to an instance when a lookup of its own races. -/
def racing (inst : Instance) (storeHash : Str) : Instance :=
  { inst with
    inflight := inst.inflight.upsert (storeHash, inst.nextLock)
    nextLock := inst.nextLock + 1
    held := inst.nextLock :: inst.held
    racePermits := inst.racePermits - 1 }

section

variable {inst inst' : Instance} {storeHash : StoreHash} {number n : ℕ}
  {φ φ' : Phase .client} {attempts : List Attempt} {after : List (ServedLookup Unit)}

abbrev OneStep := Step default oneInstance fun _ => 1

theorem update_one : Function.update (fun _ : Unit => inst) () inst' = fun _ => inst' := by
  funext _
  rfl

theorem oneStep_perform {op : Op} {reply : op.Reply}
    (h : φ.Step default default storeHash.val [['u'], ['v']] (some ⟨op, reply⟩) φ')
    (hlocal : op.isLocal = true) (hexec : Instance.exec default op inst reply inst') :
    OneStep ⟨fun _ => inst, clientLookup storeHash number φ attempts :: after, n⟩
      ⟨fun _ => inst', clientLookup storeHash number φ' attempts :: after, n⟩ := by
  let lookup := clientLookup storeHash number φ attempts
  have hgoes : lookup.Goes default oneInstance (some ⟨op, reply⟩) (.resolving φ') := .resolving h
  have hstep : OneStep ⟨fun _ => inst, [] ++ lookup :: after, n⟩ _ :=
    .perform hgoes hlocal hexec
  rwa [update_one] at hstep

theorem oneStep_pass (h : φ.Step default default storeHash.val [['u'], ['v']] none φ') :
    OneStep ⟨fun _ => inst, clientLookup storeHash number φ attempts :: after, n⟩
      ⟨fun _ => inst, clientLookup storeHash number φ' attempts :: after, n⟩ := by
  let lookup := clientLookup storeHash number φ attempts
  have hgoes : lookup.Goes default oneInstance none (.resolving φ') := .resolving h
  have hstep : OneStep ⟨fun _ => inst, [] ++ lookup :: after, n⟩ _ := .pass hgoes
  exact hstep

theorem oneStep_spawnHeads {requests : List UpstreamRequest}
    (h : φ.Step default default storeHash.val [['u'], ['v']]
      (some ⟨.spawnHeads requests, ()⟩) φ') :
    OneStep ⟨fun _ => inst, clientLookup storeHash number φ attempts :: after, n⟩
      ⟨fun _ => inst, clientLookup storeHash number φ' (startedAttempts n requests) :: after,
        n + requests.length⟩ := by
  let lookup := clientLookup storeHash number φ attempts
  have hgoes : lookup.Goes default oneInstance (some ⟨.spawnHeads requests, ()⟩)
      (.resolving φ') := .resolving h
  have hstep : OneStep ⟨fun _ => inst, [] ++ lookup :: after, n⟩ _ := .spawnHeads hgoes
  exact hstep

/-- A part of a lookup runs on its own. -/
theorem oneSteps_part {α : Type} {P : Op → Prop}
    (wrap : {p : Handler α // Performs P p} → Phase .client) {p p' : Handler α}
    (hwrap : ∀ op next (h : Performs P (.perform op next)) reply,
      (wrap ⟨.perform op next, h⟩).Step default default storeHash.val [['u'], ['v']]
        (some ⟨op, reply⟩) (wrap ⟨next reply, h.2 reply⟩))
    (hrun : LocalRun default p inst p' inst') (hp : Performs P p) {s : LookupNetwork Unit}
    (h : Relation.ReflTransGen OneStep s
      ⟨fun _ => inst, clientLookup storeHash number (wrap ⟨p, hp⟩) attempts :: after, n⟩) :
    ∃ hp', Relation.ReflTransGen OneStep s
      ⟨fun _ => inst', clientLookup storeHash number (wrap ⟨p', hp'⟩) attempts :: after, n⟩ := by
  induction hrun with
  | refl => exact ⟨hp, h⟩
  | perform hlocal hexec _ ih =>
      apply ih (hp.2 _)
      exact h.tail (oneStep_perform (hwrap _ _ hp _) hlocal hexec)

theorem execution_upstreamUrls (hhealth : inst.health = healthOfTwo) :
    Execution (Instance.exec default) (upstreamUrls (oneInstance.app ())) inst [['u'], ['v']]
      inst := by
  have hsorted : inst.health.SortedByLatency [.new ['u'] 30, .new ['v'] 30] := by
    rw [hhealth]
    exact ⟨by decide, fun _ _ => by decide +kernel⟩
  exact .call_bind ⟨hsorted, rfl⟩ (.ret _ _)

theorem localRun_raceCandidates (hcool : inst.cooldown = ∅) (hhealth : inst.health = healthOfTwo)
    (hash : Str) :
    ∃ next, LocalRun default (raceCandidates default default hash [['u'], ['v']] .client) inst
      (.perform (.spawnHeads ([['u'], ['v']].map (headRequest default hash .client))) next)
      inst := by
  have hcooled : ∀ url, Instance.exec default (.inCooldown url) inst false inst :=
    Instance.exec_inCooldown hcool
  have hu : Instance.exec default (.getHealth ['u']) inst (some (.new ['u'] 30)) inst :=
    ⟨by rw [hhealth]; decide, rfl⟩
  have hv : Instance.exec default (.getHealth ['v']) inst (some (.new ['v'] 30)) inst :=
    ⟨by rw [hhealth]; decide, rfl⟩
  have hne : [['u'], ['v']] ≠ [] := nofun
  obtain ⟨next, hnext⟩ := raceGroups_eq_perform default default hash .client 30 hne
  refine ⟨next, .perform rfl (hcooled ['u']) (.perform rfl (hcooled ['v'])
    (.perform rfl hu (.perform rfl hv ?_)))⟩
  show LocalRun _ (raceGroups default default hash .client [(30, [['u'], ['v']])] false) _ _ _
  rw [hnext]
  exact .refl _ _

theorem localRun_resolveCached {hash : Str} (h : Flights.CachesMiss inst hash) :
    LocalRun default (resolveCached default default hash .client) inst (.ret (.ok none)) inst := by
  apply LocalRun.of_replay h.replay
  simp [Flights.missedEvents, Op.isLocal]

/-- The requests of a race. -/
def headRequests (storeHash : Str) : List UpstreamRequest :=
  [['u'], ['v']].map (headRequest default storeHash .client)

/-- An instance whose caches do not know a hash, with a race permit to give. -/
structure ReadyToRace (inst : Instance) (storeHash : Str) : Prop where
  caches : Flights.CachesMiss inst storeHash
  entry : inst.inflight.get storeHash = none
  free : inst.nextLock ∉ inst.held
  permit : 0 < inst.racePermits
  cooldown : inst.cooldown = ∅
  health : inst.health = healthOfTwo

/-- A lookup of a client comes to its race. -/
theorem oneSteps_racing (h : ReadyToRace inst storeHash.val) (after : List (ServedLookup Unit))
    (n : ℕ) :
    ∃ φ, Relation.ReflTransGen OneStep ⟨fun _ => inst, after, n⟩
      ⟨fun _ => racing inst storeHash.val, clientLookup storeHash n φ
        (startedAttempts (n + 1) (headRequests storeHash.val)) :: after, n + 1 + 2⟩ := by
  let inst₁ : Instance := { inst with
    inflight := inst.inflight.upsert (storeHash.val, inst.nextLock)
    nextLock := inst.nextLock + 1 }
  let inst₂ : Instance := { inst₁ with held := inst.nextLock :: inst.held }
  have hreceive : OneStep ⟨fun _ => inst, after, n⟩ ⟨fun _ => inst, clientLookup storeHash n
      (.firstCheck ⟨resolveCached default default storeHash.val .client, performs_resolveCached⟩)
        [] :: after, n + 1⟩ :=
    .receive ⟨fun _ => inst, after, n⟩ () ⟨.get, narinfoPath storeHash.val, [], []⟩ storeHash
      [['u'], ['v']] none rfl (execution_upstreamUrls h.health) nofun
  have hcaches₂ : Flights.CachesMiss inst₂ storeHash.val :=
    ⟨h.caches.missLru, h.caches.negatives, h.caches.lru, h.caches.routes⟩
  have hentry : Instance.exec default (.inflightEntry storeHash.val) inst inst.nextLock inst₁ := by
    rw [Instance.exec, h.entry]
    exact ⟨rfl, rfl⟩
  have hcooldown : (racing inst storeHash.val).cooldown = ∅ := h.cooldown
  obtain ⟨next, hrace⟩ := localRun_raceCandidates hcooldown h.health storeHash.val
  obtain ⟨_, hchecked⟩ := oneSteps_part .firstCheck (fun _ _ hp reply => .checking hp reply)
    (localRun_resolveCached h.caches)
    performs_resolveCached (.single hreceive)
  have hentered := hchecked.tail (oneStep_pass (.checked (.ok none)))
  have hwaiting := hentered.tail (oneStep_perform (.entry inst.nextLock) rfl hentry)
  have hlocked := hwaiting.tail (oneStep_perform (.lock inst.nextLock) rfl ⟨h.free, rfl⟩)
  obtain ⟨_, hrechecked⟩ := oneSteps_part (.secondCheck inst.nextLock)
    (fun _ _ hp reply => .rechecking inst.nextLock hp reply) (localRun_resolveCached hcaches₂)
    performs_resolveCached hlocked
  have hpermit := hrechecked.tail (oneStep_pass (.rechecked inst.nextLock (.ok none)))
  have hracing := hpermit.tail
    (oneStep_perform (.permit inst.nextLock true) rfl ⟨h.permit, rfl, rfl⟩)
  obtain ⟨hperforms, hraced⟩ := oneSteps_part (.racing inst.nextLock)
    (fun _ _ hp reply => .racing inst.nextLock hp reply) hrace (performs_raceCandidates _) hracing
  exact ⟨_, hraced.tail (oneStep_spawnHeads (.racing inst.nextLock hperforms ()))⟩

end

def onesHash : StoreHash := ⟨List.replicate 32 '1', by decide⟩

/-- A race with an attempt for `u` and an attempt for `v`. -/
def raceOfTwo (storeHash : StoreHash) (number : ℕ) (φ : Phase .client) (u v : AttemptState) :
    ServedLookup Unit :=
  clientLookup storeHash number φ
    [⟨number + 1, headRequest default storeHash.val .client ['u'], u⟩,
      ⟨number + 2, headRequest default storeHash.val .client ['v'], v⟩]

/-- Two races, of which the older one has the gate of `v` and the newer one that of `u`. -/
def twoRaces (φ φ' : Phase .client) : LookupNetwork Unit where
  inst _ := racing (racing startOfTwo zeroHash.val) onesHash.val
  lookups := [raceOfTwo onesHash 3 φ' .sent .waiting, raceOfTwo zeroHash 0 φ .waiting .sent]
  nextNumber := 6

theorem exists_reached_twoRaces :
    ∃ φ φ', Relation.ReflTransGen OneStep ⟨fun _ => startOfTwo, [], 0⟩ (twoRaces φ φ') := by
  have hready : ReadyToRace startOfTwo zeroHash.val :=
    ⟨⟨rfl, rfl, rfl, rfl⟩, rfl, by decide, by decide, rfl, rfl⟩
  have hready' : ReadyToRace (racing startOfTwo zeroHash.val) onesHash.val :=
    ⟨⟨rfl, rfl, rfl, rfl⟩, by decide, by decide, by decide, rfl, rfl⟩
  obtain ⟨φ, hfirst⟩ := oneSteps_racing hready [] 0
  obtain ⟨φ', hsecond⟩ := oneSteps_racing hready' [raceOfTwo zeroHash 0 φ .waiting .waiting] 3
  let inst := racing (racing startOfTwo zeroHash.val) onesHash.val
  let older := raceOfTwo zeroHash 0 φ .waiting .waiting
  let newer := raceOfTwo onesHash 3 φ' .waiting .waiting
  have hnewer : newer.attempts = [] ++ newer.attempts := rfl
  have hacquire : OneStep ⟨fun _ => inst, [] ++ newer :: [older], 6⟩
      ⟨fun _ => inst, [] ++ raceOfTwo onesHash 3 φ' .sent .waiting :: [older], 6⟩ :=
    .acquire hnewer Nat.zero_lt_one
  have holder : older.attempts = [older.attempts.head nofun] ++ older.attempts.tail := rfl
  have hacquire' : OneStep
      ⟨fun _ => inst, [raceOfTwo onesHash 3 φ' .sent .waiting] ++ older :: [], 6⟩ (twoRaces φ φ') :=
    .acquire holder Nat.zero_lt_one
  exact ⟨φ, φ', ((hfirst.trans hsecond).tail hacquire).tail hacquire'⟩

variable (φ φ' : Phase .client)

/-- The attempt of the older race for `u` waits for that of the newer one. -/
theorem twoRaces_older_waits :
    (twoRaces φ φ').WaitsForOther default oneInstance (fun _ => 1)
      (.attempt (raceOfTwo zeroHash 0 φ .waiting .sent)
        ⟨1, headRequest default zeroHash.val .client ['u'], .waiting⟩)
      (.attempt (raceOfTwo onesHash 3 φ' .sent .waiting)
        ⟨4, headRequest default onesHash.val .client ['u'], .sent⟩) :=
  .gate (.tail _ (.head _)) (.head _) (.head _) (.head _) rfl rfl rfl le_rfl rfl rfl

/-- The attempt of the newer race for `v` waits for that of the older one. -/
theorem twoRaces_newer_waits :
    (twoRaces φ φ').WaitsForOther default oneInstance (fun _ => 1)
      (.attempt (raceOfTwo onesHash 3 φ' .sent .waiting)
        ⟨5, headRequest default onesHash.val .client ['v'], .waiting⟩)
      (.attempt (raceOfTwo zeroHash 0 φ .waiting .sent)
        ⟨2, headRequest default zeroHash.val .client ['v'], .sent⟩) :=
  .gate (.head _) (.tail _ (.head _)) (.tail _ (.head _)) (.tail _ (.head _)) rfl rfl rfl le_rfl
    rfl rfl

/-- Between tasks nothing of this is a cycle. -/
theorem no_waiting_cycle_twoRaces :
    ∃ φ φ', Acyclic ((twoRaces φ φ').WaitsFor default oneInstance fun _ => 1) := by
  obtain ⟨φ, φ', hreached⟩ := exists_reached_twoRaces
  exact ⟨φ, φ', no_waiting_cycle default oneInstance (fun _ => 1) rfl hreached⟩

/-- Between lookups there may be cycles: each of two races has a gate that an attempt of the
other one waits for. -/
theorem waiting_cycle_of_lookups :
    ∃ s, Relation.ReflTransGen (Step default oneInstance fun _ => 1) ⟨fun _ => startOfTwo, [], 0⟩ s ∧
      ¬Acyclic (Relation.Map (s.WaitsForOther default oneInstance fun _ => 1)
        Party.lookup Party.lookup) := by
  obtain ⟨φ, φ', hreached⟩ := exists_reached_twoRaces
  refine ⟨_, hreached, fun hacyclic => ?_⟩
  apply hacyclic (raceOfTwo zeroHash 0 φ .waiting .sent)
  exact .tail (.single ⟨_, _, twoRaces_older_waits φ φ', rfl, rfl⟩)
    ⟨_, _, twoRaces_newer_waits φ φ', rfl, rfl⟩

end LookupNetwork

end Ncro
