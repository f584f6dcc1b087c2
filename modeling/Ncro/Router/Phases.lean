import Ncro.Router.Footprint

/-!
# The phases of a lookup

A lookup that other lookups run along with is described by where it is: checking
the caches, waiting for the lock of its hash, checking again, waiting for a race
permit, racing, or giving back what it holds. `Phase.process` is what is left of
`resolve` in a phase and `Phase.Step` a step from one phase to the next;
`Step.process_some` and `follows` say that the two agree step by step.
-/

namespace Ncro

open Foundation Foundation.Process

/-- A check of the caches, which takes no lock and no race permit and starts no
attempt. -/
abbrev CheckPart (hop : Hop) :=
  {p : Handler (Except RouterError (Option ResolveResult)) // Performs (CachedOp hop) p}

/-- A race, which takes no lock and no race permit. -/
abbrev RacePart (hop : Hop) :=
  {p : Handler (Except RouterError ResolveResult) // Performs (LookupOp hop) p}

/-- Where a lookup at a hop is. A client's lookup holds its lock from the second
check of the caches to the unlocking, and a race permit while it is racing. -/
inductive Phase : Hop → Type
  | firstCheck {hop : Hop} (check : CheckPart hop) : Phase hop
  /-- About to take the lock of the hash from the inflight map. -/
  | entry : Phase .client
  | waiting (lock : LockId) : Phase .client
  | secondCheck (lock : LockId) (check : CheckPart .client) : Phase .client
  /-- Waiting for a race permit. -/
  | permit (lock : LockId) : Phase .client
  | racing (lock : LockId) (race : RacePart .client) : Phase .client
  /-- About to give the race permit back. -/
  | release (lock : LockId) (result : Except RouterError ResolveResult) : Phase .client
  /-- About to record a miss in memory, and then in the database. -/
  | remember (lock : LockId) : Phase .client
  | recordNegative (lock : LockId) : Phase .client
  /-- About to drop the `InflightGuard`. -/
  | cleanup (lock : LockId) (result : Except RouterError ResolveResult) : Phase .client
  | unlocking (lock : LockId) (result : Except RouterError ResolveResult) : Phase .client
  /-- The race of a peer's lookup, which takes neither lock nor permit. -/
  | unguarded (race : RacePart .peer) : Phase .peer
  | done {hop : Hop} (result : Except RouterError ResolveResult) : Phase hop

/-- A lookup under way. -/
structure Lookup where
  storeHash : Str
  candidates : List Str
  hop : Hop
  phase : Phase hop

namespace Phase

variable {hop : Hop}

/-- The lock held in a phase. -/
def lock? : Phase hop → Option LockId
  | .secondCheck lock _ | .permit lock | .racing lock _ | .release lock _ | .remember lock
  | .recordNegative lock | .cleanup lock _ | .unlocking lock _ => some lock
  | _ => none

/-- The lock of a lookup between its second check and the end of its race. -/
def raceLock? : Phase hop → Option LockId
  | .permit lock | .racing lock _ | .release lock _ => some lock
  | _ => none

/-- Whether a race permit is held. -/
def holdsPermit : Phase hop → Bool
  | .racing _ _ | .release _ _ => true
  | _ => false

theorem lock?_of_raceLock? {φ : Phase hop} {lock : LockId} (h : φ.raceLock? = some lock) :
    φ.lock? = some lock := by
  cases φ <;> first | exact h | cases h

section

variable (crypto : Crypto) (reg : Registry) (storeHash : Str) (candidates : List Str)

/-- The phase after the first check of the caches missed. -/
def missed : (hop : Hop) → Phase hop
  | .client => .entry
  | .peer =>
      if candidates = [] then .done (.error (.noCandidates storeHash))
      else .unguarded ⟨raceCandidates crypto reg storeHash candidates .peer,
        performs_raceCandidates candidates⟩
  | .peerOfPeer => .done (.error .notFound)

/-- The phase after the first check. -/
def afterFirstCheck : Except RouterError (Option ResolveResult) → Phase hop
  | .error err => .done (.error err)
  | .ok (some result) => .done (.ok result)
  | .ok none => missed crypto reg storeHash candidates hop

/-- The phase after the second check. -/
def afterSecondCheck (lock : LockId) : Except RouterError (Option ResolveResult) → Phase .client
  | .error err => .cleanup lock (.error err)
  | .ok (some result) => .cleanup lock (.ok result)
  | .ok none =>
      if candidates = [] then .cleanup lock (.error (.noCandidates storeHash)) else .permit lock

/-- The phase after the race. -/
def afterRace (lock : LockId) : Except RouterError ResolveResult → Phase .client
  | .error .notFound => .remember lock
  | result => .cleanup lock result

/-- One step of a lookup: an operation with its reply, or the passing of a result
from one part of the lookup to the next. -/
inductive Step : {hop : Hop} → Phase hop → Option HandlerEvent → Phase hop → Prop
  | checking {hop : Hop} {op : Op}
      {next : op.Reply → Handler (Except RouterError (Option ResolveResult))}
      (h : Performs (CachedOp hop) (.perform op next)) (reply : op.Reply) :
      Step (.firstCheck ⟨.perform op next, h⟩) (some ⟨op, reply⟩)
        (.firstCheck ⟨next reply, h.2 reply⟩)
  | checked {hop : Hop} (checked : Except RouterError (Option ResolveResult)) :
      Step (.firstCheck ⟨.ret checked, trivial⟩ : Phase hop) none
        (afterFirstCheck crypto reg storeHash candidates checked)
  | entry (lock : LockId) : Step .entry (some ⟨.inflightEntry storeHash, lock⟩) (.waiting lock)
  | lock (lock : LockId) :
      Step (.waiting lock) (some ⟨.lock lock, ()⟩)
        (.secondCheck lock ⟨resolveCached crypto reg storeHash .client, performs_resolveCached⟩)
  | rechecking {op : Op} {next : op.Reply → Handler (Except RouterError (Option ResolveResult))}
      (lock : LockId) (h : Performs (CachedOp .client) (.perform op next)) (reply : op.Reply) :
      Step (.secondCheck lock ⟨.perform op next, h⟩) (some ⟨op, reply⟩)
        (.secondCheck lock ⟨next reply, h.2 reply⟩)
  | rechecked (lock : LockId) (checked : Except RouterError (Option ResolveResult)) :
      Step (.secondCheck lock ⟨.ret checked, trivial⟩) none
        (afterSecondCheck storeHash candidates lock checked)
  | permit (lock : LockId) (granted : Bool) :
      Step (.permit lock) (some ⟨.acquireRacePermit, granted⟩)
        (if granted then .racing lock ⟨raceCandidates crypto reg storeHash candidates .client,
            performs_raceCandidates candidates⟩
          else .cleanup lock (.error .upstreamUnavailable))
  | racing {op : Op} {next : op.Reply → Handler (Except RouterError ResolveResult)}
      (lock : LockId) (h : Performs (LookupOp .client) (.perform op next)) (reply : op.Reply) :
      Step (.racing lock ⟨.perform op next, h⟩) (some ⟨op, reply⟩)
        (.racing lock ⟨next reply, h.2 reply⟩)
  | raced (lock : LockId) (result : Except RouterError ResolveResult) :
      Step (.racing lock ⟨.ret result, trivial⟩) none (.release lock result)
  | release (lock : LockId) (result : Except RouterError ResolveResult) :
      Step (.release lock result) (some ⟨.releaseRacePermit, ()⟩) (afterRace lock result)
  | remember (lock : LockId) :
      Step (.remember lock) (some ⟨.missLruInsert storeHash, ()⟩) (.recordNegative lock)
  | recordNegative (lock : LockId) (reply : Except DbError Unit) :
      Step (.recordNegative lock) (some ⟨.dbSetNegative storeHash reg.negativeTtl, reply⟩)
        (.cleanup lock (.error .notFound))
  | cleanup (lock : LockId) (result : Except RouterError ResolveResult) :
      Step (.cleanup lock result) (some ⟨.inflightRemoveIf storeHash lock, ()⟩)
        (.unlocking lock result)
  | unlocking (lock : LockId) (result : Except RouterError ResolveResult) :
      Step (.unlocking lock result) (some ⟨.unlock lock, ()⟩) (.done result)
  | unguarded {op : Op} {next : op.Reply → Handler (Except RouterError ResolveResult)}
      (h : Performs (LookupOp .peer) (.perform op next)) (reply : op.Reply) :
      Step (.unguarded ⟨.perform op next, h⟩) (some ⟨op, reply⟩)
        (.unguarded ⟨next reply, h.2 reply⟩)
  | unguardedRaced (result : Except RouterError ResolveResult) :
      Step (.unguarded ⟨.ret result, trivial⟩) none (.done result)

/-! ## The phases and the code -/

/-- What is left to do once the race has its result. -/
def finish (lock : LockId) (p : Handler (Except RouterError ResolveResult)) :
    Handler (Except RouterError ResolveResult) := do
  let result ← p
  ask (.inflightRemoveIf storeHash lock)
  ask (.unlock lock)
  return result

/-- What is left to do once a race is over. -/
def rememberMiss : Except RouterError ResolveResult → Handler (Except RouterError ResolveResult)
  | .error .notFound => do
      ask (.missLruInsert storeHash)
      let _ ← ask (.dbSetNegative storeHash reg.negativeTtl)
      return .error .notFound
  | result => return result

/-- What is left to do for a client whose lock is known. -/
def withLock (lock : LockId) : Handler (Except RouterError ResolveResult) := do
  ask (.lock lock)
  finish storeHash lock (resolveLocked crypto reg storeHash candidates)

/-- What is left to do after the first check missed. -/
def afterMiss : Hop → Handler (Except RouterError ResolveResult)
  | .peerOfPeer => return .error .notFound
  | .peer => race crypto reg storeHash candidates .peer
  | .client => do
      let lock ← ask (.inflightEntry storeHash)
      withLock crypto reg storeHash candidates lock

/-- A checked result is returned, and otherwise the lookup goes on. -/
def orElse (otherwise : Handler (Except RouterError ResolveResult)) :
    Except RouterError (Option ResolveResult) → Handler (Except RouterError ResolveResult)
  | .error err => return .error err
  | .ok (some result) => return .ok result
  | .ok none => otherwise

/-- What is left of `resolve` in a phase. -/
def process : {hop : Hop} → Phase hop → Handler (Except RouterError ResolveResult)
  | hop, .firstCheck check => check.val >>= orElse (afterMiss crypto reg storeHash candidates hop)
  | _, .entry => afterMiss crypto reg storeHash candidates .client
  | _, .waiting lock => withLock crypto reg storeHash candidates lock
  | _, .secondCheck lock check =>
      finish storeHash lock
        (check.val >>= orElse (raceAndRemember crypto reg storeHash candidates))
  | _, .permit lock => finish storeHash lock do
      if ← ask .acquireRacePermit then
        let result ← raceCandidates crypto reg storeHash candidates .client
        ask .releaseRacePermit
        rememberMiss reg storeHash result
      else rememberMiss reg storeHash (.error .upstreamUnavailable)
  | _, .racing lock race => finish storeHash lock do
      let result ← race.val
      ask .releaseRacePermit
      rememberMiss reg storeHash result
  | _, .release lock result => finish storeHash lock do
      ask .releaseRacePermit
      rememberMiss reg storeHash result
  | _, .remember lock => finish storeHash lock (rememberMiss reg storeHash (.error .notFound))
  | _, .recordNegative lock => finish storeHash lock do
      let _ ← ask (.dbSetNegative storeHash reg.negativeTtl)
      return .error .notFound
  | _, .cleanup lock result => finish storeHash lock (return result)
  | _, .unlocking lock result => do
      ask (.unlock lock)
      return result
  | _, .unguarded race => race.val
  | _, .done result => return result

end

section

variable {crypto : Crypto} {reg : Registry} {storeHash : Str} {candidates : List Str}
  {hop : Hop}

/-- A lookup starts with its first check. -/
theorem process_firstCheck :
    process crypto reg storeHash candidates
        (.firstCheck ⟨resolveCached crypto reg storeHash hop, performs_resolveCached⟩)
      = resolve crypto reg storeHash candidates hop := by
  unfold process resolve
  rfl

theorem process_missed :
    process crypto reg storeHash candidates (missed crypto reg storeHash candidates hop)
      = afterMiss crypto reg storeHash candidates hop := by
  cases hop with
  | client => rfl
  | peerOfPeer => rfl
  | peer =>
      simp only [missed, afterMiss, race]
      split <;> rfl

theorem process_afterFirstCheck (checked : Except RouterError (Option ResolveResult)) :
    process crypto reg storeHash candidates
        (afterFirstCheck crypto reg storeHash candidates checked : Phase hop)
      = orElse (afterMiss crypto reg storeHash candidates hop) checked := by
  match checked with
  | .error err => rfl
  | .ok (some result) => rfl
  | .ok none => exact process_missed

theorem raceAndRemember_eq :
    raceAndRemember crypto reg storeHash candidates
      = race crypto reg storeHash candidates .client >>= rememberMiss reg storeHash := by
  unfold raceAndRemember
  congr 1
  funext result
  rcases result with err | result
  · cases err <;> rfl
  · rfl

theorem process_permit (lock : LockId) (hne : candidates ≠ []) :
    process crypto reg storeHash candidates (.permit lock)
      = finish storeHash lock (raceAndRemember crypto reg storeHash candidates) := by
  rw [raceAndRemember_eq, race, if_neg hne, if_pos rfl]
  show finish storeHash lock (.perform _ _) = finish storeHash lock (.perform _ _)
  congr 2
  funext granted
  cases granted with
  | false => rfl
  | true =>
      show (raceCandidates crypto reg storeHash candidates .client >>= _)
        = (raceCandidates crypto reg storeHash candidates .client >>= _) >>= _
      rw [bind_assoc]
      rfl

theorem process_afterSecondCheck (lock : LockId)
    (checked : Except RouterError (Option ResolveResult)) :
    process crypto reg storeHash candidates (afterSecondCheck storeHash candidates lock checked)
      = finish storeHash lock
        (orElse (raceAndRemember crypto reg storeHash candidates) checked) := by
  match checked with
  | .error err => rfl
  | .ok (some result) => rfl
  | .ok none =>
      by_cases hempty : candidates = []
      · subst hempty
        rfl
      · rw [afterSecondCheck, if_neg hempty]
        exact process_permit lock hempty

theorem process_afterRace (lock : LockId) (result : Except RouterError ResolveResult) :
    process crypto reg storeHash candidates (afterRace lock result)
      = finish storeHash lock (rememberMiss reg storeHash result) := by
  rcases result with err | result
  · cases err <;> rfl
  · rfl

theorem resolveLocked_eq :
    resolveLocked crypto reg storeHash candidates
      = resolveCached crypto reg storeHash .client >>=
        orElse (raceAndRemember crypto reg storeHash candidates) := by
  unfold resolveLocked
  rfl

variable {φ φ' : Phase hop}

/-- Passing a result on does not change what is left to do. -/
theorem Step.process_none (h : Step crypto reg storeHash candidates φ none φ') :
    process crypto reg storeHash candidates φ = process crypto reg storeHash candidates φ' := by
  cases h with
  | checked checked => exact (process_afterFirstCheck checked).symm
  | rechecked lock checked => exact (process_afterSecondCheck lock checked).symm
  | raced lock result => rfl
  | unguardedRaced result => rfl

/-- An operation of a step is the next operation of the code, which then goes on
from the next phase. -/
theorem Step.process_some {op : Op} {reply : op.Reply}
    (h : Step crypto reg storeHash candidates φ (some ⟨op, reply⟩) φ') :
    ∃ next, process crypto reg storeHash candidates φ = .perform op next ∧
      next reply = process crypto reg storeHash candidates φ' := by
  cases h with
  | checking h reply => exact ⟨_, rfl, rfl⟩
  | entry lock => exact ⟨_, rfl, rfl⟩
  | lock lock =>
      refine ⟨_, rfl, ?_⟩
      rw [resolveLocked_eq]
      rfl
  | rechecking lock h reply => exact ⟨_, rfl, rfl⟩
  | permit lock granted =>
      refine ⟨_, rfl, ?_⟩
      cases granted <;> rfl
  | racing lock h reply => exact ⟨_, rfl, rfl⟩
  | release lock result => exact ⟨_, rfl, (process_afterRace lock result).symm⟩
  | remember lock => exact ⟨_, rfl, rfl⟩
  | recordNegative lock reply => exact ⟨_, rfl, rfl⟩
  | cleanup lock result => exact ⟨_, rfl, rfl⟩
  | unlocking lock result => exact ⟨_, rfl, rfl⟩
  | unguarded h reply => exact ⟨_, rfl, rfl⟩

variable (crypto reg storeHash candidates) in
/-- Whatever the code does next, the phases can do as well. -/
def Follows (φ : Phase hop) : Prop :=
  ∀ op next, process crypto reg storeHash candidates φ = .perform op next → ∀ reply,
    ∃ φ₁ φ', Relation.ReflTransGen (fun φ φ' => Step crypto reg storeHash candidates φ none φ')
        φ φ₁ ∧ Step crypto reg storeHash candidates φ₁ (some ⟨op, reply⟩) φ' ∧
      process crypto reg storeHash candidates φ' = next reply

theorem Follows.of_none {φ φ₁ : Phase hop} (h : Step crypto reg storeHash candidates φ none φ₁)
    (hfollows : Follows crypto reg storeHash candidates φ₁) :
    Follows crypto reg storeHash candidates φ := by
  intro op next hprocess reply
  obtain ⟨φ₂, φ', hsilent, hstep, hnext⟩ := hfollows op next (h.process_none ▸ hprocess) reply
  exact ⟨φ₂, φ', .head h hsilent, hstep, hnext⟩

theorem Follows.of_some {φ : Phase hop} {op : Op} {next : op.Reply → Handler _}
    (hprocess : process crypto reg storeHash candidates φ = .perform op next)
    (h : ∀ reply, ∃ φ', Step crypto reg storeHash candidates φ (some ⟨op, reply⟩) φ') :
    Follows crypto reg storeHash candidates φ := by
  intro op' next' hprocess' reply
  rw [hprocess] at hprocess'
  cases hprocess'
  obtain ⟨φ', hstep⟩ := h reply
  obtain ⟨next', hprocess', hnext⟩ := hstep.process_some
  rw [hprocess] at hprocess'
  cases hprocess'
  exact ⟨φ, φ', .refl, hstep, hnext.symm⟩

theorem follows_done (result : Except RouterError ResolveResult) :
    Follows crypto reg storeHash candidates (.done result : Phase hop) := by
  intro op next hprocess
  cases hprocess

theorem follows_unguarded (race : RacePart .peer) :
    Follows crypto reg storeHash candidates (.unguarded race) := by
  obtain ⟨p, hp⟩ := race
  cases p with
  | ret result => exact .of_none (.unguardedRaced result) (follows_done result)
  | perform op next => exact .of_some rfl fun reply => ⟨_, .unguarded hp reply⟩

theorem follows_cleanup (lock : LockId) (result : Except RouterError ResolveResult) :
    Follows crypto reg storeHash candidates (.cleanup lock result) :=
  .of_some rfl fun _ => ⟨_, .cleanup lock result⟩

theorem follows_permit (lock : LockId) :
    Follows crypto reg storeHash candidates (.permit lock) :=
  .of_some rfl fun granted => ⟨_, .permit lock granted⟩

theorem follows_missed :
    Follows crypto reg storeHash candidates (missed crypto reg storeHash candidates hop) := by
  cases hop with
  | client => exact .of_some rfl fun lock => ⟨_, .entry lock⟩
  | peerOfPeer => exact follows_done _
  | peer =>
      unfold missed
      split
      · exact follows_done _
      · exact follows_unguarded _

/-- The phases follow the code. -/
theorem follows (φ : Phase hop) : Follows crypto reg storeHash candidates φ := by
  cases φ with
  | firstCheck check =>
      obtain ⟨p, hp⟩ := check
      cases p with
      | perform op next => exact .of_some rfl fun reply => ⟨_, .checking hp reply⟩
      | ret checked =>
          refine .of_none (.checked checked) ?_
          match checked with
          | .error err => exact follows_done _
          | .ok (some result) => exact follows_done _
          | .ok none => exact follows_missed
  | entry => exact .of_some rfl fun lock => ⟨_, .entry lock⟩
  | waiting lock => exact .of_some rfl fun _ => ⟨_, .lock lock⟩
  | secondCheck lock check =>
      obtain ⟨p, hp⟩ := check
      cases p with
      | perform op next => exact .of_some rfl fun reply => ⟨_, .rechecking lock hp reply⟩
      | ret checked =>
          refine .of_none (.rechecked lock checked) ?_
          match checked with
          | .error err => exact follows_cleanup lock _
          | .ok (some result) => exact follows_cleanup lock _
          | .ok none =>
              show Follows _ _ _ _ (ite _ _ _)
              split
              · exact follows_cleanup lock _
              · exact follows_permit lock
  | permit lock => exact follows_permit lock
  | racing lock race =>
      obtain ⟨p, hp⟩ := race
      cases p with
      | perform op next => exact .of_some rfl fun reply => ⟨_, .racing lock hp reply⟩
      | ret result =>
          exact .of_none (.raced lock result) (.of_some rfl fun _ => ⟨_, .release lock result⟩)
  | release lock result => exact .of_some rfl fun _ => ⟨_, .release lock result⟩
  | remember lock => exact .of_some rfl fun _ => ⟨_, .remember lock⟩
  | recordNegative lock => exact .of_some rfl fun reply => ⟨_, .recordNegative lock reply⟩
  | cleanup lock result => exact follows_cleanup lock result
  | unlocking lock result => exact .of_some rfl fun _ => ⟨_, .unlocking lock result⟩
  | unguarded race => exact follows_unguarded race
  | done result => exact follows_done result

end

end Phase

end Ncro
