import Ncro.Foundation.Machine
import Ncro.Upstream.Backend
import Mathlib.Data.List.Chain

/-!
# The credentials of an S3 upstream

The callers of an S3 backend share its credentials. A caller takes the lock of the cache,
and gives up the lock with credentials that are not due yet, or keeps it while it asks the
providers for fresh ones. The caller may go away meanwhile, the providers may fail, and the
system clock may be set to anything. All the same the providers are asked by one caller at a
time, and only once the credentials they gave last are due: `credentials_refreshed_when_due`.
-/

namespace Ncro

open Foundation

/-- Ten seconds. -/
def credentialsRefreshMargin : SystemTime := 10 * 1000000000

/-- Fifteen minutes. -/
def credentialsDefaultLifetime : SystemTime := 15 * 60 * 1000000000

/-- When credentials are due that were asked for at a point in time. -/
def refreshAt (askedAt : SystemTime) (credentials : Credentials) : SystemTime :=
  match credentials.expiry with
  | none => askedAt + credentialsDefaultLifetime
  | some expiry => expiry - credentialsRefreshMargin

/-- A caller that has the lock and asks the providers, and when it read the clock. -/
structure Refresh where
  caller : ℕ
  askedAt : SystemTime
  deriving DecidableEq

/-- Credentials with the refresh that they come from, or with the caller they went to. -/
structure Issued extends Refresh where
  credentials : Credentials
  deriving DecidableEq

/-- When issued credentials are due. -/
def Issued.dueAt (issued : Issued) : SystemTime :=
  refreshAt issued.askedAt issued.credentials

/-- The cache of a client, with what the providers gave and the callers got, newest first. -/
structure CredentialCache where
  clock : SystemTime
  cached : Option (Credentials × SystemTime)
  /-- The caller that has the lock. -/
  refresh : Option Refresh
  provided : List Issued
  returned : List Issued
  deriving DecidableEq

namespace CredentialCache

/-- The cached credentials, unless they are due. -/
def current (s : CredentialCache) : Option Credentials :=
  match s.cached with
  | some (credentials, due) => if s.clock < due then some credentials else none
  | none => none

inductive Event
  /-- Time passes, or the clock is set. -/
  | tick (clock : SystemTime)
  /-- A caller gets the lock, and reads the clock and the cache. -/
  | enter (caller : ℕ)
  | provide (credentials : Credentials)
  /-- The providers fail, or the caller goes away. -/
  | abandon
  deriving DecidableEq

/-- `Client::credentials`, by the steps between which other callers may act. -/
def next (s : CredentialCache) : Event → Option CredentialCache
  | .tick clock => some { s with clock }
  | .enter caller =>
      match s.refresh with
      | some _ => none
      | none => some (match s.current with
          | some credentials => { s with returned := ⟨⟨caller, s.clock⟩, credentials⟩ :: s.returned }
          | none => { s with refresh := some ⟨caller, s.clock⟩ })
  | .provide credentials => s.refresh.map fun refresh => { s with
      cached := some (credentials, refreshAt refresh.askedAt credentials)
      refresh := none
      provided := ⟨refresh, credentials⟩ :: s.provided
      returned := ⟨refresh, credentials⟩ :: s.returned }
  | .abandon => s.refresh.map fun _ => { s with refresh := none }

/-- No credentials are cached at first. -/
def start (clock : SystemTime) : CredentialCache :=
  ⟨clock, none, none, [], []⟩

/-- Credentials that a caller got were fresh from the providers, or not due when it asked. -/
def Returnable (provided : List Issued) (issued : Issued) : Prop :=
  issued ∈ provided ∨
    ∃ source ∈ provided, source.credentials = issued.credentials ∧ issued.askedAt < source.dueAt

/-- What holds of the cache: the credentials in it are those that the providers gave last, the
providers are asked when these are due, and callers get nothing else. -/
structure Sound (s : CredentialCache) : Prop where
  cached_eq : s.cached = s.provided.head?.map fun issued => (issued.credentials, issued.dueAt)
  due : ∀ refresh ∈ s.refresh, ∀ issued ∈ s.provided.head?, issued.dueAt ≤ refresh.askedAt
  successive : s.provided.IsChain fun later earlier => earlier.dueAt ≤ later.askedAt
  returnable : ∀ issued ∈ s.returned, Returnable s.provided issued

variable {s s' : CredentialCache} {e : Event}

theorem sound_start (clock : SystemTime) : (start clock).Sound where
  cached_eq := rfl
  due := by simp [start]
  successive := .nil
  returnable := by simp [start]

/-- What is in the cache comes from the providers, and is current if it is not due. -/
theorem Sound.exists_of_current (h : s.Sound) {credentials : Credentials}
    (hcurrent : s.current = some credentials) :
    ∃ source ∈ s.provided, source.credentials = credentials ∧ s.clock < source.dueAt := by
  have hcached := h.cached_eq
  cases hhead : s.provided.head? with
  | none =>
      rw [hhead] at hcached
      simp [current, hcached] at hcurrent
  | some source =>
      rw [hhead] at hcached
      simp only [current, hcached, Option.map_some] at hcurrent
      split at hcurrent
      · next hlt =>
        refine ⟨source, List.mem_of_head? hhead, ?_, hlt⟩
        exact Option.some.inj hcurrent
      · cases hcurrent

/-- Without current credentials those of the providers are due. -/
theorem Sound.dueAt_le_of_current (h : s.Sound) (hcurrent : s.current = none) {issued : Issued}
    (hhead : issued ∈ s.provided.head?) : issued.dueAt ≤ s.clock := by
  have hcached := h.cached_eq
  rw [Option.mem_def.1 hhead] at hcached
  simp only [current, hcached, Option.map_some] at hcurrent
  split at hcurrent
  · cases hcurrent
  · next hle => exact not_lt.1 hle

/-- One step keeps the cache sound. -/
theorem Sound.step (h : s.Sound) (hstep : s.next e = some s') : s'.Sound := by
  cases e with
  | tick clock =>
      cases hstep
      exact ⟨h.cached_eq, h.due, h.successive, h.returnable⟩
  | enter caller =>
      simp only [next] at hstep
      cases hrefresh : s.refresh with
      | some refresh =>
          rw [hrefresh] at hstep
          cases hstep
      | none =>
          rw [hrefresh] at hstep
          cases hcurrent : s.current with
          | some credentials =>
              simp only [hcurrent, Option.some.injEq] at hstep
              subst hstep
              refine ⟨h.cached_eq, by simp, h.successive, ?_⟩
              intro issued hissued
              rcases List.mem_cons.1 hissued with rfl | hissued
              · exact .inr (h.exists_of_current hcurrent)
              · exact h.returnable issued hissued
          | none =>
              simp only [hcurrent, Option.some.injEq] at hstep
              subst hstep
              refine ⟨h.cached_eq, ?_, h.successive, h.returnable⟩
              intro refresh hmem issued hissued
              cases hmem
              exact h.dueAt_le_of_current hcurrent hissued
  | provide credentials =>
      rcases Option.map_eq_some_iff.1 hstep with ⟨refresh, hrefresh, rfl⟩
      refine ⟨rfl, by simp, ?_, ?_⟩
      · exact List.isChain_cons.2 ⟨h.due refresh hrefresh, h.successive⟩
      · intro issued hissued
        rcases List.mem_cons.1 hissued with rfl | hissued
        · exact .inl (.head _)
        · rcases h.returnable issued hissued with hfresh | ⟨source, hsource, hsame, hlt⟩
          · exact .inl (.tail _ hfresh)
          · exact .inr ⟨source, .tail _ hsource, hsame, hlt⟩
  | abandon =>
      rcases Option.map_eq_some_iff.1 hstep with ⟨refresh, hrefresh, rfl⟩
      exact ⟨h.cached_eq, by simp, h.successive, h.returnable⟩

/-- However callers come, wait and go away, providers fail and the clock is set: the providers
give credentials only when those they gave before are due, and what a caller gets the providers
gave to it, or had given before and it was not due when the caller asked. -/
theorem credentials_refreshed_when_due {clock : SystemTime}
    (h : Reachable (fun s e s' => next s e = some s') (fun _ _ => True) (start clock) s) :
    (s.provided.IsChain fun later earlier => earlier.dueAt ≤ later.askedAt) ∧
      ∀ issued ∈ s.returned, Returnable s.provided issued := by
  have hsound : s.Sound :=
    h.invariant (sound_start clock) fun _ _ _ hsound _ hstep => hsound.step hstep
  exact ⟨hsound.successive, hsound.returnable⟩

def undatedKey : Credentials := ⟨[], [], none, none⟩

def expiredKey : Credentials := ⟨[], [], none, some 0⟩

/-- Two callers share credentials until these are due; a third one goes away, and a fourth one
gets credentials that are due already. -/
def fourCallers : List Event :=
  [.enter 1, .provide undatedKey, .enter 2, .tick credentialsDefaultLifetime, .enter 3, .abandon,
    .enter 4, .provide expiredKey]

def afterFourCallers : CredentialCache where
  clock := credentialsDefaultLifetime
  cached := some (expiredKey, -credentialsRefreshMargin)
  refresh := none
  provided := [⟨⟨4, credentialsDefaultLifetime⟩, expiredKey⟩, ⟨⟨1, 0⟩, undatedKey⟩]
  returned := [⟨⟨4, credentialsDefaultLifetime⟩, expiredKey⟩, ⟨⟨2, 0⟩, undatedKey⟩,
    ⟨⟨1, 0⟩, undatedKey⟩]

theorem credentials_refreshed_when_due_fourCallers :
    (afterFourCallers.provided.IsChain fun later earlier => earlier.dueAt ≤ later.askedAt) ∧
      ∀ issued ∈ afterFourCallers.returned, Returnable afterFourCallers.provided issued := by
  have hrun : Reachable.run next (start 0) fourCallers = some afterFourCallers := by decide
  exact credentials_refreshed_when_due
    (Reachable.start.of_run (Reachable.runMeets_of_forall fun _ _ => trivial) hrun)

end CredentialCache

end Ncro
