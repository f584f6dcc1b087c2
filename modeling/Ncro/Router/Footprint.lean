import Ncro.Router.Resolve

/-!
# The footprint of a lookup

Which operations the parts of `resolve` perform, whatever the replies are. Both
the cached lookup and the race only read caches, write routes, and send requests
that carry the outgoing hop; misses are recorded and locks are taken by
`resolve` itself.
-/

namespace Ncro

open Foundation Foundation.Process

/-- The operations of a cached lookup at `hop`. -/
def CachedOp (hop : Hop) : Op → Prop
  | .timestampNow | .missLruGet _ | .lruGet _ | .lruInsert _ _ | .lruInvalidate _
  | .dbIsNegative _ | .dbGetRoute _ | .dbUpsertRoute _ | .dbCountWrite | .dbEvictIfNeeded
  | .getHealth _ => True
  | .getBytes request => request.headers = hopHeaders hop
  | _ => False

/-- The operations of a cached lookup, and of a race once it has its permit. -/
def LookupOp (hop : Hop) : Op → Prop
  | .recordLatency _ _ | .inCooldown _ | .markCooldown _ | .joinHead _ | .countWin _ _ => True
  | .spawnHeads requests => ∀ request ∈ requests, request.headers = hopHeaders hop
  | op => CachedOp hop op

theorem CachedOp.lookupOp {hop : Hop} {op : Op} (h : CachedOp hop op) : LookupOp hop op := by
  cases op <;> first | exact h | exact h.elim

/-- The operations of a race, its permit included. -/
def RaceOp (hop : Hop) (op : Op) : Prop :=
  LookupOp hop op ∨ op = .acquireRacePermit ∨ op = .releaseRacePermit

section

variable {crypto : Crypto} {reg : Registry} {storeHash : Str} {hop : Hop}

theorem performs_setRoute (entry : RouteEntry) : Performs (CachedOp hop) (setRoute entry) := by
  refine ⟨trivial, fun reply => ?_⟩
  cases reply with
  | error err => trivial
  | ok _ =>
      refine ⟨trivial, fun count => ?_⟩
      show Performs _ (ite _ _ _)
      split
      · exact performs_call trivial
      · trivial

/-! ## Cached lookups -/

theorem performs_fetchNarinfo (upstream : Str) :
    Performs (CachedOp hop) (fetchNarinfo crypto reg upstream storeHash hop) :=
  ⟨rfl, fun _ => trivial⟩

theorem performs_cachedRouteFilterCheck (upstream : Str) (narinfoBytes : Option Octets) :
    Performs (CachedOp hop)
      (cachedRouteFilterCheck crypto reg upstream storeHash narinfoBytes hop) := by
  unfold cachedRouteFilterCheck
  split
  · trivial
  · refine (performs_fetchNarinfo upstream).bind fun fetched => ?_
    split <;> trivial

theorem performs_lruRoute (cached : ResolveResult) :
    Performs (CachedOp hop) (lruRoute crypto reg storeHash hop cached) := by
  refine (performs_cachedRouteFilterCheck cached.url cached.narinfoBytes).bind fun check => ?_
  cases check with
  | cached => trivial
  | fetched bytes => exact ⟨trivial, fun _ => trivial⟩
  | rejected => exact ⟨trivial, fun _ => trivial⟩

theorem performs_serveRoute (entry : RouteEntry) :
    Performs (CachedOp hop) (serveRoute reg storeHash entry) :=
  ⟨trivial, fun _ => trivial⟩

theorem performs_refreshRoute (entry : RouteEntry) (bytes : Octets) :
    Performs (CachedOp hop) (refreshRoute reg storeHash entry bytes) := by
  refine (performs_setRoute _).bind fun stored => ?_
  cases stored with
  | error err => trivial
  | ok _ => exact performs_serveRoute _

theorem performs_storedRoute (entry : RouteEntry) :
    Performs (CachedOp hop) (storedRoute crypto reg storeHash hop entry) := by
  refine ⟨trivial, fun now => ?_⟩
  show Performs _ (ite _ _ _)
  split
  · trivial
  refine ⟨trivial, fun health => ?_⟩
  show Performs _ (ite _ _ _)
  split
  · trivial
  refine (performs_cachedRouteFilterCheck entry.upstreamUrl entry.narinfoBytes).bind
    fun check => ?_
  cases check with
  | cached =>
      show Performs _ (ite _ _ _)
      split
      · exact performs_serveRoute entry
      · refine (performs_fetchNarinfo entry.upstreamUrl).bind fun fetched => ?_
        split
        · exact performs_refreshRoute entry _
        · trivial
  | fetched bytes => exact performs_refreshRoute entry bytes
  | rejected => trivial

theorem performs_validCachedRoute :
    Performs (CachedOp hop) (validCachedRoute crypto reg storeHash hop) := by
  refine ⟨trivial, fun cached => ?_⟩
  cases cached with
  | some cached => exact performs_lruRoute cached
  | none =>
      refine ⟨trivial, fun row => ?_⟩
      match row with
      | .error err => trivial
      | .ok none => trivial
      | .ok (some entry) => exact performs_storedRoute entry

theorem performs_resolveCached :
    Performs (CachedOp hop) (resolveCached crypto reg storeHash hop) := by
  refine ⟨trivial, fun miss => ?_⟩
  cases miss with
  | some _ => trivial
  | none =>
      refine ⟨trivial, fun negative => ?_⟩
      match negative with
      | .error err => trivial
      | .ok true => trivial
      | .ok false => exact performs_validCachedRoute

/-! ## Races -/

theorem performs_joinHeads {P : Op → Prop} (hjoin : ∀ pending, P (.joinHead pending))
    (hmark : ∀ url, P (.markCooldown url)) (group : List Str) (pending : List UpstreamRequest)
    (hpending : ∀ request ∈ pending, request.upstream ∈ group) (netErrs notFounds : ℕ) :
    Performs P (joinHeads group pending hpending netErrs notFounds) := by
  induction hlen : pending.length generalizing pending netErrs notFounds with
  | zero =>
      obtain rfl := List.length_eq_zero_iff.1 hlen
      rw [joinHeads, if_pos rfl]
      trivial
  | succ n ih =>
      have hne : pending ≠ [] := by
        rintro rfl
        cases hlen
      rw [joinHeads, if_neg hne]
      refine ⟨hjoin pending, fun reply => ?_⟩
      cases reply with
      | none => trivial
      | some reply =>
          obtain ⟨i, answer⟩ := reply
          have hrest : (pending.eraseIdx i).length = n := by
            rw [List.length_eraseIdx_of_lt i.isLt]
            omega
          cases answer with
          | found latencyMs => trivial
          | miss => exact ih _ _ _ _ hrest
          | networkError => exact ⟨hmark _, fun _ => ih _ _ _ _ hrest⟩
          | joinError => exact ih _ _ _ _ hrest

theorem performs_raceGroup (group : List Str) :
    Performs (LookupOp hop) (raceGroup reg storeHash group hop) := by
  refine ⟨fun request hrequest => ?_, fun _ =>
    performs_joinHeads (fun _ => trivial) (fun _ => trivial) _ _ _ _ _⟩
  obtain ⟨url, -, rfl⟩ := List.mem_map.1 hrequest
  rfl

theorem performs_recordWinner (winner : RaceResult) (body : Option Octets) (parsed : NarInfo) :
    Performs (LookupOp hop) (recordWinner reg winner storeHash body parsed) := by
  refine ⟨trivial, fun _ => ⟨trivial, fun _ => ⟨trivial, fun _ => ⟨trivial, fun _ => ?_⟩⟩⟩⟩
  refine ((performs_setRoute _).mono fun _ => CachedOp.lookupOp).bind fun stored => ?_
  cases stored with
  | error err => trivial
  | ok _ => exact ⟨trivial, fun _ => trivial⟩

theorem performs_commitWinner (winner : RaceResult) :
    Performs (LookupOp hop) (commitWinner crypto reg winner storeHash hop) := by
  refine ((performs_fetchNarinfo winner.url).mono fun _ => CachedOp.lookupOp).bind
    fun fetched => ?_
  cases fetched with
  | error err => trivial
  | ok fetched =>
      show Performs _ (ite _ _ _)
      split
      · trivial
      · exact performs_recordWinner winner _ _

theorem performs_raceWithinGroup (group : List Str) (anyNotFound : Bool) :
    Performs (LookupOp hop)
      (raceWithinGroup crypto reg storeHash hop group anyNotFound) := by
  induction hlen : group.length using Nat.strongRecOn generalizing group anyNotFound with
  | ind n ih =>
  subst hlen
  rw [raceWithinGroup]
  split
  · trivial
  refine (performs_raceGroup group).bind fun verdict => ?_
  match verdict with
  | .error .notFound => trivial
  | .error .networkError => trivial
  | .error .timeout => trivial
  | .ok winner =>
      have hlt := length_retainOthers_lt winner.2
      refine (performs_commitWinner winner.val).bind fun commit => ?_
      match commit with
      | .ok (.accepted r) => trivial
      | .ok .rejected => exact ih _ hlt _ _ rfl
      | .error err =>
          show Performs _ (ite _ _ _)
          split
          · split
            · exact ⟨trivial, fun _ => ih _ hlt _ _ rfl⟩
            · exact ih _ hlt _ _ rfl
          · trivial

theorem performs_raceGroups (groups : List (ℤ × List Str)) (anyNotFound : Bool) :
    Performs (LookupOp hop) (raceGroups crypto reg storeHash hop groups anyNotFound) := by
  induction groups generalizing anyNotFound with
  | nil => trivial
  | cons head groups ih =>
      refine (performs_raceWithinGroup head.2 anyNotFound).bind fun outcome => ?_
      cases outcome with
      | done result => trivial
      | next anyNotFound' => exact ih anyNotFound'

theorem performs_cooldownFilteredCandidates {P : Op → Prop} (hcooldown : ∀ url, P (.inCooldown url))
    (candidates : List Str) : Performs P (cooldownFilteredCandidates candidates) := by
  induction candidates with
  | nil => trivial
  | cons url urls ih => exact ⟨hcooldown url, fun _ => ih.bind fun _ => trivial⟩

theorem performs_priorityGroups {P : Op → Prop} (hhealth : ∀ url, P (.getHealth url))
    (urls : List Str) (groups : List (ℤ × List Str)) :
    Performs P (priorityGroups urls groups) := by
  induction urls generalizing groups with
  | nil => trivial
  | cons url urls ih => exact ⟨hhealth url, fun _ => ih _⟩

theorem performs_raceCandidates (candidates : List Str) :
    Performs (LookupOp hop) (raceCandidates crypto reg storeHash candidates hop) :=
  (performs_cooldownFilteredCandidates (fun _ => trivial) candidates).bind fun _ =>
    (performs_priorityGroups (fun _ => trivial) _ _).bind fun _ => performs_raceGroups _ _

theorem performs_race (candidates : List Str) :
    Performs (RaceOp hop) (race crypto reg storeHash candidates hop) := by
  have hcandidates : Performs (RaceOp hop) (raceCandidates crypto reg storeHash candidates hop) :=
    (performs_raceCandidates candidates).mono fun _ => .inl
  unfold race
  split
  · trivial
  split
  · refine ⟨.inr (.inl rfl), fun granted => ?_⟩
    cases granted with
    | false => trivial
    | true => exact hcandidates.bind fun _ => ⟨.inr (.inr rfl), fun _ => trivial⟩
  · exact hcandidates

end

end Ncro
