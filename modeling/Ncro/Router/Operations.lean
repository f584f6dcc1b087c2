import Ncro.Db
import Ncro.Foundation.Process
import Ncro.Health
import Ncro.Router.Registry

/-!
# What a request handler does to its surroundings

The handlers are processes over `Op`: every access to a cache, the database, the
prober, a lock or the network is one operation, and between two operations other
requests may run. The reply of an operation that talks to an upstream is
whatever that upstream makes of it; what the other operations do to an instance
is `Ncro.Instance.exec`.
-/

namespace Ncro

open Foundation

/-! ## Hops and requests -/

/-- How many ncro instances a narinfo lookup has passed through. -/
inductive Hop
  | client
  | peer
  | peerOfPeer
  deriving DecidableEq, Repr

abbrev HeaderMap := List (Str × Str)

/-- Carries a narinfo request's `Hop` between ncro instances. -/
def hopHeader : Str := "x-ncro-hop".toList

namespace Hop

def fromHeaders (headers : HeaderMap) : Hop :=
  match headers.lookup hopHeader with
  | none => .client
  | some value => if value = ['1'] then .peer else .peerOfPeer

/-- The header value for requests a lookup sends upstream. -/
def outgoing : Hop → Str
  | .client => ['1']
  | .peer | .peerOfPeer => ['2']

/-- The number of instances passed. -/
def rank : Hop → ℕ
  | .client => 0
  | .peer => 1
  | .peerOfPeer => 2

end Hop

def hopHeaders (hop : Hop) : HeaderMap := [(hopHeader, hop.outgoing)]

inductive Method
  | get
  | head
  deriving DecidableEq, Repr

/-- A request to an upstream. -/
structure UpstreamRequest where
  upstream : Str
  method : Method
  path : Str
  headers : HeaderMap
  timeout : Option Duration
  deriving DecidableEq

def narinfoPath (storeHash : Str) : Str :=
  '/' :: storeHash ++ ".narinfo".toList

inductive BackendError
  | httpClient (upstream : Str)
  | credentials (upstream : Str)
  | sign (url : Str)
  | dotSegment (key : Str)
  | request (url : Str)
  | status (url : Str) (status : ℕ)
  | body (url : Str)
  deriving DecidableEq, Repr

inductive RouterError
  | notFound
  | upstreamUnavailable
  | noCandidates (storeHash : Str)
  | signatureVerificationFailed
  | backend (err : BackendError)
  | parseNarinfo (err : NarInfoError)
  | db (err : DbError)
  deriving DecidableEq, Repr

structure ResolveResult where
  url : Str
  latencyMs : Double
  cacheHit : Bool
  narinfoBytes : Option Octets
  deriving DecidableEq

/-! ## Replies -/

/-- How one `HEAD` request of a race ended: `joinError` is a panicked task. -/
inductive HeadAnswer
  | found (latencyMs : Double)
  | miss
  | networkError
  | joinError
  deriving DecidableEq

inductive RouteKind
  | cacheHit
  | direct
  | hedge
  | fallback
  | race
  deriving DecidableEq, Repr

structure NarCandidate where
  upstream : Str
  path : Str
  route : RouteKind
  deriving DecidableEq

/-- What an upstream made of a NAR request, up to the first chunk of the body. -/
inductive NarAnswer
  | timeout
  | error (err : BackendError)
  | missing
  | response (status : ℕ) (firstChunk : Option Octets)
  deriving DecidableEq, Inhabited

/-- What `tokio::select!` may pick in `hedged_nar`, with `pending` attempts
under way, and `timer` saying whether the branch of the hedge timer is enabled.
It panics when no branch is. -/
inductive HedgeEvent (pending : List NarCandidate) (timer : Bool)
  | completed (i : Fin pending.length) (answer : NarAnswer)
  | panicked (i : Fin pending.length)
  | timer (h : timer = true)
  | allDisabled (hpending : pending = []) (htimer : timer = false)
  deriving DecidableEq

/-- Whatever is enabled, something happens. -/
instance (pending : List NarCandidate) (timer : Bool) : Inhabited (HedgeEvent pending timer) where
  default :=
    match pending, timer with
    | _, true => .timer rfl
    | [], false => .allDisabled rfl rfl
    | _ :: _, false => .panicked ⟨0, Nat.zero_lt_succ _⟩

/-! ## Operations -/

/-- The lock of a store hash, by the order of creation. -/
abbrev LockId := ℕ

inductive Op
  /-- `Timestamp::now`. -/
  | timestampNow
  /-- `Instant::elapsed` since a handler started, in milliseconds. -/
  | elapsed
  | missLruGet (storeHash : Str)
  | missLruInsert (storeHash : Str)
  | lruGet (storeHash : Str)
  | lruInsert (storeHash : Str) (result : ResolveResult)
  | lruInvalidate (storeHash : Str)
  | dbIsNegative (storePath : Str)
  | dbSetNegative (storePath : Str) (ttl : Duration)
  | dbGetRoute (storePath : Str)
  | dbGetRouteByNarUrl (narUrl : Str)
  /-- The upsert of `set_route`. -/
  | dbUpsertRoute (entry : RouteEntry)
  /-- `write_count.fetch_add(1)`. -/
  | dbCountWrite
  | dbEvictIfNeeded
  | getHealth (url : Str)
  | sortedByLatency
  | recordLatency (url : Str) (ms : Double)
  | inCooldown (url : Str)
  | markCooldown (url : Str)
  /-- Wait for a permit of the race semaphore. -/
  | acquireRacePermit
  | releaseRacePermit
  /-- Take the lock of a hash from the inflight map, or put a new one there. -/
  | inflightEntry (storeHash : Str)
  /-- Wait for a lock. -/
  | lock (lock : LockId)
  /-- `InflightGuard::drop`: remove the entry if it still is this lock. -/
  | inflightRemoveIf (storeHash : Str) (lock : LockId)
  | unlock (lock : LockId)
  /-- Start the `HEAD` requests of a race, each behind its upstream's gate. -/
  | spawnHeads (requests : List UpstreamRequest)
  /-- Wait for one of the pending `HEAD` requests or for the deadline. -/
  | joinHead (pending : List UpstreamRequest)
  /-- `Backend::get_bytes`. -/
  | getBytes (request : UpstreamRequest)
  /-- Forward a request whose response is streamed back. -/
  | proxy (request : UpstreamRequest)
  /-- The metrics of a race win. -/
  | countWin (url : Str) (latencyMs : Double)
  /-- Start a NAR request. -/
  | spawnNar (candidate : NarCandidate) (request : UpstreamRequest)
  /-- Wait for a NAR request, or for the hedge timer. -/
  | selectNar (pending : List NarCandidate) (timer : Bool)
  /-- Send a NAR request and wait for its answer. -/
  | sendNar (request : UpstreamRequest)
  deriving DecidableEq

/-- The type of an operation's reply. -/
abbrev Op.Reply : Op → Type
  | .timestampNow => Timestamp
  | .elapsed => Double
  | .missLruGet _ => Option Unit
  | .lruGet _ => Option ResolveResult
  | .dbIsNegative _ => Except DbError Bool
  | .dbSetNegative _ _ => Except DbError Unit
  | .dbGetRoute _ => Except DbError (Option RouteEntry)
  | .dbGetRouteByNarUrl _ => Except DbError (Option RouteEntry)
  | .dbUpsertRoute _ => Except DbError Unit
  | .dbCountWrite => ℕ
  | .dbEvictIfNeeded => Except DbError Unit
  | .getHealth _ => Option UpstreamHealth
  | .sortedByLatency => List UpstreamHealth
  | .inCooldown _ => Bool
  | .acquireRacePermit => Bool
  | .inflightEntry _ => LockId
  | .joinHead pending => Option (Fin pending.length × HeadAnswer)
  | .getBytes _ => Except BackendError (Option Octets)
  | .proxy _ => Except BackendError (Option ℕ)
  | .selectNar pending timer => HedgeEvent pending timer
  | .sendNar _ => NarAnswer
  | _ => Unit

/-- A handler, or a part of one. -/
abbrev Handler (α : Type) := Process Op Op.Reply α

/-- Perform one operation. -/
abbrev ask (op : Op) : Handler op.Reply := Process.call op

/-- An operation with its reply. -/
abbrev HandlerEvent := Process.Event Op Op.Reply

/-- The requests an operation sends to upstreams. -/
def Op.sent : Op → List UpstreamRequest
  | .spawnHeads requests => requests
  | .getBytes request => [request]
  | .proxy request => [request]
  | .spawnNar _ request => [request]
  | .sendNar request => [request]
  | _ => []

/-- The requests sent to upstreams in the course of some events. -/
def sentRequests (events : List HandlerEvent) : List UpstreamRequest :=
  events.flatMap fun event => event.1.sent

@[simp] theorem sentRequests_nil : sentRequests [] = [] := rfl

@[simp] theorem sentRequests_cons (event : HandlerEvent) (events : List HandlerEvent) :
    sentRequests (event :: events) = event.1.sent ++ sentRequests events := rfl

@[simp] theorem sentRequests_append (events events' : List HandlerEvent) :
    sentRequests (events ++ events') = sentRequests events ++ sentRequests events' := by
  simp [sentRequests]

/-! ## Composite database accesses -/

/-- `Db::set_route`: every hundredth write also bounds the table. -/
def setRoute (entry : RouteEntry) : Handler (Except DbError Unit) := do
  match ← ask (.dbUpsertRoute entry) with
  | .error err => return .error err
  | .ok () =>
    let count ← ask .dbCountWrite
    if count % 100 = 99 then ask .dbEvictIfNeeded
    else return .ok ()

end Ncro
