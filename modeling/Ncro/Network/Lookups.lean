import Ncro.Network.Forwarding
import Ncro.Router.SingleFlight

/-!
# Lookups of a network

Instances that serve narinfo requests side by side, for clients and for each other.
A lookup is in a phase of `resolve` or making its response, and while it races it
has `HEAD` attempts under way, each of which waits for the gate of its upstream and
then for the answer. Every operation and every hand-over is a step of its own, so
that the lookups interleave in any order. An answer may come at any time and say
anything: requests time out, and most upstreams are not instances of the network.
-/

namespace Ncro

open Foundation Foundation.Process

/-! ## One lookup -/

/-- What is left of a response to a lookup. -/
abbrev ResponsePart (hop : Hop) :=
  {p : Handler Response // Performs (ResponseOp hop) p}

/-- What a lookup is doing. -/
inductive Activity (hop : Hop)
  | resolving (φ : Phase hop)
  | responding (part : ResponsePart hop)

namespace Activity

variable {hop : Hop}

/-- The lock a lookup holds. -/
def lock? : Activity hop → Option LockId
  | .resolving φ => φ.lock?
  | .responding _ => none

/-- Whether a lookup holds a race permit. -/
def holdsPermit : Activity hop → Bool
  | .resolving φ => φ.holdsPermit
  | .responding _ => false

section

variable (crypto : Crypto) (app : AppState) (storeHash : Str) (candidates : List Str)
  (request : ClientRequest)

/-- A step of the code of a lookup. -/
inductive Step : Activity request.hop → Option HandlerEvent → Activity request.hop → Prop
  | resolving {φ φ' : Phase request.hop} {e : Option HandlerEvent}
      (h : φ.Step crypto app.registry storeHash candidates e φ') :
      Step (.resolving φ) e (.resolving φ')
  | resolved (result : Except RouterError ResolveResult) :
      Step (.resolving (.done result)) none (.responding
        ⟨narinfoResponse crypto app storeHash request result,
          performs_narinfoResponse request result⟩)
  | responding {op : Op} {next : op.Reply → Handler Response}
      (h : Performs (ResponseOp request.hop) (.perform op next)) (reply : op.Reply) :
      Step (.responding ⟨.perform op next, h⟩) (some ⟨op, reply⟩)
        (.responding ⟨next reply, h.2 reply⟩)

/-- What is left of the handler `narinfo`. -/
def process : Activity request.hop → Handler Response
  | .resolving φ => φ.process crypto app.registry storeHash candidates >>=
      narinfoResponse crypto app storeHash request
  | .responding part => part.val

end

variable {crypto : Crypto} {app : AppState} {storeHash : Str} {candidates : List Str}
  {request : ClientRequest} {activity activity' : Activity request.hop}

theorem Step.process_none (h : Step crypto app storeHash candidates request activity none activity') :
    activity.process crypto app storeHash candidates request =
      activity'.process crypto app storeHash candidates request := by
  cases h with
  | resolving h => rw [process, process, h.process_none]
  | resolved result => rfl

/-- An operation of a step is the next operation of the handler, which then goes on from
the next activity. -/
theorem Step.process_some {op : Op} {reply : op.Reply}
    (h : Step crypto app storeHash candidates request activity (some ⟨op, reply⟩) activity') :
    ∃ next, activity.process crypto app storeHash candidates request = .perform op next ∧
      next reply = activity'.process crypto app storeHash candidates request := by
  cases h with
  | resolving h =>
      obtain ⟨next, hprocess, hnext⟩ := h.process_some
      refine ⟨fun reply => next reply >>= narinfoResponse crypto app storeHash request, ?_, ?_⟩
      · rw [process, hprocess]
        rfl
      · show next reply >>= _ = _
        rw [hnext]
        rfl
  | responding h reply => exact ⟨_, rfl, rfl⟩

end Activity

/-- A task that waits for a response: the task of a lookup or one of its attempts. -/
structure TaskId where
  number : ℕ
  /-- The hop of the lookup. -/
  hop : Hop
  deriving DecidableEq

inductive AttemptState
  /-- Waiting for a permit of the gate. -/
  | waiting
  /-- Waiting for the answer, with the permit. -/
  | sent
  | finished (answer : HeadAnswer)
  deriving DecidableEq

/-- A `HEAD` attempt of a race. -/
structure Attempt where
  number : ℕ
  request : UpstreamRequest
  state : AttemptState

/-- A narinfo request that is being served. -/
structure ServedLookup (ι : Type) where
  host : ι
  request : ClientRequest
  storeHash : StoreHash
  candidates : List Str
  /-- The task of the network that waits for the response, if one does. -/
  caller : Option TaskId
  /-- The number that the lookup's own task has until its next request is answered. -/
  number : ℕ
  activity : Activity request.hop
  /-- The attempts of the race that have not been joined. -/
  attempts : List Attempt

namespace ServedLookup

variable {ι : Type} (crypto : Crypto) (net : Network ι)

abbrev hop (lookup : ServedLookup ι) : Hop := lookup.request.hop

/-- The lookup's own task. -/
def task (lookup : ServedLookup ι) : TaskId := ⟨lookup.number, lookup.hop⟩

/-- The task of an attempt. -/
def attemptTask (lookup : ServedLookup ι) (attempt : Attempt) : TaskId :=
  ⟨attempt.number, lookup.hop⟩

/-- The code of a lookup takes a step. -/
def Goes (lookup : ServedLookup ι) (e : Option HandlerEvent)
    (activity : Activity lookup.request.hop) : Prop :=
  lookup.activity.Step crypto (net.app lookup.host) lookup.storeHash.val lookup.candidates
    lookup.request e activity

/-- The next operation of a lookup. -/
def AboutTo (lookup : ServedLookup ι) (op : Op) : Prop :=
  ∃ reply activity, lookup.Goes crypto net (some ⟨op, reply⟩) activity

end ServedLookup

/-- The request whose answer an operation waits for. -/
def Op.awaited : Op → Option UpstreamRequest
  | .getBytes request | .proxy request => some request
  | _ => none

/-- Whether an operation has nothing to do with the network. -/
def Op.isLocal : Op → Bool
  | .spawnHeads _ | .joinHead _ | .getBytes _ | .proxy _ => false
  | _ => true

/-- The phase of a lookup whose handler is dropped: the guards run. -/
def Phase.dropped (result : Except RouterError ResolveResult) : {hop : Hop} → Phase hop → Phase hop
  | _, .secondCheck lock _ | _, .permit lock | _, .racing lock _ | _, .release lock _
  | _, .remember lock | _, .recordNegative lock => .cleanup lock result
  | _, φ => φ

/-! ## The network -/

/-- The instances of a network with the lookups they serve. -/
structure LookupNetwork (ι : Type) where
  inst : ι → Instance
  lookups : List (ServedLookup ι)
  nextNumber : ℕ

namespace LookupNetwork

variable {ι : Type}

/-- A task has sent a request and waits for the answer. -/
def Sends (crypto : Crypto) (net : Network ι) (s : LookupNetwork ι) (task : TaskId)
    (sent : UpstreamRequest) : Prop :=
  ∃ lookup ∈ s.lookups,
    (∃ op, lookup.AboutTo crypto net op ∧ op.awaited = some sent ∧ task = lookup.task) ∨
      ∃ attempt ∈ lookup.attempts, attempt.state = .sent ∧ attempt.request = sent ∧
        task = lookup.attemptTask attempt

section

variable [DecidableEq ι]

/-- The permits taken of the gate of an upstream, for the races of a hop. -/
def gateTaken (s : LookupNetwork ι) (host : ι) (upstream : Str) (hop : Hop) : ℕ :=
  (s.lookups.filter fun lookup => lookup.host = host ∧ lookup.hop = hop).flatMap
    ServedLookup.attempts |>.countP fun attempt =>
      attempt.request.upstream = upstream ∧ attempt.state = .sent

/-- A race starts its attempts. -/
def startedAttempts (n : ℕ) (requests : List UpstreamRequest) : List Attempt :=
  requests.zipIdx.map fun (request, i) => ⟨n + i, request, .waiting⟩

/-- The attempts left when one was joined: with a winner the others are aborted. -/
def joinedAttempts (attempts : List Attempt) (i : ℕ) : HeadAnswer → List Attempt
  | .found _ => []
  | _ => attempts.eraseIdx i

variable (crypto : Crypto) (net : Network ι) (gateLimit : ι → ℕ)

inductive Step : LookupNetwork ι → LookupNetwork ι → Prop
  /-- An instance receives a narinfo request, of a client or of a task that waits. -/
  | receive (s : LookupNetwork ι) (host : ι) (request : ClientRequest) (storeHash : StoreHash)
      (candidates : List Str) (caller : Option TaskId)
      (hpath : request.path = narinfoPath storeHash.val)
      (hcandidates : Execution (Instance.exec (net.app host).registry)
        (upstreamUrls (net.app host)) (s.inst host) candidates (s.inst host))
      (hcaller : ∀ task, caller = some task → ∃ sent, s.Sends crypto net task sent ∧
        net.instanceAt sent.upstream = some host ∧ request = sent.received) :
      Step s { s with
        lookups := ⟨host, request, storeHash, candidates, caller, s.nextNumber,
          .resolving (.firstCheck ⟨resolveCached crypto (net.app host).registry storeHash.val
            request.hop, performs_resolveCached⟩), []⟩ :: s.lookups
        nextNumber := s.nextNumber + 1 }
  | pass {inst : ι → Instance} {before after : List (ServedLookup ι)} {n : ℕ}
      {lookup : ServedLookup ι} {activity : Activity lookup.request.hop}
      (h : lookup.Goes crypto net none activity) :
      Step ⟨inst, before ++ lookup :: after, n⟩
        ⟨inst, before ++ { lookup with activity } :: after, n⟩
  | perform {inst : ι → Instance} {before after : List (ServedLookup ι)} {n : ℕ}
      {lookup : ServedLookup ι} {activity : Activity lookup.request.hop} {op : Op}
      {reply : op.Reply} {inst' : Instance}
      (h : lookup.Goes crypto net (some ⟨op, reply⟩) activity) (hlocal : op.isLocal = true)
      (hexec : Instance.exec (net.app lookup.host).registry op (inst lookup.host) reply inst') :
      Step ⟨inst, before ++ lookup :: after, n⟩
        ⟨Function.update inst lookup.host inst', before ++ { lookup with activity } :: after, n⟩
  | spawnHeads {inst : ι → Instance} {before after : List (ServedLookup ι)} {n : ℕ}
      {lookup : ServedLookup ι} {activity : Activity lookup.request.hop}
      {requests : List UpstreamRequest}
      (h : lookup.Goes crypto net (some ⟨.spawnHeads requests, ()⟩) activity) :
      Step ⟨inst, before ++ lookup :: after, n⟩
        ⟨inst, before ++
          { lookup with activity, attempts := startedAttempts n requests } :: after,
          n + requests.length⟩
  /-- An attempt gets a permit of its gate, and sends its request. -/
  | acquire {inst : ι → Instance} {before after : List (ServedLookup ι)} {n : ℕ}
      {lookup : ServedLookup ι} {early late : List Attempt} {number : ℕ}
      {request : UpstreamRequest}
      (hattempts : lookup.attempts = early ++ ⟨number, request, .waiting⟩ :: late)
      (hgate : gateTaken ⟨inst, before ++ lookup :: after, n⟩ lookup.host request.upstream
        lookup.hop < gateLimit lookup.host) :
      Step ⟨inst, before ++ lookup :: after, n⟩
        ⟨inst, before ++
          { lookup with attempts := early ++ ⟨number, request, .sent⟩ :: late } :: after, n⟩
  /-- An attempt gets its answer, or fails, and gives the permit back. -/
  | answer {inst : ι → Instance} {before after : List (ServedLookup ι)} {n : ℕ}
      {lookup : ServedLookup ι} {early late : List Attempt} {number : ℕ}
      {request : UpstreamRequest} (answer : HeadAnswer)
      (hattempts : lookup.attempts = early ++ ⟨number, request, .sent⟩ :: late) :
      Step ⟨inst, before ++ lookup :: after, n⟩
        ⟨inst, before ++
          { lookup with attempts := early ++ ⟨number, request, .finished answer⟩ :: late } ::
            after, n⟩
  | joinHead {inst : ι → Instance} {before after : List (ServedLookup ι)} {n : ℕ}
      {lookup : ServedLookup ι} {activity : Activity lookup.request.hop}
      {pending : List UpstreamRequest} {i : Fin pending.length} {answer : HeadAnswer}
      (h : lookup.Goes crypto net (some ⟨.joinHead pending, some (i, answer)⟩) activity)
      (hfinished : lookup.attempts[i.val]?.map Attempt.state = some (.finished answer)) :
      Step ⟨inst, before ++ lookup :: after, n⟩
        ⟨inst, before ++ { lookup with
          activity, attempts := joinedAttempts lookup.attempts i answer } :: after, n⟩
  /-- The deadline of a race passes, and its attempts are aborted. -/
  | deadline {inst : ι → Instance} {before after : List (ServedLookup ι)} {n : ℕ}
      {lookup : ServedLookup ι} {activity : Activity lookup.request.hop}
      {pending : List UpstreamRequest}
      (h : lookup.Goes crypto net (some ⟨.joinHead pending, none⟩) activity) :
      Step ⟨inst, before ++ lookup :: after, n⟩
        ⟨inst, before ++ { lookup with activity, attempts := [] } :: after, n⟩
  /-- A lookup's own request is answered, or fails. -/
  | reply {inst : ι → Instance} {before after : List (ServedLookup ι)} {n : ℕ}
      {lookup : ServedLookup ι} {activity : Activity lookup.request.hop} {op : Op}
      {reply : op.Reply} (h : lookup.Goes crypto net (some ⟨op, reply⟩) activity)
      (hawaited : op.awaited.isSome = true) :
      Step ⟨inst, before ++ lookup :: after, n⟩
        ⟨inst, before ++ { lookup with activity, number := n } :: after, n + 1⟩
  /-- A handler that is dropped has nothing to give back, or its guards run. -/
  | drop {inst : ι → Instance} {before after : List (ServedLookup ι)} {n : ℕ}
      {lookup : ServedLookup ι} (hlock : lookup.activity.lock? = none) :
      Step ⟨inst, before ++ lookup :: after, n⟩ ⟨inst, before ++ after, n⟩
  | dropLocked {inst : ι → Instance} {before after : List (ServedLookup ι)} {n : ℕ}
      {lookup : ServedLookup ι} {φ : Phase lookup.request.hop}
      (hactivity : lookup.activity = .resolving φ) (hlock : φ.lock?.isSome = true)
      (result : Except RouterError ResolveResult) :
      Step ⟨inst, before ++ lookup :: after, n⟩
        ⟨Function.update inst lookup.host { inst lookup.host with
          racePermits := (inst lookup.host).racePermits + if φ.holdsPermit then 1 else 0 },
          before ++ { lookup with
            activity := .resolving (φ.dropped result), attempts := [] } :: after, n⟩
  /-- Whatever else an instance does leaves the locks and the race permits alone. -/
  | other (s : LookupNetwork ι) (host : ι) (inst' : Instance)
      (hlocks : (s.inst host).SameLocks inst')
      (hpermits : inst'.racePermits = (s.inst host).racePermits) :
      Step s { s with inst := Function.update s.inst host inst' }

end

end LookupNetwork

end Ncro
