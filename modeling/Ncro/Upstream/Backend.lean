import Ncro.Foundation.Credits
import Ncro.ObjectUrls

/-!
# Backends

How an upstream is asked for an object. An HTTP upstream is asked once; an S3 upstream is
asked again, with the same signed request, while it is overloaded or out of reach, up to
three times. What comes back is read off the last answer: `run_send`. A backend that is
given a timeout answers in a time that `Backend.answerTime` bounds.
-/

namespace Ncro

open Foundation Foundation.Process

/-! ## Exchanges -/

/-- A point of the system clock, in nanoseconds since the epoch. -/
abbrev SystemTime := ℤ

structure Credentials where
  accessKeyId : Str
  secretAccessKey : Str
  sessionToken : Option Str
  expiry : Option SystemTime
  deriving DecidableEq

/-- A request as it goes over the wire. -/
structure WireRequest where
  method : Method
  url : Str
  headers : HeaderMap
  basicAuth : Option (Str × Option Str)
  timeout : Option Duration
  deriving DecidableEq

/-- A response up to its body: its status, and the URL that it comes from. -/
structure WireResponse where
  url : Str
  status : ℕ
  deriving DecidableEq

/-- Why there is no response: `request` is what `is_request` tells, a request that could not
be sent or was not answered in time. -/
inductive ExchangeError
  | request
  | other
  deriving DecidableEq

abbrev WireAnswer := Except ExchangeError WireResponse

inductive SendOp
  /-- Take the client from its `OnceCell`, or build it. -/
  | client
  /-- `Client::credentials`. -/
  | credentials
  /-- `SystemTime::now`. -/
  | systemTime
  | exchange (request : WireRequest)
  | sleep (duration : Duration)
  /-- Read the body of a response to its end. -/
  | readBody (response : WireResponse)
  deriving DecidableEq

abbrev SendOp.Reply : SendOp → Type
  | .client => Bool
  | .credentials => Option Credentials
  | .systemTime => SystemTime
  | .exchange _ => WireAnswer
  | .sleep _ => Unit
  | .readBody _ => Option Octets

abbrev Sending (α : Type) := Process SendOp SendOp.Reply α

/-- Perform one operation. -/
abbrev Sending.ask (op : SendOp) : Sending op.Reply := call op

/-- The SigV4 signer: the headers that sign a request for a region at a time. -/
abbrev Signer := Credentials → Str → SystemTime → Method → Str → Option HeaderMap

/-! ## Statuses -/

def isSuccess (status : ℕ) : Bool :=
  200 ≤ status && status < 300

def isServerError (status : ℕ) : Bool :=
  500 ≤ status && status < 600

/-- The statuses that an HTTP binary cache store also treats as a missing file. -/
def isMissStatus (status : ℕ) : Bool :=
  status = 404 || status = 403 || status = 410

/-- What `send` makes of an answer, given the statuses that mean that an object is missing. -/
def classify (isMiss : ℕ → Bool) (url : Str) :
    WireAnswer → Except BackendError (Option WireResponse)
  | .error _ => .error (.request url)
  | .ok response =>
      if isMiss response.status then .ok none
      else if isSuccess response.status then .ok (some response)
      else .error (.status url response.status)

/-! ## HTTP -/

def httpRequest (url username : Str) (password : Option Str) (method : Method) (path : Str)
    (headers : HeaderMap) (timeout : Option Duration) : WireRequest where
  method := method
  url := url ++ path
  headers := headers
  basicAuth := if username = [] then none else some (username, password)
  timeout := timeout

/-- `HttpBackend::send`. -/
def sendHttp (url username : Str) (password : Option Str) (method : Method) (path : Str)
    (headers : HeaderMap) (timeout : Option Duration) :
    Sending (Except BackendError (Option WireResponse)) := do
  let request := httpRequest url username password method path headers timeout
  let answer ← Sending.ask (.exchange request)
  return classify isMissStatus request.url answer

/-! ## S3 -/

def maxAttempts : ℕ := 3

/-- 100 ms. -/
def retryBackoff : Duration := 100 * 10 ^ 6

/-- Whether another attempt may succeed: the store is overloaded or out of reach. -/
def retryable : WireAnswer → Bool
  | .ok response => isServerError response.status || response.status = 429
  | .error err => err = .request

/-- The loop of `S3Backend::send`, from an attempt on. -/
def attempts (request : WireRequest) (attempt : ℕ) : Sending WireAnswer := do
  let answer ← Sending.ask (.exchange request)
  if retryable answer = true ∧ attempt < maxAttempts then do
    Sending.ask (.sleep (retryBackoff * attempt))
    attempts request (attempt + 1)
  else return answer
termination_by maxAttempts - attempt

/-- The statuses that mean that an S3 object is missing. -/
def isMissingObject (status : ℕ) : Bool :=
  status = 404

/-- The signed request; of the caller's headers it has only `range`. -/
def s3Request (method : Method) (url : Str) (signature headers : HeaderMap)
    (timeout : Option Duration) : WireRequest where
  method := method
  url := url
  headers := signature ++
    ((headers.lookup "range".toList).map fun range => ("range".toList, range)).toList
  basicAuth := none
  timeout := timeout

/-- `S3Backend::send`. -/
def sendS3 (signer : Signer) (upstream : Str) (config : S3Config) (method : Method) (path : Str)
    (headers : HeaderMap) (timeout : Option Duration) :
    Sending (Except BackendError (Option WireResponse)) := do
  if ← Sending.ask .client then
    match objectUrl config (path.dropWhile (· = '/')) with
    | .error err => return .error err
    | .ok url =>
        match ← Sending.ask .credentials with
        | none => return .error (.credentials upstream)
        | some credentials =>
            let now ← Sending.ask .systemTime
            match signer credentials config.region now method url with
            | none => return .error (.sign url)
            | some signature =>
                let answer ← attempts (s3Request method url signature headers timeout) 1
                return classify isMissingObject url answer
  else return .error (.httpClient upstream)

/-! ## Both -/

namespace Backend

variable (signer : Signer)

/-- `Backend::send`. -/
def send (backend : Backend) (method : Method) (path : Str) (headers : HeaderMap)
    (timeout : Option Duration) : Sending (Except BackendError (Option WireResponse)) :=
  match backend with
  | .http url username password => sendHttp url username password method path headers timeout
  | .s3 url config => sendS3 signer url config method path headers timeout

/-- `Backend::get_bytes`. -/
def getBytes (backend : Backend) (path : Str) (headers : HeaderMap) (timeout : Option Duration) :
    Sending (Except BackendError (Option Octets)) := do
  match ← backend.send signer .get path headers timeout with
  | .error err => return .error err
  | .ok none => return .ok none
  | .ok (some response) =>
      match ← Sending.ask (.readBody response) with
      | none => return .error (.body response.url)
      | some bytes => return .ok (some bytes)

/-- The statuses that mean that an object is missing. -/
def isMiss : Backend → ℕ → Bool
  | .http _ _ _ => isMissStatus
  | .s3 _ _ => isMissingObject

/-- How often a request is sent at most. -/
def attemptLimit : Backend → ℕ
  | .http _ _ _ => 1
  | .s3 _ _ => maxAttempts

end Backend

/-! ## What is exchanged -/

/-- The requests sent, each with its answer. -/
def exchanges (events : List (Event SendOp SendOp.Reply)) : List (WireRequest × WireAnswer) :=
  events.filterMap fun
    | ⟨.exchange request, answer⟩ => some (request, answer)
    | _ => none

/-- The pauses made. -/
def pauses (events : List (Event SendOp SendOp.Reply)) : List Duration :=
  events.filterMap fun
    | ⟨.sleep duration, _⟩ => some duration
    | _ => none

/-- A request was sent until it got an answer that was not worth another attempt, or there
were no attempts left. The pauses between the attempts grow. -/
structure Attempted (request : WireRequest) (first limit : ℕ)
    (events : List (Event SendOp SendOp.Reply)) (failures : List WireAnswer)
    (answer : WireAnswer) : Prop where
  exchanges_eq : exchanges events = (failures ++ [answer]).map fun answer => (request, answer)
  failed : ∀ failure ∈ failures, retryable failure = true
  le_limit : first + failures.length ≤ limit
  exhausted : retryable answer = true → first + failures.length = limit
  pauses_eq : pauses events = (List.range' first failures.length).map fun i => retryBackoff * i

variable {allowed : (op : SendOp) → op.Reply → Prop}

theorem run_attempts {request : WireRequest} {attempt : ℕ} {answer : WireAnswer}
    {events : List (Event SendOp SendOp.Reply)} (hle : attempt ≤ maxAttempts)
    (h : Run allowed (attempts request attempt) events answer) :
    ∃ failures, Attempted request attempt maxAttempts events failures answer := by
  induction hleft : maxAttempts - attempt generalizing attempt events with
  | zero =>
      rw [attempts] at h
      rcases run_call_bind_iff.1 h with ⟨reply, events, rfl, -, h⟩
      have hlast : ¬attempt < maxAttempts := by omega
      rw [if_neg fun hboth => hlast hboth.2] at h
      rcases run_ret_iff.1 h with ⟨rfl, rfl⟩
      refine ⟨[], rfl, by simp, by simpa using hle, fun _ => ?_, rfl⟩
      simp only [List.length_nil]
      omega
  | succ n ih =>
      rw [attempts] at h
      rcases run_call_bind_iff.1 h with ⟨reply, events, rfl, -, h⟩
      by_cases hagain : retryable reply = true ∧ attempt < maxAttempts
      · rw [if_pos hagain] at h
        rcases run_call_bind_iff.1 h with ⟨-, events, rfl, -, h⟩
        rcases ih hagain.2 h (by omega) with ⟨failures, hrest⟩
        refine ⟨reply :: failures, ?_, ?_, ?_, ?_, ?_⟩
        · simpa [exchanges] using hrest.exchanges_eq
        · intro failure hmem
          rcases List.mem_cons.1 hmem with rfl | hmem
          · exact hagain.1
          · exact hrest.failed failure hmem
        · have hlimit := hrest.le_limit
          simp only [List.length_cons]
          omega
        · intro hretryable
          have hlimit := hrest.exhausted hretryable
          simp only [List.length_cons]
          omega
        · have hpauses := hrest.pauses_eq
          simpa [pauses, List.range'_succ] using hpauses
      · rw [if_neg hagain] at h
        rcases run_ret_iff.1 h with ⟨rfl, rfl⟩
        refine ⟨[], rfl, by simp, by simpa using hle, fun hretryable => ?_, rfl⟩
        exact absurd ⟨hretryable, by omega⟩ hagain

/-- The errors of a request that was never sent. -/
def BackendError.unsent : BackendError → Bool
  | .httpClient _ | .credentials _ | .sign _ | .dotSegment _ => true
  | _ => false

/-- The request that a backend sends. -/
def Backend.Requests (signer : Signer) (method : Method) (path : Str) (headers : HeaderMap)
    (timeout : Option Duration) : Backend → WireRequest → Prop
  | .http url username password, request =>
      request = httpRequest url username password method path headers timeout
  | .s3 _ config, request => ∃ url credentials now signature,
      objectUrl config (path.dropWhile (· = '/')) = .ok url ∧
        signer credentials config.region now method url = some signature ∧
          request = s3Request method url signature headers timeout

section

variable {signer : Signer} {backend : Backend} {method : Method} {path : Str}
  {headers : HeaderMap} {timeout : Option Duration} {events : List (Event SendOp SendOp.Reply)}

theorem run_sendS3 {upstream : Str} {config : S3Config}
    {result : Except BackendError (Option WireResponse)}
    (h : Run allowed (sendS3 signer upstream config method path headers timeout) events result) :
    (exchanges events = [] ∧ ∃ err, result = .error err ∧ err.unsent = true) ∨
      ∃ request failures answer,
        (Backend.s3 upstream config).Requests signer method path headers timeout request ∧
          Attempted request 1 maxAttempts events failures answer ∧
            result = classify isMissingObject request.url answer := by
  rcases run_call_bind_iff.1 h with ⟨built, events, rfl, -, h⟩
  cases built with
  | false =>
      rcases run_ret_iff.1 h with ⟨rfl, rfl⟩
      exact .inl ⟨rfl, _, rfl, rfl⟩
  | true =>
      simp only [if_true] at h
      cases hurl : objectUrl config (path.dropWhile (· = '/')) with
      | error err =>
          rw [hurl] at h
          rcases run_ret_iff.1 h with ⟨rfl, rfl⟩
          refine .inl ⟨rfl, err, rfl, ?_⟩
          simp only [objectUrl] at hurl
          split at hurl
          · cases hurl
            rfl
          · cases hurl
      | ok url =>
          rw [hurl] at h
          rcases run_call_bind_iff.1 h with ⟨provided, events, rfl, -, h⟩
          cases provided with
          | none =>
              rcases run_ret_iff.1 h with ⟨rfl, rfl⟩
              exact .inl ⟨rfl, _, rfl, rfl⟩
          | some credentials =>
              rcases run_call_bind_iff.1 h with ⟨now, events, rfl, -, h⟩
              cases hsign : signer credentials config.region now method url with
              | none =>
                  rw [hsign] at h
                  rcases run_ret_iff.1 h with ⟨rfl, rfl⟩
                  exact .inl ⟨rfl, _, rfl, rfl⟩
              | some signature =>
                  rw [hsign] at h
                  rcases run_bind_iff.1 h with ⟨sent, answer, rest, rfl, hattempts, h⟩
                  rcases run_ret_iff.1 h with ⟨rfl, rfl⟩
                  rcases run_attempts (by decide) hattempts with ⟨failures, hattempted⟩
                  refine .inr ⟨s3Request method url signature headers timeout, failures, answer,
                    ⟨url, credentials, now, signature, hurl, hsign, rfl⟩, ?_, rfl⟩
                  exact { hattempted with
                    exchanges_eq := by simpa [exchanges] using hattempted.exchanges_eq
                    pauses_eq := by simpa [pauses] using hattempted.pauses_eq }

/-- What a backend sends and what it makes of it. Unless it fails before it sends anything,
it sends one request, again only after answers worth another attempt and at most as often as
its kind allows, and the last answer alone says whether the object is there. -/
theorem run_send {result : Except BackendError (Option WireResponse)}
    (h : Run allowed (backend.send signer method path headers timeout) events result) :
    (exchanges events = [] ∧ ∃ err, result = .error err ∧ err.unsent = true) ∨
      ∃ request failures answer,
        backend.Requests signer method path headers timeout request ∧
          Attempted request 1 backend.attemptLimit events failures answer ∧
            result = classify backend.isMiss request.url answer := by
  cases backend with
  | s3 upstream config => exact run_sendS3 h
  | http url username password =>
      rcases run_call_bind_iff.1 h with ⟨answer, events, rfl, -, h⟩
      rcases run_ret_iff.1 h with ⟨rfl, rfl⟩
      exact .inr ⟨_, [], answer, rfl, ⟨rfl, by simp, le_rfl, fun _ => rfl, rfl⟩, rfl⟩

end

/-- A bucket of the default endpoint. -/
def plainBucket : S3Config where
  bucket := "cache".toList
  keyPrefix := none
  endpoint := none
  scheme := .https
  region := "us-east-1".toList
  profile := none
  addressingStyle := .auto

/-- A signer that leaves requests as they are. -/
def plainSigner : Signer := fun _ _ _ _ _ => some []

def plainObjectUrl : Str := "https://cache.s3.us-east-1.amazonaws.com/a".toList

def plainObjectRequest : WireRequest := s3Request .head plainObjectUrl [] [] none

/-- The bucket is busy, and is asked again. -/
def busyEvents : List (Event SendOp SendOp.Reply) :=
  [⟨.client, true⟩, ⟨.credentials, some ⟨[], [], none, none⟩⟩, ⟨.systemTime, 0⟩,
    ⟨.exchange plainObjectRequest, .ok ⟨plainObjectUrl, 503⟩⟩, ⟨.sleep (retryBackoff * 1), ()⟩,
    ⟨.exchange plainObjectRequest, .ok ⟨plainObjectUrl, 200⟩⟩]

theorem run_send_plainBucket :
    (exchanges busyEvents = [] ∧ ∃ err, (Except.ok (some ⟨plainObjectUrl, 200⟩) :
        Except BackendError (Option WireResponse)) = .error err ∧ err.unsent = true) ∨
      ∃ request failures answer,
        (Backend.s3 [] plainBucket).Requests plainSigner .head "/a".toList [] none request ∧
          Attempted request 1 maxAttempts busyEvents failures answer ∧
            .ok (some ⟨plainObjectUrl, 200⟩) = classify isMissingObject request.url answer := by
  have hurl : objectUrl plainBucket ("/a".toList.dropWhile (· = '/')) = .ok plainObjectUrl := by decide
  have hsecond : Run (fun _ _ => True) (attempts plainObjectRequest 2)
      [⟨.exchange plainObjectRequest, .ok ⟨plainObjectUrl, 200⟩⟩] (.ok ⟨plainObjectUrl, 200⟩) := by
    rw [attempts]
    exact .perform trivial (.ret _)
  have hfirst : Run (fun _ _ => True) (attempts plainObjectRequest 1)
      [⟨.exchange plainObjectRequest, .ok ⟨plainObjectUrl, 503⟩⟩, ⟨.sleep (retryBackoff * 1), ()⟩,
        ⟨.exchange plainObjectRequest, .ok ⟨plainObjectUrl, 200⟩⟩] (.ok ⟨plainObjectUrl, 200⟩) := by
    rw [attempts]
    exact .perform trivial (.perform trivial hsecond)
  have hrun : Run (fun _ _ => True)
      ((Backend.s3 [] plainBucket).send plainSigner .head "/a".toList [] none) busyEvents
      (.ok (some ⟨plainObjectUrl, 200⟩)) := by
    refine .perform trivial ?_
    simp only [hurl]
    refine .perform trivial (.perform trivial ?_)
    show Run _ (attempts plainObjectRequest 1 >>= fun answer =>
      .ret (classify isMissingObject plainObjectUrl answer)) _ _
    exact run_bind_iff.2 ⟨_, _, [], (List.append_nil _).symm, hfirst, .ret _⟩
  exact run_send hrun

/-! ## How long it takes -/

/-- The time since a request was begun, and what is left of the timeout of an exchange. -/
structure SendClock where
  elapsed : Duration
  left : Duration

/-- What takes time: the client and its credentials no more than they are given, an exchange
with its body no more than its timeout, and a pause as long as it is. -/
def sendClock (clientTime credentialsTime : Duration) :
    Semantics SendOp SendOp.Reply SendClock
  | .client, clock, _, clock' =>
      ∃ d ≤ clientTime, clock' = { clock with elapsed := clock.elapsed + d }
  | .credentials, clock, _, clock' =>
      ∃ d ≤ credentialsTime, clock' = { clock with elapsed := clock.elapsed + d }
  | .systemTime, clock, _, clock' => clock' = clock
  | .exchange request, clock, _, clock' =>
      ∀ t, request.timeout = some t → ∃ d ≤ t, clock' = ⟨clock.elapsed + d, t - d⟩
  | .sleep duration, clock, _, clock' => clock' = { clock with elapsed := clock.elapsed + duration }
  | .readBody _, clock, _, clock' =>
      ∃ d ≤ clock.left, clock' = ⟨clock.elapsed + d, clock.left - d⟩

/-- The time spent, with the time that the body of a response may still take. -/
def SendClock.reserved (clock : SendClock) : Duration :=
  clock.elapsed + clock.left

/-- How long a backend takes for a request with a timeout. -/
def Backend.answerTime (clientTime credentialsTime t : Duration) : Backend → Duration
  | .http _ _ _ => t
  | .s3 _ _ => clientTime + (credentialsTime + (maxAttempts * t + retryBackoff * 3))

section

variable {clientTime credentialsTime t : Duration} {P : SendClock → Prop}

/-- The time that attempts take which begin with a given one. -/
def attemptsTime (t : Duration) (attempt : ℕ) : Duration :=
  (maxAttempts + 1 - attempt) * t +
    ((List.range' attempt (maxAttempts - attempt)).map fun i => retryBackoff * i).sum

theorem attemptsTime_one (t : Duration) :
    attemptsTime t 1 = maxAttempts * t + retryBackoff * 3 := by
  have hpauses : List.range' 1 (maxAttempts - 1) = [1, 2] := rfl
  rw [attemptsTime, hpauses, Nat.add_sub_cancel]
  simp only [List.map_cons, List.map_nil, List.sum_cons, List.sum_nil]
  lia

theorem takes_exchange {request : WireRequest} (htimeout : request.timeout = some t) :
    Takes (sendClock clientTime credentialsTime) SendClock.reserved (fun _ => True)
      (Sending.ask (.exchange request)) t fun _ _ => True := by
  apply takes_call
  intro clock answer clock' _ hexchange
  rcases hexchange t htimeout with ⟨d, hle, rfl⟩
  refine ⟨?_, trivial⟩
  simp only [SendClock.reserved]
  lia

theorem attemptsTime_last (t : Duration) : attemptsTime t maxAttempts = t + 0 := by
  simp [attemptsTime]

theorem attemptsTime_of_lt (t : Duration) {attempt : ℕ} (h : attempt < maxAttempts) :
    attemptsTime t attempt =
      t + (retryBackoff * attempt + attemptsTime t (attempt + 1)) := by
  have hmore : maxAttempts - attempt = maxAttempts - (attempt + 1) + 1 := by omega
  have htimes : maxAttempts + 1 - attempt = maxAttempts + 1 - (attempt + 1) + 1 := by omega
  rw [attemptsTime, attemptsTime, hmore, htimes, List.range'_succ, List.map_cons, List.sum_cons,
    Nat.succ_mul]
  lia

theorem takes_attempts {request : WireRequest} (htimeout : request.timeout = some t)
    {attempt : ℕ} (hle : attempt ≤ maxAttempts) :
    Takes (sendClock clientTime credentialsTime) SendClock.reserved (fun _ => True)
      (attempts request attempt) (attemptsTime t attempt) fun _ _ => True := by
  induction hleft : maxAttempts - attempt generalizing attempt with
  | zero =>
      obtain rfl : attempt = maxAttempts := by omega
      rw [attempts, attemptsTime_last]
      apply (takes_exchange htimeout).bind
      intro answer
      rw [if_neg fun hboth => lt_irrefl _ hboth.2]
      exact takes_ret fun _ _ => trivial
  | succ n ih =>
      have hlt : attempt < maxAttempts := by omega
      rw [attempts, attemptsTime_of_lt t hlt]
      apply (takes_exchange htimeout).bind
      intro answer
      split
      · apply takes_call_bind (M := fun _ _ => True)
        · rintro clock - clock' - rfl
          refine ⟨?_, trivial⟩
          simp only [SendClock.reserved]
          lia
        · intro _
          exact ih hlt (by omega)
      · exact (takes_ret fun _ _ => trivial).le (Nat.zero_le _)

/-- An operation that takes a time of its own. -/
theorem reserved_le_of_elapsed {clock clock' : SendClock} {limit : Duration}
    (h : ∃ d ≤ limit, clock' = { clock with elapsed := clock.elapsed + d }) :
    clock'.reserved ≤ clock.reserved + limit ∧ True := by
  rcases h with ⟨d, hle, rfl⟩
  refine ⟨?_, trivial⟩
  simp only [SendClock.reserved]
  lia

theorem takes_done {α : Type} (a : α) (credit : Duration) :
    Takes (sendClock clientTime credentialsTime) SendClock.reserved (fun _ => True)
      (.ret a) credit fun _ _ => True :=
  (takes_ret fun _ _ => trivial).le (Nat.zero_le credit)

theorem takes_send (signer : Signer) (backend : Backend) (method : Method) (path : Str)
    (headers : HeaderMap) :
    Takes (sendClock clientTime credentialsTime) SendClock.reserved (fun _ => True)
      (backend.send signer method path headers (some t))
      (backend.answerTime clientTime credentialsTime t) fun _ _ => True := by
  cases backend with
  | http url username password =>
      rw [Backend.send, sendHttp, Backend.answerTime, ← Nat.add_zero t]
      apply (takes_exchange rfl).bind
      exact fun answer => takes_done _ 0
  | s3 upstream config =>
      rw [Backend.send, sendS3, Backend.answerTime]
      apply takes_call_bind (M := fun _ _ => True)
      · exact fun _ _ _ _ hclient => reserved_le_of_elapsed hclient
      intro built
      split
      · cases objectUrl config (path.dropWhile (· = '/')) with
        | error err => exact takes_done _ _
        | ok url =>
            apply takes_call_bind (M := fun _ _ => True)
            · exact fun _ _ _ _ hcredentials => reserved_le_of_elapsed hcredentials
            intro provided
            cases provided with
            | none => exact takes_done _ _
            | some credentials =>
                rw [← Nat.zero_add (maxAttempts * t + retryBackoff * 3)]
                apply takes_call_bind (M := fun _ _ => True)
                · rintro clock - clock' - rfl
                  exact ⟨le_rfl, trivial⟩
                intro now
                cases hsign : signer credentials config.region now method url with
                | none =>
                    simp only
                    exact takes_done _ _
                | some signature =>
                    simp only
                    have hattempts : Takes (sendClock clientTime credentialsTime) SendClock.reserved
                        (fun _ => True)
                        (attempts (s3Request method url signature headers (some t)) 1)
                        (attemptsTime t 1) fun _ _ => True := takes_attempts rfl (by decide)
                    rw [attemptsTime_one] at hattempts
                    exact hattempts.bind fun answer => takes_done _ 0
      · exact takes_done _ _

/-- What a backend reads as a whole object it has read in time: an HTTP upstream within the
timeout, and an S3 upstream, once there are credentials, within three of them and the pauses. -/
theorem takes_getBytes (signer : Signer) (backend : Backend) (path : Str) (headers : HeaderMap) :
    Takes (sendClock clientTime credentialsTime) SendClock.elapsed (fun clock => clock.left = 0)
      (backend.getBytes signer path headers (some t))
      (backend.answerTime clientTime credentialsTime t) fun _ _ => True := by
  have hreserved : Takes (sendClock clientTime credentialsTime) SendClock.reserved
      (fun clock => clock.left = 0) (backend.getBytes signer path headers (some t))
      (backend.answerTime clientTime credentialsTime t + 0) fun _ _ => True := by
    apply ((takes_send signer backend .get path headers).mono (fun _ _ => trivial) le_rfl
      fun _ _ => id).bind
    intro sent
    rcases sent with err | response | response
    · exact takes_done _ 0
    · exact takes_done _ 0
    · rw [← Nat.add_zero 0]
      apply takes_call_bind (M := fun _ _ => True)
      · rintro clock body clock' - ⟨d, hle, rfl⟩
        refine ⟨?_, trivial⟩
        simp only [SendClock.reserved]
        lia
      intro body
      cases body with
      | none => exact takes_done _ 0
      | some bytes => exact takes_done _ 0
  have hstart : ∀ clock : SendClock, clock.left = 0 → clock.reserved ≤ clock.elapsed + 0 := by
    intro clock hleft
    rw [SendClock.reserved, hleft]
  have helapsed := hreserved.of_potential _ hstart fun clock => Nat.le_add_right _ _
  exact helapsed.le (by rw [Nat.zero_add, Nat.add_zero])

end

end Ncro
