import Ncro.Router.Resolve

/-!
# The narinfo handler

`narinfo` serves `/<hash>.narinfo`: it resolves the hash over the upstreams that
are not down, and turns to the fallback cache when the upstreams are
unavailable, but not when they do not have the path.
-/

namespace Ncro

open Foundation Foundation.Process

/-! ## Server state -/

/-- What the handlers use of an upstream's configuration. -/
structure ServerUpstream where
  url : Str
  allowHedging : Bool
  realisations : Bool
  deriving DecidableEq

structure NarHedging where
  enabled : Bool
  delay : Duration
  maxInflight : ℕ
  deriving DecidableEq

/-- The fixed part of the server's state. -/
structure AppState where
  registry : Registry
  upstreams : List ServerUpstream
  fallbackCache : Option ServerUpstream
  narTimeouts : Str → Option Duration
  defaultNarTimeout : Duration
  narHedging : NarHedging

instance : Inhabited AppState where
  default :=
    { registry := default
      upstreams := []
      fallbackCache := none
      narTimeouts := fun _ => none
      defaultNarTimeout := 60 * 10 ^ 9
      narHedging := ⟨false, 0, 1⟩ }

def AppState.narTimeout (app : AppState) (url : Str) : Duration :=
  (app.narTimeouts url).getD app.defaultNarTimeout

/-- A request as a handler sees it. -/
structure ClientRequest where
  method : Method
  path : Str
  /-- The query with its question mark, if there is one. -/
  query : Str
  headers : HeaderMap
  deriving DecidableEq

inductive ResponseBody
  | empty
  | text (text : Str)
  | bytes (bytes : Octets)
  /-- What the upstream sends. -/
  | stream
  deriving DecidableEq

structure Response where
  status : ℕ
  body : ResponseBody
  /-- The upstream and the route the provenance headers tell. -/
  provenance : Option (Str × RouteKind)
  deriving DecidableEq

/-- `StatusCode::NOT_FOUND`. -/
def Response.notFound : Response := ⟨404, .empty, none⟩

/-- `StatusCode::BAD_GATEWAY` with a text. -/
def Response.badGateway (text : Str) : Response := ⟨502, .text text, none⟩

def Response.withProvenance (response : Response) (upstream : Str) (route : RouteKind) :
    Response :=
  { response with provenance := some (upstream, route) }

/-- The headers passed on to an upstream: three of the client's, and the hop of
a narinfo request. -/
def forwardedHeaders (headers : HeaderMap) (hop : Option Hop) : HeaderMap :=
  (["accept".toList, "accept-encoding".toList, "range".toList].filterMap fun name =>
    (headers.lookup name).map fun value => (name, value)) ++
  match hop with
  | some hop => hopHeaders hop
  | none => []

/-! ## The handler -/

section

variable (crypto : Crypto) (app : AppState)

/-- The upstreams that are not down, or all configured ones. -/
def upstreamUrls : Handler (List Str) := do
  let sorted ← ask .sortedByLatency
  let urls := (sorted.filter fun h => h.status ≠ .down).map UpstreamHealth.url
  return if urls = [] then app.upstreams.map ServerUpstream.url else urls

/-- `proxy`: forward the request and stream the response. -/
def proxyTo (upstream : Str) (request : ClientRequest) (headers : HeaderMap) :
    Handler Response := do
  let reply ← ask (.proxy {
    upstream
    method := request.method
    path := request.path
    headers
    timeout := some app.defaultNarTimeout })
  match reply with
  | .ok (some status) => return ⟨status, .stream, none⟩
  | .ok none => return .notFound
  | .error _ => return .badGateway "upstream error".toList

/-- The response to a resolved lookup. -/
def resolvedResponse (request : ClientRequest) (hop : Hop) (result : ResolveResult)
    (route : RouteKind) : Handler Response := do
  match result.narinfoBytes with
  | some bytes => return (⟨200, .bytes bytes, none⟩ : Response).withProvenance result.url route
  | none =>
      let response ← proxyTo app result.url request (forwardedHeaders request.headers (some hop))
      return response.withProvenance result.url route

def tryFallbackNarinfo (storeHash : Str) (request : ClientRequest) :
    Handler (Option Response) := do
  match app.fallbackCache with
  | none => return none
  | some fallback =>
      let hop := Hop.fromHeaders request.headers
      match ← resolveFallback crypto app.registry storeHash fallback.url hop with
      | .ok result =>
          let response ← resolvedResponse app request hop result .fallback
          return some response
      | .error .notFound => return some .notFound
      | .error _ => return none

def upstreamUnavailable : Response := .badGateway "upstream unavailable".toList

/-- What the handler makes of the result of `resolve`. -/
def narinfoResponse (storeHash : Str) (request : ClientRequest) :
    Except RouterError ResolveResult → Handler Response
  | .ok result =>
      resolvedResponse app request (Hop.fromHeaders request.headers) result
        (if result.cacheHit then .cacheHit else .race)
  | .error .notFound => return .notFound
  | .error .upstreamUnavailable | .error (.noCandidates _) => do
      match ← tryFallbackNarinfo crypto app storeHash request with
      | some response => return response
      | none => return upstreamUnavailable
  | .error _ => return upstreamUnavailable

def narinfo (hashNarinfo : Str) (request : ClientRequest) : Handler Response :=
  match hashNarinfo.dropSuffix? ".narinfo".toList with
  | none => return .notFound
  | some storeHash =>
      if isStoreHash storeHash then do
        let candidates ← upstreamUrls app
        let result ← resolve crypto app.registry storeHash candidates
          (Hop.fromHeaders request.headers)
        narinfoResponse crypto app storeHash request result
      else return .notFound

end

end Ncro
