import Ncro.Router.Registry

/-!
# The configuration of an upstream

What the configuration file says about one upstream, and the two views that
`serve` takes of it: the settings that the router registers and the backend
through which the upstream is reached.
-/

namespace Ncro

inductive S3Scheme
  | http
  | https
  deriving DecidableEq, Repr

inductive S3AddressingStyle
  | auto
  | path
  | virtual
  deriving DecidableEq, Repr

structure S3Config where
  bucket : Str
  keyPrefix : Option Str
  endpoint : Option Str
  scheme : S3Scheme
  region : Str
  profile : Option Str
  addressingStyle : S3AddressingStyle
  deriving DecidableEq

/-- How ncro reaches an upstream, derived from the scheme of its URL. -/
inductive Location
  | http
  | s3 (config : S3Config)
  deriving DecidableEq

structure UpstreamConfig where
  url : Str
  priority : ℤ
  publicKey : Str
  publicKeys : List Str
  username : Str
  password : Option Str
  passwordFile : Option Str
  filters : List FilterRule
  narUrlMode : NarUrlMode
  narinfoTimeout : Option Duration
  narTimeout : Option Duration
  allowHedging : Bool
  realisations : Bool
  location : Location
  deriving DecidableEq

instance : Inhabited UpstreamConfig where
  default :=
    { url := []
      priority := 0
      publicKey := []
      publicKeys := []
      username := []
      password := none
      passwordFile := none
      filters := []
      narUrlMode := default
      narinfoTimeout := none
      narTimeout := none
      allowHedging := true
      realisations := true
      location := .http }

/-- `impl RouterUpstream for UpstreamConfig`. -/
def UpstreamConfig.routerUpstream (upstream : UpstreamConfig) : RouterUpstream where
  url := upstream.url
  publicKey := upstream.publicKey
  publicKeys := upstream.publicKeys
  filters := upstream.filters
  narUrlMode := upstream.narUrlMode
  narinfoTimeout := upstream.narinfoTimeout

/-- `FallbackCacheConfig::default().upstream`. -/
def defaultFallback : UpstreamConfig :=
  { (default : UpstreamConfig) with
    url := "https://cache.nixos.org".toList
    publicKey := "cache.nixos.org-1:6NCHdD59X431o0gWypbMrAURkbJ16ZPMQFGspcDShjY=".toList }

/-! ## Backends -/

inductive Backend
  | http (url username : Str) (password : Option Str)
  | s3 (url : Str) (config : S3Config)
  deriving DecidableEq

/-- The backend that `Upstreams::register` builds. -/
def UpstreamConfig.backend (upstream : UpstreamConfig) : Backend :=
  match upstream.location with
  | .http => .http upstream.url upstream.username upstream.password
  | .s3 config => .s3 upstream.url config

/-- Every registered upstream's backend. -/
abbrev Upstreams := Str → Option Backend

namespace Upstreams

def register (backends : Upstreams) (upstream : UpstreamConfig) : Upstreams :=
  setEntry backends upstream.url (some upstream.backend)

/-- The backend registered for `url`, or plain unauthenticated HTTP. -/
def get (backends : Upstreams) (url : Str) : Backend :=
  (backends url).getD (.http url [] none)

end Upstreams

end Ncro
