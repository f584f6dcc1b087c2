import Ncro.Config.Upstream

/-!
# The configuration

What a configuration file says, section by section, with the value that each
setting has when the file leaves it out.
-/

namespace Ncro

open Foundation

/-- Where the server listens. -/
inductive ListenAddr
  /-- `localhost:PORT`. -/
  | localhost (port : ℕ)
  /-- `:PORT`, on every interface. -/
  | any (port : ℕ)
  | socket (addr : Str)
  deriving DecidableEq

structure ServerConfig where
  /-- Without an address the sockets are passed in by the service manager. -/
  listen : Option ListenAddr := some (.localhost 8080)
  cachePriority : ℤ := 30
  wantMassQuery : Bool := true
  readTimeout : Duration := 30 * 10 ^ 9
  writeTimeout : Duration := 30 * 10 ^ 9
  deriving DecidableEq

structure MassQueryConfig where
  maxConcurrentRaces : ℕ := 64
  perUpstreamMaxInflight : ℕ := 8
  inMemoryNegativeTtl : Duration := 5 * 10 ^ 9
  upstreamCooldown : Duration := 15 * 10 ^ 9
  deriving DecidableEq

structure NarHedgingConfig where
  enabled : Bool := true
  delay : Duration := 10 ^ 9
  maxInflight : ℕ := 2
  deriving DecidableEq

structure CacheConfig where
  dbPath : Str := "/var/lib/ncro/routes.db".toList
  maxEntries : ℤ := 100000
  ttl : Duration := 3600 * 10 ^ 9
  negativeTtl : Duration := 600 * 10 ^ 9
  latencyAlpha : Double := .fin (3 / 10)
  slowStatementThreshold : Duration := 10 ^ 9
  massQuery : MassQueryConfig := {}
  narHedging : NarHedgingConfig := {}
  deriving DecidableEq

structure PeerConfig where
  addr : Str
  publicKey : {key : Octets // key.length = 32}
  deriving DecidableEq

structure MeshConfig where
  enabled : Bool := false
  bindAddr : Str := "0.0.0.0:7946".toList
  peers : List PeerConfig := []
  privateKeyPath : Str := []
  gossipInterval : Duration := 30 * 10 ^ 9
  deriving DecidableEq

/-- Which addresses of a discovered peer are registered. -/
inductive AddressFamily
  | any
  | ipv4
  | ipv6
  deriving DecidableEq, Repr

structure DiscoveryConfig where
  enabled : Bool := false
  serviceName : Str := "_nix-serve._tcp".toList
  domain : Str := "local".toList
  discoveryTime : Duration := 5 * 10 ^ 9
  priority : ℤ := 20
  addressFamily : AddressFamily := .any
  deriving DecidableEq

inductive LogFormat
  | json
  | text
  deriving DecidableEq, Repr

structure LoggingConfig where
  level : Str := "info".toList
  format : LogFormat := .json
  timestamps : Bool := true
  deriving DecidableEq

structure FallbackCacheConfig where
  enabled : Bool := false
  upstream : UpstreamConfig := defaultFallback
  deriving DecidableEq

structure Config where
  server : ServerConfig := {}
  upstreams : List UpstreamConfig :=
    [{ (default : UpstreamConfig) with url := "https://cache.nixos.org".toList, priority := 10 }]
  fallbackCache : FallbackCacheConfig := {}
  cache : CacheConfig := {}
  mesh : MeshConfig := {}
  discovery : DiscoveryConfig := {}
  logging : LoggingConfig := {}
  deriving DecidableEq

/-- `Config::default`. -/
instance : Inhabited Config := ⟨{}⟩

/-- The upstreams that an instance uses: the configured ones and the fallback cache
when it is enabled. -/
def Config.inUse (cfg : Config) : List UpstreamConfig :=
  cfg.upstreams ++ if cfg.fallbackCache.enabled then [cfg.fallbackCache.upstream] else []

end Ncro
