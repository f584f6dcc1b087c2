import Ncro.Config.Settings
import Ncro.Foundation.Checks

/-!
# Validation

`Config.validate` goes through the settings in order and stops at the first one
that is wrong. URLs, filter directives and numbers are read and shown by other
libraries, which are parameters.
-/

namespace Ncro

open Foundation

/-- A path of the file system. -/
abbrev FilePath := Octets

inductive ConfigError
  | read (path : FilePath) (source : Str)
  | passwordFile (path : Str) (source : Str)
  | netrc (path : FilePath) (source : Str)
  | parse (path : FilePath) (source : Str)
  | validation (message : Str)
  deriving DecidableEq

/-- What the program reads off a URL. -/
structure Url where
  scheme : Str
  hostStr : Option Str
  path : Str
  queryPairs : List (Str × Str)
  deriving DecidableEq

/-- The parsers that other libraries provide. An error is the text it is shown as. -/
structure ConfigParsers where
  /-- `toml::from_str`. -/
  toml : Str → Except Str Config
  /-- `Url::parse`. -/
  url : Str → Except Str Url
  /-- `str::parse::<Targets>`. -/
  targets : Str → Except Str Unit
  /-- `str::parse::<SocketAddr>`, and the address as it is shown. -/
  socketAddr : Str → Option Str

/-- How the standard library shows values in messages. -/
structure Display where
  /-- Whether a character is shown as itself in a quoted text. -/
  printable : Char → Bool
  double : Double → Str

/-! ## Messages -/

def Display.escape (display : Display) (c : Char) : Str :=
  if c = Char.ofNat 0 then ['\\', '0']
  else if c = '\t' then ['\\', 't']
  else if c = '\r' then ['\\', 'r']
  else if c = '\n' then ['\\', 'n']
  else if c = '"' then ['\\', '"']
  else if c = '\\' then ['\\', '\\']
  else if display.printable c then [c]
  else ['\\', 'u', '\x7b'] ++ Nat.toDigits 16 c.toNat ++ ['\x7d']

/-- The output of the format `:?` for a text. -/
def Display.quote (display : Display) (text : Str) : Str :=
  ['"'] ++ text.flatMap display.escape ++ ['"']

/-- The error with a message. -/
def invalid {α : Type*} (message : Str) : Except ConfigError α :=
  .error (.validation message)

/-- A check of a setting. -/
def require (ok : Prop) [Decidable ok] (message : Str) : Except ConfigError Unit :=
  if ok then .ok () else invalid message

@[simp] theorem require_eq_ok_iff {ok : Prop} [Decidable ok] {message : Str} :
    require ok message = .ok () ↔ ok := by
  by_cases hok : ok
  · simp [require, hok]
  · simp [require, hok, invalid]

/-- The name of an upstream in messages. -/
def upstreamLabel (i : ℕ) : Str :=
  "upstream[".toList ++ (toString i).toList ++ "]".toList

def fallbackLabel : Str := "fallback_cache".toList

/-! ## Checks -/

section

variable (parsers : ConfigParsers) (display : Display)

def validateNixPublicKey (publicKey label : Str) : Except ConfigError Unit :=
  require (publicKey ≠ [] ∧ ':' ∈ publicKey)
    (label ++ " must be in 'name:base64(key)' Nix format".toList)

/-- `Url::parse`, with the error of a setting. -/
def parseUrl (url label : Str) : Except ConfigError Url :=
  match parsers.url url with
  | .ok parsed => .ok parsed
  | .error err => invalid
      (label ++ ": invalid URL ".toList ++ display.quote url ++ ": ".toList ++ err)

def validateUpstream (upstream : UpstreamConfig) (label : Str) : Except ConfigError Unit := do
  require (upstream.url ≠ []) (label ++ ": URL is empty".toList)
  discard (parseUrl parsers display upstream.url label)
  checkWhen (upstream.publicKey ≠ [])
    (validateNixPublicKey upstream.publicKey (label ++ ": public_key".toList))
  upstream.publicKeys.zipIdx.forM fun (publicKey, i) =>
    validateNixPublicKey publicKey
      (label ++ ": public_keys[".toList ++ (toString i).toList ++ "]".toList)
  require (¬(upstream.password.isSome ∧ upstream.passwordFile.isSome))
    (label ++ ": password and password_file are mutually exclusive".toList)
  upstream.filters.zipIdx.forM fun (filter, j) =>
    require (filter.pattern ≠ [])
      (label ++ ".filters[".toList ++ (toString j).toList ++ "]: pattern is empty".toList)

/-- The part of `validate` about the upstreams. -/
def Config.validateUpstreams (cfg : Config) : Except ConfigError Unit := do
  require (cfg.upstreams ≠ []) "at least one upstream is required".toList
  cfg.upstreams.zipIdx.forM fun (upstream, i) =>
    validateUpstream parsers display upstream (upstreamLabel i)
  checkWhen cfg.fallbackCache.enabled
    (validateUpstream parsers display cfg.fallbackCache.upstream fallbackLabel)

def ServerConfig.validate (server : ServerConfig) : Except ConfigError Unit := do
  require (1 ≤ server.cachePriority) ("server.cache_priority must be >= 1, got ".toList ++
    (toString server.cachePriority).toList)
  require (server.readTimeout ≠ 0) "server.read_timeout must be positive".toList
  require (server.writeTimeout ≠ 0) "server.write_timeout must be positive".toList

def CacheConfig.validate (cache : CacheConfig) : Except ConfigError Unit := do
  require (Double.lt (.fin 0) cache.latencyAlpha ∧ cache.latencyAlpha.lt (.fin 1))
    ("cache.latency_alpha must be between 0 and 1 exclusive, got ".toList ++
      display.double cache.latencyAlpha)
  require (cache.ttl ≠ 0) "cache.ttl must be positive".toList
  require (cache.negativeTtl ≠ 0) "cache.negative_ttl must be positive".toList
  require (0 < cache.maxEntries) "cache.max_entries must be positive".toList
  require (cache.massQuery.maxConcurrentRaces ≠ 0)
    "cache.mass_query.max_concurrent_races must be >= 1".toList
  require (cache.massQuery.perUpstreamMaxInflight ≠ 0)
    "cache.mass_query.per_upstream_max_inflight must be >= 1".toList
  require (cache.massQuery.inMemoryNegativeTtl ≠ 0)
    "cache.mass_query.in_memory_negative_ttl must be positive".toList
  require (cache.massQuery.upstreamCooldown ≠ 0)
    "cache.mass_query.upstream_cooldown must be positive".toList
  require (cache.narHedging.delay ≠ 0) "cache.nar_hedging.delay must be positive".toList
  require (cache.narHedging.maxInflight ≠ 0) "cache.nar_hedging.max_inflight must be >= 1".toList

def LoggingConfig.validate (logging : LoggingConfig) : Except ConfigError Unit := do
  require (¬logging.level.all isWhitespace) "logging.level must not be empty".toList
  match parsers.targets logging.level with
  | .ok _ => return ()
  | .error err =>
      invalid ("logging.level must be a valid tracing filter directive, got ".toList ++
        display.quote logging.level ++ ": ".toList ++ err)

def MeshConfig.validate (mesh : MeshConfig) : Except ConfigError Unit := do
  require (¬(mesh.enabled ∧ mesh.peers = [])) "mesh.enabled is true but no peers configured".toList
  require (mesh.gossipInterval ≠ 0) "mesh.gossip_interval must be positive".toList
  mesh.peers.zipIdx.forM fun (peer, i) =>
    require (peer.addr ≠ [])
      ("mesh.peers[".toList ++ (toString i).toList ++ "]: addr is empty".toList)

def DiscoveryConfig.validate (discovery : DiscoveryConfig) : Except ConfigError Unit :=
  checkWhen discovery.enabled do
    require (discovery.serviceName ≠ [])
      "discovery.service_name is required when discovery is enabled".toList
    require (discovery.domain ≠ [])
      "discovery.domain is required when discovery is enabled".toList
    require (discovery.discoveryTime ≠ 0) "discovery.discovery_time must be positive".toList

def Config.validate (cfg : Config) : Except ConfigError Unit := do
  cfg.validateUpstreams parsers display
  cfg.server.validate
  cfg.cache.validate display
  cfg.logging.validate parsers display
  cfg.mesh.validate
  cfg.discovery.validate

/-! ## What validation promises -/

/-- The defaults of the cache settings are valid. -/
theorem CacheConfig.validate_default (display : Display) :
    CacheConfig.validate display {} = .ok () := by
  rw [CacheConfig.validate]
  simp only [check_bind_eq_ok_iff, require_eq_ok_iff]
  have hpositive : Double.lt (.fin 0) (.fin (3 / 10)) = true := by decide +kernel
  have hless : Double.lt (.fin (3 / 10)) (.fin 1) = true := by decide +kernel
  exact ⟨⟨hpositive, hless⟩, by decide⟩

/-- A validated upstream has its password in one place. -/
theorem password_of_validateUpstream {parsers : ConfigParsers} {display : Display}
    {upstream : UpstreamConfig} {label : Str}
    (h : validateUpstream parsers display upstream label = .ok ()) :
    ¬(upstream.password.isSome ∧ upstream.passwordFile.isSome) := by
  rw [validateUpstream] at h
  simp only [check_bind_eq_ok_iff, require_eq_ok_iff] at h
  obtain ⟨-, -, -, -, hpassword, -⟩ := h
  exact hpassword

/-- A validated configuration has validated every upstream in use. -/
theorem Config.validateUpstream_of_validate {parsers : ConfigParsers} {display : Display}
    {cfg : Config} (h : cfg.validate parsers display = .ok ()) :
    ∀ upstream ∈ cfg.inUse, ∃ label, validateUpstream parsers display upstream label = .ok () := by
  rw [Config.validate, check_bind_eq_ok_iff, Config.validateUpstreams] at h
  simp only [check_bind_eq_ok_iff] at h
  obtain ⟨⟨-, hupstreams, hfallback⟩, -⟩ := h
  intro upstream hmem
  rcases List.mem_append.1 hmem with hmem | hmem
  · obtain ⟨i, hi⟩ := List.mem_iff_getElem?.1 hmem
    have hzip : (upstream, i) ∈ cfg.upstreams.zipIdx := List.mem_zipIdx_iff_getElem?.2 hi
    exact ⟨_, forM_eq_ok_iff.1 hupstreams _ hzip⟩
  · by_cases henabled : cfg.fallbackCache.enabled
    · rw [if_pos henabled] at hmem
      rw [List.mem_singleton.1 hmem]
      exact ⟨_, checkWhen_eq_ok_iff.1 hfallback henabled⟩
    · rw [if_neg henabled] at hmem
      cases hmem

end

end Ncro
