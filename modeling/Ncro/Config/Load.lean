import Ncro.Config.Validation
import Ncro.Foundation.Checks
import Ncro.Foundation.Text

/-!
# Loading

`Config.parse` reads a file, `Config.check` validates what it says, and
`Config.load`, with which the server starts, first applies the environment, reads
the password files and fills in credentials from a netrc file. A password file
leaves its mark: the loaded configuration has both the password and the file, and
that is what validation rejects. So a file that passes the check starts a server
exactly when it names no password file: `check_agrees_with_serve`.
-/

namespace Ncro

open Foundation

/-! ## The environment -/

structure NetrcEntry where
  login : Str
  password : Str
  deriving DecidableEq

/-- The entries of a netrc file by their hosts. -/
structure Netrc where
  hosts : Str → Option NetrcEntry

/-- What a process finds around it. -/
structure Environment where
  /-- `env::var_os`. -/
  varOs : String → Option Octets
  /-- `fs::read_to_string`. -/
  readToString : FilePath → Except Str Str
  /-- `Path::exists`. -/
  pathExists : FilePath → Bool
  /-- `Netrc::from_file`. -/
  netrcFromFile : FilePath → Except Str Netrc

/-- A variable that is set to a text, and not to the empty one. -/
def Environment.setting (env : Environment) (name : String) : Option Str :=
  ((env.varOs name).bind fromUtf8).filter (· ≠ [])

/-- `Path::join` with a relative path. -/
def FilePath.join (dir : FilePath) (file : String) : FilePath :=
  if dir = [] ∨ dir.getLast? = some 47 then dir ++ toUtf8 file.toList
  else dir ++ [47] ++ toUtf8 file.toList

section

variable (parsers : ConfigParsers) (display : Display)

/-! ## Locations -/

/-- The options of an S3 URL. -/
def S3Config.option (raw : Str) (config : S3Config) :
    Str × Str → Except ConfigError S3Config := fun (key, value) =>
  if key = "endpoint".toList then .ok { config with endpoint := some value }
  else if key = "scheme".toList then
    if value = "http".toList then .ok { config with scheme := .http }
    else if value = "https".toList then .ok { config with scheme := .https }
    else invalid ("s3 upstream ".toList ++ display.quote raw ++ ": unsupported scheme ".toList ++
      display.quote value)
  else if key = "region".toList then .ok { config with region := value }
  else if key = "profile".toList then .ok { config with profile := some value }
  else if key = "addressing-style".toList then
    if value = "auto".toList then .ok { config with addressingStyle := .auto }
    else if value = "path".toList then .ok { config with addressingStyle := .path }
    else if value = "virtual".toList then .ok { config with addressingStyle := .virtual }
    else invalid ("s3 upstream ".toList ++ display.quote raw ++
      ": unsupported addressing-style ".toList ++ display.quote value)
  else .ok config

def parseS3Url (raw : Str) : Except ConfigError S3Config := do
  let parsed ← parseUrl parsers display raw "s3 upstream".toList
  match parsed.hostStr with
  | none => invalid ("s3 upstream ".toList ++ display.quote raw ++ ": missing bucket name".toList)
  | some bucket =>
      let keyPrefix := ['/'].intercalate ((parsed.path.splitOn '/').filter (· ≠ []))
      parsed.queryPairs.foldlM (S3Config.option display raw)
        { bucket
          keyPrefix := if keyPrefix = [] then none else some keyPrefix
          endpoint := none
          scheme := .https
          region := "us-east-1".toList
          profile := none
          addressingStyle := .auto }

def Location.parse (url label : Str) : Except ConfigError Location := do
  let parsed ← parseUrl parsers display url label
  if parsed.scheme = "http".toList ∨ parsed.scheme = "https".toList then return .http
  else if parsed.scheme = "s3".toList then return .s3 (← parseS3Url parsers display url)
  else
    invalid (label ++ ": unsupported scheme ".toList ++ display.quote parsed.scheme ++
      " in ".toList ++ display.quote url ++ ", expected http, https or s3".toList)

/-- Change the upstreams in use, each under its name in messages. -/
def Config.updateInUse (cfg : Config)
    (update : UpstreamConfig → Str → Except ConfigError UpstreamConfig) :
    Except ConfigError Config := do
  let upstreams ← cfg.upstreams.zipIdx.mapM fun (upstream, i) => update upstream (upstreamLabel i)
  if cfg.fallbackCache.enabled then
    let upstream ← update cfg.fallbackCache.upstream fallbackLabel
    return { cfg with upstreams, fallbackCache := { cfg.fallbackCache with upstream } }
  else return { cfg with upstreams }

def Config.parse (env : Environment) (path : FilePath) : Except ConfigError Config :=
  match env.readToString path with
  | .error source => .error (.read path source)
  | .ok data =>
      match parsers.toml data with
      | .error source => .error (.parse path source)
      | .ok cfg => cfg.updateInUse fun upstream label => do
          let location ← Location.parse parsers display upstream.url label
          return { upstream with location }

def Config.check (env : Environment) (path : FilePath) : Except ConfigError Unit := do
  let cfg ← Config.parse parsers display env path
  cfg.validate parsers display

/-! ## Environment variables -/

def parsePort (raw : Str) : Option ℕ :=
  match parseU64 raw with
  | .ok port => if port < 2 ^ 16 then some port else none
  | .error _ => none

/-- `ListenAddr::from_str`. -/
def ListenAddr.fromStr (raw : Str) : Option ListenAddr :=
  match raw.dropPrefix? [':'] with
  | some port => (parsePort port).map .any
  | none =>
      match raw.dropPrefix? "localhost:".toList with
      | some port => (parsePort port).map .localhost
      | none => (parsers.socketAddr raw).map .socket

def Config.overrideListen (cfg : Config) (env : Environment) : Except ConfigError Config :=
  match env.setting "NCRO_LISTEN" with
  | none => .ok cfg
  | some v =>
      match ListenAddr.fromStr parsers v with
      | some addr => .ok { cfg with server := { cfg.server with listen := some addr } }
      | none => invalid ("NCRO_LISTEN: listen address ".toList ++ display.quote v ++
          " must be localhost:PORT, :PORT, or IP:PORT".toList)

def Config.overrideDbPath (cfg : Config) (env : Environment) : Config :=
  match env.setting "NCRO_DB_PATH" with
  | none => cfg
  | some v => { cfg with cache := { cfg.cache with dbPath := v } }

def Config.overrideLogLevel (cfg : Config) (env : Environment) : Config :=
  match env.setting "NCRO_LOG_LEVEL" with
  | none => cfg
  | some v => { cfg with logging := { cfg.logging with level := v } }

/-! ## Credentials -/

/-- A text without one line ending at its end. -/
def chomp (text : Str) : Str :=
  (splitLineEnding text).1

def readPasswordFile (env : Environment) (path : Str) : Except ConfigError Str :=
  match env.readToString (toUtf8 path) with
  | .error source => .error (.passwordFile path source)
  | .ok password => .ok (chomp password)

def resolvePasswordFile (env : Environment) (upstream : UpstreamConfig) (label : Str) :
    Except ConfigError UpstreamConfig :=
  match upstream.passwordFile with
  | none => .ok upstream
  | some path =>
      if upstream.password.isSome then
        invalid (label ++ ": password and password_file are mutually exclusive".toList)
      else do
        let password ← readPasswordFile env path
        return { upstream with password := some password }

def loadNetrc (env : Environment) : Except ConfigError (Option Netrc) :=
  match (env.varOs "NETRC").filter (· ≠ []) with
  | some path =>
      match env.netrcFromFile path with
      | .ok nrc => .ok (some nrc)
      | .error source => .error (.netrc path source)
  | none =>
      match env.varOs "HOME" with
      | none => .ok none
      | some home =>
          let path := FilePath.join home ".netrc"
          if !env.pathExists path then .ok none
          else
            match env.netrcFromFile path with
            | .ok nrc => .ok (some nrc)
            | .error _ => .ok none

/-- What `apply_netrc` does with one upstream. -/
def applyNetrc (nrc : Netrc) (upstream : UpstreamConfig) : UpstreamConfig :=
  if upstream.username ≠ [] ∨ upstream.location ≠ .http then upstream
  else
    match parsers.url upstream.url with
    | .error _ => upstream
    | .ok parsed =>
        match parsed.hostStr.bind fun host => (nrc.hosts host).or (nrc.hosts "default".toList) with
        | none => upstream
        | some auth =>
            if auth.login = [] then upstream
            else
              { upstream with
                username := auth.login
                password := if auth.password = [] then none else some auth.password }

def Config.load (env : Environment) (path : Option FilePath) : Except ConfigError Config := do
  let cfg ← match path with
    | some path => Config.parse parsers display env path
    | none => pure default
  let cfg ← cfg.overrideListen parsers display env
  let cfg := (cfg.overrideDbPath env).overrideLogLevel env
  let cfg ← cfg.updateInUse (resolvePasswordFile env)
  match ← loadNetrc env with
  | none => return cfg
  | some nrc =>
      let upstream := applyNetrc parsers nrc cfg.fallbackCache.upstream
      return { cfg with
        upstreams := cfg.upstreams.map (applyNetrc parsers nrc)
        fallbackCache := { cfg.fallbackCache with upstream } }

/-- The two steps that `serve` begins with. -/
def Serves (env : Environment) (path : FilePath) : Prop :=
  ∃ cfg, Config.load parsers display env (some path) = .ok cfg ∧
    cfg.validate parsers display = .ok ()

end

/-! ## Loading what was checked -/

/-- No variable overrides a setting. -/
def Environment.NoOverrides (env : Environment) : Prop :=
  ∀ name ∈ ["NCRO_LISTEN", "NCRO_DB_PATH", "NCRO_LOG_LEVEL"], env.setting name = none

/-- There is no netrc file. -/
structure Environment.NoNetrc (env : Environment) : Prop where
  netrc : ∀ path, env.varOs "NETRC" = some path → path = []
  home : ∀ dir, env.varOs "HOME" = some dir → env.pathExists (FilePath.join dir ".netrc") = false

theorem Environment.NoNetrc.loadNetrc {env : Environment} (h : env.NoNetrc) :
    loadNetrc env = .ok none := by
  have hnetrc : (env.varOs "NETRC").filter (· ≠ []) = none := by
    rw [Option.filter_eq_none_iff]
    intro path hpath
    simpa using h.netrc path hpath
  rw [Ncro.loadNetrc, hnetrc]
  cases hhome : env.varOs "HOME" with
  | none => rfl
  | some dir => simp [h.home dir hhome]

/-- The configuration with the upstreams in use changed. -/
def Config.mapInUse (cfg : Config) (f : UpstreamConfig → UpstreamConfig) : Config :=
  { cfg with
    upstreams := cfg.upstreams.map f
    fallbackCache :=
      if cfg.fallbackCache.enabled then
        { cfg.fallbackCache with upstream := f cfg.fallbackCache.upstream }
      else cfg.fallbackCache }

theorem Config.inUse_mapInUse (cfg : Config) (f : UpstreamConfig → UpstreamConfig) :
    (cfg.mapInUse f).inUse = cfg.inUse.map f := by
  by_cases henabled : cfg.fallbackCache.enabled
  · simp [inUse, mapInUse, henabled]
  · simp [inUse, mapInUse, henabled]

theorem Config.mapInUse_eq_self {cfg : Config} {f : UpstreamConfig → UpstreamConfig}
    (h : ∀ upstream ∈ cfg.inUse, f upstream = upstream) : cfg.mapInUse f = cfg := by
  have hupstreams : cfg.upstreams.map f = cfg.upstreams := by
    rw [List.map_congr_left fun upstream hmem => h upstream (List.mem_append_left _ hmem)]
    exact List.map_id' _
  rw [mapInUse, hupstreams]
  by_cases henabled : cfg.fallbackCache.enabled
  · have hfallback : f cfg.fallbackCache.upstream = cfg.fallbackCache.upstream := by
      apply h
      simp [inUse, henabled]
    rw [if_pos henabled, hfallback]
  · rw [if_neg henabled]

theorem Config.updateInUse_eq_ok {cfg : Config} {f : UpstreamConfig → UpstreamConfig}
    {update : UpstreamConfig → Str → Except ConfigError UpstreamConfig}
    (h : ∀ upstream ∈ cfg.inUse, ∀ label, update upstream label = .ok (f upstream)) :
    cfg.updateInUse update = .ok (cfg.mapInUse f) := by
  have hzip : cfg.upstreams.zipIdx.mapM (fun (upstream, i) => update upstream (upstreamLabel i)) =
      .ok (cfg.upstreams.map f) := by
    have hupdate : ∀ p ∈ cfg.upstreams.zipIdx,
        update p.1 (upstreamLabel p.2) = .ok ((f ∘ Prod.fst) p) := by
      intro p hp
      exact h p.1 (List.mem_append_left _ (List.fst_mem_of_mem_zipIdx hp)) _
    rw [mapM_eq_ok_map hupdate, ← List.map_map, List.zipIdx_map_fst]
  rw [updateInUse, hzip, mapInUse]
  by_cases henabled : cfg.fallbackCache.enabled
  · have hfallback := h cfg.fallbackCache.upstream (by simp [inUse, henabled]) fallbackLabel
    simp [henabled, hfallback, bind, Except.bind, pure, Except.pure]
  · simp [henabled, bind, Except.bind, pure, Except.pure]

/-- An upstream with the password of its password file, when that can be read. -/
def withPassword (env : Environment) (upstream : UpstreamConfig) : UpstreamConfig :=
  match upstream.passwordFile.map (readPasswordFile env) with
  | some (.ok password) => { upstream with password := some password }
  | _ => upstream

/-- The password file of an upstream, if it names one, can be read. -/
def UpstreamConfig.Readable (upstream : UpstreamConfig) (env : Environment) : Prop :=
  ∀ path, upstream.passwordFile = some path → ∃ text, env.readToString (toUtf8 path) = .ok text

theorem UpstreamConfig.Readable.resolvePasswordFile {env : Environment}
    {upstream : UpstreamConfig} (h : upstream.Readable env)
    (honce : ¬(upstream.password.isSome ∧ upstream.passwordFile.isSome)) (label : Str) :
    resolvePasswordFile env upstream label = .ok (withPassword env upstream) := by
  rw [Ncro.resolvePasswordFile, withPassword]
  cases hfile : upstream.passwordFile with
  | none => rfl
  | some path =>
      obtain ⟨text, htext⟩ := h path hfile
      have hpassword : ¬upstream.password.isSome := fun hsome => honce ⟨hsome, by simp [hfile]⟩
      have hread : readPasswordFile env path = .ok (chomp text) := by
        rw [readPasswordFile, htext]
      simp [hpassword, hread, bind, Except.bind, pure, Except.pure]

/-- With a password file the password ends up in two places. -/
theorem UpstreamConfig.Readable.two_passwords {env : Environment} {upstream : UpstreamConfig}
    (h : upstream.Readable env) (hfile : upstream.passwordFile.isSome) :
    (withPassword env upstream).password.isSome ∧
      (withPassword env upstream).passwordFile.isSome := by
  obtain ⟨path, hpath⟩ := Option.isSome_iff_exists.1 hfile
  obtain ⟨text, htext⟩ := h path hpath
  have hread : readPasswordFile env path = .ok (chomp text) := by
    rw [readPasswordFile, htext]
  simp [withPassword, hpath, hread]

section

variable {parsers : ConfigParsers} {display : Display} {env : Environment} {path : FilePath}
  {cfg : Config}

theorem load_of_check (hparse : Config.parse parsers display env path = .ok cfg)
    (hvalid : cfg.validate parsers display = .ok ())
    (hreadable : ∀ upstream ∈ cfg.inUse, upstream.Readable env) (hoverrides : env.NoOverrides)
    (hnetrc : env.NoNetrc) :
    Config.load parsers display env (some path) = .ok (cfg.mapInUse (withPassword env)) := by
  have hresolve : cfg.updateInUse (resolvePasswordFile env) =
      .ok (cfg.mapInUse (withPassword env)) := by
    apply Config.updateInUse_eq_ok
    intro upstream hmem label
    obtain ⟨_, hupstream⟩ := Config.validateUpstream_of_validate hvalid upstream hmem
    exact (hreadable upstream hmem).resolvePasswordFile (password_of_validateUpstream hupstream)
      label
  have hlisten : cfg.overrideListen parsers display env = .ok cfg := by
    rw [Config.overrideListen, hoverrides _ (by simp)]
  have hothers : (cfg.overrideDbPath env).overrideLogLevel env = cfg := by
    rw [Config.overrideDbPath, hoverrides _ (by simp), Config.overrideLogLevel,
      hoverrides _ (by simp)]
  simp only [Config.load, hparse, hlisten, hothers, hresolve, hnetrc.loadNetrc, bind, Except.bind,
    pure, Except.pure]

/-- A file that passes the check starts a server, the password files it names being readable
and nothing else set, exactly when it names no password file. -/
theorem check_agrees_with_serve (hcheck : Config.check parsers display env path = .ok ())
    (hparse : Config.parse parsers display env path = .ok cfg)
    (hreadable : ∀ upstream ∈ cfg.inUse, upstream.Readable env) (hoverrides : env.NoOverrides)
    (hnetrc : env.NoNetrc) :
    Serves parsers display env path ↔ ∀ upstream ∈ cfg.inUse, upstream.passwordFile = none := by
  have hvalid : cfg.validate parsers display = .ok () := by
    rw [Config.check, hparse] at hcheck
    exact hcheck
  have hload := load_of_check hparse hvalid hreadable hoverrides hnetrc
  constructor
  · rintro ⟨loaded, hloaded, hserved⟩ upstream hmem
    rw [hload] at hloaded
    cases hloaded
    by_contra hne
    have hfile : upstream.passwordFile.isSome := Option.isSome_iff_ne_none.2 hne
    have hmem' : withPassword env upstream ∈ (cfg.mapInUse (withPassword env)).inUse := by
      rw [Config.inUse_mapInUse]
      exact List.mem_map_of_mem hmem
    obtain ⟨_, hupstream⟩ := Config.validateUpstream_of_validate hserved _ hmem'
    exact password_of_validateUpstream hupstream ((hreadable upstream hmem).two_passwords hfile)
  · intro hnone
    have hsame : cfg.mapInUse (withPassword env) = cfg := by
      apply Config.mapInUse_eq_self
      intro upstream hmem
      rw [withPassword, hnone upstream hmem]
      rfl
    exact ⟨cfg, hload.trans (by rw [hsame]), hvalid⟩

end

/-! ## Two files -/

/-- An upstream, with the lines about credentials, or without them. -/
def upstreamFile (credentials : Bool) : Str :=
  "[[upstreams]]\nurl = \"https://cache.example.com\"\n".toList ++
    if credentials then "username = \"alice\"\npassword_file = \"/run/pw\"\n".toList else []

/-- What the file says. -/
def upstreamConfig (credentials : Bool) : Config where
  upstreams := [{ (default : UpstreamConfig) with
    url := "https://cache.example.com".toList
    username := if credentials then "alice".toList else []
    passwordFile := if credentials then some "/run/pw".toList else none }]

/-- Parsers that know the two files and what is in them. -/
def fileParsers : ConfigParsers where
  toml data :=
    if data = upstreamFile true then .ok (upstreamConfig true)
    else if data = upstreamFile false then .ok (upstreamConfig false)
    else .error "expected an upstream".toList
  url url :=
    if url = "https://cache.example.com".toList then
      .ok ⟨"https".toList, some "cache.example.com".toList, "/".toList, []⟩
    else .error "relative URL without a base".toList
  targets level := if level = "info".toList then .ok () else .error "invalid filter".toList
  socketAddr _ := none

def plainDisplay : Display := ⟨fun _ => true, fun _ => "0.3".toList⟩

def configPath : FilePath := toUtf8 "/etc/ncro.toml".toList

/-- The file and the password file it may name. -/
def fileEnvironment (credentials : Bool) : Environment where
  varOs _ := none
  readToString path :=
    if path = configPath then .ok (upstreamFile credentials)
    else if path = toUtf8 "/run/pw".toList then .ok "secret\n".toList
    else .error "No such file or directory".toList
  pathExists _ := false
  netrcFromFile _ := .error "No such file or directory".toList

theorem noOverrides_fileEnvironment (credentials : Bool) :
    (fileEnvironment credentials).NoOverrides := fun _ _ => rfl

theorem noNetrc_fileEnvironment (credentials : Bool) : (fileEnvironment credentials).NoNetrc where
  netrc := nofun
  home := nofun

theorem validate_upstreamConfig (credentials : Bool) :
    (upstreamConfig credentials).validate fileParsers plainDisplay = .ok () := by
  rw [Config.validate]
  simp only [check_bind_eq_ok_iff]
  refine ⟨?_, rfl, CacheConfig.validate_default plainDisplay, rfl, rfl, rfl⟩
  cases credentials with
  | false => rfl
  | true => rfl

theorem parse_fileEnvironment (credentials : Bool) :
    Config.parse fileParsers plainDisplay (fileEnvironment credentials) configPath =
      .ok (upstreamConfig credentials) := by
  cases credentials with
  | false => rfl
  | true => rfl

theorem check_fileEnvironment (credentials : Bool) :
    Config.check fileParsers plainDisplay (fileEnvironment credentials) configPath = .ok () := by
  rw [Config.check, parse_fileEnvironment]
  exact validate_upstreamConfig credentials

theorem readable_fileEnvironment (credentials : Bool) :
    ∀ upstream ∈ (upstreamConfig credentials).inUse,
      upstream.Readable (fileEnvironment credentials) := by
  intro upstream hmem path hpath
  rw [List.mem_singleton.1 hmem] at hpath
  cases credentials with
  | false => cases hpath
  | true =>
      cases hpath
      exact ⟨_, rfl⟩

theorem check_agrees_with_serve_plain :
    Config.check fileParsers plainDisplay (fileEnvironment false) configPath = .ok () ∧
      Serves fileParsers plainDisplay (fileEnvironment false) configPath := by
  have hcheck := check_fileEnvironment false
  refine ⟨hcheck, (check_agrees_with_serve hcheck (parse_fileEnvironment false)
    (readable_fileEnvironment false) (noOverrides_fileEnvironment false)
    (noNetrc_fileEnvironment false)).2 ?_⟩
  intro upstream hmem
  rw [List.mem_singleton.1 hmem]
  rfl

/-- A file that names a password file passes the check, and the server does not start. -/
theorem checked_file_rejected :
    ¬∀ (parsers : ConfigParsers) (display : Display) (env : Environment) (path : FilePath)
      (cfg : Config), Config.check parsers display env path = .ok () →
      Config.parse parsers display env path = .ok cfg →
      (∀ upstream ∈ cfg.inUse, upstream.Readable env) → env.NoOverrides → env.NoNetrc →
      Serves parsers display env path := by
  intro hclaim
  obtain ⟨loaded, hloaded, hserved⟩ := hclaim fileParsers plainDisplay (fileEnvironment true)
    configPath (upstreamConfig true) (check_fileEnvironment true) (parse_fileEnvironment true)
    (readable_fileEnvironment true) (noOverrides_fileEnvironment true)
    (noNetrc_fileEnvironment true)
  have hload := load_of_check (parse_fileEnvironment true) (validate_upstreamConfig true)
    (readable_fileEnvironment true) (noOverrides_fileEnvironment true)
    (noNetrc_fileEnvironment true)
  rw [hload] at hloaded
  cases hloaded
  obtain ⟨_, hupstream⟩ := Config.validateUpstream_of_validate hserved _ (.head _)
  exact password_of_validateUpstream hupstream ⟨rfl, rfl⟩

end Ncro
