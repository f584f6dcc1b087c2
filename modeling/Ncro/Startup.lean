import Ncro.Config.Upstream

/-!
# Registration at startup

`serve` registers the configured upstreams one after the other, and then the
fallback cache when it is enabled, in tables that know an upstream by its URL
alone. What is in force for a URL is therefore what was registered for it last:
`registerAll_inForce`. The fallback cache leaves the normal upstreams alone
exactly when it does not share a URL with one that is configured otherwise.
-/

namespace Ncro

/-- The tables that startup fills. -/
structure Registered where
  backends : Upstreams
  registry : Registry

/-- What is in force for a URL. -/
structure InForce where
  filters : Option (List FilterRule)
  publicKeys : Option (List Str)
  narUrlMode : NarUrlMode
  narinfoTimeout : Duration
  backend : Backend
  deriving DecidableEq

def Registered.inForce (tables : Registered) (url : Str) : InForce where
  filters := tables.registry.upstreamFilters url
  publicKeys := tables.registry.upstreamKeys url
  narUrlMode := tables.registry.narUrlMode url
  narinfoTimeout := tables.registry.narinfoTimeout url
  backend := tables.backends.get url

/-- What is in force for an upstream that was registered last for its URL. -/
def UpstreamConfig.inForce (upstream : UpstreamConfig) (raceTimeout : Duration) : InForce where
  filters := if upstream.filters = [] then none else some upstream.filters
  publicKeys :=
    let keys := normalizedPublicKeys upstream.publicKey upstream.publicKeys
    if keys = [] then none else some keys
  narUrlMode := upstream.narUrlMode
  narinfoTimeout := upstream.narinfoTimeout.getD raceTimeout
  backend := upstream.backend

section

variable (crypto : Crypto)

/-- `Upstreams::register` and `Router::register_upstream`. -/
def Registered.register (tables : Registered) (upstream : UpstreamConfig) :
    Except NarInfoError Registered := do
  let registry ← tables.registry.registerUpstream crypto upstream.routerUpstream
  return ⟨tables.backends.register upstream, registry⟩

/-- The registration of some upstreams, one after the other. -/
def Registered.registerAll (tables : Registered) (upstreams : List UpstreamConfig) :
    Except NarInfoError Registered :=
  upstreams.foldlM (fun tables upstream => tables.register crypto upstream) tables

/-- What `serve` registers over a new router. -/
def startupTables (router : Registry) (upstreams : List UpstreamConfig)
    (fallbackEnabled : Bool) (fallback : UpstreamConfig) : Except NarInfoError Registered := do
  let tables ← Registered.registerAll crypto ⟨fun _ => none, router⟩ upstreams
  if fallbackEnabled then tables.register crypto fallback else return tables

end

/-- The upstream that a list registers last for a URL. -/
def lastFor (url : Str) (upstreams : List UpstreamConfig) : Option UpstreamConfig :=
  upstreams.reverse.find? fun upstream => upstream.url = url

theorem isSome_lastFor {url : Str} {upstreams : List UpstreamConfig} {upstream : UpstreamConfig}
    (hmem : upstream ∈ upstreams) (hurl : upstream.url = url) :
    ∃ last, lastFor url upstreams = some last := by
  have hsome : (upstreams.reverse.find? fun upstream => upstream.url = url).isSome :=
    List.find?_isSome.2 ⟨upstream, List.mem_reverse.2 hmem, by simpa using hurl⟩
  exact Option.isSome_iff_exists.1 hsome

theorem lastFor_append (url : Str) (upstreams : List UpstreamConfig) (upstream : UpstreamConfig) :
    lastFor url (upstreams ++ [upstream])
      = if upstream.url = url then some upstream else lastFor url upstreams := by
  rw [lastFor, List.reverse_append, List.reverse_singleton, List.singleton_append, List.find?_cons]
  by_cases h : upstream.url = url <;> simp [h, lastFor]

section

variable {crypto : Crypto} {tables tables' : Registered} {upstream : UpstreamConfig}

theorem Registered.register_eq (h : tables.register crypto upstream = .ok tables') :
    tables' = ⟨tables.backends.register upstream,
      { tables.registry with
        upstreamKeys := setEntry tables.registry.upstreamKeys upstream.url
          (upstream.inForce tables.registry.raceTimeout).publicKeys
        upstreamFilters := setEntry tables.registry.upstreamFilters upstream.url
          (upstream.inForce tables.registry.raceTimeout).filters
        upstreamNarUrlModes := setEntry tables.registry.upstreamNarUrlModes upstream.url
          (some upstream.narUrlMode)
        narinfoTimeouts := setEntry tables.registry.narinfoTimeouts upstream.url
          upstream.narinfoTimeout }⟩ := by
  simp only [register, Registry.registerUpstream, bind, Except.bind, pure, Except.pure] at h
  split at h
  · cases h
  · next heq =>
    split at heq
    · cases heq
    · cases heq
      cases h
      rfl

variable (crypto) in
/-- An upstream without keys can always be registered. -/
theorem Registered.exists_register (tables : Registered) (hkey : upstream.publicKey = [])
    (hkeys : upstream.publicKeys = []) :
    ∃ tables', tables.register crypto upstream = .ok tables' := by
  have hnone : normalizedPublicKeys upstream.publicKey upstream.publicKeys = [] := by
    simp [normalizedPublicKeys, hkey, hkeys]
  unfold register Registry.registerUpstream UpstreamConfig.routerUpstream
  simp only [hnone]
  exact ⟨_, rfl⟩

theorem Registered.raceTimeout_register (h : tables.register crypto upstream = .ok tables') :
    tables'.registry.raceTimeout = tables.registry.raceTimeout := by
  rw [register_eq h]

/-- Registration puts an upstream in force for its URL, and for no other. -/
theorem Registered.inForce_register (h : tables.register crypto upstream = .ok tables')
    (url : Str) :
    tables'.inForce url = if upstream.url = url
      then upstream.inForce tables.registry.raceTimeout else tables.inForce url := by
  rw [register_eq h]
  by_cases hurl : upstream.url = url
  · subst hurl
    simp [inForce, UpstreamConfig.inForce, setEntry, Registry.narUrlMode, Registry.narinfoTimeout,
      Upstreams.get, Upstreams.register]
  · have hne : url ≠ upstream.url := fun heq => hurl heq.symm
    simp [inForce, setEntry, Registry.narUrlMode, Registry.narinfoTimeout, Upstreams.get,
      Upstreams.register, hurl, hne]

/-- What is in force for a URL is what was registered for it last. -/
theorem Registered.inForce_registerAll {upstreams : List UpstreamConfig}
    (h : tables.registerAll crypto upstreams = .ok tables') (url : Str) :
    tables'.registry.raceTimeout = tables.registry.raceTimeout ∧
      tables'.inForce url = match lastFor url upstreams with
        | some last => last.inForce tables.registry.raceTimeout
        | none => tables.inForce url := by
  induction upstreams using List.reverseRecOn generalizing tables' with
  | nil =>
      cases h
      exact ⟨rfl, rfl⟩
  | append_singleton upstreams upstream ih =>
      rw [registerAll, List.foldlM_append] at h
      cases hbefore : tables.registerAll crypto upstreams with
      | error err =>
          rw [registerAll] at hbefore
          rw [hbefore] at h
          cases h
      | ok before =>
          obtain ⟨hrace, hforce⟩ := ih hbefore
          rw [registerAll] at hbefore
          rw [hbefore] at h
          have hlast : before.register crypto upstream = .ok tables' := by
            rw [← h]
            cases hregister : before.register crypto upstream <;>
              simp [bind, Except.bind, pure, Except.pure, hregister]
          refine ⟨(raceTimeout_register hlast).trans hrace, ?_⟩
          rw [inForce_register hlast, lastFor_append, hforce, hrace]
          split <;> rfl

end

/-! ## The fallback cache -/

/-- Enabling the fallback cache leaves what is in force for the normal upstreams
as it is exactly when the last upstream with the URL of the fallback cache, if
there is one, is configured like the fallback cache. -/
theorem startupTables_fallback (crypto : Crypto) (router : Registry)
    (upstreams : List UpstreamConfig) (fallback : UpstreamConfig) {disabled enabled : Registered}
    (hdisabled : startupTables crypto router upstreams false fallback = .ok disabled)
    (henabled : startupTables crypto router upstreams true fallback = .ok enabled) :
    (∀ upstream ∈ upstreams, enabled.inForce upstream.url = disabled.inForce upstream.url) ↔
      ∀ last, lastFor fallback.url upstreams = some last →
        last.inForce router.raceTimeout = fallback.inForce router.raceTimeout := by
  unfold startupTables at hdisabled henabled
  cases hall : Registered.registerAll crypto ⟨fun _ => none, router⟩ upstreams with
  | error err =>
      rw [hall] at hdisabled
      cases hdisabled
  | ok tables =>
      rw [hall] at hdisabled henabled
      have heq : tables = disabled := by simpa [bind, Except.bind, pure, Except.pure] using hdisabled
      subst heq
      have hfallback : tables.register crypto fallback = .ok enabled := by
        simpa [bind, Except.bind] using henabled
      have hrace := (Registered.inForce_registerAll hall []).1
      constructor
      · intro hsame last hlast
        have hmem : last ∈ upstreams := List.mem_reverse.1 (List.mem_of_find?_eq_some hlast)
        have hurl : last.url = fallback.url := by simpa using List.find?_some hlast
        have hforce := hsame last hmem
        rw [Registered.inForce_register hfallback, if_pos hurl.symm, hrace, hurl,
          (Registered.inForce_registerAll hall _).2, hlast] at hforce
        exact hforce.symm
      · intro hlast upstream hupstream
        rw [Registered.inForce_register hfallback]
        split
        · next hurl =>
          obtain ⟨last, hfind⟩ := isSome_lastFor hupstream hurl.symm
          rw [← hurl, (Registered.inForce_registerAll hall _).2, hfind, hrace]
          exact (hlast last hfind).symm
        · rfl

/-- Startup with one upstream, and a fallback cache, both without keys. -/
theorem exists_startupTables {upstream fallback : UpstreamConfig}
    (hupstream : upstream.publicKey = [] ∧ upstream.publicKeys = [])
    (hfallback : fallback.publicKey = [] ∧ fallback.publicKeys = []) :
    ∃ disabled enabled,
      startupTables default default [upstream] false fallback = .ok disabled ∧
      startupTables default default [upstream] true fallback = .ok enabled ∧
      Registered.registerAll default ⟨fun _ => none, default⟩ [upstream] = .ok disabled ∧
      disabled.register default fallback = .ok enabled := by
  obtain ⟨disabled, hdisabled⟩ := Registered.exists_register default
    ⟨fun _ => none, default⟩ hupstream.1 hupstream.2
  obtain ⟨enabled, henabled⟩ := Registered.exists_register default disabled
    hfallback.1 hfallback.2
  have hall : Registered.registerAll default ⟨fun _ => none, default⟩ [upstream] = .ok disabled := by
    simp [Registered.registerAll, hdisabled]
  refine ⟨disabled, enabled, ?_, ?_, hall, henabled⟩
  · simp [startupTables, hall]
  · unfold startupTables
    rw [hall]
    exact henabled

/-- A filtered upstream, and a fallback cache with another URL. -/
theorem startupTables_fallback_other :
    let upstream : UpstreamConfig :=
      { (default : UpstreamConfig) with url := ['a'], filters := [{ pattern := ['x'] }] }
    ∃ disabled enabled,
      startupTables default default [upstream] false default = .ok disabled ∧
      startupTables default default [upstream] true default = .ok enabled ∧
      ((∀ other ∈ [upstream], enabled.inForce other.url = disabled.inForce other.url) ↔
        ∀ last, lastFor [] [upstream] = some last →
          last.inForce (5 * 10 ^ 9) = (default : UpstreamConfig).inForce (5 * 10 ^ 9)) := by
  intro upstream
  have hkeys : upstream.publicKey = [] ∧ upstream.publicKeys = [] := ⟨rfl, rfl⟩
  have hdefault : (default : UpstreamConfig).publicKey = [] ∧
      (default : UpstreamConfig).publicKeys = [] := ⟨rfl, rfl⟩
  obtain ⟨disabled, enabled, hdisabled, henabled, -, -⟩ :=
    exists_startupTables hkeys hdefault
  exact ⟨disabled, enabled, hdisabled, henabled,
    startupTables_fallback default default [upstream] default hdisabled henabled⟩

/-- An upstream at the URL of the fallback cache loses its filters when the
fallback cache is enabled. -/
theorem fallback_drops_filters :
    ¬∀ (upstreams : List UpstreamConfig) (fallback : UpstreamConfig)
      (disabled enabled : Registered),
      startupTables default default upstreams false fallback = .ok disabled →
      startupTables default default upstreams true fallback = .ok enabled →
      ∀ upstream ∈ upstreams, enabled.inForce upstream.url = disabled.inForce upstream.url := by
  intro h
  let fallback : UpstreamConfig := { (default : UpstreamConfig) with url := ['a'] }
  let upstream : UpstreamConfig := { fallback with filters := [{ pattern := ['x'] }] }
  have hkeys : upstream.publicKey = [] ∧ upstream.publicKeys = [] := ⟨rfl, rfl⟩
  have hfallback : fallback.publicKey = [] ∧ fallback.publicKeys = [] := ⟨rfl, rfl⟩
  obtain ⟨disabled, enabled, hdisabled, henabled, hall, hregister⟩ :=
    exists_startupTables hkeys hfallback
  have hforce := h [upstream] fallback disabled enabled hdisabled henabled upstream
    (List.mem_singleton_self _)
  rw [Registered.inForce_register hregister, if_pos rfl,
    (Registered.inForce_registerAll hall _).2] at hforce
  have hfilters := congrArg InForce.filters hforce
  cases hfilters

end Ncro
