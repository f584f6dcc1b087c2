import Ncro.Config.Load
import Ncro.Startup

/-!
# The keys that validation accepts

Two pieces of code look at the public keys of an upstream. Validation, which
also is what `--check` runs, asks for a colon. Registration, at startup, parses
the key. So registration accepts what validation accepts only where the rest of
each key is right as well.
-/

namespace Ncro

open Foundation

/-! ## Keys that parse -/

/-- A key as a name and the text of 32 bytes that are a point. -/
structure KeyText (crypto : Crypto) (key name b64 : Str) (raw : Octets) : Prop where
  text : key = name ++ ':' :: b64
  cut : ':' ∉ name
  named : name ≠ []
  decodes : decodeBase64Lenient crypto b64 = .ok raw
  length : raw.length = 32
  valid : crypto.validKey raw = true

/-- A key that parses. -/
def WellFormedKey (crypto : Crypto) (key : Str) : Prop :=
  ∃ name b64 raw, KeyText crypto key name b64 raw

section

variable {crypto : Crypto} {key : Str}

theorem KeyText.parsePublicKey {name b64 : Str} {raw : Octets}
    (h : KeyText crypto key name b64 raw) : parsePublicKey crypto key = .ok (name, raw) := by
  have hcut : key.dropInfix? [':'] = some (name, b64) := by
    rw [h.text]
    exact dropInfix?_singleton h.cut
  simp [Ncro.parsePublicKey, hcut, h.named, h.decodes, h.length, h.valid]

theorem keyText_of_parsePublicKey {name : Str} {raw : Octets}
    (h : parsePublicKey crypto key = .ok (name, raw)) : ∃ b64, KeyText crypto key name b64 raw := by
  rw [parsePublicKey] at h
  split at h
  · cases h
  · next before b64 hcut =>
    split at h
    · cases h
    · next hnamed =>
      split at h
      · cases h
      · next bytes hdecodes =>
        split at h
        · cases h
        · next hlength =>
          split at h
          · next hvalid =>
            cases h
            exact ⟨b64, eq_append_of_dropInfix?_singleton hcut,
              notMem_of_dropInfix?_singleton hcut, hnamed, hdecodes, not_not.1 hlength, hvalid⟩
          · cases h

/-- The keys that parse are the well-formed ones. -/
theorem exists_parsePublicKey_iff :
    (∃ parsed, parsePublicKey crypto key = .ok parsed) ↔ WellFormedKey crypto key := by
  constructor
  · rintro ⟨⟨name, raw⟩, hparse⟩
    rcases keyText_of_parsePublicKey hparse with ⟨b64, htext⟩
    exact ⟨name, b64, raw, htext⟩
  · rintro ⟨name, b64, raw, htext⟩
    exact ⟨(name, raw), htext.parsePublicKey⟩

/-- A key that parses has a colon. -/
theorem WellFormedKey.colon (h : WellFormedKey crypto key) : ':' ∈ key := by
  rcases h with ⟨name, b64, raw, htext⟩
  rw [htext.text]
  simp

end

/-! ## The keys of an upstream -/

/-- The keys that are configured for an upstream. An empty `public_key` is none. -/
def UpstreamConfig.configuredKeys (upstream : UpstreamConfig) : List Str :=
  (if upstream.publicKey = [] then [] else [upstream.publicKey]) ++ upstream.publicKeys

/-- The checks of `validate_upstream` that are about keys. -/
def validateKeys (upstream : UpstreamConfig) (label : Str) : Except ConfigError Unit := do
  checkWhen (upstream.publicKey ≠ [])
    (validateNixPublicKey upstream.publicKey (label ++ ": public_key".toList))
  upstream.publicKeys.zipIdx.forM fun (publicKey, i) =>
    validateNixPublicKey publicKey
      (label ++ ": public_keys[".toList ++ (toString i).toList ++ "]".toList)

theorem validateNixPublicKey_eq_ok_iff {publicKey label : Str} :
    validateNixPublicKey publicKey label = .ok () ↔ ':' ∈ publicKey := by
  rw [validateNixPublicKey, require_eq_ok_iff]
  constructor
  · exact fun h => h.2
  · intro h
    exact ⟨List.ne_nil_of_mem h, h⟩

theorem validateKeys_eq_ok_iff {upstream : UpstreamConfig} {label : Str} :
    validateKeys upstream label = .ok () ↔ ∀ key ∈ upstream.configuredKeys, ':' ∈ key := by
  have hlisted : (∀ entry ∈ upstream.publicKeys.zipIdx, ':' ∈ entry.1) ↔
      ∀ key ∈ upstream.publicKeys, ':' ∈ key := by
    constructor
    · intro h key hkey
      rcases List.mem_iff_getElem?.1 hkey with ⟨i, hi⟩
      exact h (key, i) (List.mem_zipIdx_iff_getElem?.2 hi)
    · intro h entry hentry
      exact h entry.1 (List.fst_mem_of_mem_zipIdx hentry)
  rw [validateKeys, check_bind_eq_ok_iff, checkWhen_eq_ok_iff, forM_eq_ok_iff]
  simp only [validateNixPublicKey_eq_ok_iff]
  rw [hlisted, UpstreamConfig.configuredKeys, List.forall_mem_append]
  split
  · next hnone => simp [hnone]
  · next hsome => simp [hsome]

theorem validateKeys_of_validateUpstream {parsers : ConfigParsers} {display : Display}
    {upstream : UpstreamConfig} {label : Str}
    (h : validateUpstream parsers display upstream label = .ok ()) :
    validateKeys upstream label = .ok () := by
  rw [validateUpstream] at h
  simp only [check_bind_eq_ok_iff] at h
  rw [validateKeys, check_bind_eq_ok_iff]
  exact ⟨h.2.2.1, h.2.2.2.1⟩

/-- What validation promises about the keys of a file. -/
theorem Config.colon_of_validate {parsers : ConfigParsers} {display : Display} {cfg : Config}
    (h : cfg.validate parsers display = .ok ()) :
    ∀ upstream ∈ cfg.inUse, ∀ key ∈ upstream.configuredKeys, ':' ∈ key := by
  intro upstream hmem
  rcases Config.validateUpstream_of_validate h upstream hmem with ⟨label, hupstream⟩
  exact validateKeys_eq_ok_iff.1 (validateKeys_of_validateUpstream hupstream)

/-- Registration asks of a key that it parses. -/
theorem exists_registerUpstream_iff {crypto : Crypto} {reg : Registry}
    {upstream : UpstreamConfig} :
    (∃ reg', reg.registerUpstream crypto upstream.routerUpstream = .ok reg') ↔
      ∀ key ∈ upstream.configuredKeys, WellFormedKey crypto key := by
  have hkeys : (∀ key ∈ normalizedPublicKeys upstream.publicKey upstream.publicKeys,
      WellFormedKey crypto key) ↔ ∀ key ∈ upstream.configuredKeys, WellFormedKey crypto key := by
    simp only [mem_normalizedPublicKeys, UpstreamConfig.configuredKeys]
  rw [← hkeys]
  simp only [Registry.registerUpstream, UpstreamConfig.routerUpstream, check_bind_eq_ok_iff,
    forM_eq_ok_iff, discard_eq_ok_iff, exists_parsePublicKey_iff]
  constructor
  · rintro ⟨reg', hparse, -⟩
    exact hparse
  · intro hparse
    exact ⟨_, hparse, rfl⟩

/-- What registration accepts, validation accepts. -/
theorem validateKeys_of_registerUpstream {crypto : Crypto} {reg reg' : Registry}
    {upstream : UpstreamConfig}
    (h : reg.registerUpstream crypto upstream.routerUpstream = .ok reg') (label : Str) :
    validateKeys upstream label = .ok () := by
  apply validateKeys_eq_ok_iff.2
  intro key hkey
  exact (exists_registerUpstream_iff.1 ⟨reg', h⟩ key hkey).colon

/-! ## The keys of a file -/

section

variable {crypto : Crypto}

theorem exists_register_iff {upstream : UpstreamConfig} (tables : Registered) :
    (∃ tables', tables.register crypto upstream = .ok tables') ↔
      ∀ key ∈ upstream.configuredKeys, WellFormedKey crypto key := by
  have hregistry : (∃ tables', tables.register crypto upstream = .ok tables') ↔
      ∃ reg', tables.registry.registerUpstream crypto upstream.routerUpstream = .ok reg' := by
    simp only [Registered.register, bind_eq_ok_iff]
    constructor
    · rintro ⟨tables', registry, hregister, -⟩
      exact ⟨registry, hregister⟩
    · rintro ⟨registry, hregister⟩
      exact ⟨_, registry, hregister, rfl⟩
  exact hregistry.trans exists_registerUpstream_iff

theorem exists_registerAll_iff {upstreams : List UpstreamConfig} (tables : Registered) :
    (∃ tables', tables.registerAll crypto upstreams = .ok tables') ↔
      ∀ upstream ∈ upstreams, ∀ key ∈ upstream.configuredKeys, WellFormedKey crypto key := by
  induction upstreams generalizing tables with
  | nil => simp [Registered.registerAll, pure, Except.pure]
  | cons upstream upstreams ih =>
      rw [List.forall_mem_cons]
      simp only [Registered.registerAll, List.foldlM_cons, bind_eq_ok_iff]
      constructor
      · rintro ⟨tables', tables₁, hregister, hrest⟩
        exact ⟨(exists_register_iff tables).1 ⟨tables₁, hregister⟩,
          (ih tables₁).1 ⟨tables', hrest⟩⟩
      · rintro ⟨hkeys, hrest⟩
        rcases (exists_register_iff tables).2 hkeys with ⟨tables₁, hregister⟩
        rcases (ih tables₁).2 hrest with ⟨tables', hrest⟩
        exact ⟨tables', tables₁, hregister, hrest⟩

/-- Startup gets past registration if every key of the upstreams parses. -/
theorem exists_startupTables_iff {router : Registry} {upstreams : List UpstreamConfig}
    {enabled : Bool} {fallback : UpstreamConfig} :
    (∃ tables, startupTables crypto router upstreams enabled fallback = .ok tables) ↔
      ∀ upstream ∈ upstreams ++ if enabled then [fallback] else [],
        ∀ key ∈ upstream.configuredKeys, WellFormedKey crypto key := by
  rw [List.forall_mem_append, ← exists_registerAll_iff ⟨fun _ => none, router⟩]
  simp only [startupTables, bind_eq_ok_iff]
  cases enabled with
  | false =>
      rw [if_neg Bool.false_ne_true]
      constructor
      · rintro ⟨tables', tables, hall, -⟩
        exact ⟨⟨tables, hall⟩, List.forall_mem_nil _⟩
      · rintro ⟨⟨tables, hall⟩, -⟩
        exact ⟨tables, tables, hall, rfl⟩
  | true =>
      rw [if_pos rfl, List.forall_mem_singleton]
      constructor
      · rintro ⟨tables', tables, hall, hfallback⟩
        exact ⟨⟨tables, hall⟩, (exists_register_iff tables).1 ⟨tables', hfallback⟩⟩
      · rintro ⟨⟨tables, hall⟩, hkeys⟩
        rcases (exists_register_iff tables).2 hkeys with ⟨tables', hfallback⟩
        exact ⟨tables', tables, hall, hfallback⟩

end

/-- Where validation speaks for registration: for an upstream, exactly if all of its keys are well
formed once all of them have a colon, and for a file that is valid, exactly if all the keys of its
upstreams are well formed. -/
theorem validation_covers_registration_iff (crypto : Crypto) (reg : Registry)
    (upstream : UpstreamConfig) (label : Str) (parsers : ConfigParsers) (display : Display)
    (cfg : Config) :
    ((validateKeys upstream label = .ok () →
        ∃ reg', reg.registerUpstream crypto upstream.routerUpstream = .ok reg') ↔
      ((∀ key ∈ upstream.configuredKeys, ':' ∈ key) →
        ∀ key ∈ upstream.configuredKeys, WellFormedKey crypto key)) ∧
    ((cfg.validate parsers display = .ok () →
        ∃ tables, startupTables crypto reg cfg.upstreams cfg.fallbackCache.enabled
          cfg.fallbackCache.upstream = .ok tables) ↔
      (cfg.validate parsers display = .ok () →
        ∀ upstream ∈ cfg.inUse, ∀ key ∈ upstream.configuredKeys, WellFormedKey crypto key)) := by
  constructor
  · rw [validateKeys_eq_ok_iff, exists_registerUpstream_iff]
  · exact imp_congr_right fun _ => exists_startupTables_iff

/-! ## A key without a name -/

/-- An upstream whose key is a colon. -/
def namelessUpstream : UpstreamConfig :=
  { (default : UpstreamConfig) with
    url := "https://cache.example.com".toList
    publicKey := [':'] }

/-- A key without a name does not parse. -/
theorem not_wellFormedKey_colon (crypto : Crypto) : ¬ WellFormedKey crypto [':'] := by
  rintro ⟨name, b64, raw, htext⟩
  have hlength := congrArg List.length htext.text
  simp only [List.length_append, List.length_cons, List.length_nil] at hlength
  apply htext.named
  apply List.length_eq_zero_iff.1
  omega

/-- Validation lets a key pass on which startup fails, whatever the parser of keys does. -/
theorem validation_accepts_nameless_key :
    validateKeys namelessUpstream (upstreamLabel 0) = .ok () ∧
      ({ upstreams := [namelessUpstream] } : Config).validate fileParsers plainDisplay = .ok () ∧
      ∀ crypto : Crypto,
        (¬ ∃ reg', (default : Registry).registerUpstream crypto namelessUpstream.routerUpstream =
          .ok reg') ∧
        ¬ ∃ tables, startupTables crypto default [namelessUpstream] false defaultFallback =
          .ok tables := by
  refine ⟨rfl, ?_, fun crypto => ⟨fun h => ?_, fun h => ?_⟩⟩
  · rw [Config.validate]
    simp only [check_bind_eq_ok_iff]
    exact ⟨rfl, rfl, CacheConfig.validate_default plainDisplay, rfl, rfl, rfl⟩
  · have hkey := exists_registerUpstream_iff.1 h [':'] (List.mem_singleton_self _)
    exact not_wellFormedKey_colon crypto hkey
  · have hkey := exists_startupTables_iff.1 h namelessUpstream (List.mem_singleton_self _) [':']
      (List.mem_singleton_self _)
    exact not_wellFormedKey_colon crypto hkey

end Ncro
