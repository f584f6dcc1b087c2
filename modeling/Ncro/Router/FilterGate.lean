import Ncro.Router.Gate
import Ncro.System

/-!
# The filter gate

Whatever the database holds, a lookup that succeeds returns bytes, and when its
upstream has filters these bytes parse to a narinfo that the filters accept. The
LRU is trusted for the presence of bytes only: the filters are evaluated again
on every hit.
-/

namespace Ncro

open Foundation Foundation.Process

/-- The answer has bytes, and the filters of its upstream accept them. -/
def FilterAccepted (reg : Registry) (r : ResolveResult) : Prop :=
  ∃ bytes, r.narinfoBytes = some bytes ∧
    ∀ rules, reg.upstreamFilters r.url = some rules →
      ∃ n, NarInfo.parse bytes = .ok n ∧
        upstreamAllowsNarinfo reg.upstreamFilters r.url n = true

theorem filterAccepted_of_cachedPasses {reg : Registry} {r : ResolveResult} {bytes : Octets}
    (hbytes : r.narinfoBytes = some bytes) (h : cachedPasses reg r.url (some bytes) = true) :
    FilterAccepted reg r := by
  refine ⟨bytes, hbytes, fun rules hrules => ?_⟩
  unfold cachedPasses at h
  rw [hrules] at h
  cases hparse : NarInfo.parse bytes with
  | error err => simp [hparse] at h
  | ok n =>
      have hallows : reg.allows r.url n = true := by simpa [hparse] using h
      exact ⟨n, rfl, hallows⟩

/-- Bytes that pass the filters still pass them after their URL is rewritten. -/
theorem filterAccepted_of_responseNarinfoBytes {reg : Registry} (hlines : reg.NoLineFeed)
    (storeHash : StoreHash) {upstream : Str} {body : Octets} {latencyMs : Double}
    {cacheHit : Bool} (h : ∀ rules, reg.upstreamFilters upstream = some rules →
      ∃ n, NarInfo.parse body = .ok n ∧ reg.allows upstream n = true) :
    FilterAccepted reg ⟨upstream, latencyMs, cacheHit,
      reg.responseNarinfoBytes upstream storeHash.val (some body)⟩ := by
  cases hfilters : reg.upstreamFilters upstream with
  | none => exact ⟨_, rfl, fun rules hrules => by rw [hfilters] at hrules; cases hrules⟩
  | some rules =>
      obtain ⟨n, hparse, hallows⟩ := h rules hfilters
      obtain ⟨bytes, url, hbytes, hparse'⟩ := Registry.parse_responseNarinfoBytes
        hparse (newline_notMem_of_isStoreHash storeHash.property) (hlines upstream)
      exact ⟨bytes, hbytes, fun _ _ => ⟨_, hparse', by simpa [Registry.allows] using hallows⟩⟩

/-- The filters as a gate: rows may hold anything, LRU entries have bytes. -/
def filterGate (crypto : Crypto) {reg : Registry} (hlines : reg.NoLineFeed) : Gate crypto reg where
  entry _ r := r.narinfoBytes.isSome = true
  row _ _ := True
  answer _ r := FilterAccepted reg r
  fallbackAnswer _ _ := True
  answer_of_entry _ r hentry hpasses := by
    obtain ⟨bytes, hbytes⟩ := Option.isSome_iff_exists.1 hentry
    rw [hbytes] at hpasses
    exact filterAccepted_of_cachedPasses (r := { r with cacheHit := true }) hbytes hpasses
  of_fetched storeHash _ _ parsed _ _ hverified hallows :=
    ⟨rfl, filterAccepted_of_responseNarinfoBytes hlines storeHash
      fun _ _ => ⟨parsed, hverified.parse, hallows⟩⟩
  of_row storeHash upstream body latencyMs _ hpasses := by
    refine ⟨rfl, filterAccepted_of_responseNarinfoBytes hlines storeHash fun rules hrules => ?_⟩
    have haccepted := filterAccepted_of_cachedPasses
      (r := ⟨upstream, latencyMs, true, some body⟩) rfl hpasses
    obtain ⟨bytes, hbytes, hall⟩ := haccepted
    obtain rfl := Option.some.inj hbytes
    exact hall rules hrules
  row_of_fetched _ _ _ _ := trivial
  fallback _ _ _ _ _ _ := trivial

/-! ## Every reachable state -/

/-- The condition of a run on its restarts: the upstream URLs put into narinfo
bodies have no line feed. -/
def restartsWithoutLineFeed (_ : System) (label : Label) : Prop :=
  ∀ reg, label = .restart reg → reg.NoLineFeed

/-- The instance satisfies the filter gate's invariant. -/
def FilterInv (crypto : Crypto) (reg : Registry) (inst : Instance) : Prop :=
  ∃ hlines : reg.NoLineFeed, (filterGate crypto hlines).Inv inst

/-- What is promised of a finished task. -/
def FilterPromise (reg : Registry) : TaskKind → TaskResult → Prop
  | .resolve _ _ _, .lookup (.ok r) => FilterAccepted reg r
  | _, _ => True

theorem filterInv_eq (crypto : Crypto) {reg : Registry} (hlines : reg.NoLineFeed) :
    FilterInv crypto reg = (filterGate crypto hlines).Inv := by
  funext inst
  exact propext ⟨fun ⟨_, h⟩ => h, fun h => ⟨hlines, h⟩⟩

theorem filterInvariant (crypto : Crypto) :
    System.Invariant crypto restartsWithoutLineFeed (FilterInv crypto) (fun _ _ _ => True)
      (fun reg => FilterPromise reg) where
  start reg inst kind := by
    rintro ⟨hlines, -⟩
    rw [filterInv_eq crypto hlines]
    cases kind with
    | resolve storeHash candidates hop =>
        refine ((filterGate crypto hlines).safe_resolve candidates).bind fun result hresult => ?_
        cases result with
        | ok r => exact hresult
        | error err => trivial
    | fallback storeHash upstream hop =>
        exact ((filterGate crypto hlines).safe_resolveFallback upstream).bind fun _ _ => trivial
    | merge incoming =>
        exact ((filterGate crypto hlines).safe_mergeRoutes (fun _ _ => trivial) incoming).bind
          fun _ _ => trivial
  perform _ _ _ _ := trivial
  background reg inst inst' hstep := by
    rintro ⟨hlines, h⟩
    exact ⟨hlines, h.background hstep⟩
  drop reg inst _ _ _ := by
    rintro ⟨hlines, h⟩
    exact ⟨hlines, h.rows, h.lru⟩
  restart s reg _ _ _ _ _ _ _ hmeets _ := ⟨hmeets reg rfl, .start fun _ _ => trivial⟩

/-- The filter gate. In every state an instance can reach, over any database it
is started with and whatever is merged into it, every lookup that succeeded has
bytes, and the filters of the upstream, if it has any, accept them. -/
theorem filter_gate (crypto : Crypto) {s₀ s : System} (hfresh : s₀.Fresh)
    (hlines : s₀.registry.NoLineFeed)
    (hreached : System.Reached crypto restartsWithoutLineFeed s₀ s)
    {storeHash : StoreHash} {candidates : List Str} {hop : Hop} {r : ResolveResult}
    (htask : ⟨.resolve storeHash candidates hop, .ret (.lookup (.ok r))⟩ ∈ s.tasks) :
    FilterAccepted s.registry r := by
  obtain ⟨routes, negatives, health, maxEntries, inMemoryNegativeTtl, cooldownWindow,
    maxConcurrentRaces, wallClock, clock, heq⟩ := hfresh
  have h₀ : System.Holds (FilterInv crypto) (fun _ _ _ => True) (fun reg => FilterPromise reg)
      s₀ := by
    rw [heq]
    exact ⟨⟨hlines, .start fun _ _ => trivial⟩, by simp⟩
  exact (hreached.safe (filterInvariant crypto) h₀).finished htask

/-! ## A filtered row -/

/-- A row of upstream `u` for the narinfo of `x-a`, valid for a second. -/
def rowOfU : RouteEntry where
  storePath := zeroHash.val
  upstreamUrl := ['u']
  latencyMs := .fin 1
  latencyEma := .fin 1
  lastVerified := default
  queryCount := 1
  failureCount := 0
  ttl := oneSecond
  narHash := []
  narSize := 0
  narUrl := []
  upstreamNarUrl := []
  narinfoBytes := some (toUtf8 "StorePath: /nix/store/x-a".toList)

def tableOfU : RouteTable := ⟨[routeToRow rowOfU], by decide⟩

/-- Upstream `u` may serve names that start with `a`. -/
def onlyA : Registry :=
  { (default : Registry) with
    upstreamFilters := fun url => if url = ['u'] then some [⟨.allow, .name, ['a', '*']⟩] else none }

theorem filter_gate_rowOfU :
    ∃ r : ResolveResult, r.url = ['u'] ∧ onlyA.upstreamFilters r.url ≠ none ∧
      FilterAccepted onlyA r := by
  have hlines : onlyA.NoLineFeed := fun upstream h => by
    have htoSelf : onlyA.narUrlMode upstream = .toSelf := rfl
    rw [htoSelf] at h
    cases h
  have hrow : tableOfU.getRoute zeroHash.val = .ok (some rowOfU) := by decide
  let inst := Instance.start onlyA tableOfU ∅ ∅ 100000 0 0 1 default 0
  have hrefl : System.Reached default restartsWithoutLineFeed ⟨onlyA, inst, []⟩ _ := .refl
  obtain ⟨s, hreached, hreg, htask⟩ := hrefl.rowAnswer zeroHash [] .client (fun _ _ => nofun)
    (fun _ _ => nofun) rfl rfl rfl hrow (by decide) rfl rfl (by decide)
  have hgate := filter_gate default ⟨_, _, _, _, _, _, _, _, _, rfl⟩ hlines hreached htask
  rw [hreg] at hgate
  exact ⟨_, rfl, by decide, hgate⟩

end Ncro
