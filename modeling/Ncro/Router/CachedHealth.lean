import Ncro.Router.FilterGate

/-!
# The health of cached routes

A row of the route table is not used while its upstream is down. A hit in the
in-memory LRU is checked against the filters only, so a route that was cached
while its upstream was up is served until its entry expires.
-/

namespace Ncro

open Foundation Foundation.Process

/-- Whether an upstream is tracked and down. -/
def Instance.isDown (s : Instance) (url : Str) : Bool :=
  (s.health.get url).any fun h => h.status = .down

/-- Narinfo requests are answered by a function. -/
def AnsweredBy (answer : UpstreamRequest → Except BackendError (Option Octets)) :
    (op : Op) → op.Reply → Prop
  | .getBytes request, reply => reply = answer request
  | _, _ => True

/-- The effect of the operations of a lookup, with upstreams that answer by a
function. -/
def answering (reg : Registry) (answer : UpstreamRequest → Except BackendError (Option Octets)) :
    Semantics Op Op.Reply Instance :=
  fun op s reply s' => Instance.exec reg op s reply s' ∧ AnsweredBy answer op reply

/-- Whether the LRU path answers with an entry: the entry passes the filters of
its upstream, or what the upstream answers now does. -/
def LruServes (crypto : Crypto) (reg : Registry)
    (answer : UpstreamRequest → Except BackendError (Option Octets)) (storeHash : Str) (hop : Hop)
    (cached : ResolveResult) : Prop :=
  cachedPasses reg cached.url cached.narinfoBytes = true ∨
    ∃ body parsed,
      checkNarinfo crypto reg cached.url (answer (narinfoRequest reg cached.url storeHash hop))
        = .ok (some body, parsed) ∧ reg.allows cached.url parsed = true

section

variable {crypto : Crypto} {reg : Registry}
  {answer : UpstreamRequest → Except BackendError (Option Octets)} {storeHash : Str} {hop : Hop}
  {s s' : Instance}

/-- Answers that name an upstream, if they are routes at all. -/
def NamesUpstream (url : Str) : Except RouterError (Option ResolveResult) → Prop :=
  fun result => ∀ r, result = .ok (some r) → r.url = url

theorem returns_serveRoute (entry : RouteEntry) :
    Returns (NamesUpstream entry.upstreamUrl) (serveRoute reg storeHash entry) := by
  rintro _ r ⟨⟩
  rfl

theorem returns_refreshRoute (entry : RouteEntry) (bytes : Octets) :
    Returns (NamesUpstream entry.upstreamUrl) (refreshRoute reg storeHash entry bytes) := by
  refine returns_bind fun stored => ?_
  cases stored with
  | error err => exact nofun
  | ok _ => exact returns_serveRoute _

theorem returns_lruRoute (cached : ResolveResult) :
    Returns (NamesUpstream cached.url) (lruRoute crypto reg storeHash hop cached) := by
  refine returns_bind fun check => ?_
  cases check with
  | cached =>
      rintro r ⟨⟩
      rfl
  | fetched bytes =>
      rintro _ r ⟨⟩
      rfl
  | rejected => exact fun _ => nofun

/-- What is left of `storedRoute` after the check of the health names the
upstream of the row. -/
theorem returns_storedRoute (entry : RouteEntry) :
    Returns (NamesUpstream entry.upstreamUrl) (storedRoute crypto reg storeHash hop entry) := by
  refine returns_bind fun now => ?_
  show Returns _ (ite _ _ _)
  split
  · exact nofun
  refine returns_bind fun health => ?_
  show Returns _ (ite _ _ _)
  split
  · exact nofun
  refine returns_bind fun check => ?_
  cases check with
  | cached =>
      show Returns _ (ite _ _ _)
      split
      · exact returns_serveRoute entry
      · refine returns_bind fun fetched => ?_
        split
        · exact returns_refreshRoute entry _
        · exact nofun
  | fetched bytes => exact returns_refreshRoute entry bytes
  | rejected => exact nofun

/-- The LRU path has an answer exactly when it serves the entry. -/
theorem lruServes_of_execution {cached result : ResolveResult}
    (h : Execution (answering reg answer) (lruRoute crypto reg storeHash hop cached) s
      (.ok (some result)) s') : LruServes crypto reg answer storeHash hop cached := by
  obtain ⟨check, s₁, hcheck, h⟩ := execution_bind_iff.1 h
  unfold cachedRouteFilterCheck at hcheck
  split at hcheck
  · next hpasses => exact .inl hpasses
  obtain ⟨fetched, s₂, hfetch, hcheck⟩ := execution_bind_iff.1 hcheck
  obtain ⟨reply, s₃, ⟨-, hreply⟩, hfetch⟩ := execution_call_bind_iff.1 hfetch
  obtain ⟨rfl, rfl⟩ := execution_ret_iff.1 hfetch
  obtain rfl : reply = answer (narinfoRequest reg cached.url storeHash hop) := hreply
  have hrejected : ¬check = .rejected := by
    rintro rfl
    obtain ⟨_, s₄, -, h⟩ := execution_call_bind_iff.1 h
    obtain ⟨heq, -⟩ := execution_ret_iff.1 h
    cases heq
  split at hcheck
  · next body parsed hfetched =>
    obtain ⟨rfl, -⟩ := execution_ret_iff.1 hcheck
    refine .inr ⟨body, parsed, hfetched, ?_⟩
    by_contra hallows
    exact hrejected (if_neg hallows)
  · obtain ⟨rfl, -⟩ := execution_ret_iff.1 hcheck
    exact absurd rfl hrejected

theorem execution_of_lruServes {cached : ResolveResult}
    (h : LruServes crypto reg answer storeHash hop cached) :
    ∃ result s', Execution (answering reg answer) (lruRoute crypto reg storeHash hop cached) s
      (.ok (some result)) s' ∧ result.url = cached.url := by
  by_cases hpasses : cachedPasses reg cached.url cached.narinfoBytes = true
  · have hcheck : cachedRouteFilterCheck crypto reg cached.url storeHash cached.narinfoBytes hop
        = .ret .cached := if_pos hpasses
    refine ⟨{ cached with cacheHit := true }, s, ?_, rfl⟩
    unfold lruRoute
    rw [hcheck]
    exact .ret _ _
  · rcases h with h | ⟨body, parsed, hfetched, hallows⟩
    · exact absurd h hpasses
    have hcheck : Execution (answering reg answer)
        (cachedRouteFilterCheck crypto reg cached.url storeHash cached.narinfoBytes hop) s
        (.fetched body) s := by
      have hfetch : Execution (answering reg answer) (fetchNarinfo crypto reg cached.url storeHash hop)
          s (.ok (some body, parsed)) s := by
        have hask : answering reg answer (.getBytes (narinfoRequest reg cached.url storeHash hop)) s
            (answer (narinfoRequest reg cached.url storeHash hop)) s := ⟨rfl, rfl⟩
        rw [← hfetched]
        exact .call_bind hask (.ret _ _)
      unfold cachedRouteFilterCheck
      rw [if_neg hpasses]
      refine .bind hfetch ?_
      show Execution _ (.ret (if _ then _ else _)) _ _ _
      rw [if_pos hallows]
      exact .ret _ _
    exact ⟨_, _, hcheck.bind (.call_bind (r := ()) ⟨rfl, trivial⟩ (.ret _ _)), rfl⟩

theorem execution_of_lruHit {cached : ResolveResult}
    (hget : (s.lru.get s.clock storeHash).1 = some cached)
    (h : LruServes crypto reg answer storeHash hop cached) :
    ∃ result s', Execution (answering reg answer) (validCachedRoute crypto reg storeHash hop) s
      (.ok (some result)) s' ∧ result.url = cached.url := by
  obtain ⟨result, s', hroute, hurl⟩ := execution_of_lruServes
    (s := { s with lru := (s.lru.get s.clock storeHash).2 }) h
  have hlru : answering reg answer (.lruGet storeHash) s (some cached)
      { s with lru := (s.lru.get s.clock storeHash).2 } := ⟨by rw [Instance.exec, hget], trivial⟩
  exact ⟨result, s', .call_bind hlru hroute, hurl⟩

/-- A row of the route table is not used while its upstream is down. -/
theorem isDown_of_storedRoute {entry : RouteEntry} {result : ResolveResult}
    (h : Execution (answering reg answer) (storedRoute crypto reg storeHash hop entry) s
      (.ok (some result)) s') : s.isDown result.url = false := by
  have hurl := h.returns (returns_storedRoute entry) result rfl
  obtain ⟨now, s₁, ⟨⟨-, rfl⟩, -⟩, hvalid⟩ := execution_call_bind_iff.1 h
  split at hvalid
  · obtain ⟨heq, -⟩ := execution_ret_iff.1 hvalid
    cases heq
  obtain ⟨health, s₂, ⟨⟨rfl, rfl⟩, -⟩, hup⟩ := execution_call_bind_iff.1 hvalid
  split at hup
  · obtain ⟨heq, -⟩ := execution_ret_iff.1 hup
    cases heq
  · next hhealth =>
    rw [hurl]
    exact Bool.eq_false_iff.2 hhealth

variable (crypto reg answer storeHash hop s) in
/-- `valid_cached_route` respects the health of upstreams exactly when the LRU
serves no entry whose upstream is down. -/
theorem validCachedRoute_health :
    (∀ result s', Execution (answering reg answer) (validCachedRoute crypto reg storeHash hop) s
        (.ok (some result)) s' → s.isDown result.url = false) ↔
      ∀ cached, (s.lru.get s.clock storeHash).1 = some cached →
        LruServes crypto reg answer storeHash hop cached → s.isDown cached.url = false := by
  constructor
  · intro h cached hget hserves
    obtain ⟨result, s', hroute, hurl⟩ := execution_of_lruHit hget hserves
    rw [← hurl]
    exact h result s' hroute
  · intro h result s' hroute
    obtain ⟨cached, s₁, ⟨hexec, -⟩, hroute⟩ := execution_call_bind_iff.1 hroute
    obtain ⟨hcached, rfl⟩ := Prod.mk.inj hexec
    cases cached with
    | some cached =>
        rw [hroute.returns (returns_lruRoute cached) result rfl]
        exact h cached hcached.symm (lruServes_of_execution hroute)
    | none =>
        obtain ⟨row, s₂, ⟨⟨-, rfl⟩, -⟩, hroute⟩ := execution_call_bind_iff.1 hroute
        match row with
        | .error err =>
            obtain ⟨heq, -⟩ := execution_ret_iff.1 hroute
            cases heq
        | .ok none =>
            obtain ⟨heq, -⟩ := execution_ret_iff.1 hroute
            cases heq
        | .ok (some entry) =>
            have hdown : Instance.isDown { s with lru := (s.lru.get s.clock storeHash).2 }
                result.url = false := isDown_of_storedRoute hroute
            exact hdown

end

/-! ## A route that outlives its upstream's health -/

/-- The upstream `u` after ten failed probes. -/
def downHealth : HealthTable :=
  (fun health => HealthTable.recordFailure health ['u'])^[10] ((∅ : HealthTable).upsert (.new ['u'] 0))

/-- An instance whose database has a row of upstream `u`. -/
def instanceOfU : Instance := .start default tableOfU ∅ ∅ 100000 0 0 1 default 0

/-- In a state that is reached, a lookup is answered from the LRU with a route
whose upstream is down: the route was cached when nothing was known about the
upstream, which then failed ten probes. -/
theorem down_route_served :
    ∃ s, System.Reached default (fun _ _ => True) ⟨default, instanceOfU, []⟩ s ∧
      ¬∀ answer storeHash hop result s', Execution (answering s.registry answer)
        (validCachedRoute default s.registry storeHash hop) s.inst (.ok (some result)) s' →
        s.inst.isDown result.url = false := by
  have hrow : tableOfU.getRoute zeroHash.val = .ok (some rowOfU) := by decide
  have hrefl : System.Reached default (fun _ _ => True) ⟨default, instanceOfU, []⟩ _ := .refl
  have hstart := hrefl.step trivial (.start _ (.resolve zeroHash [] .client))
  have hresolve : Execution (Instance.exec default)
      (resolve default default zeroHash.val [] .client) instanceOfU _ _ :=
    (Instance.replay_resolve_of_row rfl rfl rfl hrow (by decide) rfl rfl (by decide)).execution
  have hexecution : Execution (Instance.exec default)
      ((TaskKind.resolve zeroHash [] .client).process default default) instanceOfU _ _ :=
    hresolve.bind (.ret _ _)
  have hcached := hstart.execution hexecution fun _ _ => trivial
  have hdown := hcached.step trivial (.background (.probe _ downHealth))
  refine ⟨_, hdown, fun h => ?_⟩
  let cached := Instance.rowAnswer default zeroHash.val rowOfU
    (toUtf8 "StorePath: /nix/store/x-a".toList)
  let inst : Instance := { instanceOfU with
    lru := instanceOfU.lru.insert instanceOfU.clock zeroHash.val cached
    health := downHealth }
  have hget : (inst.lru.get inst.clock zeroHash.val).1 = some cached := rfl
  have hserves : LruServes default default (fun _ => .ok none) zeroHash.val .client cached := .inl rfl
  obtain ⟨result, s', hserved, hurl⟩ := execution_of_lruHit hget hserves
  have hup := h _ _ _ result s' hserved
  rw [hurl] at hup
  have hisDown : inst.isDown ['u'] = true := by decide
  rw [show inst.isDown cached.url = true from hisDown] at hup
  cases hup

end Ncro
