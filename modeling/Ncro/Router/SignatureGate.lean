import Ncro.Router.FilterGate

/-!
# The signature gate

A narinfo is verified when it is fetched, and never again. What a lookup returns
is therefore verified as long as everything that reaches the route table by
another way is: the rows a merge writes, and, after a restart with other keys,
the rows that were already there. Neither is checked by the code, and a forged
announcement is served to clients as it is.
-/

namespace Ncro

open Foundation Foundation.Process

/-! ## Verified bytes -/

/-- The bytes, if there are any, verify under the keys registered for their
upstream, if it has any. -/
def BytesVerified (crypto : Crypto) (reg : Registry) (upstream : Str) (bytes : Option Octets) :
    Prop :=
  ∀ body keys, bytes = some body → reg.upstreamKeys upstream = some keys →
    ∃ n, NarInfo.parse body = .ok n ∧ narinfoVerifiesAnyKey crypto n keys = true

section

variable {crypto : Crypto} {reg : Registry}

theorem Verified.bytesVerified {upstream : Str} {body : Octets} {parsed : NarInfo}
    (h : Verified crypto reg upstream body parsed) :
    BytesVerified crypto reg upstream (some body) := by
  rintro body' keys ⟨⟩ hkeys
  refine ⟨parsed, h.parse, ?_⟩
  have hverifies := h.verifies
  rwa [Registry.verifies, hkeys] at hverifies

/-- Verified bytes are still verified after their URL is rewritten. -/
theorem BytesVerified.response (hlines : reg.NoLineFeed) (storeHash : StoreHash) {upstream : Str}
    {body : Octets} (h : BytesVerified crypto reg upstream (some body)) :
    BytesVerified crypto reg upstream
      (reg.responseNarinfoBytes upstream storeHash.val (some body)) := by
  intro bytes keys hbytes hkeys
  obtain ⟨n, hparse, hverifies⟩ := h body keys rfl hkeys
  obtain ⟨bytes', url, hbytes', hparse'⟩ := Registry.parse_responseNarinfoBytes hparse
    (newline_notMem_of_isStoreHash storeHash.property) (hlines upstream)
  rw [hbytes] at hbytes'
  obtain rfl := Option.some.inj hbytes'
  exact ⟨_, hparse', by rwa [narinfoVerifiesAnyKey_url]⟩

end

/-- The signatures as a gate: rows, entries and answers are all verified. -/
def signatureGate (crypto : Crypto) {reg : Registry} (hlines : reg.NoLineFeed) :
    Gate crypto reg where
  entry _ r := BytesVerified crypto reg r.url r.narinfoBytes
  row upstream bytes := BytesVerified crypto reg upstream bytes
  answer _ r := BytesVerified crypto reg r.url r.narinfoBytes
  fallbackAnswer _ r := BytesVerified crypto reg r.url r.narinfoBytes
  answer_of_entry _ _ hentry _ := hentry
  of_fetched storeHash _ _ _ _ _ hverified _ :=
    ⟨hverified.bytesVerified.response hlines storeHash,
      hverified.bytesVerified.response hlines storeHash⟩
  of_row storeHash _ _ _ hrow _ := ⟨hrow.response hlines storeHash, hrow.response hlines storeHash⟩
  row_of_fetched _ _ _ hverified := hverified.bytesVerified
  fallback storeHash _ _ _ _ hverified := hverified.bytesVerified.response hlines storeHash

/-! ## Runs that keep the table verified -/

/-- Every row of a table is verified under the keys of a registry. -/
def TableVerified (crypto : Crypto) (reg : Registry) (routes : RouteTable) : Prop :=
  ∀ row ∈ routes.rows, BytesVerified crypto reg row.upstreamUrl row.narinfoBytes

/-- The condition on a step: a row written by a merge is verified, and so are all
stored rows under the keys the instance is restarted with. -/
def keepsTableVerified (crypto : Crypto) (s : System) : Label → Prop
  | .perform (.merge _) (.dbUpsertRoute entry) =>
      BytesVerified crypto s.registry entry.upstreamUrl entry.narinfoBytes
  | .restart reg => reg.NoLineFeed ∧ TableVerified crypto reg s.inst.routes
  | _ => True

def SignatureInv (crypto : Crypto) (reg : Registry) (inst : Instance) : Prop :=
  ∃ hlines : reg.NoLineFeed, (signatureGate crypto hlines).Inv inst

/-- What the condition says of the operations of a task. -/
def SignatureGuard (crypto : Crypto) (reg : Registry) : TaskKind → Op → Prop
  | .merge _, .dbUpsertRoute entry =>
      BytesVerified crypto reg entry.upstreamUrl entry.narinfoBytes
  | _, _ => True

def SignaturePromise (crypto : Crypto) (reg : Registry) : TaskResult → Prop
  | .lookup (.ok r) => BytesVerified crypto reg r.url r.narinfoBytes
  | _ => True

theorem signatureInv_eq (crypto : Crypto) {reg : Registry} (hlines : reg.NoLineFeed) :
    SignatureInv crypto reg = (signatureGate crypto hlines).Inv := by
  funext inst
  exact propext ⟨fun ⟨_, h⟩ => h, fun h => ⟨hlines, h⟩⟩

theorem signatureInvariant (crypto : Crypto) :
    System.Invariant crypto (keepsTableVerified crypto) (SignatureInv crypto)
      (SignatureGuard crypto) (fun reg _ => SignaturePromise crypto reg) where
  start reg inst kind := by
    rintro ⟨hlines, -⟩
    rw [signatureInv_eq crypto hlines]
    cases kind with
    | resolve storeHash candidates hop =>
        refine ((signatureGate crypto hlines).safe_resolve candidates).bind
          fun result hresult => ?_
        cases result with
        | ok r => exact hresult
        | error err => trivial
    | fallback storeHash upstream hop =>
        refine ((signatureGate crypto hlines).safe_resolveFallback upstream).bind
          fun result hresult => ?_
        cases result with
        | ok r => exact hresult r rfl
        | error err => trivial
    | merge incoming =>
        exact ((signatureGate crypto hlines).safe_mergeRoutes (fun _ h => h) incoming).bind
          fun _ _ => trivial
  perform s kind op hmeets := by
    cases kind with
    | merge incoming =>
        cases op with
        | dbUpsertRoute entry => exact hmeets
        | _ => trivial
    | resolve storeHash candidates hop => trivial
    | fallback storeHash upstream hop => trivial
  background reg inst inst' hstep := by
    rintro ⟨hlines, h⟩
    exact ⟨hlines, h.background hstep⟩
  drop reg inst _ _ _ := by
    rintro ⟨hlines, h⟩
    exact ⟨hlines, h.rows, h.lru⟩
  restart s reg _ _ _ _ _ _ _ hmeets _ := ⟨hmeets.1, .start hmeets.2⟩

/-- The signature gate. Let an instance be started over a verified table, let
every merge write verified rows only, and let the stored rows be verified
whenever the instance is restarted with other keys. Then in every state reached
the bytes of every successful lookup, of the upstreams or of the fallback cache,
verify under a key of the upstream they are attributed to, if it has keys. -/
theorem signature_gate (crypto : Crypto) {s₀ s : System} (hfresh : s₀.Fresh)
    (hlines : s₀.registry.NoLineFeed) (htable : TableVerified crypto s₀.registry s₀.inst.routes)
    (hreached : System.Reached crypto (keepsTableVerified crypto) s₀ s)
    {kind : TaskKind} {r : ResolveResult} (htask : ⟨kind, .ret (.lookup (.ok r))⟩ ∈ s.tasks) :
    BytesVerified crypto s.registry r.url r.narinfoBytes := by
  obtain ⟨routes, negatives, health, maxEntries, inMemoryNegativeTtl, cooldownWindow,
    maxConcurrentRaces, wallClock, clock, heq⟩ := hfresh
  have h₀ : System.Holds (SignatureInv crypto) (SignatureGuard crypto)
      (fun reg _ => SignaturePromise crypto reg) s₀ := by
    rw [heq] at htable ⊢
    exact ⟨⟨hlines, .start htable⟩, by simp⟩
  exact (hreached.safe (signatureInvariant crypto) h₀).finished htask

/-! ## A signed row and a forged one -/

/-- Routines under which every well-formed signature is good. -/
def trustingCrypto : Crypto where
  decodeBase64 _ := .ok (List.replicate 64 0)
  decodeBase64NoPad _ := .ok (List.replicate 32 0)
  validKey _ := true
  verifySignature _ _ _ := true

/-- Upstream `u` has a key of the name `k`. -/
def keyOfU : Registry :=
  { (default : Registry) with
    upstreamKeys := fun url => if url = ['u'] then some [['k', ':', 'x']] else none }

theorem keyOfU_noLineFeed : keyOfU.NoLineFeed := fun upstream h => by
  have htoSelf : keyOfU.narUrlMode upstream = .toSelf := rfl
  rw [htoSelf] at h
  cases h

def signedBody : Octets := toUtf8 "StorePath: /nix/store/x-a\nSig: k:x".toList

def signedRow : RouteEntry := { rowOfU with narinfoBytes := some signedBody }

theorem signature_gate_signedRow :
    ∃ r : ResolveResult, r.narinfoBytes.isSome = true ∧ keyOfU.upstreamKeys r.url ≠ none ∧
      BytesVerified trustingCrypto keyOfU r.url r.narinfoBytes := by
  let routes : RouteTable := ⟨[routeToRow signedRow], by decide⟩
  let inst := Instance.start keyOfU routes ∅ ∅ 100000 0 0 1 default 0
  have htable : TableVerified trustingCrypto keyOfU routes := by
    intro row hrow body keys hbody hkeys
    obtain rfl := List.mem_singleton.1 hrow
    obtain rfl := Option.some.inj hbody
    obtain rfl := Option.some.inj hkeys
    exact ⟨{ storePath := "/nix/store/x-a".toList, sig := [['k', ':', 'x']] }, by decide, by decide⟩
  have hrow : routes.getRoute zeroHash.val = .ok (some signedRow) := by decide
  have hrefl : System.Reached trustingCrypto (keepsTableVerified trustingCrypto)
    ⟨keyOfU, inst, []⟩ _ := .refl
  obtain ⟨s, hreached, hreg, htask⟩ := hrefl.rowAnswer zeroHash [] .client (fun _ _ => trivial)
    (fun _ _ => trivial) rfl rfl rfl hrow (by decide) rfl rfl (by decide)
  have hgate := signature_gate trustingCrypto ⟨_, _, _, _, _, _, _, _, _, rfl⟩ keyOfU_noLineFeed
    htable hreached htask
  rw [hreg] at hgate
  exact ⟨_, rfl, by decide, hgate⟩

/-- The instance with an empty table. -/
def emptyOfU : Instance := .start keyOfU ∅ ∅ ∅ 100000 0 0 1 default 0

/-- The same instance once the row is in its table. -/
def mergedOfU : Instance := { emptyOfU with routes := tableOfU, writeCount := 1 }

/-- An announced row of a hash the table does not have is stored as it is. -/
theorem execution_mergeRoutes_rowOfU :
    Execution (Instance.exec keyOfU) (mergeRoutes [rowOfU]) emptyOfU () mergedOfU := by
  have hmerge : Replay (Instance.exec keyOfU) (mergeRoutes [rowOfU]) emptyOfU _ () mergedOfU :=
    Instance.replay_mergeRoutes (by decide) (by decide) (by decide)
  exact hmerge.execution

/-- An instance with an empty table merges an announced row whose bytes carry no
signature, and then answers a client from it, although the upstream has a key. -/
theorem merged_row_served_unverified :
    ∃ s r body, System.Reached trustingCrypto (fun _ _ => True) ⟨keyOfU, emptyOfU, []⟩ s ∧
      ⟨.resolve zeroHash [['u']] .client, .ret (.lookup (.ok r))⟩ ∈ s.tasks ∧
      s.registry.upstreamKeys r.url = some [['k', ':', 'x']] ∧ r.narinfoBytes = some body ∧
      ∀ n, NarInfo.parse body = .ok n →
        narinfoVerifiesAnyKey trustingCrypto n [['k', ':', 'x']] = false := by
  have hrefl : System.Reached trustingCrypto (fun _ _ => True) ⟨keyOfU, emptyOfU, []⟩ _ := .refl
  have hmerge : Execution (Instance.exec keyOfU)
      ((TaskKind.merge [rowOfU]).process trustingCrypto keyOfU) emptyOfU .merged mergedOfU :=
    execution_mergeRoutes_rowOfU.bind (.ret _ _)
  have hmerged := (hrefl.step trivial (.start _ (.merge [rowOfU]))).execution hmerge
    fun _ _ => trivial
  have hrow : mergedOfU.routes.getRoute zeroHash.val = .ok (some rowOfU) := by decide
  obtain ⟨s, hreached, hreg, htask⟩ := hmerged.rowAnswer zeroHash [['u']] .client
    (fun _ _ => trivial) (fun _ _ => trivial) rfl rfl rfl hrow (by decide) rfl rfl (by decide)
  have hbytes : keyOfU.responseNarinfoBytes ['u'] zeroHash.val rowOfU.narinfoBytes
      = rowOfU.narinfoBytes := by decide
  refine ⟨s, _, toUtf8 "StorePath: /nix/store/x-a".toList, hreached, htask, ?_, hbytes, ?_⟩
  · rw [hreg]
    rfl
  · intro n hparse
    have hunsigned : NarInfo.parse (toUtf8 "StorePath: /nix/store/x-a".toList)
        = .ok { storePath := "/nix/store/x-a".toList } := by decide
    rw [hunsigned] at hparse
    cases hparse
    rfl

end Ncro
