import Ncro.Clock
import Ncro.Filter
import Ncro.Foundation.Double
import Ncro.NarUrl
import Mathlib.Data.Char
import Mathlib.Data.List.Destutter
import Mathlib.Data.List.Lex

/-!
# What a router knows about its upstreams

A registry holds the settings of a router and what `registerUpstream` recorded
for each upstream. It is fixed once the instance serves requests. A missing
entry stands for the default: no keys, no filters, the default URL mode and the
race timeout.
-/

namespace Ncro

/-- The view of an upstream's configuration that the router registers. -/
structure RouterUpstream where
  url : Str
  publicKey : Str
  publicKeys : List Str
  filters : List FilterRule
  narUrlMode : NarUrlMode
  narinfoTimeout : Option Duration
  deriving DecidableEq

structure Registry where
  routeTtl : Duration
  raceTimeout : Duration
  negativeTtl : Duration
  /-- The smoothing factor of the health prober. -/
  alpha : Foundation.Double
  narinfoTimeouts : Str → Option Duration
  upstreamKeys : Str → Option (List Str)
  upstreamFilters : UpstreamFilters
  upstreamNarUrlModes : Str → Option NarUrlMode

/-- No upstream is registered. -/
instance : Inhabited Registry where
  default :=
    { routeTtl := 3600 * 10 ^ 9
      raceTimeout := 5 * 10 ^ 9
      negativeTtl := 600 * 10 ^ 9
      alpha := .fin (3 / 10)
      narinfoTimeouts := fun _ => none
      upstreamKeys := fun _ => none
      upstreamFilters := fun _ => none
      upstreamNarUrlModes := fun _ => none }

/-- `HashMap::insert`, or `HashMap::remove` for `none`. -/
def setEntry {α : Type*} (map : Str → Option α) (url : Str) (value : Option α) : Str → Option α :=
  fun other => if other = url then value else map other

/-- The configured keys, sorted and without repetitions. -/
def normalizedPublicKeys (publicKey : Str) (publicKeys : List Str) : List Str :=
  let keys := (if publicKey = [] then [] else [publicKey]) ++ publicKeys
  (keys.mergeSort fun a b => decide (a ≤ b)).destutter (· ≠ ·)

/-- Leaving out repetitions loses no element. -/
theorem mem_destutter_ne {α : Type*} [DecidableEq α] {l : List α} {b : α} :
    b ∈ l.destutter (· ≠ ·) ↔ b ∈ l := by
  have hafter : ∀ (l : List α) (a : α), b ∈ l.destutter' (· ≠ ·) a ↔ b = a ∨ b ∈ l := by
    intro l
    induction l with
    | nil => simp
    | cons c l ih =>
        intro a
        rw [List.destutter'_cons]
        split
        · rw [List.mem_cons, ih, List.mem_cons]
        · next hsame => rw [ih, List.mem_cons, not_not.1 hsame, or_self_left]
  cases l with
  | nil => rfl
  | cons a l => exact (hafter l a).trans List.mem_cons.symm

theorem mem_normalizedPublicKeys {publicKey key : Str} {publicKeys : List Str} :
    key ∈ normalizedPublicKeys publicKey publicKeys ↔
      key ∈ (if publicKey = [] then [] else [publicKey]) ++ publicKeys := by
  rw [normalizedPublicKeys, mem_destutter_ne, List.mem_mergeSort]

namespace Registry

/-- `register_upstream`: every key has to parse, or nothing is registered. -/
def registerUpstream (crypto : Crypto) (reg : Registry) (upstream : RouterUpstream) :
    Except NarInfoError Registry := do
  let keys := normalizedPublicKeys upstream.publicKey upstream.publicKeys
  keys.forM fun key => discard (parsePublicKey crypto key)
  return { reg with
    upstreamKeys := setEntry reg.upstreamKeys upstream.url (if keys = [] then none else some keys)
    upstreamFilters := setEntry reg.upstreamFilters upstream.url
      (if upstream.filters = [] then none else some upstream.filters)
    upstreamNarUrlModes := setEntry reg.upstreamNarUrlModes upstream.url (some upstream.narUrlMode)
    narinfoTimeouts := setEntry reg.narinfoTimeouts upstream.url upstream.narinfoTimeout }

/-- The timeout for a narinfo-sized fetch from `upstream`. -/
def narinfoTimeout (reg : Registry) (upstream : Str) : Duration :=
  (reg.narinfoTimeouts upstream).getD reg.raceTimeout

def narUrlMode (reg : Registry) (upstream : Str) : NarUrlMode :=
  (reg.upstreamNarUrlModes upstream).getD default

/-- Whether `upstream`'s keys, if it has any, verify a narinfo. -/
def verifies (crypto : Crypto) (reg : Registry) (upstream : Str) (n : NarInfo) : Bool :=
  match reg.upstreamKeys upstream with
  | none => true
  | some publicKeys => narinfoVerifiesAnyKey crypto n publicKeys

/-- `upstream_allows_narinfo`. -/
def allows (reg : Registry) (upstream : Str) (n : NarInfo) : Bool :=
  upstreamAllowsNarinfo reg.upstreamFilters upstream n

/-- The bytes a client is given for a narinfo body from `upstream`. -/
def responseNarinfoBytes (reg : Registry) (upstream storeHash : Str) (body : Option Octets) :
    Option Octets :=
  body.map fun body =>
    if reg.narUrlMode upstream = .keep then body
    else rewriteNarinfoUrl body upstream storeHash (reg.narUrlMode upstream)

@[simp] theorem isSome_responseNarinfoBytes (reg : Registry) (upstream storeHash : Str)
    (body : Option Octets) :
    (reg.responseNarinfoBytes upstream storeHash body).isSome = body.isSome := by
  simp [responseNarinfoBytes]

/-- No upstream whose URL is put into narinfo bodies has a line feed in it. -/
def NoLineFeed (reg : Registry) : Prop :=
  ∀ upstream, reg.narUrlMode upstream = .toUpstream → '\n' ∉ upstream

/-- The bytes a client is given parse to what the upstream's body parses to, up
to the `url`. -/
theorem parse_responseNarinfoBytes {reg : Registry} {upstream storeHash : Str} {body : Octets}
    {n : NarInfo} (hparse : NarInfo.parse body = .ok n) (hhash : '\n' ∉ storeHash)
    (hupstream : reg.narUrlMode upstream = .toUpstream → '\n' ∉ upstream) :
    ∃ bytes url, reg.responseNarinfoBytes upstream storeHash (some body) = some bytes ∧
      NarInfo.parse bytes = .ok { n with url := url } := by
  by_cases hkeep : reg.narUrlMode upstream = .keep
  · exact ⟨body, n.url, by simp [responseNarinfoBytes, hkeep], hparse⟩
  · obtain ⟨url, hurl⟩ := parse_rewriteNarinfoUrl hparse hhash hupstream
    exact ⟨_, url, by simp [responseNarinfoBytes, hkeep], hurl⟩

end Registry

end Ncro
