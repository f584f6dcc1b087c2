import Ncro.CanonicalUrls
import Ncro.Router.FilterGate

/-!
# Canonical URLs and the upstreams they are minted from

A canonical URL keeps the store hash and the extension of the upstream's own URL, and
nothing else. When its row is gone, an upstream is asked for the narinfo again, and is
used if the narinfo has the compression that the extension promises. So a canonical URL
is as good as the extension of the URL it was minted from: `narExtension_canonicalNarUrl`.
-/

namespace Ncro

open Foundation Foundation.Process

/-! ## Serving a canonical URL -/

/-- An upstream that keeps serving a narinfo: it replies with bytes that are accepted as
this narinfo. -/
def KeepsServing (crypto : Crypto) (reg : Registry) (upstream : Str) (narinfo : NarInfo) :
    (op : Op) → op.Reply → Prop
  | .getBytes request, reply => request.upstream = upstream →
      ∃ body, reply = .ok (some body) ∧ Verified crypto reg upstream body narinfo
  | _, _ => True

/-- What is found at an upstream that keeps serving a narinfo. -/
theorem run_upstreamNarPath {crypto : Crypto} {reg : Registry} {upstream storeHash : Str}
    {narinfo : NarInfo} {expectedCompression : Option Str} {events : List HandlerEvent}
    {result : Except RouterError Str} (hallows : reg.allows upstream narinfo = true)
    (h : Run (KeepsServing crypto reg upstream narinfo)
      (upstreamNarPath crypto reg upstream storeHash none expectedCompression) events result) :
    result = if expectedCompression.any (narinfo.compression ≠ ·) then .error .notFound
      else .ok ('/' :: relativeNarUrl narinfo.url) := by
  obtain ⟨reply, tail, rfl, hreply, h⟩ := run_fetchNarinfo_bind_iff.1 h
  obtain ⟨body, rfl, hverified⟩ := hreply rfl
  have hfetched : checkNarinfo crypto reg upstream (.ok (some body)) =
      .ok (some body, narinfo) := by
    simp only [checkNarinfo, hverified.parse, hverified.verifies, if_true]
  rw [hfetched] at h
  simp only [hallows, Bool.not_true, Bool.false_eq_true, if_false, Option.any_none] at h
  split at h
  · next hcompression =>
    rw [if_pos hcompression]
    exact (run_ret_iff.1 h).2.symm
  · next hcompression =>
    rw [if_neg hcompression]
    exact (run_ret_iff.1 h).2.symm

/-- A canonical URL stays servable by the upstream it was minted from, as long as the extension
of the upstream's own URL promises no compression, or the one that the narinfo has. A narinfo
that states another one is turned down. -/
theorem minted_url_servable (crypto : Crypto) (reg : Registry) (upstream : Str)
    (storeHash : StoreHash) (narinfo : NarInfo) (hmode : reg.narUrlMode upstream = .toSelf)
    (hallows : reg.allows upstream narinfo = true) (events : List HandlerEvent)
    (result : Except RouterError Str)
    (h : Run (KeepsServing crypto reg upstream narinfo)
      (upstreamNarPath crypto reg upstream storeHash.val none
        (compressionForNarUrl (rewriteNarUrlValue narinfo.url upstream storeHash.val
          (reg.narUrlMode upstream)))) events result) :
    (compressionForNarUrl narinfo.url = none ∨
        compressionForNarUrl narinfo.url = some narinfo.compression →
      result = .ok ('/' :: relativeNarUrl narinfo.url)) ∧
    (narinfo.compression ≠ [] → compressionForNarUrl narinfo.url ≠ none →
      compressionForNarUrl narinfo.url ≠ some narinfo.compression →
        result = .error .notFound) := by
  have hresult := run_upstreamNarPath hallows h
  rw [hmode, rewriteNarUrlValue, compressionForNarUrl_canonicalNarUrl] at hresult
  constructor
  · rintro (hnone | hsome)
    · simpa [hnone] using hresult
    · simpa [hsome] using hresult
  · intro _ hnone hne
    obtain ⟨expected, hexpected⟩ := Option.ne_none_iff_exists'.1 hnone
    rw [hexpected] at hresult hne
    have hdiffers : narinfo.compression ≠ expected := fun heq => hne (congrArg some heq.symm)
    simpa [hdiffers] using hresult

/-- An upstream with a body that stays as it is. -/
theorem run_keepsServing {crypto : Crypto} {reg : Registry} {upstream : Str} {body : Octets}
    {narinfo : NarInfo} (hverified : Verified crypto reg upstream body narinfo) (storeHash : Str)
    (expectedCompression : Option Str) :
    ∃ events result, Run (KeepsServing crypto reg upstream narinfo)
      (upstreamNarPath crypto reg upstream storeHash none expectedCompression) events result := by
  apply exists_run
  intro op
  cases op with
  | getBytes request => exact ⟨.ok (some body), fun _ => ⟨body, rfl, hverified⟩⟩
  | _ => exact ⟨default, trivial⟩

/-! ## Two narinfos -/

/-- A narinfo whose URL has the extension of its compression. -/
def labelledNarinfo : NarInfo :=
  { storePath := "/nix/store/x-a".toList, url := "nar/x.nar.xz".toList, compression := "xz".toList }

/-- A narinfo whose URL has the extension of an uncompressed NAR. -/
def mislabelledNarinfo : NarInfo :=
  { storePath := "/nix/store/x-a".toList, url := "nar/x.nar".toList, compression := "xz".toList }

theorem minted_url_servable_labelled :
    ∃ events result, result = .ok "/nar/x.nar.xz".toList ∧
      Run (KeepsServing default default ['u'] labelledNarinfo)
        (upstreamNarPath default default ['u'] zeroHash.val none
          (compressionForNarUrl (canonicalNarUrl labelledNarinfo.url zeroHash.val)))
        events result := by
  have hverified : Verified default default ['u']
      (toUtf8 "StorePath: /nix/store/x-a\nURL: nar/x.nar.xz\nCompression: xz".toList)
      labelledNarinfo := ⟨by decide, rfl⟩
  obtain ⟨events, result, hrun⟩ := run_keepsServing hverified zeroHash.val
    (compressionForNarUrl (canonicalNarUrl labelledNarinfo.url zeroHash.val))
  refine ⟨events, result, ?_, hrun⟩
  exact (minted_url_servable default default ['u'] zeroHash labelledNarinfo rfl rfl events result
    hrun).1 (.inr (by decide))

/-- An upstream that keeps serving a narinfo of an xz-compressed NAR at `nar/x.nar` is turned
down for the canonical URL minted from it. -/
theorem minted_url_turned_down :
    (default : Registry).narUrlMode ['u'] = .toSelf ∧
      Verified default default ['u']
        (toUtf8 "StorePath: /nix/store/x-a\nURL: nar/x.nar\nCompression: xz".toList)
        mislabelledNarinfo ∧
      (default : Registry).allows ['u'] mislabelledNarinfo = true ∧
      ∃ events, Run (KeepsServing default default ['u'] mislabelledNarinfo)
        (upstreamNarPath default default ['u'] zeroHash.val none
          (compressionForNarUrl (canonicalNarUrl mislabelledNarinfo.url zeroHash.val)))
        events (.error .notFound) := by
  have hverified : Verified default default ['u']
      (toUtf8 "StorePath: /nix/store/x-a\nURL: nar/x.nar\nCompression: xz".toList)
      mislabelledNarinfo := ⟨by decide, rfl⟩
  refine ⟨rfl, hverified, rfl, ?_⟩
  obtain ⟨events, result, hrun⟩ := run_keepsServing hverified zeroHash.val
    (compressionForNarUrl (canonicalNarUrl mislabelledNarinfo.url zeroHash.val))
  have hresult := run_upstreamNarPath rfl hrun
  have hexpected : compressionForNarUrl (canonicalNarUrl mislabelledNarinfo.url zeroHash.val) =
      some "none".toList := by decide
  rw [hexpected] at hresult
  obtain rfl : result = .error .notFound := hresult
  exact ⟨events, hrun⟩

end Ncro
