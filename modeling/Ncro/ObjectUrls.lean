import Ncro.Config.Upstream
import Ncro.Foundation.PercentEncoding
import Ncro.Router.Operations

/-!
# URLs of S3 objects

An S3 upstream asks for the object at a key below its prefix. A key with a dot
segment is refused, and the octets of every other key are percent-encoded after
the host, or after the bucket: the path of the URL has no dot segment and no
query or fragment, and it gives the key back.
-/

namespace Ncro

open Foundation

def S3Scheme.display : S3Scheme → Str
  | .http => "http".toList
  | .https => "https".toList

def S3Config.forcePathStyle (config : S3Config) : Bool :=
  match config.addressingStyle with
  | .path => true
  | .virtual => false
  | .auto => config.endpoint.isSome || config.bucket.contains '.'

/-- DNS suffixes of the non-commercial partitions in the endpoint rules. -/
def dnsSuffix (region : Str) : Str :=
  let suffixes :=
    [("cn-", "amazonaws.com.cn"), ("eusc-", "amazonaws.eu"), ("us-isob-", "sc2s.sgov.gov"),
      ("us-isof-", "csp.hci.ic.gov"), ("us-iso-", "c2s.ic.gov"), ("eu-isoe-", "cloud.adc-e.uk")]
  match suffixes.find? fun (start, _) => start.toList.isPrefixOf region with
  | some (_, suffix) => suffix.toList
  | none => "amazonaws.com".toList

/-- The octets that a path keeps: ASCII letters and digits, and `-._~/`. -/
def keptInPath (octet : UInt8) : Bool :=
  (48 ≤ octet && octet ≤ 57) || (65 ≤ octet && octet ≤ 90) || (97 ≤ octet && octet ≤ 122) ||
    (toUtf8 "-._~/".toList).contains octet

def isDotSegment (segment : Str) : Bool :=
  segment = "..".toList || segment = ".".toList

/-- The key that is looked up in the bucket. -/
def S3Config.fullKey (config : S3Config) (key : Str) : Str :=
  match config.keyPrefix with
  | none => key
  | some start => start ++ '/' :: key

/-- The host of a bucket's endpoint. -/
def S3Config.endpointHost (config : S3Config) : Str :=
  match config.endpoint with
  | none => "s3.".toList ++ config.region ++ '.' :: dnsSuffix config.region
  | some endpoint => endpoint

/-- The part of an object's URL before the path of the key. -/
def S3Config.bucketUrl (config : S3Config) : Str :=
  if config.forcePathStyle then
    config.scheme.display ++ "://".toList ++ config.endpointHost ++ '/' :: config.bucket ++ ['/']
  else
    config.scheme.display ++ "://".toList ++ config.bucket ++ '.' :: config.endpointHost ++ ['/']

def objectUrl (config : S3Config) (key : Str) : Except BackendError Str :=
  let key := config.fullKey key
  if (key.splitOn '/').any isDotSegment then .error (.dotSegment key)
  else .ok (config.bucketUrl ++ percentEncode keptInPath (toUtf8 key))

/-! ## Paths of keys -/

theorem plainOctets_keptInPath : PlainOctets keptInPath where
  ascii := by
    have hall : ∀ n < 256, keptInPath (UInt8.ofNat n) = true → n < 128 := by decide +kernel
    intro octet h
    apply hall octet.toNat octet.toNat_lt
    rwa [UInt8.ofNat_toNat]
  percent := by decide

/-- A segment that stands for `.` or `..`, however it is written. -/
def EncodesDotSegment (segment : Str) : Prop :=
  ∃ dots, isDotSegment dots = true ∧ percentDecode segment = some (toUtf8 dots)

/-- The path of a key in a URL: unreserved characters, slashes and escapes that stand for the
octets of the key, and no dot segment. -/
structure PathOfKey (key path : Str) : Prop where
  encoded : PercentEncoded keptInPath path
  decodes : percentDecode path = some (toUtf8 key)
  noDotSegment : ∀ segment ∈ path.splitOn '/', ¬ EncodesDotSegment segment
  noQuery : '?' ∉ path ∧ '#' ∉ path

theorem notMem_of_percentEncoded {path : Str} {c : Char} (hescape : c ∉ '%' :: hexDigits)
    (hplain : keptInPath (UInt8.ofNat c.toNat) = false)
    (h : PercentEncoded keptInPath path) : c ∉ path := by
  rw [List.mem_cons, not_or] at hescape
  induction h with
  | nil => exact List.not_mem_nil
  | @plain octet text hoctet h ih =>
      rw [List.mem_cons, not_or]
      refine ⟨?_, ih⟩
      intro hsame
      have hcode := toNat_ofNat_ascii (plainOctets_keptInPath.ascii octet hoctet)
      rw [hsame, hcode, UInt8.ofNat_toNat, hoctet] at hplain
      cases hplain
  | escape hhi hlo h ih =>
      simp only [List.mem_cons, not_or]
      exact ⟨hescape.1, fun hsame => hescape.2 (hsame ▸ hhi), fun hsame => hescape.2 (hsame ▸ hlo),
        ih⟩

theorem pathOfKey_percentEncode {key : Str} (h : (key.splitOn '/').any isDotSegment = false) :
    PathOfKey key (percentEncode keptInPath (toUtf8 key)) where
  encoded := percentEncoded_percentEncode (toUtf8 key)
  decodes := percentDecode_percentEncode plainOctets_keptInPath (toUtf8 key)
  noDotSegment := by
    rw [splitOn_percentEncode_toUtf8 plainOctets_keptInPath (by decide) (by decide) (by decide)]
    intro segment hsegment
    rcases List.mem_map.1 hsegment with ⟨part, hpart, rfl⟩
    rintro ⟨dots, hdots, hdecode⟩
    rw [percentDecode_percentEncode plainOctets_keptInPath, Option.some.injEq] at hdecode
    rw [toUtf8_injective hdecode] at hpart
    exact Bool.false_ne_true (h.symm.trans (List.any_eq_true.2 ⟨dots, hpart, hdots⟩))
  noQuery := by
    have hencoded : PercentEncoded keptInPath (percentEncode keptInPath (toUtf8 key)) :=
      percentEncoded_percentEncode (toUtf8 key)
    exact ⟨notMem_of_percentEncoded (by decide) (by decide) hencoded,
      notMem_of_percentEncoded (by decide) (by decide) hencoded⟩

theorem S3Config.fullKey_injective (config : S3Config) : Function.Injective config.fullKey := by
  intro a b h
  unfold S3Config.fullKey at h
  split at h
  · exact h
  · exact (List.cons.inj (List.append_cancel_left h)).2

theorem objectUrl_eq_ok_iff {config : S3Config} {key url : Str} :
    objectUrl config key = .ok url ↔
      ((config.fullKey key).splitOn '/').any isDotSegment = false ∧
        config.bucketUrl ++ percentEncode keptInPath (toUtf8 (config.fullKey key)) = url := by
  unfold objectUrl
  dsimp only
  split
  · next h => simp [h]
  · next h => simp [h]

/-- S3 object URLs are safe and injective: a key is refused exactly for a dot segment of the full
key; else the path after the host and the bucket is a `PathOfKey`, below the path of the prefix;
and no two keys have the same URL. -/
theorem objectUrl_safe (config : S3Config) :
    (∀ key, (∃ err, objectUrl config key = .error err) ↔
      ∃ segment ∈ (config.fullKey key).splitOn '/',
        segment = ".".toList ∨ segment = "..".toList) ∧
    (∀ key url, objectUrl config key = .ok url →
      ∃ path, url = config.bucketUrl ++ path ∧ PathOfKey (config.fullKey key) path ∧
        ∀ start, config.keyPrefix = some start →
          ∃ below, path = percentEncode keptInPath (toUtf8 start) ++ '/' :: below) ∧
    (∀ key₁ key₂ url, objectUrl config key₁ = .ok url → objectUrl config key₂ = .ok url →
      key₁ = key₂) := by
  refine ⟨?_, ?_, ?_⟩
  · intro key
    have hdots : ((config.fullKey key).splitOn '/').any isDotSegment = true ↔
        ∃ segment ∈ (config.fullKey key).splitOn '/',
          segment = ".".toList ∨ segment = "..".toList := by
      simp [isDotSegment, or_comm]
    rw [← hdots]
    unfold objectUrl
    dsimp only
    split
    · next h => simp [h]
    · next h => simp [h]
  · intro key url h
    rcases objectUrl_eq_ok_iff.1 h with ⟨hdots, rfl⟩
    refine ⟨_, rfl, pathOfKey_percentEncode hdots, ?_⟩
    intro start hstart
    refine ⟨percentEncode keptInPath (toUtf8 key), ?_⟩
    have hfull : config.fullKey key = start ++ (['/'] ++ key) := by
      simp [S3Config.fullKey, hstart]
    rw [hfull, toUtf8_append, toUtf8_append, percentEncode_append, percentEncode_append]
    rfl
  · intro key₁ key₂ url h₁ h₂
    have hsame := (objectUrl_eq_ok_iff.1 h₁).2.trans (objectUrl_eq_ok_iff.1 h₂).2.symm
    apply config.fullKey_injective
    apply toUtf8_injective
    exact percentEncode_injective plainOctets_keptInPath (List.append_cancel_left hsame)

/-- A bucket behind an endpoint of its own, with a prefix. -/
def prefixedBucket : S3Config where
  bucket := "cache".toList
  keyPrefix := some "a b".toList
  endpoint := some "s3.example.org".toList
  scheme := .http
  region := "garage".toList
  profile := none
  addressingStyle := .auto

/-- A key with dots that are escaped already. -/
theorem objectUrl_safe_escaped_dots :
    objectUrl prefixedBucket "nar/%2e%2E?é".toList =
        .ok "http://s3.example.org/cache/a%20b/nar/%252e%252E%3F%C3%A9".toList ∧
      ∃ path, "http://s3.example.org/cache/a%20b/nar/%252e%252E%3F%C3%A9".toList =
        prefixedBucket.bucketUrl ++ path ∧
          PathOfKey (prefixedBucket.fullKey "nar/%2e%2E?é".toList) path := by
  have hok : objectUrl prefixedBucket "nar/%2e%2E?é".toList =
      .ok "http://s3.example.org/cache/a%20b/nar/%252e%252E%3F%C3%A9".toList := by decide
  rcases (objectUrl_safe prefixedBucket).2.1 _ _ hok with ⟨path, hurl, hpath, -⟩
  exact ⟨hok, path, hurl, hpath⟩

end Ncro
