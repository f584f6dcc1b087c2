import Ncro.Router.SignatureGate
import Ncro.Server.Realisation

/-!
# What the signatures of accepted answers cover

An answer that is accepted from an upstream with keys carries a signature of one of them. What
the signature is over is taken from the answer: a narinfo and a legacy realisation are
accepted whichever store path or derivation output they are for. Only a build trace is bound
to the request, as its fingerprint contains the derivation output that was asked for.
-/

namespace Ncro

open Foundation Foundation.Process

/-- One of some lines is the signature of one of some keys over a text. -/
def SignedBy (crypto : Crypto) (publicKeys signatures : List Str) (text : Str) : Prop :=
  ∃ publicKey ∈ publicKeys, ∃ name key, parsePublicKey crypto publicKey = .ok (name, key) ∧
    ∃ base64 signature, name ++ ':' :: base64 ∈ signatures ∧
      crypto.decodeBase64 base64 = .ok signature ∧ signature.length = 64 ∧
      crypto.verifySignature key (toUtf8 text) signature = true

section

variable {json : JsonReader} {crypto : Crypto} {reg : Registry} {upstream : Str}
  {publicKeys : List Str}

theorem signedBy_of_verifyFingerprint {signatures : List Str} {text publicKey : Str}
    (hmem : publicKey ∈ publicKeys)
    (h : verifyFingerprint crypto text signatures publicKey = .ok true) :
    SignedBy crypto publicKeys signatures text := by
  unfold verifyFingerprint at h
  split at h
  · cases h
  next name key hkey =>
  obtain ⟨line, hline, hmatches⟩ := List.any_eq_true.1 (Except.ok.inj h)
  unfold signatureMatches at hmatches
  split at hmatches
  · cases hmatches
  next lineName base64 hdrop =>
  split at hmatches
  · cases hmatches
  next hname =>
  split at hmatches
  · cases hmatches
  next signature hdecode =>
  obtain rfl : lineName = name := not_not.1 hname
  rw [eq_append_of_dropInfix?_singleton hdrop] at hline
  simp only [Bool.and_eq_true, decide_eq_true_eq] at hmatches
  exact ⟨publicKey, hmem, lineName, key, hkey, base64, signature, hline, hdecode, hmatches.1,
    hmatches.2⟩

/-- A verified narinfo is signed. -/
theorem Verified.signedBy {body : Octets} {parsed : NarInfo}
    (h : Verified crypto reg upstream body parsed)
    (hkeys : reg.upstreamKeys upstream = some publicKeys) :
    SignedBy crypto publicKeys parsed.sig parsed.fingerprint := by
  have hverifies := h.verifies
  rw [Registry.verifies, hkeys] at hverifies
  obtain ⟨publicKey, hmem, hverify⟩ := List.any_eq_true.1 hverifies
  split at hverify
  · next verified heq =>
    subst hverify
    exact signedBy_of_verifyFingerprint hmem heq
  · cases hverify

/-- A trusted realisation is signed. -/
theorem signedBy_of_realisationTrusted {id : DrvOutput} {body : Octets}
    (hkeys : reg.upstreamKeys upstream = some publicKeys)
    (h : realisationTrusted json crypto reg upstream id body = true) :
    ∃ realisation, Realisation.parse json body id = some realisation ∧
      SignedBy crypto publicKeys realisation.signatures realisation.fingerprint := by
  rw [realisationTrusted, hkeys] at h
  dsimp only at h
  split at h
  · cases h
  next realisation hparse =>
  obtain ⟨publicKey, hmem, hverify⟩ := List.any_eq_true.1 h
  refine ⟨realisation, hparse, ?_⟩
  split at hverify
  · next verified heq =>
    subst hverify
    exact signedBy_of_verifyFingerprint hmem heq
  · cases hverify

end

/-- Content that is accepted from an upstream with keys carries a signature of one of them: a
narinfo over what it says itself, a build trace over the derivation output that was asked for
and the path in its body, and a legacy realisation over its own JSON without the signatures.
The text signed for a build trace is that of no other derivation output. -/
theorem verified_answers_signed (json : JsonReader) (crypto : Crypto) (reg : Registry)
    (upstream : Str) (publicKeys : List Str)
    (hkeys : reg.upstreamKeys upstream = some publicKeys) :
    (∀ allowed storeHash hop events body narinfo,
      Run allowed (fetchNarinfo crypto reg upstream storeHash hop) events (.ok (body, narinfo)) →
        ∃ bytes, body = some bytes ∧ NarInfo.parse bytes = .ok narinfo ∧
          SignedBy crypto publicKeys narinfo.sig narinfo.fingerprint) ∧
    (∀ drvPath outputName body,
      realisationTrusted json crypto reg upstream (.buildTrace drvPath outputName) body = true →
        ∃ trace : BuildTraceBody, (json.tree body).bind BuildTraceBody.fromJson = some trace ∧
          SignedBy crypto publicKeys (trace.signatures.map WireSignature.toText)
            (buildTraceFingerprint drvPath outputName trace.outPath) ∧
          ∀ drvPath' outputName' outPath',
            buildTraceFingerprint drvPath outputName trace.outPath =
                buildTraceFingerprint drvPath' outputName' outPath' →
              drvPath = drvPath' ∧ outputName = outputName' ∧ trace.outPath = outPath') ∧
    ∀ body, realisationTrusted json crypto reg upstream .legacy body = true →
      ∃ fields signatures, json.value body = some (.object fields) ∧
        (fields.lookup "signatures".toList).bind WireSignature.listFromJson = some signatures ∧
        SignedBy crypto publicKeys (signatures.map WireSignature.toText)
          (legacyFingerprint fields) := by
  refine ⟨fun allowed storeHash hop events body narinfo h => ?_,
    fun drvPath outputName body h => ?_, fun body h => ?_⟩
  · obtain ⟨reply, tail, rfl, -, h⟩ := run_call_bind_iff.1 h
    obtain ⟨bytes, rfl, rfl, hverified⟩ := eq_of_checkNarinfo_eq_ok (run_ret_iff.1 h).2
    exact ⟨bytes, rfl, hverified.parse, hverified.signedBy hkeys⟩
  · obtain ⟨realisation, hparse, hsigned⟩ := signedBy_of_realisationTrusted hkeys h
    obtain ⟨trace, htrace, heq⟩ := Option.bind_eq_some_iff.1 hparse
    cases heq
    exact ⟨trace, htrace, hsigned, fun _ _ _ => buildTraceFingerprint_inj⟩
  · obtain ⟨realisation, hparse, hsigned⟩ := signedBy_of_realisationTrusted hkeys h
    obtain ⟨value, hvalue, hparse⟩ := Option.bind_eq_some_iff.1 hparse
    split at hparse
    · next fields =>
      obtain ⟨signatures, hsignatures, heq⟩ := Option.bind_eq_some_iff.1 hparse
      cases heq
      refine ⟨fields, signatures, hvalue, ?_, hsigned⟩
      split at hsignatures
      · cases hsignatures
        obtain ⟨publicKey, -, name, key, -, base64, signature, hmem, -⟩ := hsigned
        cases hmem
      · next value hlookup => rw [hlookup, Option.bind_some, hsignatures]
    · cases hparse

/-! ## Answers for other objects -/

/-- Routines under which a signature is good for one text only. -/
def signs (text : Str) : Crypto :=
  { trustingCrypto with verifySignature := fun _ message _ => message = toUtf8 text }

/-- The legacy realisation of output `a!out`. -/
def realisationOfA : Octets :=
  toUtf8 "\x7b\"id\":\"a!out\",\"outPath\":\"x-a\",\"signatures\":[\"k:x\"]\x7d".toList

def fieldsOfA : List (Str × Json) :=
  [("id".toList, .string "a!out".toList), ("outPath".toList, .string "x-a".toList),
    ("signatures".toList, .array [.string "k:x".toList])]

/-- Routines that read this realisation. -/
def readsA : JsonReader where
  tree body := if body = realisationOfA then some (.object fieldsOfA) else none
  value body := if body = realisationOfA then some (.object fieldsOfA) else none

def narinfoOfA : NarInfo :=
  { storePath := "/nix/store/x-a".toList, sig := [['k', ':', 'x']] }

/-- The narinfo is accepted, whatever the hash it was asked for. -/
theorem run_fetchNarinfo_narinfoOfA (storeHash : Str) :
    Run (fun _ _ => True)
      (fetchNarinfo (signs narinfoOfA.fingerprint) keyOfU ['u'] storeHash .client)
      [⟨.getBytes (narinfoRequest keyOfU ['u'] storeHash .client), .ok (some signedBody)⟩]
      (.ok (some signedBody, narinfoOfA)) := by
  have hparse : NarInfo.parse signedBody = .ok narinfoOfA := by decide
  have hcheck : checkNarinfo (signs narinfoOfA.fingerprint) keyOfU ['u'] (.ok (some signedBody)) =
      .ok (some signedBody, narinfoOfA) := by
    simp only [checkNarinfo, hparse]
    exact if_pos (by decide)
  rw [← hcheck]
  exact .perform trivial (.ret _)

theorem verified_answers_signed_narinfoOfA :
    SignedBy (signs narinfoOfA.fingerprint) [['k', ':', 'x']] narinfoOfA.sig
      narinfoOfA.fingerprint := by
  have hall := verified_answers_signed readsA (signs narinfoOfA.fingerprint) keyOfU ['u']
    [['k', ':', 'x']] rfl
  obtain ⟨bytes, -, -, hsigned⟩ := hall.1 _ _ _ _ _ _ (run_fetchNarinfo_narinfoOfA zeroHash.val)
  exact hsigned

/-- The instance with a key for upstream `u`. -/
def appOfU : AppState := { (default : AppState) with registry := keyOfU }

/-- The signed narinfo of `x-a` is accepted for another hash, and the signed realisation of
output `a!out` is served for output `b!out`. -/
theorem answers_for_other_objects :
    (∃ events body narinfo,
      Run (fun _ _ => True)
        (fetchNarinfo (signs narinfoOfA.fingerprint) keyOfU ['u'] zeroHash.val .client) events
        (.ok (body, narinfo)) ∧
      ¬(zeroHash.val ++ ['-']) <+: narinfo.storePath.rtakeWhile (· ≠ '/')) ∧
    readsA.value realisationOfA = some (.object fieldsOfA) ∧
    fieldsOfA.lookup "id".toList = some (.string "a!out".toList) ∧
    ∃ events,
      Run (RealisationWorld [.new ['u'] 0] (fun _ => some (.found none realisationOfA)) .missing)
        (legacyRealisation readsA (signs (legacyFingerprint fieldsOfA)) appOfU "b!out.doi".toList
          ⟨.get, "/realisations/b!out.doi".toList, [], []⟩) events
        (realisationResponse none realisationOfA ['u'] .race) := by
  have hvalue : readsA.value realisationOfA = some (.object fieldsOfA) := by simp [readsA]
  refine ⟨⟨_, _, _, run_fetchNarinfo_narinfoOfA zeroHash.val, by decide⟩, hvalue, rfl, ?_⟩
  have htrusted : realisationTrusted readsA (signs (legacyFingerprint fieldsOfA)) keyOfU ['u']
      .legacy realisationOfA = true := by decide
  obtain ⟨events, response, hrun⟩ := exists_run_realisation readsA
    (signs (legacyFingerprint fieldsOfA)) appOfU .legacy [.new ['u'] 0]
    (fun _ => some (.found none realisationOfA)) .missing "/realisations/b!out.doi".toList .client
  have hspec := run_realisation (by decide) hrun
  have hattempts : realisationAttempts appOfU (upstreamUrlsOf appOfU [.new ['u'] 0]) =
      [⟨0, ['u']⟩] := by decide
  rw [hattempts] at hspec
  have hok := hspec.ok_iff.2 (.inl ⟨_, List.mem_singleton_self _, htrusted⟩)
  obtain ⟨attempt, hmem, contentType, body, houtcome, -, rfl⟩ | ⟨huntrusted, -⟩ := hspec.trusted hok
  · obtain rfl := List.mem_singleton.1 hmem
    cases houtcome
    exact ⟨events, hrun⟩
  · exact absurd htrusted (huntrusted _ (List.mem_singleton_self _))

end Ncro
