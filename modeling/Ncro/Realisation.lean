import Ncro.Foundation.Json
import Ncro.Narinfo

/-!
# Realisations

A realisation maps a derivation output to its store path. In the build-trace format the
signatures cover the derivation output that was asked for, as well as the path in the body; in
the legacy format they cover the body itself.

How a body is read as JSON belongs to another library: `JsonReader` says which trees it gives.
-/

namespace Ncro

open Foundation

/-- The JSON routines the program calls. -/
structure JsonReader where
  /-- The tree of a text as it is written: what `serde_json::from_slice` hands to a type that is
  read from it. -/
  tree : Octets → Option Json
  /-- `serde_json::from_slice::<Value>`: the fields of every object are sorted, of repeated ones
  the last is kept, and numbers are as they are written back. -/
  value : Octets → Option Json

/-- The derivation output a `.doi` was fetched for. -/
inductive DrvOutput
  /-- `build-trace-v2/<drv>/<output>.doi`. -/
  | buildTrace (drvPath outputName : Str)
  /-- `realisations/<drv hash>!<output>.doi`. -/
  | legacy
  deriving DecidableEq

/-! ## Reading bodies -/

/-- A field that may be missing, but not repeated. -/
def optionalField (name : Str) (fields : List (Str × Json)) : Option (Option Json) :=
  match fields.filter fun field => field.1 = name with
  | [] => some none
  | [field] => some (some field.2)
  | _ => none

/-- A field with a text. -/
def textField (name : Str) (fields : List (Str × Json)) : Option Str :=
  match optionalField name fields with
  | some (some (.string text)) => some text
  | _ => none

/-- Nix accepts a signature either as `name:base64` or as an object. -/
inductive WireSignature
  | text (text : Str)
  | object (keyName sig : Str)
  deriving DecidableEq

namespace WireSignature

def fromJson : Json → Option WireSignature
  | .string s => some (.text s)
  | .object fields => do
      let keyName ← textField "keyName".toList fields
      let sig ← textField "sig".toList fields
      return .object keyName sig
  | _ => none

/-- `String::from`. -/
def toText : WireSignature → Str
  | .text line => line
  | .object keyName sig => keyName ++ ':' :: sig

/-- `Vec<WireSignature>`. -/
def listFromJson : Json → Option (List WireSignature)
  | .array values => values.mapM fromJson
  | _ => none

end WireSignature

structure BuildTraceBody where
  outPath : Str
  signatures : List WireSignature
  deriving DecidableEq

/-- The body of a build trace, as an object or as the list of its fields. -/
def BuildTraceBody.fromJson : Json → Option BuildTraceBody
  | .object fields => do
      let outPath ← textField "outPath".toList fields
      let signatures ← (match ← optionalField "signatures".toList fields with
        | none => some []
        | some value => WireSignature.listFromJson value)
      return ⟨outPath, signatures⟩
  | .array [.string outPath] => some ⟨outPath, []⟩
  | .array [.string outPath, value] => do
      let signatures ← WireSignature.listFromJson value
      return ⟨outPath, signatures⟩
  | _ => none

/-! ## Fingerprints -/

/-- The text that the signatures of a build trace cover. -/
def buildTraceFingerprint (drvPath outputName outPath : Str) : Str :=
  Json.print (.object [
    ("key".toList, .object [
      ("drvPath".toList, .string drvPath),
      ("outputName".toList, .string outputName)]),
    ("value".toList, .object [("outPath".toList, .string outPath)])])

/-- The text that the signatures of a legacy realisation cover: Legacy Nix signs its own JSON
minus `signatures`. -/
def legacyFingerprint (fields : List (Str × Json)) : Str :=
  Json.print (.object (fields.filter fun field => field.1 ≠ "signatures".toList))

/-- A build trace's fingerprint is that of no other derivation output or path. -/
theorem buildTraceFingerprint_inj {drvPath outputName outPath drvPath' outputName' outPath' : Str}
    (h : buildTraceFingerprint drvPath outputName outPath =
      buildTraceFingerprint drvPath' outputName' outPath') :
    drvPath = drvPath' ∧ outputName = outputName' ∧ outPath = outPath' := by
  simp only [buildTraceFingerprint, Json.print, Json.printFields, List.append_assoc,
    List.cons_append, List.cons.injEq, true_and, List.append_cancel_left_eq] at h
  obtain ⟨hdrv, h⟩ := quote_append_inj h
  simp only [List.cons.injEq, true_and, List.append_cancel_left_eq] at h
  obtain ⟨houtput, h⟩ := quote_append_inj h
  simp only [List.cons.injEq, true_and, List.append_cancel_left_eq] at h
  obtain ⟨hout, -⟩ := quote_append_inj h
  exact ⟨hdrv, houtput, hout⟩

structure Realisation where
  fingerprint : Str
  signatures : List Str
  deriving DecidableEq

namespace Realisation

variable (json : JsonReader) (crypto : Crypto)

/-- Parse a `.doi` body, and compute the fingerprint its signatures cover; without a result for
a `RealisationError`. -/
def parse (body : Octets) : DrvOutput → Option Realisation
  | .buildTrace drvPath outputName => do
      let body ← (json.tree body).bind BuildTraceBody.fromJson
      return ⟨buildTraceFingerprint drvPath outputName body.outPath,
        body.signatures.map WireSignature.toText⟩
  | .legacy => do
      match ← json.value body with
      | .object fields =>
          let signatures ← (match fields.lookup "signatures".toList with
            | none => some []
            | some value => WireSignature.listFromJson value)
          return ⟨legacyFingerprint fields, signatures.map WireSignature.toText⟩
      | _ => none

def verify (realisation : Realisation) (publicKey : Str) : Except NarInfoError Bool :=
  verifyFingerprint crypto realisation.fingerprint realisation.signatures publicKey

end Realisation

end Ncro
