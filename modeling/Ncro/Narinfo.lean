import Ncro.Foundation.Text
import Mathlib.Algebra.Group.Nat.Defs
import Mathlib.Data.Fintype.Basic

/-!
# Narinfo files

A narinfo describes one store path: `NarInfo.parse` reads it line by line,
`NarInfo.fingerprint` is the text its signatures cover, and `NarInfo.verify`
checks those signatures against one public key. The `ed25519` and base64
routines belong to other libraries and are the fields of `Crypto`; everything
here holds for every choice of them.
-/

namespace Ncro

open Foundation

/-- A Rust string, as its characters. -/
abbrev Str := List Char

/-- A byte vector. -/
abbrev Octets := List UInt8

/-! ## Errors and library routines -/

/-- Why a base64 or hexadecimal text failed to decode. -/
inductive DecodeKind
  | length
  | symbol
  | trailing
  | padding
  deriving DecidableEq, Repr

structure DecodeError where
  position : ℕ
  kind : DecodeKind
  deriving DecidableEq, Repr

/-- Why an unsigned decimal failed to parse. -/
inductive ParseIntError
  | empty
  | invalidDigit
  | posOverflow
  deriving DecidableEq, Repr

inductive NarInfoError
  | io
  | malformedLine (line : Str)
  | missingStorePath
  | parseInt (field : Str) (source : ParseIntError)
  | missingPublicKeySeparator (input : Str)
  | invalidPublicKeyBase64 (input : Str) (source : DecodeError)
  | invalidPublicKeySize (got : ℕ)
  | invalidPublicKeyEncoding (input : Str)
  deriving DecidableEq, Repr

/-- The base64 and `ed25519` routines the program calls. -/
structure Crypto where
  /-- `BASE64.decode`, with padding. -/
  decodeBase64 : Str → Except DecodeError Octets
  /-- `BASE64_NOPAD.decode`. -/
  decodeBase64NoPad : Str → Except DecodeError Octets
  /-- `PublicKey::validate`. -/
  validKey : Octets → Bool
  /-- `PublicKey::verify` of a message and a signature. -/
  verifySignature : Octets → Octets → Octets → Bool

/-- Routines that accept nothing. -/
instance : Inhabited Crypto where
  default :=
    { decodeBase64 := fun _ => .error ⟨0, .symbol⟩
      decodeBase64NoPad := fun _ => .error ⟨0, .symbol⟩
      validKey := fun _ => false
      verifySignature := fun _ _ _ => false }

structure NarInfo where
  storePath : Str := []
  url : Str := []
  compression : Str := []
  fileHash : Str := []
  fileSize : ℕ := 0
  narHash : Str := []
  narSize : ℕ := 0
  references : List Str := []
  deriver : Str := []
  sig : List Str := []
  ca : Str := []
  deriving DecidableEq, Repr

/-! ## Hashes -/

/-- Nix's base32 alphabet. -/
def nixBase32Alphabet : List Char :=
  "0123456789abcdfghijklmnpqrsvwxyz".toList

/-- How many base32 digits `nixBase32Encode` writes for `n` octets. -/
def nixBase32Length (n : ℕ) : ℕ :=
  if n = 0 then 0 else (n * 8 - 1) / 5 + 1

theorem nixBase32Index_lt {n i : ℕ} (h : i < nixBase32Length n) : i * 5 / 8 < n := by
  unfold nixBase32Length at h
  split at h
  · omega
  · omega

/-- The digit with number `i`, counted from the end of the encoding. -/
def nixBase32Digit (bytes : Octets) (i : Fin (nixBase32Length bytes.length)) : Char :=
  let b := i.val * 5
  let lo := (bytes.get ⟨b / 8, nixBase32Index_lt i.isLt⟩).toNat >>> (b % 8)
  let hi := match bytes[b / 8 + 1]? with
    | none => 0
    | some byte => byte.toNat <<< (8 - b % 8)
  nixBase32Alphabet.getD ((lo ||| hi) % 32) '0'

def nixBase32Encode (bytes : Octets) : Str :=
  (List.finRange (nixBase32Length bytes.length)).reverse.map (nixBase32Digit bytes)

def hexDigit? (c : Char) : Option ℕ :=
  if '0' ≤ c ∧ c ≤ '9' then some (c.toNat - '0'.toNat)
  else if 'a' ≤ c ∧ c ≤ 'f' then some (c.toNat - 'a'.toNat + 10)
  else if 'A' ≤ c ∧ c ≤ 'F' then some (c.toNat - 'A'.toNat + 10)
  else none

/-- `HEXLOWER_PERMISSIVE.decode` of a text of even length. -/
def hexDecode : Str → Option Octets
  | [] => some []
  | [_] => none
  | hi :: lo :: rest => do
      let h ← hexDigit? hi
      let l ← hexDigit? lo
      let octets ← hexDecode rest
      return UInt8.ofNat (h * 16 + l) :: octets

/-- A `sha256:` hash in hexadecimal becomes base32; everything else is left
alone. -/
def normalizeNarHash (s : Str) : Str :=
  match s.dropInfix? [':'] with
  | none => s
  | some (algo, digest) =>
      if algo = "sha256".toList ∧ digest.length = 64 ∧
          digest.all (fun c => (hexDigit? c).isSome) then
        match hexDecode digest with
        | some bytes => algo ++ ':' :: nixBase32Encode bytes
        | none => s
      else s

def isStoreHash (hash : Str) : Bool :=
  hash.length = 32 && hash.all fun c => nixBase32Alphabet.contains c

/-- A text that `isStoreHash` accepts. -/
abbrev StoreHash := {hash : Str // isStoreHash hash = true}

def zeroHash : StoreHash := ⟨List.replicate 32 '0', by decide⟩

/-- A store hash has digits of the alphabet only. -/
theorem notMem_of_isStoreHash {hash : Str} {c : Char} (h : isStoreHash hash = true)
    (hc : c ∉ nixBase32Alphabet) : c ∉ hash := by
  simp only [isStoreHash, Bool.and_eq_true, List.all_eq_true] at h
  intro hmem
  exact hc (List.contains_iff_mem.1 (h.2 c hmem))

theorem newline_notMem_of_isStoreHash {hash : Str} (h : isStoreHash hash = true) :
    '\n' ∉ hash :=
  notMem_of_isStoreHash h (by decide)

/-! ## Parsing -/

/-- `str::parse::<u64>` on the digits left, with the value read so far. -/
def parseDigits (acc : ℕ) : Str → Except ParseIntError ℕ
  | [] => .ok acc
  | c :: rest =>
      if '0' ≤ c ∧ c ≤ '9' then
        let next := acc * 10 + (c.toNat - '0'.toNat)
        if next < 2 ^ 64 then parseDigits next rest else .error .posOverflow
      else .error .invalidDigit

/-- `str::parse::<u64>`: decimal digits after an optional plus sign. -/
def parseU64 : Str → Except ParseIntError ℕ
  | [] => .error .empty
  | ['+'] => .error .invalidDigit
  | '+' :: rest => parseDigits 0 rest
  | s => parseDigits 0 s

/-- The characters with the Unicode property `White_Space`. -/
def isWhitespace (c : Char) : Bool :=
  let n := c.toNat
  (9 ≤ n && n ≤ 13) || n = 32 || n = 0x85 || n = 0xA0 || n = 0x1680 ||
    (0x2000 ≤ n && n ≤ 0x200A) || n = 0x2028 || n = 0x2029 || n = 0x202F ||
    n = 0x205F || n = 0x3000

def splitWhitespace (s : Str) : List Str :=
  (s.splitOnP isWhitespace).filter fun part => !part.isEmpty

/-- A line without its terminator, and the terminator. -/
def splitLineEnding (line : Str) : Str × Str :=
  match line.dropSuffix? ['\n'] with
  | none => (line, [])
  | some body =>
      match body.dropSuffix? ['\r'] with
      | none => (body, ['\n'])
      | some body' => (body', ['\r', '\n'])

namespace NarInfo

/-- Store the value of one `key: value` line. Unknown keys, and an empty
`References`, change nothing. -/
def setField (n : NarInfo) (key value : Str) : Except NarInfoError NarInfo :=
  if key = "StorePath".toList then .ok { n with storePath := value }
  else if key = "URL".toList then .ok { n with url := value }
  else if key = "Compression".toList then .ok { n with compression := value }
  else if key = "FileHash".toList then .ok { n with fileHash := value }
  else if key = "FileSize".toList then
    match parseU64 value with
    | .ok size => .ok { n with fileSize := size }
    | .error source => .error (.parseInt "FileSize".toList source)
  else if key = "NarHash".toList then .ok { n with narHash := value }
  else if key = "NarSize".toList then
    match parseU64 value with
    | .ok size => .ok { n with narSize := size }
    | .error source => .error (.parseInt "NarSize".toList source)
  else if key = "References".toList ∧ value ≠ [] then
    .ok { n with references := splitWhitespace value }
  else if key = "Deriver".toList then .ok { n with deriver := value }
  else if key = "Sig".toList then .ok { n with sig := n.sig ++ [value] }
  else if key = "CA".toList then .ok { n with ca := value }
  else .ok n

/-- One line, without its terminator. -/
def parseLine (n : NarInfo) (line : Str) : Except NarInfoError NarInfo :=
  if line = [] then .ok n
  else match line.dropInfix? ": ".toList with
    | none => .error (.malformedLine line)
    | some (key, value) => n.setField key value

/-- One line as it is read from the body, which has to be UTF-8. -/
def parseChunk (n : NarInfo) (chunk : Octets) : Except NarInfoError NarInfo :=
  match fromUtf8 chunk with
  | none => .error .io
  | some text => n.parseLine (splitLineEnding text).1

def parse (body : Octets) : Except NarInfoError NarInfo := do
  let n ← (splitInclusive 10 body).foldlM parseChunk {}
  if n.storePath = [] then .error .missingStorePath else .ok n

/-! ## Signatures -/

def storePrefix : Str := "/nix/store/".toList

/-- The text the signatures of a narinfo cover. -/
def fingerprint (n : NarInfo) : Str :=
  let refs := n.references.map fun reference =>
    if storePrefix.isPrefixOf reference then reference else storePrefix ++ reference
  "1;".toList ++ n.storePath ++ ';' :: normalizeNarHash n.narHash ++
    ';' :: (Nat.repr n.narSize).toList ++ ';' :: List.intercalate [','] refs

end NarInfo

section Signatures

variable (crypto : Crypto)

/-- Standard base64 with or without padding. -/
def decodeBase64Lenient (input : Str) : Except DecodeError Octets :=
  if ['='].isSuffixOf input then crypto.decodeBase64 input
  else crypto.decodeBase64NoPad input

/-- A public key in Nix's `name:base64` form. -/
def parsePublicKey (input : Str) : Except NarInfoError (Str × Octets) :=
  match input.dropInfix? [':'] with
  | none => .error (.missingPublicKeySeparator input)
  | some (name, b64) =>
      if name = [] then .error (.missingPublicKeySeparator input)
      else match decodeBase64Lenient crypto b64 with
        | .error source => .error (.invalidPublicKeyBase64 input source)
        | .ok raw =>
            if raw.length ≠ 32 then .error (.invalidPublicKeySize raw.length)
            else if crypto.validKey raw then .ok (name, raw)
            else .error (.invalidPublicKeyEncoding input)

/-- Whether one `name:base64` signature line is `key`'s signature over
`fingerprint`, under the name `keyName`. -/
def signatureMatches (fingerprint keyName : Str) (key : Octets) (sigLine : Str) : Bool :=
  match sigLine.dropInfix? [':'] with
  | none => false
  | some (name, b64) =>
      if name ≠ keyName then false
      else match crypto.decodeBase64 b64 with
        | .error _ => false
        | .ok raw =>
            raw.length = 64 && crypto.verifySignature key (toUtf8 fingerprint) raw

/-- Whether any of `signatures` is `publicKey`'s signature over `fingerprint`. -/
def verifyFingerprint (fingerprint : Str) (signatures : List Str) (publicKey : Str) :
    Except NarInfoError Bool :=
  match parsePublicKey crypto publicKey with
  | .error err => .error err
  | .ok (keyName, key) => .ok (signatures.any (signatureMatches crypto fingerprint keyName key))

def NarInfo.verify (n : NarInfo) (publicKey : Str) : Except NarInfoError Bool :=
  verifyFingerprint crypto n.fingerprint n.sig publicKey

/-- Some key of the list verifies the narinfo; a key that does not parse
verifies nothing. -/
def narinfoVerifiesAnyKey (n : NarInfo) (publicKeys : List Str) : Bool :=
  publicKeys.any fun publicKey =>
    match n.verify crypto publicKey with
    | .ok verified => verified
    | .error _ => false

/-- The `URL` field is not signed. -/
@[simp] theorem narinfoVerifiesAnyKey_url (n : NarInfo) (url : Str) (publicKeys : List Str) :
    narinfoVerifiesAnyKey crypto { n with url := url } publicKeys =
      narinfoVerifiesAnyKey crypto n publicKeys := rfl

end Signatures

end Ncro
