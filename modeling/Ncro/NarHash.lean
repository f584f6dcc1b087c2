import Ncro.Narinfo
import Ncro.Foundation.Digits

/-!
# Hash normalisation

Nix's base32 of some octets is their little-endian number in base 32, written
with the most significant digit first and with as many digits as the octets can
need. Hence it determines the octets when their count is known, and a `sha256:`
hash has one normal form, however its hexadecimal digits are written.
-/

namespace Ncro

open Foundation

/-! ## Base32 -/

/-- The value of a base32 digit. -/
def nixBase32Value (c : Char) : ℕ :=
  nixBase32Alphabet.idxOf c

/-- The number of digits, rounded up. -/
theorem nixBase32Length_eq (n : ℕ) : nixBase32Length n = (8 * n + 4) / 5 := by
  unfold nixBase32Length
  split
  · omega
  · omega

@[simp] theorem length_nixBase32Encode (bytes : Octets) :
    (nixBase32Encode bytes).length = nixBase32Length bytes.length := by
  simp [nixBase32Encode]

/-- The digits are enough for every number of as many octets. -/
theorem ofOctets_lt_pow_nixBase32Length (bytes : Octets) :
    ofOctets bytes < 32 ^ nixBase32Length bytes.length := by
  have hlt := ofOctets_lt bytes
  have hpow : 256 ^ bytes.length ≤ 32 ^ nixBase32Length bytes.length := by
    have h256 : (256 : ℕ) = 2 ^ 8 := by decide
    have h32 : (32 : ℕ) = 2 ^ 5 := by decide
    rw [h256, h32, ← Nat.pow_mul, ← Nat.pow_mul]
    apply Nat.pow_le_pow_right (by decide)
    rw [nixBase32Length_eq]
    omega
  omega

/-- The five bits from bit `r` of octet `q` on. -/
theorem nixBase32_window (bytes : Octets) {q r : ℕ} (hq : q < bytes.length) (hr : r < 8) :
    ((bytes.get ⟨q, hq⟩).toNat >>> r ||| match bytes[q + 1]? with
      | none => 0
      | some byte => byte.toNat <<< (8 - r)) % 32 = ofOctets (bytes.drop q) / 2 ^ r % 32 := by
  have hlo : (bytes.get ⟨q, hq⟩).toNat < 256 := UInt8.toNat_lt _
  rw [List.drop_eq_getElem_cons hq, ofOctets_cons]
  cases hnext : bytes[q + 1]? with
  | none =>
      have hlast : bytes.drop (q + 1) = [] :=
        List.drop_eq_nil_of_le (List.getElem?_eq_none_iff.1 hnext)
      have hwindow : ((bytes.get ⟨q, hq⟩).toNat >>> r ||| 0 <<< (8 - r)) % 2 ^ 5 =
          ((bytes.get ⟨q, hq⟩).toNat + 256 * (0 + 256 * 0)) / 2 ^ r % 2 ^ 5 :=
        octets_window hlo hr (by decide)
      rw [Nat.zero_shiftLeft] at hwindow
      rw [hlast]
      exact hwindow
  | some next =>
      rcases List.getElem?_eq_some_iff.1 hnext with ⟨hlength, rfl⟩
      rw [List.drop_eq_getElem_cons hlength, ofOctets_cons]
      exact octets_window hlo hr (by decide : 5 ≤ 8)

/-- What `nixBase32Digit` takes from the octets is a base-32 digit of their number. -/
theorem nixBase32Digit_eq (bytes : Octets) (i : Fin (nixBase32Length bytes.length)) :
    nixBase32Digit bytes i =
      nixBase32Alphabet.getD (ofOctets bytes / 32 ^ i.val % 32) '0' := by
  have hpow : 32 ^ i.val = 256 ^ (i.val * 5 / 8) * 2 ^ (i.val * 5 % 8) := by
    have h256 : (256 : ℕ) = 2 ^ 8 := by decide
    have h32 : (32 : ℕ) = 2 ^ 5 := by decide
    rw [h256, h32, ← Nat.pow_mul, ← Nat.pow_mul, ← Nat.pow_add]
    congr 1
    omega
  rw [hpow, ← Nat.div_div_eq_div_mul, ofOctets_div_pow,
    ← nixBase32_window bytes (nixBase32Index_lt i.isLt) (Nat.mod_lt _ (by decide))]
  rfl

/-- Every value has its digit in the alphabet. -/
theorem nixBase32Value_getD {n : ℕ} (h : n < 32) :
    nixBase32Value (nixBase32Alphabet.getD n '0') = n := by
  have hall : ∀ n < 32, nixBase32Value (nixBase32Alphabet.getD n '0') = n := by decide
  exact hall n h

theorem mem_nixBase32Encode {bytes : Octets} {c : Char} (h : c ∈ nixBase32Encode bytes) :
    c ∈ nixBase32Alphabet := by
  rcases List.mem_map.1 h with ⟨i, -, rfl⟩
  have hall : ∀ n < 32, nixBase32Alphabet.getD n '0' ∈ nixBase32Alphabet := by decide
  rw [nixBase32Digit_eq]
  exact hall _ (Nat.mod_lt _ (by decide))

/-- From its end to its start the encoding has the base-32 digits of the octets' number. -/
theorem nixBase32Encode_reverse (bytes : Octets) :
    (nixBase32Encode bytes).reverse.map nixBase32Value =
      lowDigits 32 (nixBase32Length bytes.length) (ofOctets bytes) := by
  rw [nixBase32Encode, ← List.map_reverse, List.reverse_reverse, List.map_map, lowDigits,
    ← List.map_coe_finRange_eq_range, List.map_map]
  apply List.map_congr_left
  intro i _
  simp only [Function.comp_apply, nixBase32Digit_eq]
  exact nixBase32Value_getD (Nat.mod_lt _ (by decide))

theorem nixBase32Encode_inj {a b : Octets} (hlength : a.length = b.length) :
    nixBase32Encode a = nixBase32Encode b ↔ a = b := by
  constructor
  · intro h
    have hdigits := congrArg (fun s => s.reverse.map nixBase32Value) h
    simp only [nixBase32Encode_reverse, hlength] at hdigits
    have ha := ofOctets_lt_pow_nixBase32Length a
    rw [hlength] at ha
    exact (ofOctets_inj hlength).1
      (lowDigits_inj ha (ofOctets_lt_pow_nixBase32Length b) hdigits)
  · exact congrArg nixBase32Encode

/-! ## Hexadecimal -/

/-- A hexadecimal spelling of some octets: two digits for each, in any case. -/
inductive HexSpells : Str → Octets → Prop
  | nil : HexSpells [] []
  | cons {hi lo : Char} {octet : UInt8} {hex : Str} {octets : Octets}
      (hhi : hexDigit? hi = some (octet.toNat / 16))
      (hlo : hexDigit? lo = some (octet.toNat % 16)) (h : HexSpells hex octets) :
      HexSpells (hi :: lo :: hex) (octet :: octets)

theorem HexSpells.length {hex : Str} {octets : Octets} (h : HexSpells hex octets) :
    hex.length = 2 * octets.length := by
  induction h with
  | nil => rfl
  | cons _ _ _ ih =>
      simp only [List.length_cons]
      omega

theorem HexSpells.isSome {hex : Str} {octets : Octets} (h : HexSpells hex octets) :
    hex.all (fun c => (hexDigit? c).isSome) = true := by
  induction h with
  | nil => rfl
  | cons hhi hlo _ ih => simp [hhi, hlo, ih]

/-- A spelling is decoded to what it spells. -/
theorem HexSpells.hexDecode {hex : Str} {octets : Octets} (h : HexSpells hex octets) :
    hexDecode hex = some octets := by
  induction h with
  | nil => rfl
  | @cons hi lo octet hex octets hhi hlo _ ih =>
      have hoctet : UInt8.ofNat (octet.toNat / 16 * 16 + octet.toNat % 16) = octet := by
        rw [Nat.div_add_mod']
        exact UInt8.ofNat_toNat
      simp only [Ncro.hexDecode, hhi, hlo, ih, Option.bind_eq_bind, Option.bind_some, hoctet]
      rfl

theorem length_of_hexDecode {hex : Str} {octets : Octets} (h : hexDecode hex = some octets) :
    hex.length = 2 * octets.length := by
  induction hex using hexDecode.induct generalizing octets with
  | case1 =>
      cases h
      rfl
  | case2 => cases h
  | case3 hi lo rest ih =>
      simp only [hexDecode, Option.bind_eq_bind, Option.bind_eq_some_iff] at h
      rcases h with ⟨_, _, _, _, tail, htail, h⟩
      cases h
      simp only [List.length_cons, ih htail]
      omega

/-! ## Normal forms -/

/-- What becomes of a `sha256:` hash. -/
theorem normalizeNarHash_sha256 (digest : Str) :
    normalizeNarHash ("sha256:".toList ++ digest) =
      if digest.length = 64 ∧ digest.all (fun c => (hexDigit? c).isSome) then
        match hexDecode digest with
        | some bytes => "sha256:".toList ++ nixBase32Encode bytes
        | none => "sha256:".toList ++ digest
      else "sha256:".toList ++ digest := by
  have hsplit : ("sha256:".toList ++ digest).dropInfix? [':'] =
      some ("sha256".toList, digest) :=
    dropInfix?_singleton (by decide : ':' ∉ "sha256".toList)
  unfold normalizeNarHash
  rw [hsplit]
  simp only [true_and]
  rfl

/-- A hexadecimal hash becomes base32. -/
theorem normalizeNarHash_hex {hex : Str} {digest : Octets} (hdigest : digest.length = 32)
    (h : HexSpells hex digest) :
    normalizeNarHash ("sha256:".toList ++ hex) =
      "sha256:".toList ++ nixBase32Encode digest := by
  have hlength : hex.length = 64 := by
    rw [h.length, hdigest]
  rw [normalizeNarHash_sha256, if_pos ⟨hlength, h.isSome⟩, h.hexDecode]

/-- A base32 hash is too short to be taken for a hexadecimal one. -/
theorem normalizeNarHash_base32 {digest : Octets} (hdigest : digest.length = 32) :
    normalizeNarHash ("sha256:".toList ++ nixBase32Encode digest) =
      "sha256:".toList ++ nixBase32Encode digest := by
  rw [normalizeNarHash_sha256, if_neg]
  rw [length_nixBase32Encode, hdigest]
  exact fun h => absurd h.1 (by decide)

/-- A hash is left alone, or becomes the base32 of a digest. -/
theorem normalizeNarHash_cases (s : Str) :
    normalizeNarHash s = s ∨ ∃ digest : Octets, digest.length = 32 ∧
      normalizeNarHash s = "sha256:".toList ++ nixBase32Encode digest := by
  by_cases hcolon : ':' ∈ s
  · rcases List.eq_append_cons_of_mem hcolon with ⟨algo, digest, rfl, halgo⟩
    unfold normalizeNarHash
    rw [dropInfix?_singleton halgo]
    dsimp only
    split
    · next hhex =>
      cases hbytes : hexDecode digest with
      | none => exact Or.inl rfl
      | some bytes =>
          have hlength := length_of_hexDecode hbytes
          refine Or.inr ⟨bytes, ?_, ?_⟩
          · omega
          · rw [hhex.1]
            rfl
    · exact Or.inl rfl
  · unfold normalizeNarHash
    rw [dropInfix?_singleton_eq_none hcolon]
    exact Or.inl rfl

theorem normalizeNarHash_idem (s : Str) :
    normalizeNarHash (normalizeNarHash s) = normalizeNarHash s := by
  rcases normalizeNarHash_cases s with hself | ⟨digest, hdigest, hbase32⟩
  · rw [hself, hself]
  · rw [hbase32, normalizeNarHash_base32 hdigest]

/-- A hash of a digest, in hexadecimal or in base32. -/
def SpellsDigest (hash : Str) (digest : Octets) : Prop :=
  (∃ hex, HexSpells hex digest ∧ hash = "sha256:".toList ++ hex) ∨
    hash = "sha256:".toList ++ nixBase32Encode digest

theorem SpellsDigest.normalizeNarHash {hash : Str} {digest : Octets}
    (hdigest : digest.length = 32) (h : SpellsDigest hash digest) :
    normalizeNarHash hash = "sha256:".toList ++ nixBase32Encode digest := by
  rcases h with ⟨hex, hhex, rfl⟩ | rfl
  · exact normalizeNarHash_hex hdigest hhex
  · exact normalizeNarHash_base32 hdigest

/-- Fingerprints of narinfos that differ in the hash only. -/
theorem fingerprint_narHash_inj (n : NarInfo) (a b : Str) :
    NarInfo.fingerprint { n with narHash := a } = NarInfo.fingerprint { n with narHash := b } ↔
      normalizeNarHash a = normalizeNarHash b := by
  simp only [NarInfo.fingerprint, List.append_cancel_right_eq, List.append_cancel_left_eq,
    List.cons.injEq, true_and]

/-- Hash normalisation is faithful: base32 writes the little-endian number of the octets, without
reading beyond them, and so tells octets of equal number apart; every spelling of a digest has the
same normal form; and fingerprints tell exactly the digests apart. -/
theorem normalizeNarHash_faithful :
    (∀ bytes : Octets,
      (∀ i < nixBase32Length bytes.length, i * 5 / 8 < bytes.length) ∧
      (nixBase32Encode bytes).length = (8 * bytes.length + 4) / 5 ∧
      (nixBase32Encode bytes).reverse.map nixBase32Value =
        lowDigits 32 (nixBase32Length bytes.length) (ofOctets bytes) ∧
      (∀ c ∈ nixBase32Encode bytes, c ∈ nixBase32Alphabet) ∧
      ofOctets bytes < 32 ^ (nixBase32Encode bytes).length) ∧
    (∀ a b : Octets, a.length = b.length → nixBase32Encode a = nixBase32Encode b → a = b) ∧
    (∀ (digest : Octets) (hex : Str), digest.length = 32 → HexSpells hex digest →
      normalizeNarHash ("sha256:".toList ++ hex) =
        "sha256:".toList ++ nixBase32Encode digest) ∧
    (∀ s, normalizeNarHash (normalizeNarHash s) = normalizeNarHash s) ∧
    (∀ (n : NarInfo) (hashA hashB : Str) (a b : Octets), a.length = 32 → b.length = 32 →
      SpellsDigest hashA a → SpellsDigest hashB b →
      (NarInfo.fingerprint { n with narHash := hashA } =
        NarInfo.fingerprint { n with narHash := hashB } ↔ a = b)) := by
  refine ⟨?_, ?_, ?_, normalizeNarHash_idem, ?_⟩
  · intro bytes
    refine ⟨fun i hi => nixBase32Index_lt hi, ?_, nixBase32Encode_reverse bytes, ?_, ?_⟩
    · rw [length_nixBase32Encode, nixBase32Length_eq]
    · exact fun c hc => mem_nixBase32Encode hc
    · rw [length_nixBase32Encode]
      exact ofOctets_lt_pow_nixBase32Length bytes
  · exact fun a b hlength => (nixBase32Encode_inj hlength).1
  · exact fun digest hex hdigest => normalizeNarHash_hex hdigest
  · intro n hashA hashB a b ha hb hspellsA hspellsB
    rw [fingerprint_narHash_inj, hspellsA.normalizeNarHash ha, hspellsB.normalizeNarHash hb,
      List.append_cancel_left_eq, nixBase32Encode_inj (ha.trans hb.symm)]

/-- The digest of the empty text, in hexadecimal digits of both cases. -/
theorem normalizeNarHash_faithful_empty_text :
    normalizeNarHash
      "sha256:e3b0c44298fc1c149AFBF4C8996FB92427AE41E4649B934CA495991B7852B855".toList =
        "sha256:0mdqa9w1p6cmli6976v4wi0sw9r4p5prkj7lzfd1877wk11c9c73".toList := by
  have hspells : HexSpells
      "e3b0c44298fc1c149AFBF4C8996FB92427AE41E4649B934CA495991B7852B855".toList
      [0xe3, 0xb0, 0xc4, 0x42, 0x98, 0xfc, 0x1c, 0x14, 0x9a, 0xfb, 0xf4, 0xc8, 0x99, 0x6f, 0xb9,
        0x24, 0x27, 0xae, 0x41, 0xe4, 0x64, 0x9b, 0x93, 0x4c, 0xa4, 0x95, 0x99, 0x1b, 0x78, 0x52,
        0xb8, 0x55] := by
    repeat apply HexSpells.cons (by decide) (by decide)
    exact HexSpells.nil
  have hsplit : "sha256:e3b0c44298fc1c149AFBF4C8996FB92427AE41E4649B934CA495991B7852B855".toList =
      "sha256:".toList ++
        "e3b0c44298fc1c149AFBF4C8996FB92427AE41E4649B934CA495991B7852B855".toList := by decide
  rw [hsplit, normalizeNarHash_faithful.2.2.1 _ _ rfl hspells]
  decide

end Ncro
