import Ncro.Foundation.Text

/-!
# Percent encoding

`percentEncode plain` writes the octets that are `plain` as the characters they
stand for and each other octet as a percent sign with two hexadecimal digits.
When the plain octets are ASCII and the percent sign is not one of them,
`percentDecode` gives the octets back, and cutting an encoded text at a plain
character is cutting the text itself.
-/

namespace Foundation

/-- The upper-case hexadecimal digits. -/
def hexDigits : List Char := "0123456789ABCDEF".toList

def percentEncodeOctet (plain : UInt8 → Bool) (octet : UInt8) : List Char :=
  if plain octet then [Char.ofNat octet.toNat]
  else ['%', hexDigits.getD (octet.toNat / 16) '0', hexDigits.getD (octet.toNat % 16) '0']

def percentEncode (plain : UInt8 → Bool) (octets : List UInt8) : List Char :=
  octets.flatMap (percentEncodeOctet plain)

/-- The value of a hexadecimal digit of either case. -/
def escapeDigit? (c : Char) : Option ℕ :=
  (hexDigits.idxOf? c).or ("0123456789abcdef".toList.idxOf? c)

/-- The octets that a text with escapes stands for. -/
def percentDecode : List Char → Option (List UInt8)
  | [] => some []
  | '%' :: hi :: lo :: text => do
      let h ← escapeDigit? hi
      let l ← escapeDigit? lo
      let octets ← percentDecode text
      return UInt8.ofNat (h * 16 + l) :: octets
  | c :: text =>
      if c = '%' then none
      else (percentDecode text).map (String.utf8EncodeChar c ++ ·)

/-- A text of plain characters and upper-case escapes. -/
inductive PercentEncoded (plain : UInt8 → Bool) : List Char → Prop
  | nil : PercentEncoded plain []
  | plain {octet : UInt8} {text : List Char} (hoctet : plain octet = true)
      (h : PercentEncoded plain text) :
      PercentEncoded plain (Char.ofNat octet.toNat :: text)
  | escape {hi lo : Char} {text : List Char} (hhi : hi ∈ hexDigits) (hlo : lo ∈ hexDigits)
      (h : PercentEncoded plain text) : PercentEncoded plain ('%' :: hi :: lo :: text)

/-- What the plain octets have to be for the encoding to be read back. -/
structure PlainOctets (plain : UInt8 → Bool) : Prop where
  ascii : ∀ octet, plain octet = true → octet.toNat < 128
  percent : plain 37 = false

variable {plain : UInt8 → Bool} {octet : UInt8} {octets others : List UInt8} {text : List Char}
  {c : Char}

@[simp] theorem percentEncode_nil : percentEncode plain [] = [] := rfl

@[simp] theorem percentEncode_cons :
    percentEncode plain (octet :: octets) =
      percentEncodeOctet plain octet ++ percentEncode plain octets := by
  simp [percentEncode]

@[simp] theorem percentEncode_append :
    percentEncode plain (octets ++ others) =
      percentEncode plain octets ++ percentEncode plain others := by
  simp [percentEncode]

theorem hexDigits_mem {n : ℕ} (h : n < 16) : hexDigits.getD n '0' ∈ hexDigits := by
  have hall : ∀ n < 16, hexDigits.getD n '0' ∈ hexDigits := by decide
  exact hall n h

theorem escapeDigit?_hexDigits {n : ℕ} (h : n < 16) : escapeDigit? (hexDigits.getD n '0') = some n := by
  have hall : ∀ n < 16, escapeDigit? (hexDigits.getD n '0') = some n := by decide
  exact hall n h

theorem percentEncoded_percentEncode (octets : List UInt8) :
    PercentEncoded plain (percentEncode plain octets) := by
  induction octets with
  | nil => exact PercentEncoded.nil
  | cons octet octets ih =>
      have hlt := octet.toNat_lt
      rw [percentEncode_cons, percentEncodeOctet]
      split
      · next hplain => exact PercentEncoded.plain hplain ih
      · exact PercentEncoded.escape (hexDigits_mem (by omega)) (hexDigits_mem (by omega)) ih

/-- An ASCII octet is the encoding of its character. -/
theorem utf8EncodeChar_ofNat {n : ℕ} (h : n < 128) :
    String.utf8EncodeChar (Char.ofNat n) = [UInt8.ofNat n] := by
  have hall : ∀ n < 128, String.utf8EncodeChar (Char.ofNat n) = [UInt8.ofNat n] := by decide
  exact hall n h

theorem toNat_ofNat_ascii {n : ℕ} (h : n < 128) : (Char.ofNat n).toNat = n := by
  have hall : ∀ n < 128, (Char.ofNat n).toNat = n := by decide
  exact hall n h

theorem ofNat_toNat_ne_percent (hplain : PlainOctets plain) (h : plain octet = true) :
    Char.ofNat octet.toNat ≠ '%' := by
  intro hc
  have hencode := utf8EncodeChar_ofNat (hplain.ascii octet h)
  rw [hc, UInt8.ofNat_toNat] at hencode
  have hoctet : octet = 37 := (List.cons.inj hencode).1.symm
  rw [hoctet, hplain.percent] at h
  cases h

theorem percentDecode_plain (hc : c ≠ '%') :
    percentDecode (c :: text) = (percentDecode text).map (String.utf8EncodeChar c ++ ·) := by
  rw [percentDecode]
  · exact if_neg hc
  · intro hi lo rest heq
    exact absurd heq hc

/-- Encoded octets are decoded to themselves. -/
theorem percentDecode_percentEncode (hplain : PlainOctets plain) (octets : List UInt8) :
    percentDecode (percentEncode plain octets) = some octets := by
  induction octets with
  | nil => rfl
  | cons octet octets ih =>
      have hlt := octet.toNat_lt
      rw [percentEncode_cons, percentEncodeOctet]
      split
      · next h =>
        rw [List.singleton_append, percentDecode_plain (ofNat_toNat_ne_percent hplain h), ih,
          utf8EncodeChar_ofNat (hplain.ascii octet h), UInt8.ofNat_toNat]
        rfl
      · have hoctet : UInt8.ofNat (octet.toNat / 16 * 16 + octet.toNat % 16) = octet := by
          rw [Nat.div_add_mod']
          exact UInt8.ofNat_toNat
        simp only [List.cons_append, List.nil_append, percentDecode,
          escapeDigit?_hexDigits (by omega : octet.toNat / 16 < 16),
          escapeDigit?_hexDigits (by omega : octet.toNat % 16 < 16), ih, Option.bind_eq_bind,
          Option.bind_some, hoctet]
        rfl

theorem percentEncode_injective (hplain : PlainOctets plain) :
    Function.Injective (percentEncode plain) := by
  intro a b h
  have hdecode := congrArg percentDecode h
  rwa [percentDecode_percentEncode hplain, percentDecode_percentEncode hplain,
    Option.some.injEq] at hdecode

theorem toUtf8_injective : Function.Injective toUtf8 := by
  intro a b h
  have hdecode := congrArg fromUtf8 h
  rwa [fromUtf8_toUtf8, fromUtf8_toUtf8, Option.some.injEq] at hdecode

/-! ## Cutting an encoded text -/

/-- A character that is written by no escape is in an encoded text only if it is in the text. -/
theorem notMem_percentEncode_toUtf8 (hplain : PlainOctets plain) (hc : c.toNat < 128)
    (hescape : c ∉ '%' :: hexDigits) (h : c ∉ text) : c ∉ percentEncode plain (toUtf8 text) := by
  intro hmem
  rcases List.mem_flatMap.1 hmem with ⟨octet, hoctet, hmem⟩
  have hlt := octet.toNat_lt
  unfold percentEncodeOctet at hmem
  split at hmem
  · next hoctetPlain =>
    rw [List.mem_singleton] at hmem
    have hsame : c.toNat = octet.toNat := by
      rw [hmem]
      exact toNat_ofNat_ascii (hplain.ascii octet hoctetPlain)
    apply ascii_notMem_toUtf8 hc h
    rwa [hsame, UInt8.ofNat_toNat]
  · apply hescape
    simp only [List.mem_cons, List.not_mem_nil, or_false] at hmem
    rcases hmem with rfl | rfl | rfl
    · exact List.mem_cons_self
    · exact List.mem_cons_of_mem _ (hexDigits_mem (by omega))
    · exact List.mem_cons_of_mem _ (hexDigits_mem (by omega))

/-- A plain character stands for itself. -/
theorem percentEncode_toUtf8_plain (hc : c.toNat < 128)
    (h : plain (UInt8.ofNat c.toNat) = true) : percentEncode plain (toUtf8 [c]) = [c] := by
  have hself : Char.ofNat c.toNat = c := Char.ofNat_toNat c
  have hencode := utf8EncodeChar_ofNat hc
  rw [hself] at hencode
  have hoctet : (UInt8.ofNat c.toNat).toNat = c.toNat := by
    rw [UInt8.toNat_ofNat', Nat.mod_eq_of_lt (by omega)]
  rw [toUtf8_cons, hencode, toUtf8_nil, List.append_nil, percentEncode_cons, percentEncodeOctet,
    if_pos h, hoctet, hself]
  rfl

/-- The parts of an encoded text between plain characters are the encoded parts of the text. -/
theorem splitOn_percentEncode_toUtf8 (hplain : PlainOctets plain) (hc : c.toNat < 128)
    (hescape : c ∉ '%' :: hexDigits) (h : plain (UInt8.ofNat c.toNat) = true) (text : List Char) :
    (percentEncode plain (toUtf8 text)).splitOn c =
      (text.splitOn c).map fun part => percentEncode plain (toUtf8 part) := by
  induction text using lines_induction c with
  | nil => rfl
  | last part hne hpart =>
      rw [List.splitOn_eq_singleton hpart,
        List.splitOn_eq_singleton (notMem_percentEncode_toUtf8 hplain hc hescape hpart)]
      rfl
  | line part rest hpart ih =>
      have hsplit : percentEncode plain (toUtf8 (part ++ c :: rest)) =
          percentEncode plain (toUtf8 part) ++ c :: percentEncode plain (toUtf8 rest) := by
        rw [← List.singleton_append, toUtf8_append, toUtf8_append, percentEncode_append,
          percentEncode_append, percentEncode_toUtf8_plain hc h]
        rfl
      rw [hsplit, List.splitOn_append_cons_self_of_not_mem hpart,
        List.splitOn_append_cons_self_of_not_mem
          (notMem_percentEncode_toUtf8 hplain hc hescape hpart), ih]
      rfl

end Foundation
