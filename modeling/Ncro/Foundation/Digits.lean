import Mathlib.Data.Nat.Digits.Lemmas

/-!
# Octets as digits

A list of octets is the little-endian number that has them as digits. The
digits of this number in a base `2 ^ w`, with `w ≤ 8`, are read off the octets
one at a time: the bits of each digit lie in one octet or in two neighbouring
ones, which is `octets_window`.
-/

namespace Foundation

/-- The little-endian number of some octets. -/
def ofOctets (octets : List UInt8) : ℕ :=
  Nat.ofDigits 256 (octets.map UInt8.toNat)

@[simp] theorem ofOctets_nil : ofOctets [] = 0 := rfl

theorem ofOctets_cons (octet : UInt8) (octets : List UInt8) :
    ofOctets (octet :: octets) = octet.toNat + 256 * ofOctets octets := by
  simp [ofOctets, Nat.ofDigits_cons]

theorem toNat_lt_of_mem_map {octets : List UInt8} : ∀ n ∈ octets.map UInt8.toNat, n < 256 := by
  intro n hn
  rcases List.mem_map.1 hn with ⟨octet, -, rfl⟩
  exact octet.toNat_lt

theorem ofOctets_lt (octets : List UInt8) : ofOctets octets < 256 ^ octets.length := by
  have hdigits : ∀ n ∈ octets.map UInt8.toNat, n < 256 := toNat_lt_of_mem_map
  have h := Nat.ofDigits_lt_base_pow_length (by decide : 1 < 256) hdigits
  rwa [List.length_map] at h

/-- Octets are determined by their number and their count. -/
theorem ofOctets_inj {a b : List UInt8} (hlength : a.length = b.length) :
    ofOctets a = ofOctets b ↔ a = b := by
  constructor
  · intro h
    have hmap : a.map UInt8.toNat = b.map UInt8.toNat := by
      apply Nat.ofDigits_inj_of_len_eq (by decide : 1 < 256) _ toNat_lt_of_mem_map
        toNat_lt_of_mem_map h
      simpa using hlength
    exact List.map_injective_iff.2 (fun _ _ => UInt8.toNat_inj.1) hmap
  · exact congrArg ofOctets

theorem ofOctets_div_pow (octets : List UInt8) (q : ℕ) :
    ofOctets octets / 256 ^ q = ofOctets (octets.drop q) := by
  rw [ofOctets, ofOctets, List.map_drop]
  exact Nat.ofDigits_div_pow_eq_ofDigits_drop q (by decide) _ toNat_lt_of_mem_map

/-! ## Digits in other bases -/

/-- The lowest `count` digits of a number, the least significant first. -/
def lowDigits (base count n : ℕ) : List ℕ :=
  (List.range count).map fun i => n / base ^ i % base

@[simp] theorem length_lowDigits (base count n : ℕ) : (lowDigits base count n).length = count := by
  simp [lowDigits]

theorem ofDigits_lowDigits (base count n : ℕ) :
    Nat.ofDigits base (lowDigits base count n) = n % base ^ count := by
  induction count with
  | zero => simp [lowDigits, Nat.mod_one]
  | succ count ih =>
      have hsnoc : lowDigits base (count + 1) n =
          lowDigits base count n ++ [n / base ^ count % base] := by
        simp [lowDigits, List.range_succ]
      rw [hsnoc, Nat.ofDigits_append, ih, Nat.ofDigits_singleton, length_lowDigits,
        Nat.mod_pow_succ]

/-- Numbers with the same digits are equal. -/
theorem lowDigits_inj {base count m n : ℕ} (hm : m < base ^ count) (hn : n < base ^ count)
    (h : lowDigits base count m = lowDigits base count n) : m = n := by
  have hdigits := congrArg (Nat.ofDigits base) h
  rwa [ofDigits_lowDigits, ofDigits_lowDigits, Nat.mod_eq_of_lt hm, Nat.mod_eq_of_lt hn] at hdigits

/-- The bits of a digit that begins at bit `r` of the octet `lo` lie in this octet and the next
one. -/
theorem octets_window {lo hi rest r w : ℕ} (hlo : lo < 256) (hr : r < 8) (hw : w ≤ 8) :
    (lo >>> r ||| hi <<< (8 - r)) % 2 ^ w = (lo + 256 * (hi + 256 * rest)) / 2 ^ r % 2 ^ w := by
  have hsplit : 256 = 2 ^ (8 - r) * 2 ^ r := by
    rw [← Nat.pow_add]
    have h : 8 - r + r = 8 := by omega
    rw [h]
  have hpos : 0 < 2 ^ r := Nat.two_pow_pos r
  have hlow : lo >>> r < 2 ^ (8 - r) := by
    rw [Nat.shiftRight_eq_div_pow]
    apply Nat.div_lt_of_lt_mul
    rw [Nat.mul_comm, ← hsplit]
    exact hlo
  have hquot : (lo + 256 * (hi + 256 * rest)) / 2 ^ r =
      lo / 2 ^ r + 2 ^ (8 - r) * (hi + 256 * rest) := by
    have hmul : 256 * (hi + 256 * rest) = 2 ^ (8 - r) * (hi + 256 * rest) * 2 ^ r := by
      rw [hsplit]
      ring
    rw [hmul, Nat.add_mul_div_right _ _ hpos]
  have hbeyond : 2 ^ (8 - r) * (hi + 256 * rest) =
      2 ^ (8 - r) * hi + 2 ^ w * (2 ^ (16 - r - w) * rest) := by
    have hpow : 2 ^ (8 - r) * 256 = 2 ^ w * 2 ^ (16 - r - w) := by
      have h256 : (256 : ℕ) = 2 ^ 8 := by decide
      rw [h256, ← Nat.pow_add, ← Nat.pow_add]
      have h : 8 - r + 8 = w + (16 - r - w) := by omega
      rw [h]
    rw [Nat.mul_add, ← Nat.mul_assoc (2 ^ (8 - r)) 256, hpow, Nat.mul_assoc]
  rw [hquot, hbeyond, ← Nat.add_assoc, Nat.add_mul_mod_self_left, Nat.or_comm,
    ← Nat.shiftLeft_add_eq_or_of_lt hlow, Nat.shiftRight_eq_div_pow, Nat.shiftLeft_eq,
    Nat.mul_comm hi, Nat.add_comm]

end Foundation
