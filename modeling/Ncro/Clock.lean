import Mathlib.Tactic.NormNum

/-!
# Clocks

Durations and instants of the monotonic clock count nanoseconds. A `Timestamp`
is a reading of the wall clock, confined to the range in which it has a civil
date; the bounds are fields, so that no arithmetic leaves them unnoticed.
-/

namespace Ncro

/-- A duration in nanoseconds. -/
abbrev Duration := ℕ

/-- A point of the monotonic clock, in nanoseconds. -/
abbrev Instant := ℕ

/-- A point in time that has a civil date, in nanoseconds since the epoch. -/
structure Timestamp where
  asNanosecond : ℤ
  min_le : -377705023201 * 10 ^ 9 ≤ asNanosecond
  le_max : asNanosecond ≤ 253402207200 * 10 ^ 9 + 999999999
  deriving DecidableEq

namespace Timestamp

instance : LT Timestamp := ⟨fun a b => a.asNanosecond < b.asNanosecond⟩

instance (a b : Timestamp) : Decidable (a < b) :=
  inferInstanceAs (Decidable (a.asNanosecond < b.asNanosecond))

instance : LE Timestamp := ⟨fun a b => a.asNanosecond ≤ b.asNanosecond⟩

instance (a b : Timestamp) : Decidable (a ≤ b) :=
  inferInstanceAs (Decidable (a.asNanosecond ≤ b.asNanosecond))

instance : Preorder Timestamp where
  le_refl a := le_refl a.asNanosecond
  le_trans a b c (h : a.asNanosecond ≤ b.asNanosecond) (h' : b.asNanosecond ≤ c.asNanosecond) :=
    le_trans h h'
  lt_iff_le_not_ge a b := lt_iff_le_not_ge (a := a.asNanosecond) (b := b.asNanosecond)

/-- The epoch. -/
instance : Inhabited Timestamp := ⟨⟨0, by norm_num, by norm_num⟩⟩

/-- `Timestamp::MAX`. -/
def max : Timestamp := ⟨253402207200 * 10 ^ 9 + 999999999, by norm_num, le_refl _⟩

/-- The whole seconds, truncated. -/
def asSecond (t : Timestamp) : ℤ := t.asNanosecond.tdiv (10 ^ 9)

def fromSecond (s : ℤ) : Option Timestamp :=
  if h : -377705023201 ≤ s ∧ s ≤ 253402207200 then
    some ⟨s * 10 ^ 9, by omega, by omega⟩
  else none

theorem asNanosecond_of_fromSecond {s : ℤ} {t : Timestamp} (h : fromSecond s = some t) :
    t.asNanosecond = s * 10 ^ 9 ∧ t.asSecond = s := by
  unfold fromSecond at h
  split at h
  · cases h
    exact ⟨rfl, Int.mul_tdiv_cancel _ (by norm_num)⟩
  · cases h

/-- The whole seconds of a point in time have a civil date. -/
theorem exists_fromSecond_asSecond (t : Timestamp) : ∃ t', fromSecond t.asSecond = some t' := by
  have hmin := t.min_le
  have hmax := t.le_max
  have hrange : -377705023201 ≤ t.asSecond ∧ t.asSecond ≤ 253402207200 := by
    unfold asSecond
    obtain ⟨n, hn | hn⟩ := t.asNanosecond.eq_nat_or_neg
    · rw [hn, Int.tdiv_eq_ediv_of_nonneg (by omega)]
      omega
    · rw [hn, Int.neg_tdiv, Int.tdiv_eq_ediv_of_nonneg (by omega)]
      omega
  exact ⟨_, dif_pos hrange⟩

def saturatingAdd (t : Timestamp) (d : Duration) : Timestamp :=
  if h : t.asNanosecond + d ≤ 253402207200 * 10 ^ 9 + 999999999 then
    ⟨t.asNanosecond + d, by have := t.min_le; omega, h⟩
  else max

theorem le_saturatingAdd (t : Timestamp) (d : Duration) :
    t.asNanosecond ≤ (t.saturatingAdd d).asNanosecond := by
  unfold saturatingAdd
  split
  · exact Int.le_add_of_nonneg_right (Int.natCast_nonneg d)
  · exact t.le_max

theorem saturatingAdd_le (t : Timestamp) (d : Duration) :
    (t.saturatingAdd d).asNanosecond ≤ t.asNanosecond + d := by
  unfold saturatingAdd
  split
  · exact le_refl _
  · next hmax => exact (not_le.1 hmax).le

/-- Truncation does not pass a whole second. -/
theorem asSecond_le_of_le {t : Timestamp} {s : ℤ} (h : t.asNanosecond ≤ s * 10 ^ 9) :
    t.asSecond ≤ s := by
  unfold asSecond
  obtain ⟨n, hn | hn⟩ := t.asNanosecond.eq_nat_or_neg
  · rw [hn, Int.tdiv_eq_ediv_of_nonneg (by omega)]
    omega
  · rw [hn, Int.neg_tdiv, Int.tdiv_eq_ediv_of_nonneg (by omega)]
    omega

/-- From the epoch on, truncation rounds down. -/
theorem asSecond_mul_le {t : Timestamp} (h : 0 ≤ t.asNanosecond) :
    t.asSecond * 10 ^ 9 ≤ t.asNanosecond := by
  unfold asSecond
  rw [Int.tdiv_eq_ediv_of_nonneg h]
  exact Int.ediv_mul_le _ (by norm_num)

/-- From the epoch on, the truncated clock is before a whole second when the clock is. -/
theorem asSecond_lt_iff {t : Timestamp} (h : 0 ≤ t.asNanosecond) {s : ℤ} :
    t.asSecond < s ↔ t.asNanosecond < s * 10 ^ 9 := by
  rw [asSecond, Int.tdiv_eq_ediv_of_nonneg h]
  exact Int.ediv_lt_iff_lt_mul (by norm_num)

end Timestamp

/-- A second after the epoch. -/
def oneSecond : Timestamp := ⟨10 ^ 9, by decide, by decide⟩

end Ncro
