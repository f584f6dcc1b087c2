import Mathlib.Data.Rat.Defs
import Mathlib.Algebra.Order.Ring.Rat

/-!
# Doubles without rounding

A double is a rational, a signed zero, an infinity or a NaN. Comparisons and
the treatment of the special values are those of IEEE 754; arithmetic on finite
values is exact, so no statement made here depends on rounding. The sign and
the payload of a NaN are not kept.
-/

namespace Foundation

/-- A double; `fin 0` is the positive zero. -/
inductive Double
  | fin (q : ℚ)
  | negZero
  | inf (negative : Bool)
  | nan
  deriving DecidableEq

namespace Double

instance : Inhabited Double := ⟨.fin 0⟩

/-- The value of a finite double. -/
def toRat : Double → ℚ
  | .fin q => q
  | _ => 0

def isFinite : Double → Bool
  | .fin _ | .negZero => true
  | .inf _ | .nan => false

/-- The sign bit. -/
def signBit : Double → Bool
  | .fin q => q < 0
  | .negZero => true
  | .inf negative => negative
  | .nan => false

/-- The operator `<`. -/
def lt : Double → Double → Bool
  | .nan, _ | _, .nan => false
  | .inf true, .inf true => false
  | .inf true, _ => true
  | _, .inf true => false
  | .inf false, _ => false
  | _, .inf false => true
  | x, y => x.toRat < y.toRat

/-- The operator `<=`. -/
def le (x y : Double) : Bool :=
  x ≠ .nan && y ≠ .nan && !y.lt x

/-- The operator `==`. -/
def beq (x y : Double) : Bool :=
  x ≠ .nan && y ≠ .nan && !x.lt y && !y.lt x

/-- `f64::partial_cmp`. -/
def partialCmp (x y : Double) : Option Ordering :=
  if x = .nan ∨ y = .nan then none
  else if x.lt y then some .lt
  else if y.lt x then some .gt
  else some .eq

/-- `f64::total_cmp`, which tells the two zeros apart and puts NaN last. -/
def totalCmp (x y : Double) : Ordering :=
  let below (x y : Double) : Bool :=
    x.lt y || (x = .negZero && y = .fin 0) || (x ≠ .nan && y = .nan)
  if below x y then .lt else if below y x then .gt else .eq

@[simp] theorem lt_irrefl (x : Double) : x.lt x = false := by
  cases x with
  | inf negative => cases negative <;> rfl
  | _ => simp [lt, toRat]

theorem lt_asymm {x y : Double} (h : x.lt y = true) : y.lt x = false := by
  rcases x with p | _ | (_ | _) | _ <;> rcases y with q | _ | (_ | _) | _ <;>
    simp [lt, toRat] at h ⊢ <;> exact decide_eq_false (not_lt_of_gt (of_decide_eq_true h))

@[simp] theorem totalCmp_self (x : Double) : x.totalCmp x = .eq := by
  cases x <;> simp [totalCmp]

theorem totalCmp_of_lt {x y : Double} (h : x.lt y = true) :
    x.totalCmp y = .lt ∧ y.totalCmp x = .gt := by
  have hasymm := lt_asymm h
  have hzero : ¬(y = .negZero ∧ x = .fin 0) := by
    rintro ⟨rfl, rfl⟩
    simp [lt, toRat] at h
  have hnan : x ≠ .nan := by
    rintro rfl
    cases h
  simp only [not_and] at hzero
  simp only [totalCmp, h, hasymm, Bool.true_or, Bool.false_or, if_true, true_and]
  rw [if_neg (by simpa [hnan] using hzero)]

/-- Two doubles are told apart by `total_cmp`, if one of them is finite. -/
theorem eq_of_totalCmp {x y : Double} (hx : x.isFinite = true) (h : x.totalCmp y = .eq) :
    x = y := by
  simp only [totalCmp] at h
  split at h
  · cases h
  · next hxy =>
    split at h
    · cases h
    · next hyx =>
      rcases x with p | _ | (_ | _) | _ <;> rcases y with q | _ | (_ | _) | _ <;>
        simp [lt, toRat, isFinite] at hx hxy hyx ⊢
      · exact le_antisymm (not_lt.1 (of_decide_eq_false hyx)) (not_lt.1 (of_decide_eq_false hxy))
      · exact hyx.2 (le_antisymm (not_lt.1 (of_decide_eq_false hyx.1))
          (not_lt.1 (of_decide_eq_false hxy)))
      · exact hxy.2 (le_antisymm (not_lt.1 (of_decide_eq_false hxy.1))
          (not_lt.1 (of_decide_eq_false hyx)))

theorem lt_of_isFinite {x y : Double} (hx : x.isFinite = true) (hy : y.isFinite = true) :
    x.lt y = decide (x.toRat < y.toRat) := by
  cases x <;> cases y <;> first | rfl | simp [isFinite] at hx hy

/-- Below a finite double stands what is below a finite double that is not above
it. -/
theorem lt_of_lt_of_not_lt {x y z : Double} (hx : x.isFinite = true) (hy : y.isFinite = true)
    (hzx : z.lt x = true) (hyx : y.lt x = false) : z.lt y = true := by
  cases hz : z.isFinite with
  | true =>
      rw [lt_of_isFinite hz hx] at hzx
      rw [lt_of_isFinite hy hx] at hyx
      rw [lt_of_isFinite hz hy]
      exact decide_eq_true (lt_of_lt_of_le (of_decide_eq_true hzx)
        (not_lt.1 (of_decide_eq_false hyx)))
  | false =>
      match z, y with
      | .inf true, .fin _ | .inf true, .negZero => rfl
      | .inf true, .inf _ | .inf true, .nan => cases hy
      | .inf false, _ => cases x <;> first | cases hzx | simp [isFinite] at hx
      | .nan, _ => cases hzx

def mul (x y : Double) : Double :=
  let negative := x.signBit != y.signBit
  match x, y with
  | .nan, _ | _, .nan => .nan
  | .inf _, .inf _ => .inf negative
  | .inf _, z | z, .inf _ => if z.toRat = 0 then .nan else .inf negative
  | x, y =>
      let q := x.toRat * y.toRat
      if q = 0 ∧ negative then .negZero else .fin q

def add : Double → Double → Double
  | .nan, _ | _, .nan => .nan
  | .inf m, .inf n => if m = n then .inf m else .nan
  | .inf m, _ | _, .inf m => .inf m
  | .negZero, .negZero => .negZero
  | x, y => .fin (x.toRat + y.toRat)

def neg : Double → Double
  | .fin q => if q = 0 then .negZero else .fin (-q)
  | .negZero => .fin 0
  | .inf negative => .inf !negative
  | .nan => .nan

def sub (x y : Double) : Double :=
  x.add y.neg

def div (x y : Double) : Double :=
  let negative := x.signBit != y.signBit
  let zero : Double := if negative then .negZero else .fin 0
  match x, y with
  | .nan, _ | _, .nan => .nan
  | .inf _, .inf _ => .nan
  | .inf _, _ => .inf negative
  | _, .inf _ => zero
  | x, y =>
      if y.toRat = 0 then if x.toRat = 0 then .nan else .inf negative
      else if x.toRat = 0 then zero
      else .fin (x.toRat / y.toRat)

def abs : Double → Double
  | .fin q => .fin |q|
  | .negZero => .fin 0
  | .inf _ => .inf false
  | .nan => .nan

/-- `f64::mul_add`. -/
def mulAdd (x y z : Double) : Double :=
  (x.mul y).add z

/-! ## Finite doubles -/

theorem beq_of_isFinite {x y : Double} (hx : x.isFinite = true) (hy : y.isFinite = true) :
    x.beq y = decide (x.toRat = y.toRat) := by
  have hx' : x ≠ .nan := by
    rintro rfl
    cases hx
  have hy' : y ≠ .nan := by
    rintro rfl
    cases hy
  simp only [beq, hx', hy', lt_of_isFinite hx hy, lt_of_isFinite hy hx, ne_eq, not_false_eq_true,
    decide_true, Bool.true_and]
  rw [← decide_not, ← decide_not, ← Bool.decide_and]
  apply decide_eq_decide.2
  rw [not_lt, not_lt, and_comm]
  exact le_antisymm_iff.symm

theorem partialCmp_of_isFinite {x y : Double} (hx : x.isFinite = true) (hy : y.isFinite = true) :
    x.partialCmp y = some (compare x.toRat y.toRat) := by
  have hnan : ¬(x = .nan ∨ y = .nan) := by
    rintro (rfl | rfl)
    · cases hx
    · cases hy
  rw [partialCmp, if_neg hnan, lt_of_isFinite hx hy, lt_of_isFinite hy hx]
  rcases lt_trichotomy x.toRat y.toRat with h | h | h
  · simp [h, compare_lt_iff_lt.2 h]
  · simp [h]
  · simp [h, h.not_gt, compare_gt_iff_gt.2 h]

/-- The difference of finite doubles is the one of their values. -/
theorem sub_of_isFinite {x y : Double} (hx : x.isFinite = true) (hy : y.isFinite = true) :
    (x.sub y).isFinite = true ∧ (x.sub y).toRat = x.toRat - y.toRat := by
  rcases x with p | _ | _ | _ <;> rcases y with q | _ | _ | _ <;> simp [isFinite] at hx hy <;>
    simp only [sub, neg] <;> try split
  all_goals simp [add, toRat, isFinite, sub_eq_add_neg, *]

theorem abs_of_isFinite {x : Double} (hx : x.isFinite = true) :
    x.abs.isFinite = true ∧ x.abs.toRat = |x.toRat| := by
  rcases x with p | _ | _ | _ <;> simp [isFinite, abs, toRat] at hx ⊢

theorem div_of_isFinite {x y : Double} (hx : x.isFinite = true) (hy : y.isFinite = true)
    (hne : y.toRat ≠ 0) :
    (x.div y).isFinite = true ∧ (x.div y).toRat = x.toRat / y.toRat := by
  have hdiv : x.div y =
      if x.toRat = 0 then if (x.signBit != y.signBit) = true then .negZero else .fin 0
      else .fin (x.toRat / y.toRat) := by
    rcases x with p | _ | _ | _ <;> rcases y with q | _ | _ | _ <;>
      first | exact if_neg hne | simp [isFinite] at hx hy hne
  rw [hdiv]
  split
  · next h =>
    rw [h, zero_div]
    split <;> exact ⟨rfl, rfl⟩
  · exact ⟨rfl, rfl⟩

/-- A product with a positive factor is no negative zero. -/
theorem fin_mul_fin {p : ℚ} (hp : 0 < p) (q : ℚ) : (fin p).mul (fin q) = fin (p * q) := by
  apply if_neg
  rintro ⟨hzero, hsign⟩
  have hq : q = 0 := (mul_eq_zero.1 hzero).resolve_left hp.ne'
  subst hq
  simp [signBit, hp.not_gt] at hsign

theorem fin_sub_fin (p : ℚ) {q : ℚ} (hq : q ≠ 0) : (fin p).sub (fin q) = fin (p - q) := by
  rw [sub, neg, if_neg hq, sub_eq_add_neg]
  rfl

end Double

end Foundation
