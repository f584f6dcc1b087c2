import Mathlib.Data.List.Basic

/-!
# Checks in a row

Checks are computations in `Except`. A check of several items passes when it
passes for each: `forM_eq_ok_iff`. A traversal succeeds when it does for each, and
gives the results one by one: `mapM_eq_ok_map`, `mem_of_mapM_eq_ok`.
-/

namespace Foundation

universe u v

variable {ε : Type u} {α β : Type v}

theorem bind_eq_ok_iff {x : Except ε α} {f : α → Except ε β} {b : β} :
    x >>= f = .ok b ↔ ∃ a, x = .ok a ∧ f a = .ok b := by
  cases x with
  | error err => simp [bind, Except.bind]
  | ok a => simp [bind, Except.bind]

/-- The rule for a check before the rest. -/
theorem check_bind_eq_ok_iff {check : Except ε PUnit} {rest : Except ε β} {b : β} :
    (check >>= fun _ => rest) = .ok b ↔ check = .ok ⟨⟩ ∧ rest = .ok b := by
  rw [bind_eq_ok_iff]
  constructor
  · rintro ⟨⟨⟩, hcheck, hrest⟩
    exact ⟨hcheck, hrest⟩
  · rintro ⟨hcheck, hrest⟩
    exact ⟨⟨⟩, hcheck, hrest⟩

/-- A computation as a check, its result left out. -/
theorem discard_eq_ok_iff {x : Except ε α} :
    (discard x : Except ε PUnit) = .ok ⟨⟩ ↔ ∃ a, x = .ok a := by
  cases x with
  | error err => simp [discard, Functor.discard, Functor.mapConst, Except.map]
  | ok a => simp [discard, Functor.discard, Functor.mapConst, Except.map]

/-- A check that is made only under a condition. -/
def checkWhen (c : Prop) [Decidable c] (check : Except ε PUnit) : Except ε PUnit :=
  if c then check else .ok ⟨⟩

theorem checkWhen_eq_ok_iff {c : Prop} [Decidable c] {check : Except ε PUnit} :
    checkWhen c check = .ok ⟨⟩ ↔ (c → check = .ok ⟨⟩) := by
  by_cases hc : c
  · simp [checkWhen, hc]
  · simp [checkWhen, hc]

theorem forM_eq_ok_iff {check : α → Except ε PUnit} {xs : List α} :
    xs.forM check = .ok ⟨⟩ ↔ ∀ x ∈ xs, check x = .ok ⟨⟩ := by
  induction xs with
  | nil => simp [List.forM, pure, Except.pure]
  | cons x xs ih =>
      show (check x >>= fun _ => xs.forM check) = _ ↔ _
      rw [check_bind_eq_ok_iff, List.forall_mem_cons, ih]

theorem mapM_eq_ok_map {f : α → Except ε β} {g : α → β} {xs : List α}
    (h : ∀ x ∈ xs, f x = .ok (g x)) : xs.mapM f = .ok (xs.map g) := by
  induction xs with
  | nil => rfl
  | cons x xs ih =>
      rw [List.mapM_cons, h x (.head _), ih fun x hx => h x (.tail _ hx)]
      rfl

/-- The results of a traversal are those of its items. -/
theorem mem_of_mapM_eq_ok {f : α → Except ε β} {xs : List α} {ys : List β}
    (h : xs.mapM f = .ok ys) {y : β} : y ∈ ys ↔ ∃ x ∈ xs, f x = .ok y := by
  induction xs generalizing ys with
  | nil =>
      cases h
      simp
  | cons x xs ih =>
      rw [List.mapM_cons] at h
      rcases bind_eq_ok_iff.1 h with ⟨z, hz, hrest⟩
      rcases bind_eq_ok_iff.1 hrest with ⟨zs, hzs, hys⟩
      cases hys
      rw [List.mem_cons, ih hzs]
      simp [hz, eq_comm]

/-- A traversal succeeds when each step does. -/
theorem exists_mapM_eq_ok {f : α → Except ε β} {xs : List α} (h : ∀ x ∈ xs, ∃ y, f x = .ok y) :
    ∃ ys, xs.mapM f = .ok ys := by
  induction xs with
  | nil => exact ⟨[], rfl⟩
  | cons x xs ih =>
      rcases h x List.mem_cons_self with ⟨y, hy⟩
      rcases ih fun x' hx' => h x' (List.mem_cons_of_mem _ hx') with ⟨ys, hys⟩
      refine ⟨y :: ys, ?_⟩
      rw [List.mapM_cons, hy, hys]
      rfl

end Foundation
