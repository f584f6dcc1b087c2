import Mathlib.Data.Fintype.EquivFin
import Mathlib.Data.Fintype.Lattice
import Mathlib.Order.Lattice.Nat
import Mathlib.Order.WithBot

/-!
# Waiting under a deadline

Each of several things ends at a time of its own, or never. `Awaits` is a wait
for the first of them that is cut off at a deadline. Where an end and the
deadline fall together, either may be picked.
-/

namespace Foundation

variable {α T : Type*} [LinearOrder T]

/-- A wait from `now` to `now'`: for the end of the thing at an index, or, without one, for the
deadline. -/
structure Awaits (endsAt : α → WithTop T) (deadline : T) (pending : List α) (now : T)
    (next : Option (Fin pending.length)) (now' : T) : Prop where
  le : now ≤ now'
  le_deadline : now' ≤ deadline
  /-- Nothing has ended before. -/
  first : ∀ a ∈ pending, now' ≤ endsAt a
  ends : ∀ i, next = some i → endsAt (pending.get i) = now'
  expires : next = none → now' = deadline

variable {endsAt : α → WithTop T} {deadline now now' : T} {pending : List α}

/-- The deadline does not pass over what ends before it. -/
theorem Awaits.exists_next {next : Option (Fin pending.length)} {a : α}
    (h : Awaits endsAt deadline pending now next now') (ha : a ∈ pending)
    (hlt : endsAt a < deadline) : ∃ i, next = some i := by
  cases next with
  | some i => exact ⟨i, rfl⟩
  | none =>
      have hle := h.first a ha
      rw [h.expires rfl] at hle
      exact absurd hle (not_le.2 hlt)

/-- A wait comes to an end. The deadline cuts it off where it can. -/
theorem exists_awaits (hdeadline : now ≤ deadline) (hfirst : ∀ a ∈ pending, now ≤ endsAt a) :
    ∃ next now', Awaits endsAt deadline pending now next now' ∧
      ∀ i, next = some i → endsAt (pending.get i) < deadline := by
  by_cases hall : ∀ a ∈ pending, (deadline : WithTop T) ≤ endsAt a
  · refine ⟨none, deadline, ⟨hdeadline, le_refl _, hall, nofun, fun _ => rfl⟩, nofun⟩
  · push Not at hall
    rcases hall with ⟨a, ha, hlt⟩
    rcases List.mem_iff_get.1 ha with ⟨j, rfl⟩
    have : Nonempty (Fin pending.length) := ⟨j⟩
    rcases Finite.exists_min fun i => endsAt (pending.get i) with ⟨i, hmin⟩
    have hbefore := (hmin j).trans_lt hlt
    rcases WithTop.ne_top_iff_exists.1 (ne_top_of_lt hbefore) with ⟨time, htime⟩
    refine ⟨some i, time, ⟨?_, ?_, ?_, ?_, nofun⟩, ?_⟩
    · exact WithTop.coe_le_coe.1 (htime ▸ hfirst _ (List.get_mem pending i))
    · exact WithTop.coe_le_coe.1 (htime ▸ hbefore.le)
    · intro b hb
      rcases List.mem_iff_get.1 hb with ⟨k, rfl⟩
      exact htime ▸ hmin k
    · intro k hk
      cases hk
      exact htime.symm
    · intro k hk
      cases hk
      exact hbefore

end Foundation
