/-!
# Reachable states

A machine takes a state and an event to the next states. `Reachable` collects the
states that steps meeting a condition lead to, and `Reachable.invariant` is the
induction over such a run. A run can be cut where a property fails for the first time:
`Reachable.throughout_or_first`. A machine whose step is a function can be run on a list
of events: `Reachable.of_run`.
-/

namespace Foundation

universe u v

variable {S : Type u} {E : Type v}

/-- The states that are reached from `start` by steps that meet a condition. -/
inductive Reachable (step : S → E → S → Prop) (meets : S → E → Prop) (start : S) : S → Prop
  | start : Reachable step meets start start
  | step {s s' : S} {e : E} (h : Reachable step meets start s) (hmeets : meets s e)
      (hstep : step s e s') : Reachable step meets start s'

namespace Reachable

variable {step : S → E → S → Prop} {meets : S → E → Prop} {start s : S}

/-- What holds at the start and is preserved by each step holds of every reachable state. -/
theorem invariant {I : S → Prop} (h : Reachable step meets start s) (hstart : I start)
    (hpreserved : ∀ s e s', I s → meets s e → step s e s' → I s') : I s := by
  induction h with
  | start => exact hstart
  | step _ hmeets hstep ih => exact hpreserved _ _ _ ih hmeets hstep

theorem mono {meets' : S → E → Prop} (h : Reachable step meets start s)
    (himp : ∀ s e, meets s e → meets' s e) : Reachable step meets' start s := by
  induction h with
  | start => exact .start
  | step _ hmeets hstep ih => exact ih.step (himp _ _ hmeets) hstep

/-- What holds at the start holds throughout, or there is a first step after which it does not. -/
theorem throughout_or_first {P : S → Prop} (h : Reachable step meets start s) (hstart : P start) :
    (Reachable step (fun s e => meets s e ∧ P s) start s ∧ P s) ∨
      ∃ s₁ e s₂, Reachable step (fun s e => meets s e ∧ P s) start s₁ ∧ P s₁ ∧ meets s₁ e ∧
        step s₁ e s₂ ∧ ¬P s₂ ∧ Reachable step meets s₂ s := by
  induction h with
  | start => exact .inl ⟨.start, hstart⟩
  | @step s s' e h hmeets hstep ih =>
      rcases ih with ⟨hbefore, hs⟩ | ⟨s₁, e₁, s₂, hbefore, hs₁, hmeets₁, hfirst, hs₂, hafter⟩
      · by_cases hs' : P s'
        · exact .inl ⟨hbefore.step ⟨hmeets, hs⟩ hstep, hs'⟩
        · exact .inr ⟨s, e, s', hbefore, hs, hmeets, hstep, hs', .start⟩
      · exact .inr ⟨s₁, e₁, s₂, hbefore, hs₁, hmeets₁, hfirst, hs₂, hafter.step hmeets hstep⟩

/-- Run a machine on some events. -/
def run (next : S → E → Option S) : S → List E → Option S
  | s, [] => some s
  | s, e :: events => (next s e).bind fun s' => run next s' events

/-- Whether each step of a run meets a condition. -/
def RunMeets (next : S → E → Option S) (meets : S → E → Prop) : S → List E → Prop
  | _, [] => True
  | s, e :: events => meets s e ∧ (next s e).elim True fun s' => RunMeets next meets s' events

theorem runMeets_of_forall {next : S → E → Option S} (hmeets : ∀ s e, meets s e) {s : S}
    {events : List E} : RunMeets next meets s events := by
  induction events generalizing s with
  | nil => trivial
  | cons e events ih =>
      refine ⟨hmeets s e, ?_⟩
      cases next s e with
      | none => trivial
      | some s' => exact ih

theorem of_run {next : S → E → Option S} {s s' : S} {events : List E}
    (h : Reachable (fun s e s' => next s e = some s') meets start s)
    (hmeets : RunMeets next meets s events) (hrun : run next s events = some s') :
    Reachable (fun s e s' => next s e = some s') meets start s' := by
  induction events generalizing s with
  | nil =>
      cases hrun
      exact h
  | cons e events ih =>
      obtain ⟨s₁, hnext, hrest⟩ := Option.bind_eq_some_iff.1 hrun
      obtain ⟨hmeet, hmeets⟩ := hmeets
      rw [hnext] at hmeets
      exact ih (.step h hmeet hnext) hmeets hrest

end Reachable

end Foundation
