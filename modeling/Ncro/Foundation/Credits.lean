import Ncro.Foundation.Process
import Mathlib.Algebra.Order.Monoid.Unbundled.Basic

/-!
# Credits

What a process spends of something, time say, is read off the states it goes through.
`Takes` bounds it by a credit, however the process is run: the rules follow the process,
and the credits of its parts add up. A loop that may spend what a state still holds is
bounded by a potential, `Takes.of_potential`.
-/

namespace Foundation

namespace Process

universe u

variable {Op : Type u} {Reply : Op → Type u} {α β : Type u} {S : Type*}

/-- From a state with `P` every execution spends at most the credit, and ends with `Q`. -/
def Takes (sem : Semantics Op Reply S) (spent : S → ℕ) (P : S → Prop) (p : Process Op Reply α)
    (credit : ℕ) (Q : α → S → Prop) : Prop :=
  ∀ s a s', P s → Execution sem p s a s' → spent s' ≤ spent s + credit ∧ Q a s'

variable {sem : Semantics Op Reply S} {spent : S → ℕ} {P P' : S → Prop} {c c' d : ℕ}

theorem takes_ret {a : α} {Q : α → S → Prop} (h : ∀ s, P s → Q a s) :
    Takes sem spent P (.ret a) 0 Q := by
  intro s b s' hs hexec
  rcases execution_ret_iff.1 hexec with ⟨rfl, rfl⟩
  exact ⟨le_rfl, h s hs⟩

theorem Takes.mono {p : Process Op Reply α} {Q Q' : α → S → Prop} (h : Takes sem spent P p c Q)
    (hP : ∀ s, P' s → P s) (hle : c ≤ c') (hQ : ∀ a s, Q a s → Q' a s) :
    Takes sem spent P' p c' Q' := by
  intro s a s' hs hexec
  rcases h s a s' (hP s hs) hexec with ⟨hspent, hQs⟩
  exact ⟨hspent.trans (Nat.add_le_add_left hle _), hQ a s' hQs⟩

theorem Takes.le {p : Process Op Reply α} {Q : α → S → Prop} (h : Takes sem spent P p c Q)
    (hle : c ≤ c') : Takes sem spent P p c' Q :=
  h.mono (fun _ => id) hle fun _ _ => id

/-- The parts of a composition have credits of their own. -/
theorem Takes.bind {p : Process Op Reply α} {f : α → Process Op Reply β} {M : α → S → Prop}
    {Q : β → S → Prop} (hp : Takes sem spent P p c M)
    (hf : ∀ a, Takes sem spent (M a) (f a) d Q) : Takes sem spent P (p >>= f) (c + d) Q := by
  intro s b s' hs hexec
  rcases execution_bind_iff.1 hexec with ⟨a, s₁, hfirst, hthen⟩
  rcases hp s a s₁ hs hfirst with ⟨hspent, hM⟩
  rcases hf a s₁ b s' hM hthen with ⟨hspent', hQ⟩
  exact ⟨by omega, hQ⟩

theorem takes_call {op : Op} {Q : Reply op → S → Prop}
    (h : ∀ s r s', P s → sem op s r s' → spent s' ≤ spent s + c ∧ Q r s') :
    Takes sem spent P (call op) c Q := by
  intro s r s' hs hexec
  cases hexec with
  | perform hop hret =>
      rcases execution_ret_iff.1 hret with ⟨rfl, rfl⟩
      exact h s _ _ hs hop

theorem takes_call_bind {op : Op} {f : Reply op → Process Op Reply β} {M : Reply op → S → Prop}
    {Q : β → S → Prop} (h : ∀ s r s', P s → sem op s r s' → spent s' ≤ spent s + c ∧ M r s')
    (hf : ∀ r, Takes sem spent (M r) (f r) d Q) :
    Takes sem spent P (call op >>= f) (c + d) Q :=
  (takes_call h).bind hf

/-- What is known of the value that the first part returns may be used for the second. -/
theorem Takes.bind_returns {p : Process Op Reply α} {f : α → Process Op Reply β} {R : α → Prop}
    {M : α → S → Prop} {Q : β → S → Prop} (hp : Takes sem spent P p c M) (hreturns : Returns R p)
    (hf : ∀ a, R a → Takes sem spent (M a) (f a) d Q) : Takes sem spent P (p >>= f) (c + d) Q := by
  have hboth : Takes sem spent P p c fun a s => M a s ∧ R a := by
    intro s a s' hs hexec
    rcases hp s a s' hs hexec with ⟨hspent, hM⟩
    exact ⟨hspent, hM, hexec.returns hreturns⟩
  apply hboth.bind
  intro a s b s' hM hexec
  exact hf a hM.2 s b s' hM.1 hexec

/-- A part of a process whose operations are all for free. -/
theorem Takes.of_performs {G : Op → Prop} {p : Process Op Reply α}
    (hfree : ∀ op s r s', G op → P s → sem op s r s' → spent s' ≤ spent s ∧ P s')
    (hp : Performs G p) : Takes sem spent P p 0 fun _ => P := by
  induction p with
  | ret a => exact takes_ret fun _ => id
  | perform op next ih =>
      intro s a s' hs hexec
      cases hexec with
      | @perform _ _ r _ s₁ _ _ hop hnext =>
          rcases hfree op s r s₁ hp.1 hs hop with ⟨hspent, hs₁⟩
          rcases ih r (hp.2 r) s₁ a s' hs₁ hnext with ⟨hspent', hs'⟩
          exact ⟨hspent'.trans hspent, hs'⟩

/-- A bound is kept by semantics that allow less of the operations performed, with an
invariant of their own. -/
theorem Takes.refine {sem' : Semantics Op Reply S} {G : Op → Prop} {I : S → Prop}
    {p : Process Op Reply α} {Q : α → S → Prop} (h : Takes sem spent P p c Q)
    (hsem : ∀ op s r s', G op → I s → sem' op s r s' → sem op s r s' ∧ I s')
    (hp : Performs G p) :
    Takes sem' spent (fun s => P s ∧ I s) p c fun a s => Q a s ∧ I s := by
  have hexec : ∀ s a s', I s → Execution sem' p s a s' → Execution sem p s a s' ∧ I s' := by
    clear h
    induction p with
    | ret a =>
        intro s b s' hs hexec
        rcases execution_ret_iff.1 hexec with ⟨rfl, rfl⟩
        exact ⟨.ret _ _, hs⟩
    | perform op next ih =>
        intro s b s' hs hexec
        cases hexec with
        | @perform _ _ r _ s₁ _ _ hop hnext =>
            rcases hsem op s r s₁ hp.1 hs hop with ⟨hop', hs₁⟩
            rcases ih r (hp.2 r) s₁ b s' hs₁ hnext with ⟨hnext', hs'⟩
            exact ⟨.perform hop' hnext', hs'⟩
  intro s a s' hs hexec'
  rcases hexec s a s' hs.2 hexec' with ⟨hsame, hs'⟩
  rcases h s a s' hs.1 hsame with ⟨hspent, hQ⟩
  exact ⟨hspent, hQ, hs'⟩

/-- What a state holds may be spent: a bound on what was spent and is held together. -/
theorem Takes.of_potential (potential : S → ℕ) {p : Process Op Reply α} {Q : α → S → Prop}
    (h : Takes sem potential P p c Q) (hheld : ∀ s, P s → potential s ≤ spent s + d)
    (hle : ∀ s, spent s ≤ potential s) : Takes sem spent P p (d + c) Q := by
  intro s a s' hs hexec
  rcases h s a s' hs hexec with ⟨hpotential, hQ⟩
  have hstart := hheld s hs
  have hend := hle s'
  exact ⟨by omega, hQ⟩

end Process

end Foundation
