import Mathlib.Logic.Relation
import Ncro.Foundation.Process

/-!
# Rely and guarantee

Threads over one shared state, each of them a `Process`. Between any two
operations of a thread the others may act, and any thread may crash there. What a
thread assumes of the others' steps (the rely) and what it promises of its own
(the guarantee) is a `Contract`; a `Triple` says that a process keeps its contract
from every state with its precondition, and that what it returns satisfies its
postcondition. When every guarantee is within the others' relies, the threads can be
verified one by one: `good_of_reachable` puts them together.
-/

namespace Foundation

open Process

universe u

variable {Op : Type u} {Reply : Op → Type u} {α β : Type u} {S : Type*}

/-- What a thread assumes of the steps that are not its own, and what it promises of
its own ones. -/
structure Contract (S : Type*) where
  rely : S → S → Prop
  guar : S → S → Prop
  rely_refl : ∀ s, rely s s
  rely_trans : ∀ {s s' s''}, rely s s' → rely s' s'' → rely s s''

/-- An assertion that survives whatever the others do. -/
def Contract.Stable (C : Contract S) (inv : S → Prop) (P : S → Prop) : Prop :=
  ∀ ⦃s s'⦄, inv s → inv s' → C.rely s s' → P s → P s'

/-- From `s` on, with any steps of the others before each operation: every operation
of `p` keeps the invariant and the guarantee, and whatever `p` returns satisfies `Q`
ever after. -/
def Process.Guarantees (sem : Semantics Op Reply S) (inv : S → Prop) (C : Contract S)
    (Q : α → S → Prop) : Process Op Reply α → S → Prop
  | .ret a, s => ∀ s', inv s' → C.rely s s' → Q a s'
  | .perform op next, s => ∀ s', inv s' → C.rely s s' → ∀ r s'', sem op s' r s'' →
      inv s'' ∧ C.guar s' s'' ∧ (next r).Guarantees sem inv C Q s''

/-- From every state with `P`, the process keeps its contract and returns with `Q`. -/
def Triple (sem : Semantics Op Reply S) (inv : S → Prop) (C : Contract S) (P : S → Prop)
    (p : Process Op Reply α) (Q : α → S → Prop) : Prop :=
  ∀ s, inv s → P s → p.Guarantees sem inv C Q s

section Rules

variable {sem : Semantics Op Reply S} {inv : S → Prop} {C : Contract S} {P : S → Prop}
  {Q : α → S → Prop}

/-- A process that keeps its contract does so after the others have acted. -/
theorem Process.Guarantees.rely {p : Process Op Reply α} {s s' : S}
    (h : p.Guarantees sem inv C Q s) (hs : C.rely s s') : p.Guarantees sem inv C Q s' := by
  cases p with
  | ret a => exact fun t ht hst => h t ht (C.rely_trans hs hst)
  | perform op next => exact fun t ht hst => h t ht (C.rely_trans hs hst)

theorem Process.Guarantees.bind {R : β → S → Prop} {p : Process Op Reply α}
    {f : α → Process Op Reply β} {s : S} (hs : inv s) (hp : p.Guarantees sem inv C Q s)
    (hf : ∀ a, Triple sem inv C (Q a) (f a) R) : (p >>= f).Guarantees sem inv C R s := by
  induction p generalizing s with
  | ret a => exact hf a s hs (hp s hs (C.rely_refl s))
  | perform op next ih =>
      intro t ht hst r t' hsem
      obtain ⟨hinv, hguar, hnext⟩ := hp t ht hst r t' hsem
      exact ⟨hinv, hguar, ih r hinv hnext⟩

theorem triple_ret {a : α} (hQ : C.Stable inv (Q a)) (h : ∀ s, inv s → P s → Q a s) :
    Triple sem inv C P (.ret a) Q :=
  fun s hs hP _ hs' hrely => hQ hs hs' hrely (h s hs hP)

/-- The rule for one operation: its precondition is stable, and from a state with it the
operation keeps the contract and leads to the precondition of what follows. -/
theorem triple_call_bind {op : Op} {f : Reply op → Process Op Reply α}
    {M : Reply op → S → Prop} (hP : C.Stable inv P)
    (hop : ∀ s r s', inv s → P s → sem op s r s' → inv s' ∧ C.guar s s' ∧ M r s')
    (hf : ∀ r, Triple sem inv C (M r) (f r) Q) :
    Triple sem inv C P (call op >>= f) Q := by
  intro s hs hPs s' hs' hrely r s'' hsem
  obtain ⟨hinv, hguar, hM⟩ := hop s' r s'' hs' (hP hs hs' hrely hPs) hsem
  exact ⟨hinv, hguar, hf r s'' hinv hM⟩

theorem Triple.bind {R : β → S → Prop} {p : Process Op Reply α} {f : α → Process Op Reply β}
    (hp : Triple sem inv C P p Q) (hf : ∀ a, Triple sem inv C (Q a) (f a) R) :
    Triple sem inv C P (p >>= f) R :=
  fun s hs hP => (hp s hs hP).bind hs hf

/-- What an execution with nobody beside it leads to, by steps that the guarantee covers. -/
theorem Process.Guarantees.execution {p : Process Op Reply α} {s s' : S} {a : α}
    (h : p.Guarantees sem inv C Q s) (hs : inv s) (hexec : Execution sem p s a s') :
    Q a s' ∧ Relation.ReflTransGen C.guar s s' := by
  induction hexec with
  | ret a s => exact ⟨h s hs (C.rely_refl s), .refl⟩
  | perform hsem _ ih =>
      rcases h _ hs (C.rely_refl _) _ _ hsem with ⟨hinv, hguar, hnext⟩
      rcases ih hnext hinv with ⟨hQ, hrest⟩
      exact ⟨hQ, .head hguar hrest⟩

theorem Triple.weaken {P' : S → Prop} {p : Process Op Reply α} (hp : Triple sem inv C P p Q)
    (h : ∀ s, inv s → P' s → P s) : Triple sem inv C P' p Q :=
  fun s hs hP => hp s hs (h s hs hP)

/-- The postcondition of a process that may fail. -/
def Outcome {ε : Type u} (Q : α → S → Prop) (E : ε → S → Prop) : Except ε α → S → Prop
  | .ok a => Q a
  | .error e => E e

/-- The rule for the composition of processes that may fail. -/
theorem triple_exceptT_bind {ε : Type u} {E : ε → S → Prop} {M : α → S → Prop} {Q : β → S → Prop}
    {p : ExceptT ε (Process Op Reply) α} {f : α → ExceptT ε (Process Op Reply) β}
    (hE : ∀ e, C.Stable inv (E e)) (hp : Triple sem inv C P p.run (Outcome M E))
    (hf : ∀ a, Triple sem inv C (M a) (f a).run (Outcome Q E)) :
    Triple sem inv C P (p >>= f).run (Outcome Q E) := by
  apply Triple.bind hp
  intro r
  cases r with
  | ok a => exact hf a
  | error e => exact triple_ret (hE e) fun _ _ h => h

end Rules

/-! ## Threads -/

/-- The shared state, and what is left of each thread: nothing, once it has crashed. -/
structure Threads (ι : Type*) (Op : Type u) (Reply : Op → Type u) (α : Type u) (S : Type*) where
  shared : S
  threads : ι → Option (Process Op Reply α)

namespace Threads

variable {ι : Type*} [DecidableEq ι]

/-- One step: a thread performs its next operation, a thread crashes, or the shared state
moves by itself. -/
inductive Step (sem : ι → Semantics Op Reply S) (env : S → S → Prop) :
    Threads ι Op Reply α S → Threads ι Op Reply α S → Prop
  | perform {t : Threads ι Op Reply α S} {i : ι} {op : Op}
      {next : Reply op → Process Op Reply α} {r : Reply op} {s : S}
      (hi : t.threads i = some (.perform op next)) (h : sem i op t.shared r s) :
      Step sem env t ⟨s, Function.update t.threads i (some (next r))⟩
  | crash (t : Threads ι Op Reply α S) (i : ι) :
      Step sem env t ⟨t.shared, Function.update t.threads i none⟩
  | environment {t : Threads ι Op Reply α S} {s : S} (h : env t.shared s) :
      Step sem env t ⟨s, t.threads⟩

/-- Reached by any interleaving of steps. -/
abbrev Reachable (sem : ι → Semantics Op Reply S) (env : S → S → Prop) :
    Threads ι Op Reply α S → Threads ι Op Reply α S → Prop :=
  Relation.ReflTransGen (Step sem env)

/-- The contracts fit together: what one thread promises is what the others assume, and the
shared state by itself does nothing that a thread does not expect. -/
structure Compatible (inv : S → Prop) (C : ι → Contract S) (env : S → S → Prop) : Prop where
  rely_of_guar : ∀ ⦃i j⦄, i ≠ j → ∀ ⦃s s'⦄, inv s → inv s' → (C j).guar s s' → (C i).rely s s'
  inv_of_env : ∀ ⦃s s'⦄, inv s → env s s' → inv s'
  rely_of_env : ∀ i ⦃s s'⦄, inv s → env s s' → (C i).rely s s'

/-- The invariant holds and every thread keeps its contract from here on. -/
structure Good (sem : ι → Semantics Op Reply S) (inv : S → Prop) (C : ι → Contract S)
    (Q : ι → α → S → Prop) (t : Threads ι Op Reply α S) : Prop where
  invariant : inv t.shared
  guarantees : ∀ i p, t.threads i = some p → p.Guarantees (sem i) inv (C i) (Q i) t.shared

section Parallel

variable {sem : ι → Semantics Op Reply S} {env : S → S → Prop} {inv : S → Prop}
  {C : ι → Contract S} {Q : ι → α → S → Prop} {t t' : Threads ι Op Reply α S}

omit [DecidableEq ι] in
theorem good_of_triple {P : S → Prop} (hinv : inv t.shared) (hP : P t.shared)
    (h : ∀ i p, t.threads i = some p → Triple (sem i) inv (C i) P p (Q i)) :
    Good sem inv C Q t :=
  ⟨hinv, fun i p hi => h i p hi t.shared hinv hP⟩

theorem Step.good (hC : Compatible inv C env) (h : Step sem env t t') (ht : Good sem inv C Q t) :
    Good sem inv C Q t' := by
  cases h with
  | @perform i op next r s hi hsem =>
      obtain ⟨hinv, hguar, hnext⟩ :=
        ht.guarantees i _ hi t.shared ht.invariant ((C i).rely_refl _) r s hsem
      constructor
      · exact hinv
      · intro j p hj
        by_cases hij : j = i
        · subst hij
          simp only [Function.update_self, Option.some.injEq] at hj
          subst hj
          exact hnext
        · have hj' : t.threads j = some p := by simpa [hij] using hj
          exact (ht.guarantees j p hj').rely (hC.rely_of_guar hij ht.invariant hinv hguar)
  | crash i =>
      constructor
      · exact ht.invariant
      · intro j p hj
        by_cases hij : j = i
        · subst hij
          simp at hj
        · have hj' : t.threads j = some p := by simpa [hij] using hj
          exact ht.guarantees j p hj'
  | environment henv =>
      constructor
      · exact hC.inv_of_env ht.invariant henv
      · intro i p hi
        exact (ht.guarantees i p hi).rely (hC.rely_of_env i ht.invariant henv)

/-- Threads that keep compatible contracts keep them along any interleaving. -/
theorem good_of_reachable (hC : Compatible inv C env) (h : Reachable sem env t t')
    (ht : Good sem inv C Q t) : Good sem inv C Q t' := by
  induction h with
  | refl => exact ht
  | tail _ hstep ih => exact hstep.good hC ih

omit [DecidableEq ι] in
/-- What a thread has returned satisfies its postcondition. -/
theorem Good.returned (ht : Good sem inv C Q t) {i : ι} {a : α}
    (hi : t.threads i = some (.ret a)) : Q i a t.shared :=
  ht.guarantees i _ hi t.shared ht.invariant ((C i).rely_refl _)

theorem Step.related {T : S → S → Prop} (hrefl : ∀ s, T s s)
    (hguar : ∀ i s s', inv s → inv s' → (C i).guar s s' → T s s')
    (henv : ∀ s s', inv s → env s s' → T s s') (h : Step sem env t t')
    (ht : Good sem inv C Q t) : T t.shared t'.shared := by
  cases h with
  | @perform i op next r s hi hsem =>
      obtain ⟨hinv, hg, -⟩ := ht.guarantees i _ hi t.shared ht.invariant ((C i).rely_refl _) r s hsem
      exact hguar i _ _ ht.invariant hinv hg
  | crash i => exact hrefl t.shared
  | environment h => exact henv _ _ ht.invariant h

/-- A preorder that every guarantee is within relates the shared states of a run. -/
theorem related_of_reachable {T : S → S → Prop} (hC : Compatible inv C env) (hrefl : ∀ s, T s s)
    (htrans : ∀ s s' s'', T s s' → T s' s'' → T s s'')
    (hguar : ∀ i s s', inv s → inv s' → (C i).guar s s' → T s s')
    (henv : ∀ s s', inv s → env s s' → T s s') (h : Reachable sem env t t')
    (ht : Good sem inv C Q t) : T t.shared t'.shared := by
  induction h with
  | refl => exact hrefl t.shared
  | tail hreach hstep ih =>
      exact htrans _ _ _ ih (hstep.related hrefl hguar henv (good_of_reachable hC hreach ht))

end Parallel

end Threads

/-! ## A thread on its own -/

section

variable {sem : Semantics Op Reply S} {P : S → Prop}

/-- Running on its own, the process can return `a` in a state with `P`. -/
def CanReturn (sem : Semantics Op Reply S) (p : Process Op Reply α) (s : S) (a : α)
    (P : S → Prop) : Prop :=
  ∃ s', Execution sem p s a s' ∧ P s'

theorem canReturn_ret {a : α} {s : S} (h : P s) : CanReturn sem (.ret a) s a P :=
  ⟨s, .ret a s, h⟩

theorem canReturn_call_bind {op : Op} {f : Reply op → Process Op Reply α} {r : Reply op}
    {s s' : S} {a : α} (h : sem op s r s') (hf : CanReturn sem (f r) s' a P) :
    CanReturn sem (call op >>= f) s a P := by
  obtain ⟨s'', hexec, hP⟩ := hf
  exact ⟨s'', .call_bind h hexec, hP⟩

theorem CanReturn.bind {p : Process Op Reply α} {f : α → Process Op Reply β} {M : S → Prop}
    {s : S} {a : α} {b : β} (hp : CanReturn sem p s a M)
    (hf : ∀ s', M s' → CanReturn sem (f a) s' b P) : CanReturn sem (p >>= f) s b P := by
  obtain ⟨s', hexec, hM⟩ := hp
  obtain ⟨s'', hexec', hP⟩ := hf s' hM
  exact ⟨s'', hexec.bind hexec', hP⟩

/-- What a thread can do on its own, it can do among the others. -/
theorem Threads.reachable_of_canReturn {ι : Type*} [DecidableEq ι] {sem : ι → Semantics Op Reply S}
    {env : S → S → Prop} {i : ι} {p : Process Op Reply α} {s : S} {a : α}
    {threads : ι → Option (Process Op Reply α)} (hi : threads i = some p)
    (h : CanReturn (sem i) p s a P) :
    ∃ s', Reachable sem env ⟨s, threads⟩ ⟨s', Function.update threads i (some (.ret a))⟩ ∧
      P s' := by
  obtain ⟨s', hexec, hP⟩ := h
  refine ⟨s', ?_, hP⟩
  clear hP
  induction hexec generalizing threads with
  | ret a s =>
      rw [← hi, Function.update_eq_self]
  | @perform op next r s s' s'' a h _ ih =>
      have hstep : Step sem env ⟨s, threads⟩ ⟨s', Function.update threads i (some (next r))⟩ :=
        .perform hi h
      have hrest := ih (Function.update_self i (some _) threads)
      rw [Function.update_idem] at hrest
      exact .head hstep hrest

end

end Foundation
