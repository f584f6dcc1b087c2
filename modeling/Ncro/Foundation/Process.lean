import Mathlib.Data.List.Basic

/-!
# Processes over an operation signature

A process either has returned or performs one operation and continues with its
reply. It is a well-founded tree: whatever the replies are, only finitely many
operations are performed before it returns. Two readings are kept apart.
`Run allowed p es a` follows a single path of `p` under an arbitrary choice of
allowed replies and records the events met on it. `Safe sem I G Q p` is the
shared-state reading: other processes may act between any two operations of
`p`, and all that is known at each of them is the invariant `I`.
-/

namespace Foundation

universe u

/-- A process with operations `Op`, whose replies are typed by the operation. -/
inductive Process (Op : Type u) (Reply : Op → Type u) (α : Type u) : Type u
  | ret (a : α)
  | perform (op : Op) (next : Reply op → Process Op Reply α)

namespace Process

variable {Op : Type u} {Reply : Op → Type u} {α β : Type u}

/-- Sequential composition. -/
def bind : Process Op Reply α → (α → Process Op Reply β) → Process Op Reply β
  | .ret a, f => f a
  | .perform op next, f => .perform op fun r => (next r).bind f

instance : Monad (Process Op Reply) where
  pure := .ret
  bind := Process.bind

/-- The process that performs one operation and returns its reply. -/
def call (op : Op) : Process Op Reply (Reply op) :=
  .perform op .ret

@[simp] theorem pure_eq_ret (a : α) : (pure a : Process Op Reply α) = .ret a := rfl

@[simp] theorem ret_bind (a : α) (f : α → Process Op Reply β) :
    (Process.ret a >>= f) = f a := rfl

@[simp] theorem perform_bind (op : Op) (next : Reply op → Process Op Reply α)
    (f : α → Process Op Reply β) :
    (Process.perform op next >>= f) = .perform op fun r => next r >>= f := rfl

@[simp] theorem call_bind (op : Op) (f : Reply op → Process Op Reply β) :
    ((call op : Process Op Reply (Reply op)) >>= f) = .perform op f := rfl

/-- The same process over another signature: each operation is performed as an operation of
that signature, whose reply is read as its own. -/
def translate {Op' : Type u} {Reply' : Op' → Type u} (perform : Op → Op')
    (reply : (op : Op) → Reply' (perform op) → Reply op) :
    Process Op Reply α → Process Op' Reply' α
  | .ret a => .ret a
  | .perform op next => .perform (perform op) fun r => (next (reply op r)).translate perform reply

theorem bind_assoc {γ : Type u} (p : Process Op Reply α) (f : α → Process Op Reply β)
    (g : β → Process Op Reply γ) :
    (p >>= f) >>= g = p >>= fun a => f a >>= g := by
  induction p with
  | ret a => rfl
  | perform op next ih =>
      simp only [perform_bind]
      congr 1
      funext r
      exact ih r

/-! ## Runs -/

/-- An operation together with the reply it received. -/
abbrev Event (Op : Type u) (Reply : Op → Type u) := Σ op : Op, Reply op

/-- `Run allowed p es a`: some path of `p` whose replies are all allowed
performs the events `es` and returns `a`. -/
inductive Run (allowed : (op : Op) → Reply op → Prop) :
    Process Op Reply α → List (Event Op Reply) → α → Prop
  | ret (a : α) : Run allowed (.ret a) [] a
  | perform {op : Op} {next : Reply op → Process Op Reply α} {r : Reply op}
      {es : List (Event Op Reply)} {a : α} (hr : allowed op r)
      (h : Run allowed (next r) es a) : Run allowed (.perform op next) (⟨op, r⟩ :: es) a

variable {allowed : (op : Op) → Reply op → Prop}

@[simp] theorem run_ret_iff {a b : α} {es : List (Event Op Reply)} :
    Run allowed (.ret a) es b ↔ es = [] ∧ a = b := by
  constructor
  · intro h
    cases h
    exact ⟨rfl, rfl⟩
  · rintro ⟨rfl, rfl⟩
    exact .ret a

theorem run_perform_iff {op : Op} {next : Reply op → Process Op Reply α}
    {es : List (Event Op Reply)} {a : α} :
    Run allowed (.perform op next) es a ↔
      ∃ r es', es = ⟨op, r⟩ :: es' ∧ allowed op r ∧ Run allowed (next r) es' a := by
  constructor
  · intro h
    cases h with
    | perform hr h => exact ⟨_, _, rfl, hr, h⟩
  · rintro ⟨r, es', rfl, hr, h⟩
    exact .perform hr h

theorem run_call_bind_iff {op : Op} {f : Reply op → Process Op Reply β}
    {es : List (Event Op Reply)} {b : β} :
    Run allowed (call op >>= f) es b ↔
      ∃ r es', es = ⟨op, r⟩ :: es' ∧ allowed op r ∧ Run allowed (f r) es' b := by
  rw [call_bind, run_perform_iff]

theorem run_call_iff {op : Op} {es : List (Event Op Reply)} {r : Reply op} :
    Run allowed (call op) es r ↔ es = [⟨op, r⟩] ∧ allowed op r := by
  constructor
  · intro h
    obtain ⟨r', es', rfl, hr, h'⟩ := run_perform_iff.1 h
    obtain ⟨rfl, rfl⟩ := run_ret_iff.1 h'
    exact ⟨rfl, hr⟩
  · rintro ⟨rfl, hr⟩
    exact .perform hr (.ret r)

/-- A run of a composition is a run of the first part followed by a run of the
second. -/
theorem run_bind_iff {p : Process Op Reply α} {f : α → Process Op Reply β}
    {es : List (Event Op Reply)} {b : β} :
    Run allowed (p >>= f) es b ↔
      ∃ es₁ a es₂, es = es₁ ++ es₂ ∧ Run allowed p es₁ a ∧ Run allowed (f a) es₂ b := by
  induction p generalizing es with
  | ret a =>
      constructor
      · intro h
        exact ⟨[], a, es, rfl, .ret a, h⟩
      · rintro ⟨es₁, a', es₂, rfl, h₁, h₂⟩
        obtain ⟨rfl, rfl⟩ := run_ret_iff.1 h₁
        exact h₂
  | perform op next ih =>
      constructor
      · intro h
        obtain ⟨r, es', rfl, hr, h'⟩ := run_perform_iff.1 h
        obtain ⟨es₁, a, es₂, rfl, h₁, h₂⟩ := (ih r).1 h'
        exact ⟨⟨op, r⟩ :: es₁, a, es₂, rfl, .perform hr h₁, h₂⟩
      · rintro ⟨es₁, a, es₂, rfl, h₁, h₂⟩
        obtain ⟨r, es', rfl, hr, h'⟩ := run_perform_iff.1 h₁
        exact .perform hr ((ih r).2 ⟨es', a, es₂, rfl, h', h₂⟩)

/-- When every operation has an allowed reply, every process has a run. -/
theorem exists_run (h : ∀ op, ∃ r, allowed op r) (p : Process Op Reply α) :
    ∃ es a, Run allowed p es a := by
  induction p with
  | ret a => exact ⟨[], a, .ret a⟩
  | perform op next ih =>
      obtain ⟨r, hr⟩ := h op
      obtain ⟨es, a, h'⟩ := ih r
      exact ⟨⟨op, r⟩ :: es, a, .perform hr h'⟩

theorem Run.mono {allowed' : (op : Op) → Reply op → Prop}
    (himp : ∀ op r, allowed op r → allowed' op r) {p : Process Op Reply α}
    {es : List (Event Op Reply)} {a : α} (h : Run allowed p es a) :
    Run allowed' p es a := by
  induction h with
  | ret a => exact .ret a
  | perform hr _ ih => exact .perform (himp _ _ hr) ih

/-- Every reply met on a run is an allowed one. -/
theorem Run.allowed_of_mem {p : Process Op Reply α} {es : List (Event Op Reply)} {a : α}
    (h : Run allowed p es a) : ∀ e ∈ es, allowed e.1 e.2 := by
  induction h with
  | ret a => simp
  | perform hr _ ih =>
      intro e he
      rcases List.mem_cons.1 he with rfl | he
      · exact hr
      · exact ih e he

/-! ## Possible events -/

/-- Some run of `p` meets an event with `Q`. -/
def May (allowed : (op : Op) → Reply op → Prop) (Q : Event Op Reply → Prop)
    (p : Process Op Reply α) : Prop :=
  ∃ es a, Run allowed p es a ∧ ∃ e ∈ es, Q e

section May

variable {Q : Event Op Reply → Prop}

theorem May.bind (hall : ∀ op, ∃ r, allowed op r) {p : Process Op Reply α}
    {f : α → Process Op Reply β} (h : May allowed Q p) : May allowed Q (p >>= f) := by
  obtain ⟨es, a, hrun, e, he, hQ⟩ := h
  obtain ⟨es', b, hrun'⟩ := exists_run hall (f a)
  exact ⟨es ++ es', b, run_bind_iff.2 ⟨es, a, es', rfl, hrun, hrun'⟩, e,
    List.mem_append_left _ he, hQ⟩

theorem May.after {p : Process Op Reply α} {f : α → Process Op Reply β}
    {es : List (Event Op Reply)} {a : α} (hrun : Run allowed p es a) (h : May allowed Q (f a)) :
    May allowed Q (p >>= f) := by
  obtain ⟨es', b, hrun', e, he, hQ⟩ := h
  exact ⟨es ++ es', b, run_bind_iff.2 ⟨es, a, es', rfl, hrun, hrun'⟩, e,
    List.mem_append_right _ he, hQ⟩

theorem May.call_bind {op : Op} {r : Reply op} {f : Reply op → Process Op Reply β}
    (hr : allowed op r) (h : May allowed Q (f r)) : May allowed Q (call op >>= f) :=
  .after (run_call_iff.2 ⟨rfl, hr⟩) h

theorem may_call {op : Op} {r : Reply op} (hr : allowed op r) (hQ : Q ⟨op, r⟩) :
    May allowed Q (call op) :=
  ⟨[⟨op, r⟩], r, run_call_iff.2 ⟨rfl, hr⟩, _, List.mem_singleton_self _, hQ⟩

end May

/-! ## Footprints -/

/-- Every operation `p` can perform satisfies `P`, whatever the replies are. -/
def Performs (P : Op → Prop) : Process Op Reply α → Prop
  | .ret _ => True
  | .perform op next => P op ∧ ∀ r, Performs P (next r)

section Performs

variable {P Q : Op → Prop}

@[simp] theorem performs_ret (a : α) : Performs P (.ret a : Process Op Reply α) := trivial

theorem performs_call {op : Op} (h : P op) : Performs P (call op : Process Op Reply (Reply op)) :=
  ⟨h, fun _ => trivial⟩

theorem Performs.bind {p : Process Op Reply α} {f : α → Process Op Reply β} (hp : Performs P p)
    (hf : ∀ a, Performs P (f a)) : Performs P (p >>= f) := by
  induction p with
  | ret a => exact hf a
  | perform op next ih => exact ⟨hp.1, fun r => ih r (hp.2 r)⟩

theorem Performs.mono (himp : ∀ op, P op → Q op) {p : Process Op Reply α} (h : Performs P p) :
    Performs Q p := by
  induction p with
  | ret a => trivial
  | perform op next ih => exact ⟨himp op h.1, fun r => ih r (h.2 r)⟩

theorem Run.performs {p : Process Op Reply α} {es : List (Event Op Reply)} {a : α}
    (h : Run allowed p es a) (hp : Performs P p) : ∀ e ∈ es, P e.1 := by
  induction h with
  | ret a => simp
  | perform _ _ ih =>
      intro e he
      rcases List.mem_cons.1 he with rfl | he
      · exact hp.1
      · exact ih (hp.2 _) e he

/-- When every operation that `p` can perform has an allowed reply, `p` has a run. -/
theorem Performs.exists_run (h : ∀ op, P op → ∃ r, allowed op r) {p : Process Op Reply α}
    (hp : Performs P p) : ∃ es a, Run allowed p es a := by
  induction p with
  | ret a => exact ⟨[], a, .ret a⟩
  | perform op next ih =>
      obtain ⟨r, hr⟩ := h op hp.1
      obtain ⟨es, a, hrun⟩ := ih r (hp.2 r)
      exact ⟨⟨op, r⟩ :: es, a, .perform hr hrun⟩

end Performs

/-! ## Returned values -/

/-- Every value `p` can return satisfies `Q`, whatever the replies are. -/
def Returns (Q : α → Prop) : Process Op Reply α → Prop
  | .ret a => Q a
  | .perform _ next => ∀ r, Returns Q (next r)

section Returns

variable {Q : α → Prop} {R : β → Prop}

theorem Returns.bind {p : Process Op Reply α} {f : α → Process Op Reply β} (hp : Returns Q p)
    (hf : ∀ a, Q a → Returns R (f a)) : Returns R (p >>= f) := by
  induction p with
  | ret a => exact hf a hp
  | perform op next ih => exact fun r => ih r (hp r)

theorem Run.returns {allowed : (op : Op) → Reply op → Prop} {p : Process Op Reply α}
    {es : List (Event Op Reply)} {a : α} (h : Run allowed p es a) (hp : Returns Q p) : Q a := by
  induction h with
  | ret a => exact hp
  | perform _ _ ih => exact ih (hp _)

theorem Returns.mono {R : α → Prop} (himp : ∀ a, Q a → R a) {p : Process Op Reply α}
    (h : Returns Q p) : Returns R p := by
  induction p with
  | ret a => exact himp a h
  | perform op next ih => exact fun r => ih r (h r)

theorem returns_true (p : Process Op Reply α) : Returns (fun _ => True) p := by
  induction p with
  | ret a => trivial
  | perform op next ih => exact ih

/-- The rule for a first part about whose value nothing is known. -/
theorem returns_bind {p : Process Op Reply α} {f : α → Process Op Reply β}
    (hf : ∀ a, Returns R (f a)) : Returns R (p >>= f) :=
  (returns_true p).bind fun a _ => hf a

/-- A composition performs what its parts do, the second one on a value that the first one
can return. -/
theorem Performs.bind_returns {P : Op → Prop} {p : Process Op Reply α}
    {f : α → Process Op Reply β} (hp : Performs P p) (hreturns : Returns Q p)
    (hf : ∀ a, Q a → Performs P (f a)) : Performs P (p >>= f) := by
  induction p with
  | ret a => exact hf a hreturns
  | perform op next ih => exact ⟨hp.1, fun r => ih r (hp.2 r) (hreturns r)⟩

end Returns

/-! ## Shared state -/

/-- The atomic effect of each operation on a shared state: which replies are
possible, and which state each of them leaves behind. -/
abbrev Semantics (Op : Type u) (Reply : Op → Type u) (S : Type*) :=
  (op : Op) → S → Reply op → S → Prop

variable {S : Type*} {sem : Semantics Op Reply S} {I : S → Prop} {G : Op → Prop}

/-- Every operation of `p` permitted by `G` keeps the invariant `I`, from any
state with `I`, and the value returned in the end satisfies `Q`. Nothing but `I`
is assumed to survive from one operation to the next. -/
def Safe (sem : Semantics Op Reply S) (I : S → Prop) (G : Op → Prop) (Q : α → Prop) :
    Process Op Reply α → Prop
  | .ret a => Q a
  | .perform op next =>
      ∀ s r s', I s → G op → sem op s r s' → I s' ∧ Safe sem I G Q (next r)

@[simp] theorem safe_ret {Q : α → Prop} {a : α} :
    Safe sem I G Q (.ret a) ↔ Q a := Iff.rfl

theorem Safe.bind {Q : α → Prop} {R : β → Prop} {p : Process Op Reply α}
    {f : α → Process Op Reply β} (hp : Safe sem I G Q p)
    (hf : ∀ a, Q a → Safe sem I G R (f a)) : Safe sem I G R (p >>= f) := by
  induction p with
  | ret a => exact hf a hp
  | perform op next ih =>
      intro s r s' hs hop hsem
      obtain ⟨hs', hnext⟩ := hp s r s' hs hop hsem
      exact ⟨hs', ih r hnext⟩

/-- A process all of whose operations keep the invariant is safe. -/
theorem Safe.of_performs {P : Op → Prop}
    (hkeep : ∀ op s r s', I s → P op → sem op s r s' → I s') {p : Process Op Reply α}
    (hp : Performs P p) : Safe sem I G (fun _ => True) p := by
  induction p with
  | ret a => trivial
  | perform op next ih =>
      intro s r s' hs _ hsem
      exact ⟨hkeep op s r s' hs hp.1 hsem, ih r (hp.2 r)⟩

/-- A process running on its own: nothing happens between its operations. -/
inductive Execution (sem : Semantics Op Reply S) : Process Op Reply α → S → α → S → Prop
  | ret (a : α) (s : S) : Execution sem (.ret a) s a s
  | perform {op : Op} {next : Reply op → Process Op Reply α} {r : Reply op} {s s' s'' : S} {a : α}
      (h : sem op s r s') (hnext : Execution sem (next r) s' a s'') :
      Execution sem (.perform op next) s a s''

theorem execution_ret_iff {a b : α} {s s' : S} :
    Execution sem (.ret a) s b s' ↔ a = b ∧ s = s' := by
  constructor
  · intro h
    cases h
    exact ⟨rfl, rfl⟩
  · rintro ⟨rfl, rfl⟩
    exact .ret a s

theorem execution_call_bind_iff {op : Op} {f : Reply op → Process Op Reply β} {s s'' : S} {b : β} :
    Execution sem (call op >>= f) s b s'' ↔
      ∃ r s', sem op s r s' ∧ Execution sem (f r) s' b s'' := by
  constructor
  · intro h
    cases h with
    | perform h hf => exact ⟨_, _, h, hf⟩
  · rintro ⟨r, s', h, hf⟩
    exact .perform h hf

theorem execution_bind_iff {p : Process Op Reply α} {f : α → Process Op Reply β} {s s'' : S}
    {b : β} :
    Execution sem (p >>= f) s b s'' ↔
      ∃ a s', Execution sem p s a s' ∧ Execution sem (f a) s' b s'' := by
  induction p generalizing s with
  | ret a =>
      constructor
      · intro h
        exact ⟨a, s, .ret a s, h⟩
      · rintro ⟨a', s', h, hf⟩
        obtain ⟨rfl, rfl⟩ := execution_ret_iff.1 h
        exact hf
  | perform op next ih =>
      constructor
      · intro h
        obtain ⟨r, s', hr, hnext⟩ := execution_call_bind_iff.1 h
        obtain ⟨a, s₁, hp, hf⟩ := (ih r).1 hnext
        exact ⟨a, s₁, .perform hr hp, hf⟩
      · rintro ⟨a, s₁, hp, hf⟩
        cases hp with
        | perform hr hp => exact .perform hr ((ih _).2 ⟨a, s₁, hp, hf⟩)

theorem Execution.call_bind {op : Op} {f : Reply op → Process Op Reply β} {r : Reply op}
    {s s' s'' : S} {b : β} (h : sem op s r s') (hf : Execution sem (f r) s' b s'') :
    Execution sem (call op >>= f) s b s'' := .perform h hf

theorem Execution.returns {Q : α → Prop} {p : Process Op Reply α} {s s' : S} {a : α}
    (h : Execution sem p s a s') (hp : Returns Q p) : Q a := by
  induction h with
  | ret a s => exact hp
  | perform _ _ ih => exact ih (hp _)

theorem Execution.mono {sem' : Semantics Op Reply S}
    (himp : ∀ op s r s', sem op s r s' → sem' op s r s') {p : Process Op Reply α} {s s' : S} {a : α}
    (h : Execution sem p s a s') : Execution sem' p s a s' := by
  induction h with
  | ret a s => exact .ret a s
  | perform h _ ih => exact .perform (himp _ _ _ _ h) ih

theorem Execution.bind {p : Process Op Reply α} {f : α → Process Op Reply β} {s s' s'' : S}
    {a : α} {b : β} (hp : Execution sem p s a s') (hf : Execution sem (f a) s' b s'') :
    Execution sem (p >>= f) s b s'' := by
  induction hp with
  | ret a s => exact hf
  | perform h _ ih => exact .perform h (ih hf)

end Process

end Foundation
