import Ncro.Foundation.Process

/-!
# Processes and what they did before

`Follows P Q past p` says of a process with a past that it performs an operation
only if its past permits that, and ends with a value that its past accounts for.
The past is the list of its events, the newest one first. The rules are those of
a Hoare logic whose assertions are about pasts. `Replay sem p s events a s'` is an
execution together with its events.
-/

namespace Foundation

namespace Process

universe u

variable {Op : Type u} {Reply : Op → Type u} {α β : Type u}

/-- `P` permits every operation that `p` performs after the events `past`, and
`Q` holds of the past and the value in the end. -/
def Follows (P : List (Event Op Reply) → Op → Prop) (Q : List (Event Op Reply) → α → Prop) :
    List (Event Op Reply) → Process Op Reply α → Prop
  | past, .ret a => Q past a
  | past, .perform op next => P past op ∧ ∀ r, Follows P Q (⟨op, r⟩ :: past) (next r)

variable {P : List (Event Op Reply) → Op → Prop} {Q Q' : List (Event Op Reply) → α → Prop}
  {R : List (Event Op Reply) → β → Prop} {past : List (Event Op Reply)}

@[simp] theorem follows_ret {a : α} : Follows P Q past (.ret a) ↔ Q past a := Iff.rfl

theorem Follows.mono (hQ : ∀ past a, Q past a → Q' past a) {p : Process Op Reply α}
    (h : Follows P Q past p) : Follows P Q' past p := by
  induction p generalizing past with
  | ret a => exact hQ past a h
  | perform op next ih => exact ⟨h.1, fun r => ih r (h.2 r)⟩

theorem Follows.bind {p : Process Op Reply α} {f : α → Process Op Reply β}
    (hp : Follows P Q past p) (hf : ∀ past a, Q past a → Follows P R past (f a)) :
    Follows P R past (p >>= f) := by
  induction p generalizing past with
  | ret a => exact hf past a hp
  | perform op next ih => exact ⟨hp.1, fun r => ih r (hp.2 r)⟩

/-- A process all of whose operations are permitted after every past. -/
theorem Follows.of_performs {p : Process Op Reply α}
    (hp : Performs (fun op => ∀ past, P past op) p) : Follows P (fun _ _ => True) past p := by
  induction p generalizing past with
  | ret a => trivial
  | perform op next ih => exact ⟨hp.1 past, fun r => ih r (hp.2 r)⟩

/-- In the end the past has grown by a run of the process. -/
theorem Follows.and_run {p : Process Op Reply α} (h : Follows P Q past p) :
    Follows P (fun past' a => Q past' a ∧
      ∃ events, Run (fun _ _ => True) p events a ∧ past' = events.reverse ++ past) past p := by
  induction p generalizing past with
  | ret a => exact ⟨h, [], .ret a, rfl⟩
  | perform op next ih =>
      refine ⟨h.1, fun r => (ih r (h.2 r)).mono ?_⟩
      rintro past' a ⟨hQ, events, hrun, rfl⟩
      exact ⟨hQ, ⟨op, r⟩ :: events, .perform trivial hrun, by simp⟩

/-- In the end the past has grown. -/
theorem Follows.and_suffix {p : Process Op Reply α} (h : Follows P Q past p) :
    Follows P (fun past' a => Q past' a ∧ past <:+ past') past p := by
  apply h.and_run.mono
  intro past' a hend
  rcases hend with ⟨hQ, events, -, rfl⟩
  exact ⟨hQ, List.suffix_append _ _⟩

/-! ## Replays -/

/-- A process running on its own, with the events it meets. -/
inductive Replay {S : Type*} (sem : Semantics Op Reply S) :
    Process Op Reply α → S → List (Event Op Reply) → α → S → Prop
  | ret (a : α) (s : S) : Replay sem (.ret a) s [] a s
  | perform {op : Op} {next : Reply op → Process Op Reply α} {r : Reply op} {s s' s'' : S}
      {events : List (Event Op Reply)} {a : α} (h : sem op s r s')
      (hnext : Replay sem (next r) s' events a s'') :
      Replay sem (.perform op next) s (⟨op, r⟩ :: events) a s''

section Replay

variable {S : Type*} {sem : Semantics Op Reply S} {s s' s'' : S} {a : α} {b : β}
  {events events' : List (Event Op Reply)}

theorem Replay.call_bind {op : Op} {f : Reply op → Process Op Reply β} {r : Reply op}
    (h : sem op s r s') (hf : Replay sem (f r) s' events b s'') :
    Replay sem (call op >>= f) s (⟨op, r⟩ :: events) b s'' := .perform h hf

theorem Replay.bind {p : Process Op Reply α} {f : α → Process Op Reply β}
    (hp : Replay sem p s events a s') (hf : Replay sem (f a) s' events' b s'') :
    Replay sem (p >>= f) s (events ++ events') b s'' := by
  induction hp with
  | ret a s => exact hf
  | perform h _ ih => exact .perform h (ih hf)

/-- The rule for a second part that does nothing. -/
theorem Replay.bind_ret {p : Process Op Reply α} {f : α → Process Op Reply β}
    (hp : Replay sem p s events a s') (hf : f a = .ret b) :
    Replay sem (p >>= f) s events b s' := by
  have hret : Replay sem (f a) s' [] b s' := by
    rw [hf]
    exact .ret b s'
  simpa using hp.bind hret

theorem replay_ret_iff {a' : α} :
    Replay sem (.ret a) s events a' s' ↔ events = [] ∧ a = a' ∧ s = s' := by
  constructor
  · intro h
    cases h
    exact ⟨rfl, rfl, rfl⟩
  · rintro ⟨rfl, rfl, rfl⟩
    exact .ret a s

theorem replay_call_bind_iff {op : Op} {f : Reply op → Process Op Reply β} :
    Replay sem (call op >>= f) s events b s'' ↔
      ∃ r s' events', events = ⟨op, r⟩ :: events' ∧ sem op s r s' ∧
        Replay sem (f r) s' events' b s'' := by
  constructor
  · intro h
    cases h with
    | perform h hf => exact ⟨_, _, _, rfl, h, hf⟩
  · rintro ⟨r, s', events', rfl, h, hf⟩
    exact .perform h hf

theorem replay_bind_iff {p : Process Op Reply α} {f : α → Process Op Reply β} :
    Replay sem (p >>= f) s events b s'' ↔
      ∃ events₁ a s' events₂, events = events₁ ++ events₂ ∧ Replay sem p s events₁ a s' ∧
        Replay sem (f a) s' events₂ b s'' := by
  constructor
  · intro h
    induction p generalizing s events with
    | ret a => exact ⟨[], a, s, events, rfl, .ret a s, h⟩
    | perform op next ih =>
        obtain ⟨r, s', events', rfl, hr, hnext⟩ := replay_call_bind_iff.1 h
        obtain ⟨events₁, a, s₁, events₂, rfl, hp, hf⟩ := ih r hnext
        exact ⟨⟨op, r⟩ :: events₁, a, s₁, events₂, rfl, .perform hr hp, hf⟩
  · rintro ⟨events₁, a, s', events₂, rfl, hp, hf⟩
    exact hp.bind hf

/-- The rule for a loop over a list: the invariant speaks of the elements to come. -/
theorem Replay.foldlM {γ : Type*} {f : α → γ → Process Op Reply α} {I : List γ → α → S → Prop}
    {E : Event Op Reply → Prop}
    (hstep : ∀ x xs a s events a' s', I (x :: xs) a s → Replay sem (f a x) s events a' s' →
      I xs a' s' ∧ ∀ e ∈ events, E e)
    {xs : List γ} {a' : α} (hI : I xs a s) (h : Replay sem (xs.foldlM f a) s events a' s') :
    I [] a' s' ∧ ∀ e ∈ events, E e := by
  induction xs generalizing a s events with
  | nil =>
      obtain ⟨rfl, rfl, rfl⟩ := replay_ret_iff.1 h
      exact ⟨hI, by simp⟩
  | cons x xs ih =>
      obtain ⟨events₁, a₁, s₁, events₂, rfl, hx, hxs⟩ := replay_bind_iff.1 h
      obtain ⟨hI₁, hE₁⟩ := hstep x xs a s events₁ a₁ s₁ hI hx
      obtain ⟨hI₂, hE₂⟩ := ih hI₁ hxs
      refine ⟨hI₂, fun e he => ?_⟩
      rcases List.mem_append.1 he with he | he
      · exact hE₁ e he
      · exact hE₂ e he

theorem Replay.execution {p : Process Op Reply α} (h : Replay sem p s events a s') :
    Execution sem p s a s' := by
  induction h with
  | ret a s => exact .ret a s
  | perform h _ ih => exact .perform h ih

/-- What a process does on its own, it does with some events. -/
theorem Execution.exists_replay {p : Process Op Reply α} (h : Execution sem p s a s') :
    ∃ events, Replay sem p s events a s' := by
  induction h with
  | ret a s => exact ⟨[], .ret a s⟩
  | perform h _ ih =>
      obtain ⟨events, hevents⟩ := ih
      exact ⟨_, .perform h hevents⟩

theorem Replay.mono {sem' : Semantics Op Reply S}
    (himp : ∀ op s r s', sem op s r s' → sem' op s r s') {p : Process Op Reply α}
    (h : Replay sem p s events a s') : Replay sem' p s events a s' := by
  induction h with
  | ret a s => exact .ret a s
  | perform h _ ih => exact .perform (himp _ _ _ _ h) ih

/-- What a process does on its own, it does on a part of the state that its operations have an
effect on of their own. -/
theorem Replay.map {T : Type*} {sem' : Semantics Op Reply T} {f : S → T}
    (himp : ∀ op s r s', sem op s r s' → sem' op (f s) r (f s')) {p : Process Op Reply α}
    (h : Replay sem p s events a s') : Replay sem' p (f s) events a (f s') := by
  induction h with
  | ret a s => exact .ret a (f s)
  | perform h _ ih => exact .perform (himp _ _ _ _ h) ih

/-- What each operation of a process preserves from its state before to its state after, the
whole process does. -/
theorem Replay.rel_of_performs {G : Op → Prop} {R : S → S → Prop} (hrefl : ∀ s, R s s)
    (htrans : ∀ {s s' s''}, R s s' → R s' s'' → R s s'')
    (hstep : ∀ op s r s', G op → sem op s r s' → R s s') {p : Process Op Reply α}
    (hp : Performs G p) (h : Replay sem p s events a s') : R s s' ∧ ∀ e ∈ events, G e.1 := by
  induction h with
  | ret a s => exact ⟨hrefl s, nofun⟩
  | perform h _ ih =>
      rcases ih (hp.2 _) with ⟨hrest, hevents⟩
      constructor
      · exact htrans (hstep _ _ _ _ hp.1 h) hrest
      · intro e he
        rcases List.mem_cons.1 he with rfl | he
        · exact hp.1
        · exact hevents e he

end Replay

end Process

end Foundation
