import Ncro.Health.ProbeLoop

/-!
# Probing again and again

In a run whose timers and tasks are late by at most `ε`, the loop handles a tick within
`checkTick` or so of the one before. A tick that finds an upstream due starts a probe of it,
and a probe ends within its timeout. So an upstream that is tracked is probed again and again.
-/

namespace Ncro

open Foundation

/-! ## Punctual runs -/

/-- Until when a task that has come this far goes on. -/
def ProbePhase.deadline (ε : Duration) : ProbePhase → Instant
  | .spawned since => since + ε
  | .sending start _ => start + probeTimeout + ε
  | .probed since _ => since + ε
  | .returning since => since + ε

/-- Whether the loop may stay where it is until some time. -/
def LoopPhase.OnTime (ε : Duration) (nextTick time : Instant) : LoopPhase → Prop
  | .waiting since => time ≤ max nextTick since + ε
  | .ticked now => time ≤ now + ε
  | .visiting now _ => time ≤ now + ε
  | .stopped => True

/-- Time passes only as far as no timer and no task is late by more than `ε`. -/
def ProberState.Punctual (ε : Duration) (s : ProberState) : ProberEvent → Prop
  | .advance time => s.loop.OnTime ε s.nextTick time ∧
      ∀ probe ∈ s.unfinished.rows, time ≤ probe.phase.deadline ε
  | _ => True

/-! ## The end of a probe -/

/-- How long a probe takes. -/
def probeTime (ε : Duration) : Duration :=
  probeTimeout + 4 * ε

/-- How long a task goes on after the deadline for what it does now. -/
def ProbePhase.remaining (ε : Duration) : ProbePhase → Duration
  | .spawned _ => probeTimeout + 3 * ε
  | .sending _ _ => 2 * ε
  | .probed _ _ => ε
  | .returning _ => 0

/-- From `t₁` on, a task keeps to its deadlines, and thus ends by `t₂`. -/
structure ProbePhase.EndsBy (ε : Duration) (t₁ t₂ now : Instant) (phase : ProbePhase) : Prop where
  now_le : now ≤ max t₁ (phase.deadline ε)
  remaining : max t₁ (phase.deadline ε) + phase.remaining ε ≤ t₂

section

variable {ε : Duration} {t₁ t₂ now : Instant} {phase phase' : ProbePhase}

theorem ProbePhase.EndsBy.le (h : phase.EndsBy ε t₁ t₂ now) : now ≤ t₂ :=
  h.now_le.trans ((Nat.le_add_right _ _).trans h.remaining)

theorem ProbePhase.endsBy_spawned (hnow : t₁ ≤ now) (ht₂ : now + probeTime ε ≤ t₂) :
    (ProbePhase.spawned now).EndsBy ε t₁ t₂ now := by
  unfold probeTime at ht₂
  constructor
  · exact le_max_of_le_right (Nat.le_add_right now ε)
  · simp only [deadline, ProbePhase.remaining]
    lia

/-- A task that is under way ends in time. -/
theorem ProbePhase.endsBy_of_since_le (hsince : phase.since ≤ t₁) :
    phase.EndsBy ε t₁ (t₁ + probeTime ε) t₁ := by
  constructor
  · exact le_max_left _ _
  · cases phase <;> simp only [since, deadline, ProbePhase.remaining, probeTime] at * <;> lia

theorem ProbePhase.EndsBy.step {alpha : Double} {url : Str} {table table' : HealthTable}
    {event : ProbeEvent} (h : phase.EndsBy ε t₁ t₂ now)
    (hstep : phase.Step alpha now url table event table' (some phase')) :
    phase'.EndsBy ε t₁ t₂ now := by
  have hnow := h.now_le
  have hremaining := h.remaining
  have hprobed : ∀ start method latency, phase = .sending start method →
      (ProbePhase.probed now latency).EndsBy ε t₁ t₂ now := by
    rintro start method latency rfl
    constructor <;> simp only [deadline, ProbePhase.remaining] at * <;> lia
  cases hstep with
  | sends => constructor <;> simp only [deadline, ProbePhase.remaining] at * <;> lia
  | untracked => constructor <;> simp only [deadline, ProbePhase.remaining] at * <;> lia
  | @answer start method answer =>
      unfold answered
      split
      · exact hprobed start method _ rfl
      · cases method with
        | head => exact ⟨hnow, hremaining⟩
        | get => exact hprobed start .get _ rfl
  | @timeout start method => exact hprobed start method _ rfl
  | record => constructor <;> simp only [deadline, ProbePhase.remaining] at * <;> lia

theorem ProbePhase.EndsBy.advance {time : Instant} (h : phase.EndsBy ε t₁ t₂ now)
    (htime : time ≤ phase.deadline ε) : phase.EndsBy ε t₁ t₂ time :=
  ⟨le_max_of_le_right htime, h.remaining⟩

end

/-! ## The next probe -/

/-- How far apart two ticks are. -/
def tickGap (interval ε : Duration) : Duration :=
  max (checkTick interval) ε + ε

/-- How long an upstream with so many failures at most waits for its next probe. -/
def responseTime (interval ε : Duration) (consecutiveFails : ℕ) : Duration :=
  max (backoffInterval interval consecutiveFails) (probeTime ε) + tickGap interval ε + ε

/-- A tick after `due` is to come soon, or it is being handled, and lists the upstream. -/
def LoopPhase.Expects (interval ε : Duration) (url : Str) (consecutiveFails : ℕ)
    (t₁ due nextTick now : Instant) : LoopPhase → Prop
  | .waiting since => max nextTick since ≤ due + max (checkTick interval) ε ∧
      now ≤ due + tickGap interval ε
  | .ticked tick => tick ≤ due + tickGap interval ε ∧
      nextTick ≤ max t₁ tick + checkTick interval ∧ now ≤ max t₁ (tick + ε)
  | .visiting tick entries => (tick ≤ due + tickGap interval ε ∧
      nextTick ≤ max t₁ tick + checkTick interval ∧ now ≤ max t₁ (tick + ε)) ∧
      (due < tick → ∃ fails ≤ consecutiveFails, (url, fails) ∈ entries)
  | .stopped => False

/-- Since the state `s₁` the loop has not started a probe of the upstream. It will. -/
structure Expects (interval ε : Duration) (url : Str) (consecutiveFails : ℕ)
    (s₁ s : ProberState) : Prop where
  loop : s.loop.Expects interval ε url consecutiveFails s₁.now
    (s₁.now + max (backoffInterval interval consecutiveFails) (probeTime ε)) s.nextTick s.now
  nextProbe : s₁.nextProbe ≤ s.nextProbe
  lastProbed : ∀ last, s.lastProbed.get url = some last →
    last.last ≤ s₁.now ∧ last.probe < s₁.nextProbe
  unfinished : ∀ probe ∈ s.unfinished.rows, probe.id < s₁.nextProbe →
    probe.phase.EndsBy ε s₁.now (s₁.now + probeTime ε) s.now

/-- The loop starts a probe of an upstream. -/
structure StartsProbe (url : Str) (s s' : ProberState) : Prop where
  now : s'.now = s.now
  unfinished : s'.unfinished.get s.nextProbe = some ⟨s.nextProbe, url, true, .spawned s.now⟩
  started : ∃ tick fails, s'.started = ⟨url, tick, fails⟩ :: s.started

section

variable {config : ProberConfig} {ε : Duration} {url : Str} {consecutiveFails : ℕ}
  {s₁ s s' : ProberState} {event : ProberEvent}

theorem backoffInterval_mono {base : Duration} {m n : ℕ} (h : m ≤ n) :
    backoffInterval base m ≤ backoffInterval base n := by
  have hmultiplier : (if m ≤ 2 then 1 else if m ≤ 9 then 4 else 10) ≤
      (if n ≤ 2 then 1 else if n ≤ 9 then 4 else 10) := by
    split_ifs <;> omega
  exact min_le_min_right _ (Nat.mul_le_mul_left base hmultiplier)

theorem expects_self (htimed : s.Timed config.interval) (hknown : s.Known config.interval)
    (hloop : s.loop ≠ .stopped) : Expects config.interval ε url consecutiveFails s s where
  loop := by
    have hnext := htimed.nextTick
    have hclock := htimed.clock
    have hwaiting := htimed.waiting
    cases hphase : s.loop with
    | waiting since =>
        have hsince := hwaiting since hphase
        simp only [LoopPhase.Expects, tickGap]
        lia
    | ticked tick =>
        rw [hphase] at hclock
        simp only [LoopPhase.Expects, LoopPhase.clock, tickGap] at *
        lia
    | visiting tick entries =>
        rw [hphase] at hclock
        simp only [LoopPhase.Expects, LoopPhase.clock, tickGap] at *
        lia
    | stopped => exact absurd hphase hloop
  nextProbe := le_refl _
  lastProbed last hget := by
    have hmem := Table.mem_of_get hget
    exact ⟨(htimed.lastProbed last hmem).trans htimed.clock, hknown.lastProbed last hmem⟩
  unfinished probe hprobe _ := ProbePhase.endsBy_of_since_le (htimed.unfinished probe hprobe)

theorem Expects.now_le (h : Expects config.interval ε url consecutiveFails s₁ s) :
    s.now ≤ s₁.now + responseTime config.interval ε consecutiveFails := by
  have hloop := h.loop
  unfold responseTime
  cases hphase : s.loop <;> rw [hphase] at hloop <;> simp only [LoopPhase.Expects, tickGap] at * <;>
    lia

theorem Expects.spawn (h : Expects config.interval ε url consecutiveFails s₁ s) (looped : Bool)
    (url' : Str) : Expects config.interval ε url consecutiveFails s₁ (s.spawn looped url') where
  loop := h.loop
  nextProbe := Nat.le_succ_of_le h.nextProbe
  lastProbed := h.lastProbed
  unfinished probe hprobe hold := by
    rcases Table.mem_of_mem_upsert hprobe with rfl | hprobe
    · exact absurd h.nextProbe (Nat.not_le.2 hold)
    · exact h.unfinished probe hprobe hold

/-- A tick that finds the upstream due starts a probe of it. -/
theorem Expects.shouldProbe (h : Expects config.interval ε url consecutiveFails s₁ s)
    (htimed : s.Timed config.interval) {tick : Instant} {entries : List (Str × ℕ)}
    (hloop : s.loop = .visiting tick entries) {fails : ℕ} (hfails : fails ≤ consecutiveFails)
    (hdue : s₁.now + max (backoffInterval config.interval consecutiveFails) (probeTime ε) < tick) :
    s.shouldProbe config.interval tick url fails = true := by
  rw [ProberState.shouldProbe_iff]
  intro last hget
  rcases h.lastProbed last hget with ⟨hlast, hold⟩
  have hclock := htimed.clock
  rw [hloop] at hclock
  have htick : tick ≤ s.now := hclock
  constructor
  · cases hprobe : s.unfinished.get last.probe with
    | none => rfl
    | some probe =>
        have hid : probe.id = last.probe := Table.key_of_get hprobe
        have hends := (h.unfinished probe (Table.mem_of_get hprobe) (by rwa [hid])).le
        lia
  · have hmono : backoffInterval config.interval fails ≤
        backoffInterval config.interval consecutiveFails := backoffInterval_mono hfails
    lia

theorem Expects.visit (h : Expects config.interval ε url consecutiveFails s₁ s)
    (htimed : s.Timed config.interval) {tick : Instant} {url' : Str} {fails : ℕ}
    {entries : List (Str × ℕ)} (hloop : s.loop = .visiting tick ((url', fails) :: entries)) :
    Expects config.interval ε url consecutiveFails s₁
        { s.visit config.interval tick url' fails with loop := .visiting tick entries } ∨
      StartsProbe url s
        { s.visit config.interval tick url' fails with loop := .visiting tick entries } := by
  have hvisiting := h.loop
  rw [hloop] at hvisiting
  rcases hvisiting with ⟨htick, hlisted⟩
  by_cases hshould : s.shouldProbe config.interval tick url' fails = true
  · rw [ProberState.visit, if_pos hshould]
    by_cases hurl : url' = url
    · right
      subst hurl
      exact ⟨rfl, Table.get_upsert_self _ _, tick, fails, rfl⟩
    · left
      refine ⟨⟨htick, fun hdue => ?_⟩, (h.spawn true url').nextProbe, fun last hget => ?_,
        (h.spawn true url').unfinished⟩
      · rcases hlisted hdue with ⟨fails', hle, hmem⟩
        exact ⟨fails', hle, (List.mem_cons.1 hmem).resolve_left
          fun heq => hurl (congrArg Prod.fst heq).symm⟩
      · have hother : (s.lastProbed.upsert ⟨url', tick, s.nextProbe⟩).get url =
            s.lastProbed.get url := Table.get_upsert_of_ne fun heq => hurl heq.symm
        exact h.lastProbed last (hother.symm.trans hget)
  · left
    rw [ProberState.visit, if_neg hshould]
    refine ⟨⟨htick, fun hdue => ?_⟩, h.nextProbe, h.lastProbed, h.unfinished⟩
    rcases hlisted hdue with ⟨fails', hle, hmem⟩
    rcases List.mem_cons.1 hmem with heq | hmem
    · cases heq
      exact absurd (h.shouldProbe htimed hloop hle hdue) hshould
    · exact ⟨fails', hle, hmem⟩

theorem Expects.step (h : Expects config.interval ε url consecutiveFails s₁ s)
    (htimed : s.Timed config.interval)
    (htracked : ∃ health, s.table.get url = some health ∧
      health.consecutiveFails ≤ consecutiveFails)
    (hpunctual : s.Punctual ε event) (hruns : event ≠ .stop)
    (hstep : ProberState.Step config s event s') :
    Expects config.interval ε url consecutiveFails s₁ s' ∨ StartsProbe url s s' := by
  have hloop := h.loop
  cases hstep with
  | @advance time hle =>
      left
      refine ⟨?_, h.nextProbe, h.lastProbed, fun probe hprobe hold =>
        (h.unfinished probe hprobe hold).advance (hpunctual.2 probe hprobe)⟩
      have htime := hpunctual.1
      cases hphase : s.loop <;> rw [hphase] at hloop htime <;>
        simp only [LoopPhase.Expects, LoopPhase.OnTime, tickGap] at * <;> lia
  | addUpstream | removeUpstream | record =>
      exact .inl ⟨h.loop, h.nextProbe, h.lastProbed, h.unfinished⟩
  | spawn => exact .inl (h.spawn false _)
  | @tick since hphase hdue =>
      left
      refine ⟨?_, h.nextProbe, h.lastProbed, h.unfinished⟩
      rw [hphase] at hloop
      simp only [LoopPhase.Expects] at *
      lia
  | snapshot hphase hperm =>
      left
      refine ⟨?_, h.nextProbe, h.lastProbed, h.unfinished⟩
      rw [hphase] at hloop
      refine ⟨hloop, fun _ => ?_⟩
      rcases htracked with ⟨health, hget, hfails⟩
      refine ⟨health.consecutiveFails, hfails, hperm.mem_iff.2 ?_⟩
      exact List.mem_map.2 ⟨health, Table.mem_of_get hget, by rw [Table.key_of_get hget]⟩
  | visit hphase => exact h.visit htimed hphase
  | @visited tick hphase =>
      left
      refine ⟨?_, h.nextProbe, h.lastProbed, h.unfinished⟩
      rw [hphase] at hloop
      rcases hloop with ⟨htick, hlisted⟩
      have hearly : tick ≤
          s₁.now + max (backoffInterval config.interval consecutiveFails) (probeTime ε) := by
        by_contra hdue
        rcases hlisted (Nat.lt_of_not_le hdue) with ⟨fails, -, hmem⟩
        cases hmem
      simp only [LoopPhase.Expects, tickGap] at *
      lia
  | stop => exact absurd rfl hruns
  | @probe id probe probeEvent table phase hget hphase =>
      left
      refine ⟨h.loop, h.nextProbe, h.lastProbed, fun probe' hprobe hold => ?_⟩
      rcases ProberState.mem_withPhase hprobe with hprobe | ⟨phase', rfl, rfl⟩
      · exact h.unfinished probe' hprobe hold
      · exact (h.unfinished probe (Table.mem_of_get hget) hold).step hphase

/-! ## Conclusion -/

/-- How many probes of an upstream the loop has started. -/
def ProberState.probesOf (url : Str) (s : ProberState) : ℕ :=
  s.started.countP fun probe => probe.url = url

/-- What may happen while an upstream is tracked, and has so many failures in a row at most. -/
structure KeepsTracked (ε : Duration) (url : Str) (consecutiveFails : ℕ) (s : ProberState)
    (event : ProberEvent) : Prop where
  punctual : s.Punctual ε event
  runs : event ≠ .stop
  tracked : ∃ health, s.table.get url = some health ∧ health.consecutiveFails ≤ consecutiveFails

theorem probesOf_le_of_step (hstep : ProberState.Step config s event s') :
    s.probesOf url ≤ s'.probesOf url := by
  cases hstep with
  | visit =>
      rw [ProberState.visit]
      split
      · exact List.Sublist.countP_le (List.sublist_cons_self _ _)
      · exact le_refl _
  | _ => exact le_refl _

theorem StartsProbe.probesOf_lt (h : StartsProbe url s s') : s.probesOf url < s'.probesOf url := by
  rcases h.started with ⟨tick, fails, hstarted⟩
  rw [ProberState.probesOf, ProberState.probesOf, hstarted, List.countP_cons_of_pos (by simp)]
  exact Nat.lt_succ_self _

end

/-- A tracked upstream is probed again and again. From any state that the prober reaches, in a run
whose timers and tasks are late by at most `ε`, the loop starts a probe of an upstream that stays
tracked within the larger one of its interval and the time a probe takes, and a little more. -/
theorem now_le_of_not_probed {config : ProberConfig} {table : HealthTable} {now : Instant}
    {ε : Duration} {url : Str} {consecutiveFails : ℕ} {s₁ s : ProberState}
    (h₁ : Reachable (ProberState.Step config) (fun _ _ => True) (.start table now) s₁)
    (hrunning : s₁.loop ≠ .stopped)
    (h : Reachable (ProberState.Step config) (KeepsTracked ε url consecutiveFails) s₁ s)
    (hsame : s.probesOf url = s₁.probesOf url) :
    s.now ≤ s₁.now + responseTime config.interval ε consecutiveFails := by
  have hexpects : s₁.probesOf url < s.probesOf url ∨
      Expects config.interval ε url consecutiveFails s₁ s := by
    clear hsame
    induction h with
    | start =>
        right
        exact expects_self (ProberState.timed_of_reachable h₁) (ProberState.known_of_reachable h₁)
          hrunning
    | @step s s' event h hmeets hstep ih =>
        have hmono : s.probesOf url ≤ s'.probesOf url := probesOf_le_of_step hstep
        rcases ih with hmore | hexpects
        · exact .inl (hmore.trans_le hmono)
        · have htimed : s.Timed config.interval := h.invariant (ProberState.timed_of_reachable h₁)
            fun _ _ _ htimed _ hstep => htimed.step hstep
          have hmore : s₁.probesOf url ≤ s.probesOf url := by
            apply h.invariant (I := fun s => s₁.probesOf url ≤ s.probesOf url) (le_refl _)
            exact fun _ _ _ hle _ hstep => hle.trans (probesOf_le_of_step hstep)
          rcases hexpects.step htimed hmeets.tracked hmeets.punctual hmeets.runs hstep with
            hexpects | hstarts
          · exact .inr hexpects
          · exact .inl (hmore.trans_lt hstarts.probesOf_lt)
  exact (hexpects.resolve_left (by rw [hsame]; exact lt_irrefl _)).now_le

open ProberState (proberU probingU startU reachable_probingU)
open HealthStore (upstreamU)

/-- The first probe of an upstream is answered, and no other one is started for some time. -/
theorem now_le_of_not_probed_probingU :
    ∃ s : ProberState, s.now = 8 * 10 ^ 9 ∧
      s.now ≤ probingU.now + responseTime proberU.interval (10 ^ 9) 0 := by
  have hprobing : Reachable (ProberState.Step proberU) (fun _ _ => True) startU probingU :=
    reachable_probingU fun _ _ _ _ _ _ _ => trivial
  have hkeeps : ∀ (s : ProberState) (event : ProberEvent), s.Punctual (10 ^ 9) event →
      event ≠ .stop → (∃ health, s.table.get upstreamU.url = some health ∧
        health.consecutiveFails ≤ 0) → KeepsTracked (10 ^ 9) upstreamU.url 0 s event :=
    fun _ _ hpunctual hruns htracked => ⟨hpunctual, hruns, htracked⟩
  have hstart : Reachable (ProberState.Step proberU) (KeepsTracked (10 ^ 9) upstreamU.url 0)
    probingU probingU := .start
  have hsent := hstart.step (hkeeps _ _ (by trivial) (by simp) ⟨_, rfl, le_refl 0⟩)
    (@ProberState.Step.probe _ _ 0 _ _ _ _ rfl (.sends (by rfl)))
  have hanswered := hsent.step (hkeeps _ _ (by trivial) (by simp) ⟨_, rfl, le_refl 0⟩)
    (@ProberState.Step.probe _ _ 0 _ _ _ _ rfl (.answer (.ok (some 200))))
  have hrecorded := hanswered.step (hkeeps _ _ (by trivial) (by simp) ⟨_, rfl, le_refl 0⟩)
    (@ProberState.Step.probe _ _ 0 _ _ _ _ rfl .record)
  have hended := hrecorded.step (hkeeps _ _ (by trivial) (by simp) ⟨_, rfl, le_refl 0⟩)
    (@ProberState.Step.probe _ _ 0 _ _ _ _ rfl .finish)
  have hontime : 8 * 10 ^ 9 ≤ max (checkTick proberU.interval) 0 + 10 ^ 9 := by decide
  have hwaiting := hended.step (hkeeps _ _ (by trivial) (by simp) ⟨_, rfl, le_refl 0⟩)
    (.visited rfl)
  have hlater := hwaiting.step
    (hkeeps _ _ (by exact ⟨hontime, fun _ h => (List.not_mem_nil h).elim⟩) (by simp)
      ⟨_, rfl, le_refl 0⟩)
    (.advance (by decide : 0 ≤ 8 * 10 ^ 9))
  exact ⟨_, rfl, now_le_of_not_probed hprobing (by decide) hlater rfl⟩

end Ncro
