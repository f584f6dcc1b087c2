import Mathlib.Algebra.BigOperators.Intervals
import Mathlib.Algebra.Order.BigOperators.Group.Finset
import Mathlib.Order.Lattice.Nat
import Ncro.Health.Reprobing

/-!
# Detecting that upstreams fail, and that they are back

As a tracked upstream is probed again and again, its entry tells sooner or later how it
behaves. If it does not answer, each probe is one more failure in a row, until the upstream is
down. If it answers, the first probe makes it active, however many failures there were.
-/

namespace Ncro

open Foundation

/-! ## Upstreams that answer, and upstreams that do not -/

/-- How long it takes until the outcome of the next probe is recorded. -/
def outcomeTime (interval ε : Duration) (consecutiveFails : ℕ) : Duration :=
  responseTime interval ε consecutiveFails + probeTime ε

/-- How long an upstream that does not answer passes for one that is up. -/
def detectionTime (interval ε : Duration) : Duration :=
  ∑ consecutiveFails ∈ Finset.range 10, outcomeTime interval ε consecutiveFails

/-- What an upstream is in the end that answers its probes, or none of them. -/
def settledStatus (answers : Bool) : Status :=
  if answers then .active else .down

/-- The call records an answer. -/
def RecordCall.succeeds : RecordCall → Bool
  | .latency _ _ _ => true
  | .failure _ => false

/-- The outcome of a probe is not recorded yet. -/
def ProbePhase.Unrecorded : ProbePhase → Prop
  | .returning _ => False
  | _ => True

/-- What a probe may meet at an upstream that answers, or that does not. One that answers may
turn down `HEAD`. -/
def ProbePhase.Agrees (answers : Bool) (phase : ProbePhase) : ProbeEvent → Prop
  | .answer answer => answer.isOk = answers ∨ answers = true ∧ ∃ start, phase = .sending start .head
  | .timeout => answers = false
  | _ => True

/-- No probe is about to record the other outcome. -/
def ProberState.Quiet (answers : Bool) (url : Str) (s : ProberState) : Prop :=
  ∀ probe ∈ s.unfinished.rows, probe.url = url →
    ∀ since latency, probe.phase = .probed since latency → latency.isSome = answers

/-- What may happen while a tracked upstream has not settled, answers all of its probes or none,
and nobody else finds otherwise. -/
structure Steady (answers : Bool) (ε : Duration) (url : Str) (s : ProberState)
    (event : ProberEvent) : Prop where
  punctual : s.Punctual ε event
  runs : event ≠ .stop
  unsettled : ∃ health, s.table.get url = some health ∧ health.status ≠ settledStatus answers
  agrees : ∀ id probeEvent, event = .probe id probeEvent →
    ∀ probe, s.unfinished.get id = some probe → probe.url = url →
      probe.phase.Agrees answers probeEvent
  records : ∀ call, event = .record call → call.url = url → call.succeeds = answers

/-- A probe of the upstream is under way. -/
def Probing (ε : Duration) (url : Str) (t₁ t₂ : Instant) (s : ProberState) : Prop :=
  ∃ probe ∈ s.unfinished.rows, probe.url = url ∧ probe.phase.Unrecorded ∧
    probe.phase.EndsBy ε t₁ t₂ s.now

/-- What a run keeps while an upstream settles. -/
structure Settling (interval : Duration) (answers : Bool) (url : Str) (s : ProberState) :
    Prop where
  timed : s.Timed interval
  known : s.Known interval
  counted : ∀ health ∈ s.table.rows, health.Counted
  quiet : s.Quiet answers url
  running : s.loop ≠ .stopped

/-- The outcome of a probe is recorded. -/
def OutcomeRecorded (alpha : Double) (answers : Bool) (url : Str) (table table' : HealthTable) :
    Prop :=
  ∃ call : RecordCall, call.url = url ∧ call.succeeds = answers ∧ table' = call.apply alpha table

section

variable {config : ProberConfig} {answers : Bool} {ε : Duration} {url : Str} {t₁ t₂ : Instant}
  {s₁ s s' : ProberState} {event : ProberEvent} {health : UpstreamHealth}

@[simp] theorem probeCall_url (now : Instant) (url : Str) (latency : Option Double) :
    (probeCall now url latency).url = url := by
  cases latency <;> rfl

@[simp] theorem probeCall_succeeds (now : Instant) (url : Str) (latency : Option Double) :
    (probeCall now url latency).succeeds = latency.isSome := by
  cases latency <;> rfl

theorem counted_apply {alpha : Double} {table : HealthTable} (call : RecordCall)
    (h : ∀ health ∈ table.rows, health.Counted) :
    ∀ health ∈ (call.apply alpha table).rows, health.Counted := by
  cases hget : table.get call.url with
  | none => rwa [RecordCall.apply_of_get_none hget]
  | some old =>
      rw [RecordCall.apply_of_get hget]
      intro health hmem
      rcases Table.mem_of_mem_upsert hmem with rfl | hmem
      · exact UpstreamHealth.counted_recorded alpha old call
      · exact h health hmem

theorem counted_step (h : ∀ health ∈ s.table.rows, health.Counted)
    (hstep : ProberState.Step config s event s') : ∀ health ∈ s'.table.rows, health.Counted := by
  cases hstep with
  | advance | spawn | tick | snapshot | visited | stop => exact h
  | visit =>
      rw [ProberState.visit]
      split
      · exact h
      · exact h
  | @addUpstream url priority =>
      intro health hmem
      simp only [ProberState.addUpstream] at hmem
      split at hmem
      · exact h health hmem
      · rcases Table.mem_of_mem_upsert hmem with rfl | hmem
        · exact UpstreamHealth.counted_new url priority
        · exact h health hmem
  | removeUpstream => exact fun health hmem => h health (Table.mem_erase.1 hmem).1
  | record => exact counted_apply _ h
  | probe _ hphase =>
      rcases hphase.table_eq with heq | ⟨since, latency, -, heq⟩
      · exact fun health hmem => h health (heq ▸ hmem)
      · exact fun health hmem => counted_apply _ h health (heq ▸ hmem)

/-- A probe of a steady upstream ends with the expected outcome. -/
theorem ProbePhase.Step.isSome_eq {alpha : Double} {now : Instant} {table table' : HealthTable}
    {phase phase' : ProbePhase} {probeEvent : ProbeEvent}
    (h : phase.Step alpha now url table probeEvent table' (some phase'))
    (hagrees : phase.Agrees answers probeEvent) {since : Instant} {latency : Option Double}
    (hphase : phase' = .probed since latency) : latency.isSome = answers := by
  subst hphase
  generalize hafter : some (ProbePhase.probed since latency) = after at h
  cases h with
  | sends | untracked | record | finish => cases hafter
  | timeout =>
      cases hafter
      exact hagrees.symm
  | @answer start method answer =>
      replace hafter := Option.some.inj hafter
      unfold answered at hafter
      split at hafter
      · next hok =>
        cases hafter
        rcases hagrees with hagrees | ⟨rfl, -⟩
        · exact hok.symm.trans hagrees
        · rfl
      · next hnot =>
        cases method with
        | head => cases hafter
        | get =>
            cases hafter
            rcases hagrees with hagrees | ⟨-, start', heq⟩
            · rw [← hagrees, Bool.eq_false_of_not_eq_true hnot]
              rfl
            · cases heq

theorem Settling.step (h : Settling config.interval answers url s)
    (hevent : Steady answers ε url s event) (hstep : ProberState.Step config s event s') :
    Settling config.interval answers url s' where
  timed := h.timed.step hstep
  known := h.known.step h.timed hstep
  counted := counted_step h.counted hstep
  quiet := by
    have hspawn : ∀ looped url', (s.spawn looped url').Quiet answers url := by
      intro looped url' probe hprobe hurl
      rcases Table.mem_of_mem_upsert hprobe with rfl | hprobe
      · simp
      · exact h.quiet probe hprobe hurl
    cases hstep with
    | advance | addUpstream | removeUpstream | record | tick | snapshot | visited | stop =>
        exact h.quiet
    | spawn => exact hspawn false _
    | visit =>
        rw [ProberState.visit]
        split
        · exact hspawn true _
        · exact h.quiet
    | @probe id probe probeEvent table phase hget hphase =>
        intro probe' hprobe hurl
        rcases ProberState.mem_withPhase hprobe with hprobe | ⟨phase', rfl, rfl⟩
        · exact h.quiet probe' hprobe hurl
        · intro since latency heq
          exact hphase.isSome_eq (hevent.agrees id probeEvent rfl probe hget hurl) heq
  running := by
    have hrunning := h.running
    cases hstep with
    | advance | addUpstream | removeUpstream | record | spawn | probe => exact hrunning
    | tick | snapshot | visit | visited => simp
    | stop => exact absurd rfl hevent.runs

/-- While an upstream settles, its entry stays, or goes, or an outcome is recorded. -/
theorem Settling.get_step (h : Settling config.interval answers url s)
    (hevent : Steady answers ε url s event) (hget : s.table.get url = some health)
    (hstep : ProberState.Step config s event s') :
    s'.table.get url = some health ∨ s'.now = s.now ∧
      (s'.table.get url = none ∨ OutcomeRecorded config.alpha answers url s.table s'.table) := by
  have hother : ∀ call : RecordCall, call.url ≠ url →
      (call.apply config.alpha s.table).get url = some health := by
    intro call hne
    rw [RecordCall.get_apply, if_neg hne, hget]
  cases hstep with
  | advance | spawn | tick | snapshot | visited | stop => exact .inl hget
  | visit =>
      rw [ProberState.visit]
      split
      · exact .inl hget
      · exact .inl hget
  | @addUpstream url' priority =>
      left
      simp only [ProberState.addUpstream]
      split
      · exact hget
      · next hnone =>
        rw [Table.get_upsert_of_ne, hget]
        rintro rfl
        exact hnone (Option.isSome_iff_exists.2 ⟨health, hget⟩)
  | @removeUpstream url' =>
      rw [ProberState.removeUpstream, Table.get_erase]
      split
      · exact .inr ⟨rfl, .inl rfl⟩
      · exact .inl hget
  | @record call =>
      by_cases hurl : call.url = url
      · exact .inr ⟨rfl, .inr ⟨call, hurl, hevent.records call rfl hurl, rfl⟩⟩
      · exact .inl (hother call hurl)
  | @probe id probe probeEvent table phase hprobe hphase =>
      rcases hphase.table_eq with rfl | ⟨since, latency, heq, rfl⟩
      · exact .inl hget
      · by_cases hurl : probe.url = url
        · have houtcome := h.quiet probe (Table.mem_of_get hprobe) hurl since latency heq
          exact .inr ⟨rfl, .inr ⟨_, by simpa using hurl, by simpa using houtcome, rfl⟩⟩
        · exact .inl (hother _ (by simpa using hurl))

theorem ProbePhase.Step.unrecorded {alpha : Double} {now : Instant} {table table' : HealthTable}
    {phase : ProbePhase} {phase' : Option ProbePhase} {probeEvent : ProbeEvent}
    (h : phase.Step alpha now url table probeEvent table' phase')
    (hunrecorded : phase.Unrecorded) (htracks : table.Tracks url)
    (hquiet : ∀ since latency, phase = .probed since latency → latency.isSome = answers) :
    (∃ after, phase' = some after ∧ after.Unrecorded) ∨
      OutcomeRecorded alpha answers url table table' := by
  cases h with
  | sends | timeout => exact .inl ⟨_, rfl, trivial⟩
  | untracked hno => exact absurd htracks hno
  | @answer start method answer =>
      left
      refine ⟨_, rfl, ?_⟩
      unfold answered
      split
      · trivial
      · cases method <;> trivial
  | @record since latency =>
      exact .inr ⟨_, by simp, by simpa using hquiet since latency rfl, rfl⟩
  | finish => exact hunrecorded.elim

/-- A probe of an upstream that settles goes on until its outcome is recorded. -/
theorem Probing.step (h : Probing ε url t₁ t₂ s)
    (hsettling : Settling config.interval answers url s)
    (hevent : Steady answers ε url s event) (hstep : ProberState.Step config s event s') :
    Probing ε url t₁ t₂ s' ∨ OutcomeRecorded config.alpha answers url s.table s'.table := by
  rcases h with ⟨probe, hprobe, hurl, hunrecorded, hends⟩
  have hspawn : ∀ looped url', probe ∈ (s.spawn looped url').unfinished.rows := by
    intro looped url'
    exact Table.mem_upsert.2 (.inr ⟨hprobe, (hsettling.known.unfinished probe hprobe).ne⟩)
  cases hstep with
  | @advance time hle =>
      left
      have htime := hevent.punctual.2 probe hprobe
      exact ⟨probe, hprobe, hurl, hunrecorded, hends.advance htime⟩
  | addUpstream | removeUpstream | record | tick | snapshot | visited | stop =>
      exact .inl ⟨probe, hprobe, hurl, hunrecorded, hends⟩
  | spawn => exact .inl ⟨probe, hspawn false _, hurl, hunrecorded, hends⟩
  | visit =>
      left
      rw [ProberState.visit]
      split
      · exact ⟨probe, hspawn true _, hurl, hunrecorded, hends⟩
      · exact ⟨probe, hprobe, hurl, hunrecorded, hends⟩
  | @probe id probe' probeEvent table phase hget hphase =>
      by_cases hid : probe.id = probe'.id
      · obtain rfl : probe = probe' := by
          have hsome := Table.mem_rows_iff.1 hprobe
          rw [hid, Table.key_of_get hget, hget] at hsome
          exact (Option.some.inj hsome).symm
        rcases hevent.unsettled with ⟨health, htracks, -⟩
        have hafter := hphase.unrecorded hunrecorded
          (by rw [hurl, HealthTable.Tracks, htracks]; rfl) (hsettling.quiet probe hprobe hurl)
        rcases hafter with ⟨after, rfl, hafter⟩ | hrecorded
        · left
          exact ⟨{ probe with phase := after }, Table.mem_upsert.2 (.inl rfl), hurl, hafter,
            hends.step hphase⟩
        · exact .inr (hurl ▸ hrecorded)
      · left
        refine ⟨probe, ?_, hurl, hunrecorded, hends⟩
        cases phase with
        | none => exact Table.mem_erase.2 ⟨hprobe, hid⟩
        | some phase' => exact Table.mem_upsert.2 (.inr ⟨hprobe, hid⟩)

/-- A started probe is under way. -/
theorem StartsProbe.probing (h : StartsProbe url s s') (ht₁ : t₁ ≤ s.now)
    (ht₂ : s.now + probeTime ε ≤ t₂) : Probing ε url t₁ t₂ s' := by
  refine ⟨_, Table.mem_of_get h.unfinished, rfl, trivial, ?_⟩
  rw [h.now]
  exact ProbePhase.endsBy_spawned ht₁ ht₂

theorem now_le_of_step (hstep : ProberState.Step config s event s') : s.now ≤ s'.now := by
  cases hstep with
  | advance hle => exact hle
  | visit =>
      rw [ProberState.visit]
      split
      · exact le_refl s.now
      · exact le_refl s.now
  | _ => exact le_refl s.now

theorem now_le_of_reachable {meets : ProberState → ProberEvent → Prop}
    (h : Reachable (ProberState.Step config) meets s₁ s) : s₁.now ≤ s.now := by
  induction h with
  | start => exact le_refl _
  | step _ _ hstep ih => exact ih.trans (now_le_of_step hstep)

theorem settling_of_reachable (hsettling : Settling config.interval answers url s₁)
    (h : Reachable (ProberState.Step config) (Steady answers ε url) s₁ s) :
    Settling config.interval answers url s :=
  h.invariant hsettling fun _ _ _ hsettling hevent hstep => hsettling.step hevent hstep

/-- What the prober starts with settles, if nothing is recorded against it. -/
theorem settling_of_start {upstreams : List UpstreamConfig} {saved : HealthRows} {now : Instant}
    (h : Reachable (ProberState.Step config) (fun _ _ => True)
      (.start (.atStart upstreams saved) now) s)
    (hrunning : s.loop ≠ .stopped) (hquiet : s.Quiet answers url) :
    Settling config.interval answers url s := by
  refine ⟨ProberState.timed_of_reachable h, ProberState.known_of_reachable h, ?_, hquiet, hrunning⟩
  refine h.invariant (fun health hmem => ?_) fun _ _ _ hcounted _ hstep =>
    counted_step hcounted hstep
  exact HealthTable.counted_atStart (Table.mem_rows_iff.1 hmem)

/-- An upstream that is up or degraded has less than ten failures in a row. -/
theorem UpstreamHealth.Counted.consecutiveFails_lt (h : health.Counted)
    (hstatus : health.status ≠ .down) : health.consecutiveFails < 10 := by
  by_contra hfails
  apply hstatus
  rw [h.status, computeStatus, if_pos (Nat.le_of_not_lt hfails)]

theorem UpstreamHealth.Counted.ne_down (h : health.Counted)
    (hfails : health.consecutiveFails < 10) : health.status ≠ .down := by
  rw [h.status, computeStatus, if_neg (Nat.not_le.2 hfails)]
  split <;> simp

theorem RecordCall.status_recorded (alpha : Double) {call : RecordCall}
    (h : call.succeeds = true) : (health.recorded alpha call).status = .active := by
  cases call with
  | latency now url ms => rfl
  | failure url => cases h

theorem RecordCall.consecutiveFails_recorded (alpha : Double) {call : RecordCall}
    (h : call.succeeds = false) (hfails : health.consecutiveFails < 10) :
    (health.recorded alpha call).consecutiveFails = health.consecutiveFails + 1 := by
  cases call with
  | latency now url ms => cases h
  | failure url => exact Nat.mod_eq_of_lt (by omega)

/-- An outcome changes the entry of an upstream that has not settled. -/
theorem OutcomeRecorded.get_ne {alpha : Double} {table table' : HealthTable}
    (h : OutcomeRecorded alpha answers url table table') (hget : table.get url = some health)
    (hcounted : health.Counted) (hunsettled : health.status ≠ settledStatus answers) :
    table'.get url ≠ some health := by
  rcases h with ⟨call, hurl, hsucceeds, rfl⟩
  rw [RecordCall.get_apply, if_pos hurl, hget]
  intro hsame
  replace hsame : health.recorded alpha call = health := Option.some.inj hsame
  cases answers with
  | true =>
      have hstatus : (health.recorded alpha call).status = .active :=
        RecordCall.status_recorded alpha hsucceeds
      rw [hsame] at hstatus
      exact hunsettled hstatus
  | false =>
      have hfails := RecordCall.consecutiveFails_recorded alpha hsucceeds
        (hcounted.consecutiveFails_lt hunsettled)
      rw [hsame] at hfails
      omega

/-- While no outcome is recorded, one is to come soon. -/
theorem Settling.expects_or_probing (hsettling : Settling config.interval answers url s₁)
    (h : Reachable (ProberState.Step config)
      (fun s event => Steady answers ε url s event ∧ s.table.get url = some health) s₁ s)
    (hsame : s.table.get url = some health) (hunsettled : health.status ≠ settledStatus answers) :
    Expects config.interval ε url health.consecutiveFails s₁ s ∨
      Probing ε url s₁.now (s₁.now + outcomeTime config.interval ε health.consecutiveFails) s := by
  induction h with
  | start => exact .inl (expects_self hsettling.timed hsettling.known hsettling.running)
  | @step s s' event h hmeets hstep ih =>
      rcases hmeets with ⟨hevent, hget⟩
      have hs := settling_of_reachable hsettling (h.mono fun _ _ hmeets => hmeets.1)
      rcases ih hget with hexpects | hprobing
      · rcases hexpects.step hs.timed ⟨health, hget, le_refl _⟩ hevent.punctual hevent.runs
          hstep with hexpects | hstarts
        · exact .inl hexpects
        · right
          apply hstarts.probing (now_le_of_reachable h)
          have hnow := hexpects.now_le
          unfold outcomeTime
          lia
      · rcases hprobing.step hs hevent hstep with hprobing | hrecorded
        · exact .inr hprobing
        · have hcounted := hs.counted health (Table.mem_of_get hget)
          exact absurd hsame (hrecorded.get_ne hget hcounted hunsettled)

theorem Settling.now_le (hsettling : Settling config.interval answers url s₁)
    (h : Reachable (ProberState.Step config)
      (fun s event => Steady answers ε url s event ∧ s.table.get url = some health) s₁ s)
    (hsame : s.table.get url = some health) (hunsettled : health.status ≠ settledStatus answers) :
    s.now ≤ s₁.now + outcomeTime config.interval ε health.consecutiveFails := by
  rcases hsettling.expects_or_probing h hsame hunsettled with
    hexpects | ⟨probe, -, -, -, hends⟩
  · have hnow := hexpects.now_le
    unfold outcomeTime
    lia
  · exact hends.le

/-- Nothing happens any more once the upstream has settled or is untracked. -/
theorem eq_of_reachable_steady
    (h : Reachable (ProberState.Step config) (Steady answers ε url) s₁ s)
    (hsettled : ∀ health, s₁.table.get url = some health →
      health.status = settledStatus answers) : s = s₁ := by
  induction h with
  | start => rfl
  | step _ hevent _ ih =>
      subst ih
      rcases hevent.unsettled with ⟨health, hget, hnot⟩
      exact absurd (hsettled health hget) hnot

/-- The entry of an upstream changes in time, if it changes at all: the upstream is no longer
tracked, or an outcome is recorded. -/
theorem Settling.now_le_or_recorded (hsettling : Settling config.interval answers url s₁)
    (h : Reachable (ProberState.Step config) (Steady answers ε url) s₁ s)
    (hget : s₁.table.get url = some health) (hunsettled : health.status ≠ settledStatus answers) :
    s.now ≤ s₁.now + outcomeTime config.interval ε health.consecutiveFails ∨
      ∃ (s₂ : ProberState) (call : RecordCall), Settling config.interval answers url s₂ ∧
        s₂.now ≤ s₁.now + outcomeTime config.interval ε health.consecutiveFails ∧
        call.succeeds = answers ∧ s₂.table.get url = some (health.recorded config.alpha call) ∧
        Reachable (ProberState.Step config) (Steady answers ε url) s₂ s := by
  rcases h.throughout_or_first (P := fun s => s.table.get url = some health) hget with
    ⟨h, hend⟩ | ⟨s₂, event, s₃, h, hbefore, hevent, hstep, hchanged, hafter⟩
  · exact .inl (hsettling.now_le h hend hunsettled)
  · have hnow := hsettling.now_le h hbefore hunsettled
    have hs₂ := settling_of_reachable hsettling (h.mono fun _ _ hmeets => hmeets.1)
    rcases hs₂.get_step hevent hbefore hstep with
      hsame | ⟨hnow₃, hnone | ⟨call, hurl, hsucceeds, htable⟩⟩
    · exact absurd hsame hchanged
    · have hend : s = s₃ := by
        apply eq_of_reachable_steady hafter
        intro health' hget'
        rw [hnone] at hget'
        cases hget'
      left
      rw [hend, hnow₃]
      exact hnow
    · right
      refine ⟨s₃, call, hs₂.step hevent hstep, hnow₃.trans_le hnow, hsucceeds, ?_, hafter⟩
      rw [htable, RecordCall.get_apply, if_pos hurl, hbefore]
      rfl

theorem Settling.now_le_sum {m : ℕ} (hsettling : Settling config.interval false url s₁)
    (h : Reachable (ProberState.Step config) (Steady false ε url) s₁ s)
    (hget : s₁.table.get url = some health) (hm : 10 ≤ health.consecutiveFails + m) :
    s.now ≤ s₁.now + ∑ fails ∈ Finset.Ico health.consecutiveFails 10,
      outcomeTime config.interval ε fails := by
  induction m generalizing s₁ health with
  | zero =>
      have hcounted := hsettling.counted health (Table.mem_of_get hget)
      have hdown : health.status = .down := by
        rw [hcounted.status, computeStatus, if_pos (show 10 ≤ health.consecutiveFails from hm)]
      rw [eq_of_reachable_steady h fun health' hget' => by
        rw [hget] at hget'
        cases hget'
        exact hdown]
      exact Nat.le_add_right _ _
  | succ m ih =>
      by_cases hfails : health.consecutiveFails < 10
      · have hcounted := hsettling.counted health (Table.mem_of_get hget)
        rw [Finset.sum_eq_sum_Ico_succ_bot hfails]
        rcases hsettling.now_le_or_recorded h hget (hcounted.ne_down hfails) with
          hnow | ⟨s₂, call, hs₂, hnow, hsucceeds, hget₂, hafter⟩
        · lia
        · have hcount := RecordCall.consecutiveFails_recorded config.alpha hsucceeds hfails
          have hrest := ih hs₂ hafter hget₂ (by omega)
          rw [hcount] at hrest
          lia
      · exact ih hsettling h hget (by omega)

end

/-! ## Conclusion -/

/-- An upstream that does not answer is detected. From any state that the prober reaches from its
configuration and what it has saved, in a run whose timers and tasks are late by at most `ε`, an
upstream that is tracked, answers no probe and is measured by nobody else is down before
`detectionTime` is over. -/
theorem now_le_of_not_down {config : ProberConfig} {upstreams : List UpstreamConfig}
    {saved : HealthRows} {now : Instant} {ε : Duration} {url : Str} {s₁ s : ProberState}
    (h₁ : Reachable (ProberState.Step config) (fun _ _ => True)
      (.start (.atStart upstreams saved) now) s₁)
    (hrunning : s₁.loop ≠ .stopped) (hquiet : s₁.Quiet false url)
    (h : Reachable (ProberState.Step config) (Steady false ε url) s₁ s) :
    s.now ≤ s₁.now + detectionTime config.interval ε := by
  have hsettling : Settling config.interval false url s₁ := settling_of_start h₁ hrunning hquiet
  cases hget : s₁.table.get url with
  | none =>
      rw [eq_of_reachable_steady h fun health heq => by
        rw [hget] at heq
        cases heq]
      exact Nat.le_add_right _ _
  | some health =>
      have hnow : s.now ≤ s₁.now + ∑ fails ∈ Finset.Ico health.consecutiveFails 10,
          outcomeTime config.interval ε fails :=
        hsettling.now_le_sum h hget (Nat.le_add_left 10 health.consecutiveFails)
      refine hnow.trans (Nat.add_le_add_left ?_ _)
      rw [detectionTime, Finset.range_eq_Ico]
      exact Finset.sum_le_sum_of_subset (Finset.Ico_subset_Ico_left (Nat.zero_le _))

open ProberState (proberU probingU startU reachable_probingU)
open HealthStore (upstreamU)

section

variable {answers : Bool} {ε : Duration} {url : Str} {s : ProberState} {event : ProberEvent}

theorem steady_probe {id : ℕ} {probe : Probe} {probeEvent : ProbeEvent}
    (hunsettled : ∃ health, s.table.get url = some health ∧ health.status ≠ settledStatus answers)
    (hget : s.unfinished.get id = some probe) (hagrees : probe.phase.Agrees answers probeEvent) :
    Steady answers ε url s (.probe id probeEvent) where
  punctual := trivial
  runs := by simp
  unsettled := hunsettled
  agrees := by
    intro id' probeEvent' heq probe' hget' _
    cases heq
    rw [hget] at hget'
    cases hget'
    exact hagrees
  records := by simp

theorem steady_other
    (hunsettled : ∃ health, s.table.get url = some health ∧ health.status ≠ settledStatus answers)
    (hpunctual : s.Punctual ε event) (hruns : event ≠ .stop)
    (hprobe : ∀ id probeEvent, event ≠ .probe id probeEvent)
    (hrecord : ∀ call, event ≠ .record call) : Steady answers ε url s event where
  punctual := hpunctual
  runs := hruns
  unsettled := hunsettled
  agrees := fun id probeEvent heq => absurd heq (hprobe id probeEvent)
  records := fun call heq => absurd heq (hrecord call)

end

/-- An upstream does not answer its first probe. -/
theorem now_le_of_not_down_probingU :
    ∃ s : ProberState, s.now = 8 * 10 ^ 9 ∧
      (s.table.get upstreamU.url).map UpstreamHealth.consecutiveFails = some 1 ∧
      s.now ≤ probingU.now + detectionTime proberU.interval (10 ^ 9) := by
  have hprobing : Reachable (ProberState.Step proberU) (fun _ _ => True) startU probingU :=
    reachable_probingU fun _ _ _ _ _ _ _ => trivial
  have hquiet : probingU.Quiet false upstreamU.url := by
    intro probe hprobe _
    obtain rfl := List.mem_singleton.1 hprobe
    simp
  let err : ProbeAnswer := .error (.request upstreamU.url)
  have hstart : Reachable (ProberState.Step proberU) (Steady false (10 ^ 9) upstreamU.url)
    probingU probingU := .start
  have hsent := hstart.step (steady_probe ⟨_, rfl, by decide⟩ rfl (by trivial))
    (@ProberState.Step.probe _ _ 0 _ _ _ _ rfl (.sends (by rfl)))
  have hrefused := hsent.step (steady_probe ⟨_, rfl, by decide⟩ rfl (by exact .inl rfl))
    (@ProberState.Step.probe _ _ 0 _ _ _ _ rfl (.answer err))
  have hfailed := hrefused.step (steady_probe ⟨_, rfl, by decide⟩ rfl (by exact .inl rfl))
    (@ProberState.Step.probe _ _ 0 _ _ _ _ rfl (.answer err))
  have hrecorded := hfailed.step (steady_probe ⟨_, rfl, by decide⟩ rfl (by trivial))
    (@ProberState.Step.probe _ _ 0 _ _ _ _ rfl .record)
  have hended := hrecorded.step (steady_probe ⟨_, rfl, by decide⟩ rfl (by trivial))
    (@ProberState.Step.probe _ _ 0 _ _ _ _ rfl .finish)
  have hontime : 8 * 10 ^ 9 ≤ max (checkTick proberU.interval) 0 + 10 ^ 9 := by decide
  have hwaiting := hended.step
    (steady_other ⟨_, rfl, by decide⟩ (by trivial) (by simp) (by simp) (by simp)) (.visited rfl)
  have hlater := hwaiting.step
    (steady_other ⟨_, rfl, by decide⟩ (by exact ⟨hontime, fun _ h => (List.not_mem_nil h).elim⟩)
      (by simp) (by simp) (by simp))
    (.advance (by decide : 0 ≤ 8 * 10 ^ 9))
  exact ⟨_, rfl, rfl, now_le_of_not_down hprobing (by decide) hquiet hlater⟩

/-- An upstream comes back. From any state that the prober reaches from its configuration and
what it has saved, in a run whose timers and tasks are late by at most `ε`, an upstream that is
tracked, answers its probes and fails nobody else is active again once its next probe, for which
it waits the longer the more failures it has in a row, is over. -/
theorem now_le_of_not_active {config : ProberConfig} {upstreams : List UpstreamConfig}
    {saved : HealthRows} {now : Instant} {ε : Duration} {url : Str} {s₁ s : ProberState}
    {health : UpstreamHealth}
    (h₁ : Reachable (ProberState.Step config) (fun _ _ => True)
      (.start (.atStart upstreams saved) now) s₁)
    (hrunning : s₁.loop ≠ .stopped) (hquiet : s₁.Quiet true url)
    (hget : s₁.table.get url = some health)
    (h : Reachable (ProberState.Step config) (Steady true ε url) s₁ s) :
    s.now ≤ s₁.now + outcomeTime config.interval ε health.consecutiveFails := by
  have hsettling : Settling config.interval true url s₁ := settling_of_start h₁ hrunning hquiet
  have hsettled : ∀ {s₂ : ProberState} {health' : UpstreamHealth},
      s₂.table.get url = some health' → health'.status = .active →
      Reachable (ProberState.Step config) (Steady true ε url) s₂ s → s = s₂ := by
    intro s₂ health' hget' hactive hafter
    apply eq_of_reachable_steady hafter
    intro health'' hget''
    rw [hget'] at hget''
    cases hget''
    exact hactive
  by_cases hactive : health.status = .active
  · rw [hsettled hget hactive h]
    exact Nat.le_add_right _ _
  · rcases hsettling.now_le_or_recorded h hget hactive with
      hnow | ⟨s₂, call, -, hnow, hsucceeds, hget₂, hafter⟩
    · exact hnow
    · rw [hsettled hget₂ (RecordCall.status_recorded config.alpha hsucceeds) hafter]
      exact hnow

/-- While its first probe is under way, the upstream fails three clients. -/
def degradedU : ProberState :=
  (List.replicate 3 (RecordCall.failure upstreamU.url)).foldl
    (fun s call => { s with table := call.apply proberU.alpha s.table }) probingU

/-- A degraded upstream turns down `HEAD` and answers `GET`. -/
theorem now_le_of_not_active_degradedU :
    ∃ s : ProberState, s.now = 10 ^ 9 ∧
      (degradedU.table.get upstreamU.url).map UpstreamHealth.status = some .degraded ∧
      (s.table.get upstreamU.url).map UpstreamHealth.status = some .active ∧
      s.now ≤ degradedU.now + outcomeTime proberU.interval (10 ^ 9) 3 := by
  have hprobing : Reachable (ProberState.Step proberU) (fun _ _ => True) startU probingU :=
    reachable_probingU fun _ _ _ _ _ _ _ => trivial
  have hdegraded : Reachable (ProberState.Step proberU) (fun _ _ => True) startU degradedU :=
    ((hprobing.step trivial .record).step trivial .record).step trivial .record
  have hquiet : degradedU.Quiet true upstreamU.url := by
    intro probe hprobe _
    obtain rfl := List.mem_singleton.1 hprobe
    simp
  have hnow : Reachable (ProberState.Step proberU) (Steady true (10 ^ 9) upstreamU.url)
    degradedU degradedU := .start
  have hsent := hnow.step (steady_probe ⟨_, rfl, by decide⟩ rfl (by trivial))
    (@ProberState.Step.probe _ _ 0 _ _ _ _ rfl (.sends (by rfl)))
  have hrefused := hsent.step
    (steady_probe ⟨_, rfl, by decide⟩ rfl (by exact .inr ⟨rfl, _, rfl⟩))
    (@ProberState.Step.probe _ _ 0 _ _ _ _ rfl (.answer (.ok none)))
  have hontime : 10 ^ 9 ≤ 0 + 10 ^ 9 := by decide
  have hintime : 10 ^ 9 ≤ 0 + probeTimeout + 10 ^ 9 := by decide
  have hlater := hrefused.step
    (steady_other ⟨_, rfl, by decide⟩ (by exact ⟨hontime, List.forall_mem_singleton.2 hintime⟩)
      (by simp) (by simp) (by simp))
    (.advance (by decide : 0 ≤ 10 ^ 9))
  have hanswered := hlater.step (steady_probe ⟨_, rfl, by decide⟩ rfl (by exact .inl rfl))
    (@ProberState.Step.probe _ _ 0 _ _ _ _ rfl (.answer (.ok (some 200))))
  have hrecorded := hanswered.step (steady_probe ⟨_, rfl, by decide⟩ rfl (by trivial))
    (@ProberState.Step.probe _ _ 0 _ _ _ _ rfl .record)
  obtain ⟨health, hget, hstatus, hfails⟩ : ∃ health,
      degradedU.table.get upstreamU.url = some health ∧ health.status = .degraded ∧
        health.consecutiveFails = 3 := ⟨_, rfl, rfl, rfl⟩
  have hbound := now_le_of_not_active hdegraded (by decide) hquiet hget hrecorded
  rw [hfails] at hbound
  exact ⟨_, rfl, by rw [hget, Option.map_some, hstatus], rfl, hbound⟩

end Ncro
