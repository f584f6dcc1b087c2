import Ncro.Discovery
import Ncro.Health.Records
import Ncro.Router.Operations

/-!
# The probe loop

The prober probes the upstreams it tracks, each at an interval that grows with the failures
in a row. The loop wakes up at a fraction of that interval, lists the upstreams, and spawns a
task for each one that is due. The tasks run beside the loop, beside one another, and beside
the tasks that record what clients see and those that add and remove upstreams.

A state of the prober has the table, the tasks of `probe_upstream` that have not ended, and
where the loop stands. It also logs the probes that the loop has started.
-/

namespace Ncro

open Foundation

/-- Bounds health probe requests, so a hung upstream counts as a failure. -/
def probeTimeout : Duration := 10 * 10 ^ 9

/-- `Duration::MAX`. -/
def maxDuration : Duration := (2 ^ 64 - 1) * 10 ^ 9 + 999999999

/-- The probe interval for an upstream based on how many consecutive failures it has
accumulated. -/
def backoffInterval (base : Duration) (consecutiveFails : ℕ) : Duration :=
  let multiplier := if consecutiveFails ≤ 2 then 1 else if consecutiveFails ≤ 9 then 4 else 10
  min (base * multiplier) maxDuration

/-- How often the loop checks for due probes. -/
def checkTick (interval : Duration) : Duration :=
  max (interval / 4) (10 ^ 9)

/-! ## A probe -/

/-- How far a task of `probe_upstream` has come. -/
inductive ProbePhase
  /-- It has not looked up whether the upstream is tracked. -/
  | spawned (since : Instant)
  /-- A request is under way. -/
  | sending (start : Instant) (method : Method)
  /-- The probe is over: the upstream has answered with this latency, or has failed. -/
  | probed (since : Instant) (latency : Option Double)
  /-- Nothing is left to do. -/
  | returning (since : Instant)
  deriving DecidableEq

/-- What a backend makes of a request: a status, a miss, or an error. -/
abbrev ProbeAnswer := Except BackendError (Option ℕ)

/-- What a task of `probe_upstream` meets. -/
inductive ProbeEvent
  | lookup
  | answer (answer : ProbeAnswer)
  | timeout
  | record
  | finish

/-- `Ok(Some(resp)) if resp.status() == StatusCode::OK`. -/
def ProbeAnswer.isOk : ProbeAnswer → Bool
  | .ok (some status) => status = 200
  | _ => false

/-- `start.elapsed().as_secs_f64() * 1000.0`. -/
def elapsedMs (elapsed : Duration) : Double :=
  (Double.fin (elapsed / 10 ^ 9)).mul (.fin 1000)

/-- The rest of a probe after an answer: `GET` is tried after `HEAD`. -/
def ProbePhase.answered (now start : Instant) (method : Method) (answer : ProbeAnswer) :
    ProbePhase :=
  if answer.isOk then .probed now (some (elapsedMs (now - start)))
  else
    match method with
    | .head => .sending start .get
    | .get => .probed now none

/-- The call with which a probe records its outcome. -/
def probeCall (now : Instant) (url : Str) : Option Double → RecordCall
  | some ms => .latency now url ms
  | none => .failure url

/-- A step of a task of `probe_upstream`, on the table and on how far it has come. In the end
it is gone. -/
inductive ProbePhase.Step (alpha : Double) (now : Instant) (url : Str) (table : HealthTable) :
    ProbePhase → ProbeEvent → HealthTable → Option ProbePhase → Prop
  | sends {since : Instant} (htracks : table.Tracks url) :
      Step alpha now url table (.spawned since) .lookup table (some (.sending now .head))
  | untracked {since : Instant} (htracks : ¬table.Tracks url) :
      Step alpha now url table (.spawned since) .lookup table (some (.returning now))
  | answer {start : Instant} {method : Method} (answer : ProbeAnswer) :
      Step alpha now url table (.sending start method) (.answer answer) table
        (some (.answered now start method answer))
  | timeout {start : Instant} {method : Method} (h : start + probeTimeout ≤ now) :
      Step alpha now url table (.sending start method) .timeout table (some (.probed now none))
  | record {since : Instant} {latency : Option Double} :
      Step alpha now url table (.probed since latency) .record
        ((probeCall now url latency).apply alpha table) (some (.returning now))
  | finish {since : Instant} :
      Step alpha now url table (.returning since) .finish table none

/-- A probe changes the table only when it records its outcome. -/
theorem ProbePhase.Step.table_eq {alpha : Double} {now : Instant} {url : Str}
    {table table' : HealthTable} {phase : ProbePhase} {event : ProbeEvent}
    {phase' : Option ProbePhase} (h : phase.Step alpha now url table event table' phase') :
    table' = table ∨ ∃ since latency, phase = .probed since latency ∧
      table' = (probeCall now url latency).apply alpha table := by
  cases h with
  | record => exact .inr ⟨_, _, rfl, rfl⟩
  | _ => exact .inl rfl

/-- A task of `probe_upstream` that has not ended. -/
structure Probe where
  id : ℕ
  url : Str
  /-- The loop has spawned it. -/
  looped : Bool
  phase : ProbePhase
  deriving DecidableEq

/-! ## The loop -/

/-- Where the loop stands: it waits, or it handles the tick at an instant. -/
inductive LoopPhase
  | waiting (since : Instant)
  | ticked (now : Instant)
  /-- These upstreams are still to be looked at. -/
  | visiting (now : Instant) (entries : List (Str × ℕ))
  | stopped
  deriving DecidableEq

/-- An entry of `last_probed`. -/
structure LastProbe where
  url : Str
  last : Instant
  /-- The task that probes the upstream. -/
  probe : ℕ
  deriving DecidableEq

/-- A probe that the loop has started. -/
structure StartedProbe where
  url : Str
  now : Instant
  consecutiveFails : ℕ
  deriving DecidableEq

structure ProberState where
  now : Instant
  table : HealthTable
  unfinished : Table Probe.id
  nextProbe : ℕ
  loop : LoopPhase
  /-- The deadline of the ticker. -/
  nextTick : Instant
  lastProbed : Table LastProbe.url
  /-- The probes that the loop has started, the newest one first. -/
  started : List StartedProbe
  deriving DecidableEq

structure ProberConfig where
  alpha : Double
  interval : Duration

namespace ProberState

/-- The loop is about to start. -/
def start (table : HealthTable) (now : Instant) : ProberState where
  now := now
  table := table
  unfinished := ∅
  nextProbe := 0
  loop := .waiting now
  nextTick := now
  lastProbed := ∅
  started := []

/-- `tokio::spawn` of a probe. -/
def spawn (s : ProberState) (looped : Bool) (url : Str) : ProberState :=
  { s with
    unfinished := s.unfinished.upsert ⟨s.nextProbe, url, looped, .spawned s.now⟩
    nextProbe := s.nextProbe + 1 }

def addUpstream (s : ProberState) (url : Str) (priority : ℤ) : ProberState :=
  { s with
    table := if (s.table.get url).isSome then s.table else s.table.upsert (.new url priority) }

def removeUpstream (s : ProberState) (url : Str) : ProberState :=
  { s with table := s.table.erase url }

/-- Whether a tick starts a probe. -/
def shouldProbe (s : ProberState) (interval : Duration) (now : Instant) (url : Str)
    (consecutiveFails : ℕ) : Bool :=
  match s.lastProbed.get url with
  | none => true
  | some last =>
      (s.unfinished.get last.probe).isNone &&
        backoffInterval interval consecutiveFails ≤ now - last.last

/-- The round of a tick for an upstream. -/
def visit (s : ProberState) (interval : Duration) (now : Instant) (url : Str)
    (consecutiveFails : ℕ) : ProberState :=
  if s.shouldProbe interval now url consecutiveFails then
    { s.spawn true url with
      lastProbed := s.lastProbed.upsert ⟨url, now, s.nextProbe⟩
      started := ⟨url, now, consecutiveFails⟩ :: s.started }
  else s

/-- The tasks that have not ended after a step of one of them. -/
def withPhase (s : ProberState) (probe : Probe) : Option ProbePhase → Table Probe.id
  | none => s.unfinished.erase probe.id
  | some phase => s.unfinished.upsert { probe with phase := phase }

end ProberState

/-- What happens to the prober. -/
inductive ProberEvent
  | advance (time : Instant)
  | addUpstream (url : Str) (priority : ℤ)
  | removeUpstream (url : Str)
  /-- Another task records a latency or a failure. -/
  | record (call : RecordCall)
  /-- `add_upstream` spawns a probe when it has added an upstream, and so does the program when it
  starts. -/
  | spawn (url : Str)
  | tick
  | snapshot (entries : List (Str × ℕ))
  | visit
  | visited
  | stop
  | probe (id : ℕ) (event : ProbeEvent)

namespace ProberState

/-- A step of the prober. -/
inductive Step (config : ProberConfig) : ProberState → ProberEvent → ProberState → Prop
  | advance {s : ProberState} {time : Instant} (h : s.now ≤ time) :
      Step config s (.advance time) { s with now := time }
  | addUpstream {s : ProberState} {url : Str} {priority : ℤ} :
      Step config s (.addUpstream url priority) (s.addUpstream url priority)
  | removeUpstream {s : ProberState} {url : Str} :
      Step config s (.removeUpstream url) (s.removeUpstream url)
  | record {s : ProberState} {call : RecordCall} :
      Step config s (.record call) { s with table := call.apply config.alpha s.table }
  | spawn {s : ProberState} {url : Str} : Step config s (.spawn url) (s.spawn false url)
  | tick {s : ProberState} {since : Instant} (hloop : s.loop = .waiting since)
      (hdue : s.nextTick ≤ s.now) :
      Step config s .tick
        { s with
          loop := .ticked s.now
          nextTick := s.nextTick + checkTick config.interval }
  | snapshot {s : ProberState} {now : Instant} {entries : List (Str × ℕ)}
      (hloop : s.loop = .ticked now)
      (hperm : entries.Perm (s.table.rows.map fun h => (h.url, h.consecutiveFails))) :
      Step config s (.snapshot entries) { s with loop := .visiting now entries }
  | visit {s : ProberState} {now : Instant} {url : Str} {consecutiveFails : ℕ}
      {entries : List (Str × ℕ)}
      (hloop : s.loop = .visiting now ((url, consecutiveFails) :: entries)) :
      Step config s .visit
        { s.visit config.interval now url consecutiveFails with loop := .visiting now entries }
  | visited {s : ProberState} {now : Instant} (hloop : s.loop = .visiting now []) :
      Step config s .visited { s with loop := .waiting s.now }
  | stop {s : ProberState} {since : Instant} (hloop : s.loop = .waiting since) :
      Step config s .stop { s with loop := .stopped }
  | probe {s : ProberState} {id : ℕ} {probe : Probe} {event : ProbeEvent} {table : HealthTable}
      {phase : Option ProbePhase} (hget : s.unfinished.get id = some probe)
      (hphase : probe.phase.Step config.alpha s.now probe.url s.table event table phase) :
      Step config s (.probe id event)
        { s with table := table, unfinished := s.withPhase probe phase }

end ProberState

/-! ## The invariant -/

/-- When a probe has come as far as it has. -/
def ProbePhase.since : ProbePhase → Instant
  | .spawned since => since
  | .sending start _ => start
  | .probed since _ => since
  | .returning since => since

/-- The instant that the loop takes for the present one. -/
def LoopPhase.clock (now : Instant) : LoopPhase → Instant
  | .ticked tick => tick
  | .visiting tick _ => tick
  | .waiting _ | .stopped => now

theorem ProbePhase.Step.since_le {alpha : Double} {now : Instant} {url : Str}
    {table table' : HealthTable} {phase phase' : ProbePhase} {event : ProbeEvent}
    (h : phase.Step alpha now url table event table' (some phase')) (hsince : phase.since ≤ now) :
    phase'.since ≤ now := by
  cases h with
  | sends | untracked | timeout | record => exact le_refl now
  | @answer start method answer =>
      unfold ProbePhase.answered
      split
      · exact le_refl now
      · cases method with
        | head => exact hsince
        | get => exact le_refl now

namespace ProberState

/-- The times of a state are past, but for the next tick. -/
structure Timed (interval : Duration) (s : ProberState) : Prop where
  clock : s.loop.clock s.now ≤ s.now
  waiting : ∀ since, s.loop = .waiting since → since ≤ s.now
  nextTick : s.nextTick ≤ s.now + checkTick interval
  lastProbed : ∀ last ∈ s.lastProbed.rows, last.last ≤ s.loop.clock s.now
  unfinished : ∀ probe ∈ s.unfinished.rows, probe.phase.since ≤ s.now

/-- The loop knows the last probe of each upstream that it has started. -/
structure Known (interval : Duration) (s : ProberState) : Prop where
  unfinished : ∀ probe ∈ s.unfinished.rows, probe.id < s.nextProbe
  lastProbed : ∀ last ∈ s.lastProbed.rows, last.probe < s.nextProbe
  looped : ∀ probe ∈ s.unfinished.rows, probe.looped = true →
    ∃ last, s.lastProbed.get probe.url = some last ∧ last.probe = probe.id
  started : ∀ probe ∈ s.started, ∃ last,
    s.lastProbed.get probe.url = some last ∧ probe.now ≤ last.last
  apart : s.started.Pairwise fun later earlier => later.url = earlier.url →
    earlier.now + backoffInterval interval later.consecutiveFails ≤ later.now

section

variable {config : ProberConfig} {s s' : ProberState} {event : ProberEvent} {table : HealthTable}
  {now : Instant}

theorem timed_start : (start table now).Timed config.interval where
  clock := le_refl now
  waiting since hloop := by
    cases hloop
    exact le_refl now
  nextTick := Nat.le_add_right now _
  lastProbed := by simp [start]
  unfinished := by simp [start]

theorem known_start : (start table now).Known config.interval where
  unfinished := by simp [start]
  lastProbed := by simp [start]
  looped := by simp [start]
  started := by simp [start]
  apart := .nil

theorem mem_withPhase {probe probe' : Probe} {phase : Option ProbePhase}
    (h : probe' ∈ (s.withPhase probe phase).rows) :
    probe' ∈ s.unfinished.rows ∨ ∃ phase', phase = some phase' ∧
      probe' = { probe with phase := phase' } := by
  cases phase with
  | none => exact .inl (Table.mem_erase.1 h).1
  | some phase => exact (Table.mem_of_mem_upsert h).symm.imp_right fun heq => ⟨phase, rfl, heq⟩

theorem Timed.spawn (h : s.Timed config.interval) (looped : Bool) (url : Str) :
    (s.spawn looped url).Timed config.interval where
  clock := h.clock
  waiting := h.waiting
  nextTick := h.nextTick
  lastProbed := h.lastProbed
  unfinished probe hprobe := by
    rcases Table.mem_of_mem_upsert hprobe with rfl | hprobe
    · exact le_refl s.now
    · exact h.unfinished probe hprobe

theorem Timed.step (h : s.Timed config.interval) (hstep : Step config s event s') :
    s'.Timed config.interval := by
  cases hstep with
  | @advance time hle =>
      constructor
      · cases hloop : s.loop with
        | ticked | visiting =>
            have hclock := h.clock
            rw [hloop] at hclock
            exact le_trans hclock hle
        | waiting | stopped => exact le_refl time
      · exact fun since hloop => (h.waiting since hloop).trans hle
      · exact h.nextTick.trans (Nat.add_le_add_right hle _)
      · intro last hlast
        refine (h.lastProbed last hlast).trans ?_
        cases s.loop with
        | ticked | visiting => exact le_refl _
        | waiting | stopped => exact hle
      · exact fun probe hprobe => (h.unfinished probe hprobe).trans hle
  | addUpstream | removeUpstream | record =>
      exact ⟨h.clock, h.waiting, h.nextTick, h.lastProbed, h.unfinished⟩
  | spawn => exact h.spawn false _
  | @tick since hloop hdue =>
      have hlast := h.lastProbed
      rw [hloop] at hlast
      exact ⟨le_refl s.now, by simp, Nat.add_le_add_right hdue _, hlast, h.unfinished⟩
  | snapshot hloop hperm =>
      have hclock := h.clock
      have hlast := h.lastProbed
      rw [hloop] at hclock hlast
      exact ⟨hclock, by simp, h.nextTick, hlast, h.unfinished⟩
  | @visit now url consecutiveFails entries hloop =>
      have hclock := h.clock
      have hlast := h.lastProbed
      rw [hloop] at hclock hlast
      rw [ProberState.visit]
      split
      · refine ⟨hclock, by simp, h.nextTick, fun last hmem => ?_, (h.spawn true url).unfinished⟩
        rcases Table.mem_of_mem_upsert hmem with rfl | hmem
        · exact le_refl now
        · exact hlast last hmem
      · exact ⟨hclock, by simp, h.nextTick, hlast, h.unfinished⟩
  | visited hloop =>
      refine ⟨le_refl s.now, fun since heq => ?_, h.nextTick, fun last hlast => ?_, h.unfinished⟩
      · cases heq
        exact le_refl s.now
      · exact (h.lastProbed last hlast).trans h.clock
  | stop hloop =>
      refine ⟨le_refl s.now, by simp, h.nextTick, fun last hlast => ?_, h.unfinished⟩
      exact (h.lastProbed last hlast).trans h.clock
  | @probe id probe _ _ phase hget hphase =>
      refine ⟨h.clock, h.waiting, h.nextTick, h.lastProbed, fun probe' hprobe => ?_⟩
      rcases mem_withPhase hprobe with hprobe | ⟨phase', rfl, rfl⟩
      · exact h.unfinished probe' hprobe
      · exact hphase.since_le (h.unfinished probe (Table.mem_of_get hget))

theorem Known.spawn (h : s.Known config.interval) (url : Str) :
    (s.spawn false url).Known config.interval where
  unfinished probe hprobe := by
    rcases Table.mem_of_mem_upsert hprobe with rfl | hprobe
    · exact Nat.lt_succ_self s.nextProbe
    · exact Nat.lt_succ_of_lt (h.unfinished probe hprobe)
  lastProbed last hlast := Nat.lt_succ_of_lt (h.lastProbed last hlast)
  looped probe hprobe hlooped := by
    rcases Table.mem_of_mem_upsert hprobe with rfl | hprobe
    · cases hlooped
    · exact h.looped probe hprobe hlooped
  started := h.started
  apart := h.apart

/-- A probe is started when the last one of its upstream is over, and was long enough ago. -/
theorem shouldProbe_iff {interval : Duration} {url : Str} {consecutiveFails : ℕ} :
    s.shouldProbe interval now url consecutiveFails = true ↔
      ∀ last, s.lastProbed.get url = some last → s.unfinished.get last.probe = none ∧
        backoffInterval interval consecutiveFails ≤ now - last.last := by
  unfold shouldProbe
  cases s.lastProbed.get url with
  | none => simp
  | some last => simp

theorem Known.visit (h : s.Known config.interval) {url : Str} {consecutiveFails : ℕ}
    (hlast : ∀ last ∈ s.lastProbed.rows, last.last ≤ now) :
    (s.visit config.interval now url consecutiveFails).Known config.interval := by
  unfold ProberState.visit
  split
  · next hshould =>
    rw [shouldProbe_iff] at hshould
    constructor
    · intro probe hprobe
      rcases Table.mem_of_mem_upsert hprobe with rfl | hprobe
      · exact Nat.lt_succ_self s.nextProbe
      · exact Nat.lt_succ_of_lt (h.unfinished probe hprobe)
    · intro last hmem
      rcases Table.mem_of_mem_upsert hmem with rfl | hmem
      · exact Nat.lt_succ_self s.nextProbe
      · exact Nat.lt_succ_of_lt (h.lastProbed last hmem)
    · intro probe hprobe hlooped
      rcases Table.mem_of_mem_upsert hprobe with rfl | hold
      · exact ⟨_, Table.get_upsert_self _ _, rfl⟩
      · rcases h.looped probe hold hlooped with ⟨last, hget, hid⟩
        refine ⟨last, ?_, hid⟩
        have hne : probe.url ≠ url := by
          rintro rfl
          have hsome : s.unfinished.get probe.id = some probe := Table.mem_rows_iff.1 hold
          rw [← hid, (hshould last hget).1] at hsome
          cases hsome
        rwa [Table.get_upsert_of_ne hne]
    · intro probe hprobe
      by_cases hurl : probe.url = url
      · refine ⟨⟨url, now, s.nextProbe⟩, ?_, ?_⟩
        · rw [hurl]
          exact Table.get_upsert_self s.lastProbed _
        · rcases List.mem_cons.1 hprobe with rfl | hprobe
          · exact le_refl now
          · rcases h.started probe hprobe with ⟨last, hget, hle⟩
            exact hle.trans (hlast last (Table.mem_of_get hget))
      · rcases List.mem_cons.1 hprobe with rfl | hprobe
        · exact absurd rfl hurl
        · rcases h.started probe hprobe with ⟨last, hget, hle⟩
          exact ⟨last, by rwa [Table.get_upsert_of_ne hurl], hle⟩
    · refine List.pairwise_cons.2 ⟨?_, h.apart⟩
      rintro probe hprobe rfl
      rcases h.started probe hprobe with ⟨last, hget, hle⟩
      have hdue := (hshould last hget).2
      have hnow := hlast last (Table.mem_of_get hget)
      calc probe.now + backoffInterval config.interval consecutiveFails
          ≤ last.last + (now - last.last) := Nat.add_le_add hle hdue
        _ = now := Nat.add_sub_of_le hnow
  · exact h

theorem Known.step (h : s.Known config.interval) (htimed : s.Timed config.interval)
    (hstep : Step config s event s') : s'.Known config.interval := by
  cases hstep with
  | advance | addUpstream | removeUpstream | record | tick | snapshot | visited | stop =>
      exact ⟨h.unfinished, h.lastProbed, h.looped, h.started, h.apart⟩
  | spawn => exact h.spawn _
  | @visit now url consecutiveFails entries hloop =>
      have hlast := htimed.lastProbed
      rw [hloop] at hlast
      have hvisit : (s.visit config.interval now url consecutiveFails).Known config.interval :=
        h.visit hlast
      exact ⟨hvisit.unfinished, hvisit.lastProbed, hvisit.looped, hvisit.started, hvisit.apart⟩
  | @probe id probe _ _ phase hget hphase =>
      have hmem := Table.mem_of_get hget
      refine ⟨fun probe' hprobe => ?_, h.lastProbed, fun probe' hprobe hlooped => ?_, h.started,
        h.apart⟩
      · rcases mem_withPhase hprobe with hprobe | ⟨phase', rfl, rfl⟩
        · exact h.unfinished probe' hprobe
        · exact h.unfinished probe hmem
      · rcases mem_withPhase hprobe with hprobe | ⟨phase', rfl, rfl⟩
        · exact h.looped probe' hprobe hlooped
        · exact h.looped probe hmem hlooped

variable {meets : ProberState → ProberEvent → Prop}

theorem timed_of_reachable (h : Reachable (Step config) meets (start table now) s) :
    s.Timed config.interval :=
  h.invariant timed_start fun _ _ _ htimed _ hstep => htimed.step hstep

theorem known_of_reachable (h : Reachable (Step config) meets (start table now) s) :
    s.Known config.interval := by
  induction h with
  | start => exact known_start
  | step h _ hstep ih => exact ih.step (timed_of_reachable h) hstep

end

end ProberState

/-! ## Conclusion -/

/-- Probes of an upstream do not pile up. In every state that the prober reaches, whatever
upstreams are added, removed and added again, and whatever the probes meet, at most one of the
probes that the loop has started for an upstream has not ended, and between any two of them there
is the interval for the failures that the upstream had at the later one. -/
theorem probes_apart {config : ProberConfig} {table : HealthTable} {now : Instant}
    {s : ProberState}
    (h : Reachable (ProberState.Step config) (fun _ _ => True) (.start table now) s) :
    (∀ probe ∈ s.unfinished.rows, ∀ probe' ∈ s.unfinished.rows, probe.looped = true →
        probe'.looped = true → probe.url = probe'.url → probe = probe') ∧
      s.started.Pairwise fun later earlier => later.url = earlier.url →
        earlier.now + backoffInterval config.interval later.consecutiveFails ≤ later.now := by
  have hknown := ProberState.known_of_reachable h
  refine ⟨fun probe hprobe probe' hprobe' hlooped hlooped' hurl => ?_, hknown.apart⟩
  rcases hknown.looped probe hprobe hlooped with ⟨last, hget, hid⟩
  rcases hknown.looped probe' hprobe' hlooped' with ⟨last', hget', hid'⟩
  rw [hurl, hget'] at hget
  cases hget
  have hsome := Table.mem_rows_iff.1 hprobe
  rw [← hid, hid', Table.mem_rows_iff.1 hprobe'] at hsome
  exact (Option.some.inj hsome).symm

/-! ## A run -/

namespace ProberState

open HealthStore (upstreamU)

/-- A prober that probes every half a minute. -/
def proberU : ProberConfig := ⟨.fin (3 / 10), 30 * 10 ^ 9⟩

/-- One upstream is tracked when the loop starts. -/
def startU : ProberState := .start (.atStart [upstreamU] ∅) 0

/-- The loop has started its first probe. -/
def probingU : ProberState :=
  { startU.visit proberU.interval 0 upstreamU.url 0 with
    loop := .visiting 0 []
    nextTick := checkTick proberU.interval }

theorem reachable_probingU {meets : ProberState → ProberEvent → Prop}
    (hmeets : ∀ s event, (∀ time, event ≠ .advance time) → event ≠ .stop →
      (∀ id probeEvent, event ≠ .probe id probeEvent) → (∀ call, event ≠ .record call) →
      s.table = startU.table → meets s event) :
    Reachable (Step proberU) meets startU probingU := by
  have hstart : Reachable (Step proberU) meets startU startU := .start
  have hticked := hstart.step (hmeets _ _ (by simp) (by simp) (by simp) (by simp) rfl)
    (.tick rfl (le_refl 0))
  have hlisted := hticked.step (hmeets _ _ (by simp) (by simp) (by simp) (by simp) rfl)
    (.snapshot rfl (.refl _))
  exact hlisted.step (hmeets _ _ (by simp) (by simp) (by simp) (by simp) rfl) (.visit rfl)

/-- The upstream answers its first probe, and half a minute later it is probed again. -/
theorem probes_apart_probingU :
    ∃ s : ProberState, s.started = [⟨upstreamU.url, 30 * 10 ^ 9, 0⟩, ⟨upstreamU.url, 0, 0⟩] ∧
      s.started.Pairwise fun later earlier => later.url = earlier.url →
        earlier.now + backoffInterval proberU.interval later.consecutiveFails ≤ later.now := by
  have hprobing : Reachable (Step proberU) (fun _ _ => True) startU probingU :=
    reachable_probingU fun _ _ _ _ _ _ _ => trivial
  have hsent := hprobing.step trivial (@Step.probe _ _ 0 _ _ _ _ rfl (.sends (by rfl)))
  have hanswered := hsent.step trivial
    (@Step.probe _ _ 0 _ _ _ _ rfl (.answer (.ok (some 200))))
  have hrecorded := hanswered.step trivial (@Step.probe _ _ 0 _ _ _ _ rfl .record)
  have hended := hrecorded.step trivial (@Step.probe _ _ 0 _ _ _ _ rfl .finish)
  have hwaiting := hended.step trivial (.visited rfl)
  have hlater := hwaiting.step trivial (.advance (by decide : 0 ≤ 30 * 10 ^ 9))
  have hticked := hlater.step trivial (.tick rfl (by decide))
  have hlisted := hticked.step trivial (.snapshot rfl (.refl _))
  have hagain := hlisted.step trivial (.visit rfl)
  exact ⟨_, rfl, (probes_apart hagain).2⟩

end ProberState

end Ncro
