import Ncro.System

/-!
# The history of an instance

A `History` is a system together with the log of all operations its tasks have
performed, the newest one first: each entry says which task performed it, at what
time, and what the task had done before. The log is a ghost: forgetting it
leaves the steps of `System`, and every step of a system is one of its history.
Laws about the order of events are stated over it.
-/

namespace Ncro

open Foundation Foundation.Process

/-! ## Logs -/

/-- An operation that was performed, and when. -/
structure LogEntry where
  /-- The number of the task. -/
  task : ℕ
  kind : TaskKind
  registry : Registry
  wallClock : Timestamp
  clock : Instant
  /-- How often the instance had been restarted. -/
  boot : ℕ
  /-- What the task had done before. -/
  past : List HandlerEvent
  event : HandlerEvent

/-- A task with its number and what it has done. -/
structure LoggedTask where
  number : ℕ
  kind : TaskKind
  past : List HandlerEvent
  process : Handler TaskResult

structure History where
  registry : Registry
  inst : Instance
  tasks : List LoggedTask
  /-- How many tasks were started. -/
  started : ℕ
  boot : ℕ
  log : List LogEntry

/-- What a step of a history is about. -/
inductive HistoryLabel
  | start (kind : TaskKind)
  | perform (task : ℕ) (kind : TaskKind) (past : List HandlerEvent) (event : HandlerEvent)
  | background
  | drop
  | restart (registry : Registry)

namespace History

/-- The entry for an event that happens now. -/
def entry (s : History) (task : ℕ) (kind : TaskKind) (past : List HandlerEvent)
    (event : HandlerEvent) : LogEntry where
  task := task
  kind := kind
  registry := s.registry
  wallClock := s.inst.wallClock
  clock := s.inst.clock
  boot := s.boot
  past := past
  event := event

/-- One step of a history. -/
inductive Step (crypto : Crypto) : History → HistoryLabel → History → Prop
  | start (s : History) (kind : TaskKind) :
      Step crypto s (.start kind)
        { s with
          tasks := ⟨s.started, kind, [], kind.process crypto s.registry⟩ :: s.tasks
          started := s.started + 1 }
  | perform {s : History} {inst : Instance} {before after : List LoggedTask} {number : ℕ}
      {kind : TaskKind} {past : List HandlerEvent} {op : Op}
      {next : op.Reply → Handler TaskResult} {reply : op.Reply}
      (htasks : s.tasks = before ++ ⟨number, kind, past, .perform op next⟩ :: after)
      (h : Instance.exec s.registry op s.inst reply inst) :
      Step crypto s (.perform number kind past ⟨op, reply⟩)
        { s with
          inst := inst
          tasks := before ++ ⟨number, kind, ⟨op, reply⟩ :: past, next reply⟩ :: after
          log := s.entry number kind past ⟨op, reply⟩ :: s.log }
  | background {s : History} {inst : Instance} (h : Instance.Background s.inst inst) :
      Step crypto s .background { s with inst := inst }
  | drop {s : History} {before after : List LoggedTask} {task : LoggedTask}
      (htasks : s.tasks = before ++ task :: after) (racePermits : ℕ)
      (inflight : Table (Prod.fst : Str × LockId → Str)) (held : List LockId) :
      Step crypto s .drop
        { s with
          inst := { s.inst with racePermits := racePermits, inflight := inflight, held := held }
          tasks := before ++ after }
  | restart (s : History) (reg : Registry) (health : HealthTable)
      (maxEntries : ℤ) (inMemoryNegativeTtl cooldownWindow : Duration) (maxConcurrentRaces : ℕ)
      (wallClock : Timestamp) (clock : Instant) :
      Step crypto s (.restart reg)
        { s with
          registry := reg
          inst := Instance.start reg s.inst.routes s.inst.negatives health maxEntries
            inMemoryNegativeTtl cooldownWindow maxConcurrentRaces wallClock clock
          tasks := []
          boot := s.boot + 1 }

/-! ## Forgetting the log -/

/-- The system without its log. -/
def toSystem (s : History) : System :=
  ⟨s.registry, s.inst, s.tasks.map fun task => ⟨task.kind, task.process⟩⟩

def toLabel : HistoryLabel → Label
  | .start kind => .start kind
  | .perform _ kind _ event => .perform kind event.1
  | .background => .background
  | .drop => .drop
  | .restart registry => .restart registry

/-- The steps of a history are steps of the system. -/
theorem Step.toSystem {crypto : Crypto} {s s' : History} {label : HistoryLabel}
    (h : Step crypto s label s') : System.Step crypto s.toSystem (toLabel label) s'.toSystem := by
  cases h with
  | start kind => exact .start _ kind
  | perform htasks h =>
      unfold History.toSystem
      simp only [htasks, List.map_append, List.map_cons]
      exact .perform h
  | background h => exact .background h
  | drop htasks racePermits inflight held =>
      unfold History.toSystem
      simp only [htasks, List.map_append, List.map_cons]
      exact .drop racePermits inflight held
  | restart reg health maxEntries inMemoryNegativeTtl cooldownWindow maxConcurrentRaces wallClock
      clock => exact .restart _ _ _ _ _ _ _ _ _

/-- Every step of the system is the step of a history. -/
theorem exists_step_of_system {crypto : Crypto} {s : History} {label : Label} {t : System}
    (h : System.Step crypto s.toSystem label t) :
    ∃ label' s', Step crypto s label' s' ∧ toLabel label' = label ∧ s'.toSystem = t := by
  generalize hs : s.toSystem = s₀ at h
  cases h with
  | start _ kind =>
      subst hs
      exact ⟨_, _, .start s kind, rfl, rfl⟩
  | @perform reg inst inst' before after kind op next reply hexec =>
      simp only [History.toSystem, System.mk.injEq] at hs
      obtain ⟨rfl, rfl, htasks⟩ := hs
      obtain ⟨before', rest, hsplit, rfl, hrest⟩ := List.map_eq_append_iff.1 htasks
      obtain ⟨⟨number, _, past, _⟩, after', rfl, heq, rfl⟩ := List.map_eq_cons_iff.1 hrest
      cases heq
      exact ⟨_, _, .perform hsplit hexec, rfl, by simp [History.toSystem]⟩
  | background hbackground =>
      subst hs
      exact ⟨_, _, .background hbackground, rfl, rfl⟩
  | @drop reg inst before after task racePermits inflight held =>
      simp only [History.toSystem, System.mk.injEq] at hs
      obtain ⟨rfl, rfl, htasks⟩ := hs
      obtain ⟨before', rest, hsplit, rfl, hrest⟩ := List.map_eq_append_iff.1 htasks
      obtain ⟨task', after', rfl, heq, rfl⟩ := List.map_eq_cons_iff.1 hrest
      exact ⟨_, _, .drop hsplit racePermits inflight held, rfl, by simp [History.toSystem]⟩
  | restart _ reg health maxEntries inMemoryNegativeTtl cooldownWindow maxConcurrentRaces wallClock
      clock =>
      subst hs
      exact ⟨_, _, .restart s reg health maxEntries inMemoryNegativeTtl cooldownWindow
        maxConcurrentRaces wallClock clock, rfl, rfl⟩

/-! ## Runs -/

/-- The histories a run from `s₀` leads to, all of whose steps meet a condition on
the step and on the states before and after it. -/
inductive Reached (crypto : Crypto) (meets : History → HistoryLabel → History → Prop)
    (s₀ : History) : History → Prop
  | refl : Reached crypto meets s₀ s₀
  | step {s s' : History} {label : HistoryLabel} (h : Reached crypto meets s₀ s)
      (hmeets : meets s label s') (hstep : Step crypto s label s') : Reached crypto meets s₀ s'

/-- An instance that has just been started over a database. -/
structure Fresh (s : History) : Prop where
  inst : ∃ maxEntries inMemoryNegativeTtl cooldownWindow maxConcurrentRaces,
    s.inst = Instance.start s.registry s.inst.routes s.inst.negatives s.inst.health maxEntries
      inMemoryNegativeTtl cooldownWindow maxConcurrentRaces s.inst.wallClock s.inst.clock
  tasks : s.tasks = []
  log : s.log = []

section

variable {crypto : Crypto} {meets : History → HistoryLabel → History → Prop} {s₀ s s' : History}
  {label : HistoryLabel}

/-- The rule for invariants: the step may use all that is known of reached
histories. -/
theorem Reached.invariant {I : History → Prop} (h₀ : I s₀)
    (hstep : ∀ {s label s'}, Reached crypto meets s₀ s → I s → meets s label s' →
      Step crypto s label s' → I s')
    (h : Reached crypto meets s₀ s) : I s := by
  induction h with
  | refl => exact h₀
  | step h hmeets hs ih => exact hstep h ih hmeets hs

/-- The log only grows. -/
theorem Step.log_suffix (h : Step crypto s label s') : s.log <:+ s'.log := by
  cases h with
  | start kind => exact List.suffix_rfl
  | perform htasks h => exact List.suffix_cons _ _
  | background h => exact List.suffix_rfl
  | drop htasks racePermits inflight held => exact List.suffix_rfl
  | restart reg health maxEntries inMemoryNegativeTtl cooldownWindow maxConcurrentRaces wallClock
      clock => exact List.suffix_rfl

/-- The rule for properties of the tasks: they hold of tasks that start and are
kept by every operation. -/
theorem Step.tasks {T : Registry → LoggedTask → Prop} (hstep : Step crypto s label s')
    (h : ∀ task ∈ s.tasks, T s.registry task)
    (hstart : ∀ kind, label = .start kind →
      T s.registry ⟨s.started, kind, [], kind.process crypto s.registry⟩)
    (hperform : ∀ number kind past op next reply, label = .perform number kind past ⟨op, reply⟩ →
      T s.registry ⟨number, kind, past, .perform op next⟩ →
      T s.registry ⟨number, kind, ⟨op, reply⟩ :: past, next reply⟩) :
    ∀ task ∈ s'.tasks, T s'.registry task := by
  cases hstep with
  | start kind =>
      intro task htask
      rcases List.mem_cons.1 htask with rfl | htask
      · exact hstart kind rfl
      · exact h task htask
  | @perform inst before after number kind past op next reply htasks hexec =>
      intro task htask
      simp only [List.mem_append, List.mem_cons] at htask
      rcases htask with htask | rfl | htask
      · exact h task (by simp [htasks, htask])
      · exact hperform _ _ _ op next reply rfl (h _ (by simp [htasks]))
      · exact h task (by simp [htasks, htask])
  | background hbackground => exact h
  | @drop before after task htasks racePermits inflight held =>
      intro other hother
      refine h other ?_
      rw [htasks]
      rcases List.mem_append.1 hother with hother | hother <;> simp [hother]
  | restart reg health maxEntries inMemoryNegativeTtl cooldownWindow maxConcurrentRaces wallClock
      clock => exact fun task htask => by cases htask

/-! ## What a step changes -/

/-- An operation takes effect, and goes into the log. -/
theorem Step.perform_effect {number : ℕ} {kind : TaskKind} {past : List HandlerEvent}
    {event : HandlerEvent} (h : Step crypto s (.perform number kind past event) s') :
    Instance.exec s.registry event.1 s.inst event.2 s'.inst ∧ s'.registry = s.registry ∧
      s'.boot = s.boot ∧ s'.log = s.entry number kind past event :: s.log := by
  cases h with
  | perform htasks hexec => exact ⟨hexec, rfl, rfl, rfl⟩

/-- An operation is performed by one of the tasks. -/
theorem Step.mem_tasks {number : ℕ} {kind : TaskKind} {past : List HandlerEvent}
    {event : HandlerEvent} (h : Step crypto s (.perform number kind past event) s') :
    ∃ process, ⟨number, kind, past, process⟩ ∈ s.tasks := by
  cases h with
  | perform htasks hexec => exact ⟨_, htasks ▸ List.mem_append_right _ List.mem_cons_self⟩

/-- Only an operation writes to the log. -/
theorem Step.log_eq (h : Step crypto s label s') :
    (∃ number kind past event, label = .perform number kind past event ∧
      s'.log = s.entry number kind past event :: s.log) ∨ s'.log = s.log := by
  cases h with
  | perform htasks hexec => exact .inl ⟨_, _, _, _, rfl, rfl⟩
  | _ => exact .inr rfl

/-- Rows come from upserts. -/
theorem Step.routes (h : Step crypto s label s') :
    (∃ number kind past entry, label = .perform number kind past ⟨.dbUpsertRoute entry, .ok ()⟩ ∧
      s'.inst.routes = s.inst.routes.upsert (routeToRow entry)) ∨
    s'.inst.routes.rows.Sublist s.inst.routes.rows := by
  cases h with
  | start kind => exact .inr (.refl _)
  | perform htasks hexec =>
      refine (Instance.effect_of_exec hexec).routes.imp_left ?_
      rintro ⟨entry, heq, hroutes⟩
      cases heq
      exact ⟨_, _, _, entry, rfl, hroutes⟩
  | background hbackground =>
      cases hbackground with
      | expireRoutes => exact .inr List.filter_sublist
      | _ => exact .inr (.refl _)
  | drop htasks racePermits inflight held => exact .inr (.refl _)
  | restart reg health maxEntries inMemoryNegativeTtl cooldownWindow maxConcurrentRaces wallClock
      clock => exact .inr (.refl _)

/-- Negatives come from `set_negative`. -/
theorem Step.negatives (h : Step crypto s label s') :
    (∃ number kind past storePath ttl,
      label = .perform number kind past ⟨.dbSetNegative storePath ttl, .ok ()⟩ ∧
      s'.inst.negatives = s.inst.negatives.setNegative s.inst.wallClock storePath ttl) ∨
    s'.inst.negatives.rows.Sublist s.inst.negatives.rows := by
  cases h with
  | start kind => exact .inr (.refl _)
  | perform htasks hexec =>
      rcases (Instance.effect_of_exec hexec).negatives with ⟨storePath, ttl, heq, hset⟩ | heq
      · cases heq
        exact .inl ⟨_, _, _, storePath, ttl, rfl, hset⟩
      · exact .inr (heq ▸ .refl _)
  | background hbackground =>
      cases hbackground with
      | expireNegatives => exact .inr List.filter_sublist
      | _ => exact .inr (.refl _)
  | drop htasks racePermits inflight held => exact .inr (.refl _)
  | restart reg health maxEntries inMemoryNegativeTtl cooldownWindow maxConcurrentRaces wallClock
      clock => exact .inr (.refl _)

/-- Entries of the LRU come from insertions. -/
theorem Step.lru (h : Step crypto s label s') :
    (∃ number kind past key value,
      label = .perform number kind past ⟨.lruInsert key value, ()⟩ ∧
      s'.inst.lru = s.inst.lru.insert s.inst.clock key value) ∨
    s'.inst.lru.entries.rows ⊆ s.inst.lru.entries.rows := by
  cases h with
  | start kind => exact .inr (List.Subset.refl _)
  | perform htasks hexec =>
      refine (Instance.effect_of_exec hexec).lru.imp_left ?_
      rintro ⟨key, value, heq, hlru⟩
      cases heq
      exact ⟨_, _, _, key, value, rfl, hlru⟩
  | background hbackground =>
      cases hbackground <;> exact .inr (List.Subset.refl _)
  | drop htasks racePermits inflight held => exact .inr (List.Subset.refl _)
  | restart reg health maxEntries inMemoryNegativeTtl cooldownWindow maxConcurrentRaces wallClock
      clock => exact .inr (List.nil_subset _)

/-- Misses in memory come from insertions. -/
theorem Step.missLru (h : Step crypto s label s') :
    (∃ number kind past key, label = .perform number kind past ⟨.missLruInsert key, ()⟩ ∧
      s'.inst.missLru = s.inst.missLru.insert s.inst.clock key ()) ∨
    s'.inst.missLru.entries.rows ⊆ s.inst.missLru.entries.rows := by
  cases h with
  | start kind => exact .inr (List.Subset.refl _)
  | perform htasks hexec =>
      refine (Instance.effect_of_exec hexec).missLru.imp_left ?_
      rintro ⟨key, heq, hmiss⟩
      cases heq
      exact ⟨_, _, _, key, rfl, hmiss⟩
  | background hbackground =>
      cases hbackground <;> exact .inr (List.Subset.refl _)
  | drop htasks racePermits inflight held => exact .inr (List.Subset.refl _)
  | restart reg health maxEntries inMemoryNegativeTtl cooldownWindow maxConcurrentRaces wallClock
      clock => exact .inr (List.nil_subset _)

/-- The task that stands first goes on. -/
theorem Reached.perform {registry : Registry} {inst inst' : Instance} {started boot number : ℕ}
    {log : List LogEntry} {kind : TaskKind} {past : List HandlerEvent} {rest : List LoggedTask}
    {op : Op} {next : op.Reply → Handler TaskResult} {reply : op.Reply}
    (hexec : Instance.exec registry op inst reply inst')
    (hmeets : ∀ t t', t.registry = registry → t.inst = inst →
      meets t (.perform number kind past ⟨op, reply⟩) t')
    (h : Reached crypto meets s₀
      ⟨registry, inst, ⟨number, kind, past, .perform op next⟩ :: rest, started, boot, log⟩) :
    Reached crypto meets s₀
      ⟨registry, inst', ⟨number, kind, ⟨op, reply⟩ :: past, next reply⟩ :: rest, started, boot,
        ⟨number, kind, registry, inst.wallClock, inst.clock, boot, past, ⟨op, reply⟩⟩ :: log⟩ := by
  let t : History :=
    ⟨registry, inst, ⟨number, kind, past, .perform op next⟩ :: rest, started, boot, log⟩
  have htasks : t.tasks = [] ++ ⟨number, kind, past, .perform op next⟩ :: rest := rfl
  have hstep : Step crypto t (.perform number kind past ⟨op, reply⟩) _ := .perform htasks hexec
  exact h.step (hmeets t _ rfl rfl) hstep

/-- A task that runs on its own to its end is reached at its end, with its events in
the log. -/
theorem Reached.replay {registry : Registry} {inst inst' : Instance} {started boot number : ℕ}
    {log : List LogEntry} {kind : TaskKind} {past events : List HandlerEvent}
    {process : Handler TaskResult} {result : TaskResult} {rest : List LoggedTask}
    (hprocess : Replay (Instance.exec registry) process inst events result inst')
    (hmeets : ∀ t before event after t', events = before ++ event :: after →
      t.registry = registry → t.inst.wallClock = inst.wallClock →
      meets t (.perform number kind (before.reverse ++ past) event) t')
    (h : Reached crypto meets s₀
      ⟨registry, inst, ⟨number, kind, past, process⟩ :: rest, started, boot, log⟩) :
    ∃ newer, Reached crypto meets s₀
        ⟨registry, inst', ⟨number, kind, events.reverse ++ past, .ret result⟩ :: rest, started, boot,
          newer ++ log⟩ ∧
      ∀ entry ∈ newer, entry.task = number ∧ entry.registry = registry ∧
        entry.wallClock = inst.wallClock ∧ entry.event ∈ events := by
  induction hprocess generalizing past log with
  | ret a s => exact ⟨[], h, by simp⟩
  | @perform op next reply s s' s'' events a hexec _ ih =>
      have hwall : s'.wallClock = s.wallClock := (Instance.effect_of_exec hexec).wallClock
      have hperformed := h.perform hexec fun t t' hreg hinst =>
        hmeets t [] _ events t' rfl hreg (by rw [hinst])
      obtain ⟨newer, hend, hnewer⟩ := ih (fun t before event after t' hsplit hreg hclock => by
        have hlater := hmeets t (⟨op, reply⟩ :: before) event after t' (by rw [hsplit]; rfl) hreg
          (hclock.trans hwall)
        simpa using hlater) hperformed
      refine ⟨newer ++ [⟨number, kind, registry, s.wallClock, s.clock, boot, past, ⟨op, reply⟩⟩],
        by simpa using hend, fun entry hentry => ?_⟩
      rcases List.mem_append.1 hentry with hentry | hentry
      · obtain ⟨htask, hreg, hclock, hevent⟩ := hnewer entry hentry
        exact ⟨htask, hreg, hclock.trans hwall, List.mem_cons_of_mem _ hevent⟩
      · obtain rfl := List.mem_singleton.1 hentry
        exact ⟨rfl, rfl, rfl, List.mem_cons_self⟩

/-- Time passes in a reached state. -/
theorem Reached.tick (h : Reached crypto meets s₀ s) (wallClock : Timestamp) {clock : Instant}
    (hle : s.inst.clock ≤ clock)
    (hmeets : meets s .background
      { s with inst := { s.inst with wallClock := wallClock, clock := clock } }) :
    Reached crypto meets s₀
      { s with inst := { s.inst with wallClock := wallClock, clock := clock } } :=
  h.step hmeets (.background (.tick s.inst wallClock clock hle))

/-- The instance is restarted in a reached state. -/
theorem Reached.restart (h : Reached crypto meets s₀ s) (reg : Registry) (health : HealthTable)
    (maxEntries : ℤ) (inMemoryNegativeTtl cooldownWindow : Duration) (maxConcurrentRaces : ℕ)
    (wallClock : Timestamp) (clock : Instant) {inst : Instance}
    (hinst : inst = Instance.start reg s.inst.routes s.inst.negatives health maxEntries
      inMemoryNegativeTtl cooldownWindow maxConcurrentRaces wallClock clock)
    (hmeets : meets s (.restart reg) ⟨reg, inst, [], s.started, s.boot + 1, s.log⟩) :
    Reached crypto meets s₀ ⟨reg, inst, [], s.started, s.boot + 1, s.log⟩ := by
  subst hinst
  exact h.step hmeets (.restart s reg health maxEntries inMemoryNegativeTtl cooldownWindow
    maxConcurrentRaces wallClock clock)

/-- A task that is started in a reached state and then runs on its own. -/
theorem Reached.task (h : Reached crypto meets s₀ s) {kind : TaskKind} {events : List HandlerEvent}
    {result : TaskResult} {inst : Instance}
    (hprocess : Replay (Instance.exec s.registry) (kind.process crypto s.registry) s.inst events
      result inst)
    (hstart : ∀ t, meets s (.start kind) t)
    (hmeets : ∀ t before event after t', events = before ++ event :: after →
      t.registry = s.registry → t.inst.wallClock = s.inst.wallClock →
      meets t (.perform s.started kind before.reverse event) t') :
    ∃ newer, Reached crypto meets s₀
        ⟨s.registry, inst, ⟨s.started, kind, events.reverse, .ret result⟩ :: s.tasks, s.started + 1,
          s.boot, newer ++ s.log⟩ ∧
      ∀ entry ∈ newer, entry.task = s.started ∧ entry.registry = s.registry ∧
        entry.wallClock = s.inst.wallClock ∧ entry.event ∈ events := by
  have hstarted := h.step (hstart _) (.start s kind)
  obtain ⟨newer, hreached, hnewer⟩ := hstarted.replay hprocess
    fun t before event after t' hsplit hreg hclock => by
      rw [List.append_nil]
      exact hmeets t before event after t' hsplit hreg hclock
  rw [List.append_nil] at hreached
  exact ⟨newer, hreached, hnewer⟩

/-! ## What the log says about the tasks -/

/-- What a task did, according to a log. -/
def eventsOf (log : List LogEntry) (number : ℕ) : List HandlerEvent :=
  (log.filter fun entry => entry.task = number).map LogEntry.event

theorem eventsOf_cons_self (entry : LogEntry) (log : List LogEntry) :
    eventsOf (entry :: log) entry.task = entry.event :: eventsOf log entry.task := by
  simp [eventsOf]

theorem eventsOf_cons_of_ne {entry : LogEntry} {number : ℕ} (h : entry.task ≠ number)
    (log : List LogEntry) : eventsOf (entry :: log) number = eventsOf log number := by
  simp [eventsOf, h]

@[simp] theorem eventsOf_append (newer older : List LogEntry) (number : ℕ) :
    eventsOf (newer ++ older) number = eventsOf newer number ++ eventsOf older number := by
  simp [eventsOf]

/-- A task has done more after an entry of its own than before. -/
theorem length_eventsOf_lt (newer : List LogEntry) (entry : LogEntry) (older : List LogEntry) :
    (eventsOf older entry.task).length < (eventsOf (newer ++ entry :: older) entry.task).length := by
  rw [eventsOf_append, eventsOf_cons_self]
  simp
  omega

/-- The log accounts for the pasts of the tasks. -/
structure Accounted (s : History) : Prop where
  number_lt : ∀ task ∈ s.tasks, task.number < s.started
  entry_lt : ∀ entry ∈ s.log, entry.task < s.started
  nodup : (s.tasks.map LoggedTask.number).Nodup
  past_eq : ∀ task ∈ s.tasks, task.past = eventsOf s.log task.number

theorem Fresh.accounted (h : s.Fresh) : s.Accounted := by
  have htasks := h.tasks
  have hlog := h.log
  constructor <;> simp [htasks, hlog]

theorem Accounted.step (h : s.Accounted) (hstep : Step crypto s label s') : s'.Accounted := by
  cases hstep with
  | start kind =>
      refine ⟨fun task htask => ?_, fun entry hentry => ?_, ?_, fun task htask => ?_⟩
      · rcases List.mem_cons.1 htask with rfl | htask
        · exact Nat.lt_succ_self _
        · exact Nat.lt_succ_of_lt (h.number_lt task htask)
      · exact Nat.lt_succ_of_lt (h.entry_lt entry hentry)
      · refine List.nodup_cons.2 ⟨fun hmem => ?_, h.nodup⟩
        obtain ⟨task, htask, heq⟩ := List.mem_map.1 hmem
        exact absurd (h.number_lt task htask) (by rw [heq]; exact Nat.lt_irrefl _)
      · rcases List.mem_cons.1 htask with rfl | htask
        · have hnone : s.log.filter (fun entry => entry.task = s.started) = [] :=
            List.filter_eq_nil_iff.2 fun entry hentry heq =>
              absurd (h.entry_lt entry hentry) (by simp at heq; omega)
          simp [eventsOf, hnone]
        · exact h.past_eq task htask
  | @perform inst before after number kind past op next reply htasks hexec =>
      have hnodup := h.nodup
      have hpast := h.past_eq
      have hnumber := h.number_lt
      rw [htasks] at hnodup hpast hnumber
      have hself : past = eventsOf s.log number :=
        hpast ⟨number, kind, past, .perform op next⟩ (by simp)
      have hlt := hnumber ⟨number, kind, past, .perform op next⟩ (by simp)
      have hothers : ∀ task ∈ before ++ after, task.number ≠ number := by
        intro task htask heq
        simp only [List.map_append, List.map_cons] at hnodup
        have hnot := (List.nodup_middle.1 hnodup).notMem
        rw [← List.map_append] at hnot
        exact hnot (List.mem_map.2 ⟨task, htask, heq⟩)
      refine ⟨fun task htask => ?_, fun entry hentry => ?_, ?_, fun task htask => ?_⟩
      · simp only [List.mem_append, List.mem_cons] at htask
        rcases htask with htask | rfl | htask
        · exact hnumber task (by simp [htask])
        · exact hlt
        · exact hnumber task (by simp [htask])
      · rcases List.mem_cons.1 hentry with rfl | hentry
        · exact hlt
        · exact h.entry_lt entry hentry
      · simpa using hnodup
      · simp only [List.mem_append, List.mem_cons] at htask
        rcases htask with htask | rfl | htask
        · rw [eventsOf_cons_of_ne (hothers task (by simp [htask])).symm]
          exact hpast task (by simp [htask])
        · have hcons := eventsOf_cons_self (s.entry number kind past ⟨op, reply⟩) s.log
          exact (congrArg (⟨op, reply⟩ :: ·) hself).trans hcons.symm
        · rw [eventsOf_cons_of_ne (hothers task (by simp [htask])).symm]
          exact hpast task (by simp [htask])
  | background hbackground => exact ⟨h.number_lt, h.entry_lt, h.nodup, h.past_eq⟩
  | @drop before after task htasks racePermits inflight held =>
      have hsub : ∀ other ∈ before ++ after, other ∈ s.tasks := by
        intro other hother
        rw [htasks]
        rcases List.mem_append.1 hother with hother | hother <;> simp [hother]
      refine ⟨fun other hother => h.number_lt other (hsub other hother), h.entry_lt, ?_,
        fun other hother => h.past_eq other (hsub other hother)⟩
      have hnodup := h.nodup
      rw [htasks, List.map_append, List.map_cons] at hnodup
      simpa using (List.nodup_cons.1 (List.nodup_middle.1 hnodup)).2
  | restart reg health maxEntries inMemoryNegativeTtl cooldownWindow maxConcurrentRaces wallClock
      clock => exact ⟨by simp, h.entry_lt, by simp, by simp⟩

/-- What a task did before is in the log. -/
theorem Reached.exists_entry (h₀ : s₀.Fresh) (h : Reached crypto meets s₀ s) :
    ∀ task ∈ s.tasks, ∀ event earlier, event :: earlier <:+ task.past →
      ∃ entry ∈ s.log, entry.task = task.number ∧ entry.past = earlier ∧ entry.event = event := by
  let I : History → Prop := fun s => ∀ task ∈ s.tasks, ∀ event earlier,
    event :: earlier <:+ task.past →
      ∃ entry ∈ s.log, entry.task = task.number ∧ entry.past = earlier ∧ entry.event = event
  have hstart : I s₀ := by simp [I, h₀.tasks]
  refine h.invariant (I := I) hstart fun {s label s'} _ hlogged _ hstep => ?_
  have hsub := hstep.log_suffix.subset
  refine hstep.tasks (T := fun _ task => ∀ event earlier, event :: earlier <:+ task.past →
      ∃ entry ∈ s'.log, entry.task = task.number ∧ entry.past = earlier ∧ entry.event = event)
    (fun task htask event earlier hpast => ?_) (fun kind _ event earlier hpast => ?_)
    fun number kind past op next reply heq hself event earlier hpast => ?_
  · obtain ⟨entry, hentry, hrest⟩ := hlogged task htask event earlier hpast
    exact ⟨entry, hsub hentry, hrest⟩
  · exact absurd hpast (by simp)
  · subst heq
    obtain ⟨-, -, -, hlog⟩ := hstep.perform_effect
    rcases List.suffix_cons_iff.1 hpast with hall | hpast
    · obtain ⟨rfl, rfl⟩ := List.cons.inj hall
      exact ⟨_, hlog ▸ List.mem_cons_self, rfl, rfl, rfl⟩
    · exact hself event earlier hpast

/-- What a task had done before an operation is in the log before it. -/
theorem Reached.entry_past (h₀ : s₀.Fresh) (h : Reached crypto meets s₀ s) :
    ∀ newer entry older, s.log = newer ++ entry :: older →
      entry.past = eventsOf older entry.task := by
  let I : History → Prop := fun s => s.Accounted ∧ ∀ newer entry older,
    s.log = newer ++ entry :: older → entry.past = eventsOf older entry.task
  have hstart : I s₀ := ⟨h₀.accounted, by simp [h₀.log]⟩
  have hall : I s := by
    refine h.invariant (I := I) hstart fun {s label s'} _ hpasts _ hstep => ?_
    refine ⟨hpasts.1.step hstep, fun newer entry older hlog => ?_⟩
    rcases hstep.log_eq with ⟨number, kind, past, event, rfl, hnew⟩ | hsame
    · obtain ⟨process, htask⟩ := hstep.mem_tasks
      rw [hnew] at hlog
      cases newer with
      | nil =>
          obtain ⟨rfl, rfl⟩ := List.cons.inj hlog
          exact hpasts.1.past_eq _ htask
      | cons _ newer => exact hpasts.2 newer entry older (List.cons.inj hlog).2
    · exact hpasts.2 newer entry older (hsame ▸ hlog)
  exact hall.2

theorem Reached.accounted (h₀ : s₀.Fresh) (h : Reached crypto meets s₀ s) : s.Accounted :=
  h.invariant h₀.accounted fun _ haccounted _ hstep => haccounted.step hstep

end

end History

end Ncro
