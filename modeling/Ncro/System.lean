import Ncro.Instance
import Ncro.Mesh

/-!
# An instance over its lifetime

A `System` is an instance with the lookups and merges it is working on. They
perform their operations in any order, requests come and go, time passes, and
the instance may be restarted with other settings while its database is kept.
`Reached` collects the states a run leads to when every step of it meets a
condition, and `Reached.safe` is the rule by which a property of every finished
lookup follows from an invariant of the instance.
-/

namespace Ncro

open Foundation Foundation.Process

/-- A merge of a route whose path has no row, when nothing else happens meanwhile. -/
theorem Instance.replay_mergeRoutes {reg : Registry} {s : Instance} {entry : RouteEntry}
    (husable : usableRoute s.wallClock entry = true)
    (hnone : s.routes.getRoute entry.storePath = .ok none) (hcount : s.writeCount % 100 ≠ 99) :
    Replay (Instance.exec reg) (mergeRoutes [entry]) s
      [⟨.timestampNow, s.wallClock⟩, ⟨.dbGetRoute entry.storePath, .ok none⟩,
        ⟨.dbUpsertRoute entry, .ok ()⟩, ⟨.dbCountWrite, s.writeCount⟩]
      () (s.stored entry) := by
  have hnow : Instance.exec reg .timestampNow s s.wallClock s := ⟨rfl, rfl⟩
  have hread : Instance.exec reg (.dbGetRoute entry.storePath) s (.ok none) s :=
    ⟨.inr hnone.symm, rfl⟩
  have hset : Replay (Instance.exec reg) (setRoute entry) s _ _ _ := replay_setRoute entry hcount
  refine .call_bind hnow ?_
  rw [List.filter_cons_of_pos husable]
  exact .call_bind hread (hset.bind (.ret _ _))

/-! ## Tasks -/

/-- What an instance can be asked to do. -/
inductive TaskKind
  | resolve (storeHash : StoreHash) (candidates : List Str) (hop : Hop)
  | fallback (storeHash : StoreHash) (upstream : Str) (hop : Hop)
  | merge (incoming : List RouteEntry)

inductive TaskResult
  | lookup (result : Except RouterError ResolveResult)
  | merged

def TaskKind.process (crypto : Crypto) (reg : Registry) : TaskKind → Handler TaskResult
  | .resolve storeHash candidates hop => do
      let result ← Ncro.resolve crypto reg storeHash.val candidates hop
      return .lookup result
  | .fallback storeHash upstream hop => do
      let result ← resolveFallback crypto reg storeHash.val upstream hop
      return .lookup result
  | .merge incoming => do
      mergeRoutes incoming
      return .merged

/-- A task and what is left of it to do. -/
structure Task where
  kind : TaskKind
  process : Handler TaskResult

structure System where
  registry : Registry
  inst : Instance
  tasks : List Task

/-- What a step of a system is about. -/
inductive Label
  | start (kind : TaskKind)
  | perform (kind : TaskKind) (op : Op)
  | background
  | drop
  | restart (registry : Registry)

namespace System

/-- One step of a system. -/
inductive Step (crypto : Crypto) : System → Label → System → Prop
  | start (s : System) (kind : TaskKind) :
      Step crypto s (.start kind)
        { s with tasks := ⟨kind, kind.process crypto s.registry⟩ :: s.tasks }
  | perform {reg : Registry} {inst inst' : Instance} {before after : List Task} {kind : TaskKind}
      {op : Op} {next : op.Reply → Handler TaskResult} {reply : op.Reply}
      (h : Instance.exec reg op inst reply inst') :
      Step crypto ⟨reg, inst, before ++ ⟨kind, .perform op next⟩ :: after⟩ (.perform kind op)
        ⟨reg, inst', before ++ ⟨kind, next reply⟩ :: after⟩
  | background {s : System} {inst : Instance} (h : Instance.Background s.inst inst) :
      Step crypto s .background { s with inst := inst }
  /-- A dropped request gives back the permit and the lock it holds. -/
  | drop {reg : Registry} {inst : Instance} {before after : List Task} {task : Task}
      (racePermits : ℕ) (inflight : Table (Prod.fst : Str × LockId → Str)) (held : List LockId) :
      Step crypto ⟨reg, inst, before ++ task :: after⟩ .drop
        ⟨reg, { inst with racePermits := racePermits, inflight := inflight, held := held },
          before ++ after⟩
  /-- A restart keeps the database and nothing else. -/
  | restart (s : System) (reg : Registry) (health : HealthTable)
      (maxEntries : ℤ) (inMemoryNegativeTtl cooldownWindow : Duration) (maxConcurrentRaces : ℕ)
      (wallClock : Timestamp) (clock : Instant) :
      Step crypto s (.restart reg)
        ⟨reg, Instance.start reg s.inst.routes s.inst.negatives health maxEntries
          inMemoryNegativeTtl cooldownWindow maxConcurrentRaces wallClock clock, []⟩

/-- The states a run from `s₀` leads to, all of whose steps meet a condition on
the state before the step and on what the step is about. -/
inductive Reached (crypto : Crypto) (meets : System → Label → Prop) (s₀ : System) : System → Prop
  | refl : Reached crypto meets s₀ s₀
  | step {s s' : System} {label : Label} (h : Reached crypto meets s₀ s) (hmeets : meets s label)
      (hstep : Step crypto s label s') : Reached crypto meets s₀ s'

/-- A task that runs on its own to its end is reached at its end. -/
theorem Reached.execution {crypto : Crypto} {meets : System → Label → Prop} {s₀ : System}
    {reg : Registry} {inst inst' : Instance} {kind : TaskKind} {p : Handler TaskResult}
    {result : TaskResult} {tasks : List Task}
    (hp : Execution (Instance.exec reg) p inst result inst')
    (hmeets : ∀ s op, meets s (.perform kind op))
    (h : Reached crypto meets s₀ ⟨reg, inst, ⟨kind, p⟩ :: tasks⟩) :
    Reached crypto meets s₀ ⟨reg, inst', ⟨kind, .ret result⟩ :: tasks⟩ := by
  induction hp with
  | ret a s => exact h
  | @perform op next reply s s' s'' a hexec _ ih =>
      have hstep : Step crypto ⟨reg, s, [] ++ ⟨kind, .perform op next⟩ :: tasks⟩ (.perform kind op)
          ⟨reg, s', [] ++ ⟨kind, next reply⟩ :: tasks⟩ := .perform hexec
      exact ih (h.step (hmeets _ op) hstep)

/-- An instance that has just been started, over any database. -/
def Fresh (s : System) : Prop :=
  ∃ routes negatives health maxEntries inMemoryNegativeTtl cooldownWindow maxConcurrentRaces
    wallClock clock,
    s = ⟨s.registry, Instance.start s.registry routes negatives health maxEntries
      inMemoryNegativeTtl cooldownWindow maxConcurrentRaces wallClock clock, []⟩

/-- A lookup that starts in a reached state and is not interrupted is answered
from the row of its hash, when `replay_resolve_of_row` applies. -/
theorem Reached.rowAnswer {crypto : Crypto} {meets : System → Label → Prop} {s₀ s : System}
    (h : Reached crypto meets s₀ s) (storeHash : StoreHash) (candidates : List Str) (hop : Hop)
    {entry : RouteEntry} {body : Octets}
    (hstart : ∀ s kind, meets s (.start kind))
    (hperform : ∀ s op, meets s (.perform (.resolve storeHash candidates hop) op))
    (hmiss : s.inst.missLru.get s.inst.clock storeHash.val = (none, s.inst.missLru))
    (hnegative : s.inst.negatives.isNegative s.inst.wallClock storeHash.val = false)
    (hlru : s.inst.lru.get s.inst.clock storeHash.val = (none, s.inst.lru))
    (hrow : s.inst.routes.getRoute storeHash.val = .ok (some entry))
    (hvalid : entry.isValid s.inst.wallClock = true)
    (hhealth : s.inst.health.get entry.upstreamUrl = none) (hbody : entry.narinfoBytes = some body)
    (hpasses : cachedPasses s.registry entry.upstreamUrl (some body) = true) :
    ∃ s', Reached crypto meets s₀ s' ∧ s'.registry = s.registry ∧
      ⟨.resolve storeHash candidates hop,
        .ret (.lookup (.ok (Instance.rowAnswer s.registry storeHash.val entry body)))⟩ ∈
          s'.tasks := by
  have hexecution : Execution (Instance.exec s.registry)
      ((TaskKind.resolve storeHash candidates hop).process crypto s.registry) s.inst
      (.lookup (.ok (Instance.rowAnswer s.registry storeHash.val entry body))) _ :=
    (Instance.replay_resolve_of_row hmiss hnegative hlru hrow hvalid hhealth hbody
      hpasses).execution.bind (.ret _ _)
  have hstarted := h.step (hstart _ _) (.start s (.resolve storeHash candidates hop))
  exact ⟨_, hstarted.execution hexecution hperform, rfl, by simp⟩

/-! ## The rule -/

section Rule

variable {crypto : Crypto} {meets : System → Label → Prop}
  {I : Registry → Instance → Prop} {G : Registry → TaskKind → Op → Prop}
  {Q : Registry → TaskKind → TaskResult → Prop}

/-- The instance satisfies `I` and every task is safe for it. -/
structure Holds (I : Registry → Instance → Prop) (G : Registry → TaskKind → Op → Prop)
    (Q : Registry → TaskKind → TaskResult → Prop) (s : System) : Prop where
  inst : I s.registry s.inst
  safe : ∀ task ∈ s.tasks, Safe (Instance.exec s.registry) (I s.registry) (G s.registry task.kind)
    (Q s.registry task.kind) task.process

/-- What has to be shown of an invariant: tasks are safe for it when they start,
the background steps and dropped requests keep it, and a restart that meets the
condition establishes it again. -/
structure Invariant (crypto : Crypto) (meets : System → Label → Prop)
    (I : Registry → Instance → Prop) (G : Registry → TaskKind → Op → Prop)
    (Q : Registry → TaskKind → TaskResult → Prop) : Prop where
  start : ∀ reg inst kind, I reg inst →
    Safe (Instance.exec reg) (I reg) (G reg kind) (Q reg kind) (kind.process crypto reg)
  perform : ∀ s kind op, meets s (.perform kind op) → G s.registry kind op
  background : ∀ reg inst inst', Instance.Background inst inst' → I reg inst → I reg inst'
  drop : ∀ reg inst racePermits inflight held, I reg inst →
    I reg { inst with racePermits := racePermits, inflight := inflight, held := held }
  restart : ∀ s reg health maxEntries inMemoryNegativeTtl cooldownWindow maxConcurrentRaces
    wallClock clock, meets s (.restart reg) → I s.registry s.inst →
    I reg (Instance.start reg s.inst.routes s.inst.negatives health maxEntries
      inMemoryNegativeTtl cooldownWindow maxConcurrentRaces wallClock clock)

/-- One step keeps what holds. -/
theorem Holds.step (hinv : Invariant crypto meets I G Q) {s s' : System} {label : Label}
    (h : Holds I G Q s) (hmeets : meets s label) (hstep : Step crypto s label s') :
    Holds I G Q s' := by
  cases hstep with
  | start _ kind =>
      refine ⟨h.inst, fun task htask => ?_⟩
      rcases List.mem_cons.1 htask with rfl | htask
      · exact hinv.start _ _ kind h.inst
      · exact h.safe task htask
  | @perform reg inst inst' before after kind op next reply hexec =>
      have hsafe := h.safe ⟨kind, .perform op next⟩ (by simp)
      obtain ⟨hinst, hnext⟩ :=
        hsafe inst reply inst' h.inst (hinv.perform _ kind op hmeets) hexec
      refine ⟨hinst, fun task htask => ?_⟩
      simp only [List.mem_append, List.mem_cons] at htask
      rcases htask with htask | rfl | htask
      · exact h.safe task (by simp [htask])
      · exact hnext
      · exact h.safe task (by simp [htask])
  | background hbackground =>
      exact ⟨hinv.background _ _ _ hbackground h.inst, h.safe⟩
  | @drop reg inst before after task racePermits inflight held =>
      refine ⟨hinv.drop _ _ _ _ _ h.inst, fun other hother => h.safe other ?_⟩
      rcases List.mem_append.1 hother with hother | hother <;> simp [hother]
  | restart _ reg health maxEntries inMemoryNegativeTtl cooldownWindow maxConcurrentRaces
      wallClock clock =>
      exact ⟨hinv.restart _ _ _ _ _ _ _ _ _ hmeets h.inst, by simp⟩

/-- What holds initially holds in every state reached. -/
theorem Reached.safe (hinv : Invariant crypto meets I G Q) {s₀ s : System}
    (h₀ : Holds I G Q s₀) (h : Reached crypto meets s₀ s) : Holds I G Q s := by
  induction h with
  | refl => exact h₀
  | step _ hmeets hstep ih => exact ih.step hinv hmeets hstep

/-- A finished task has the property its kind promises. -/
theorem Holds.finished {s : System} (h : Holds I G Q s) {kind : TaskKind} {result : TaskResult}
    (htask : ⟨kind, .ret result⟩ ∈ s.tasks) : Q s.registry kind result :=
  h.safe _ htask

end Rule

end System

end Ncro
