import Ncro.Router.CachedHealth
import Ncro.Router.Replays
import Ncro.Router.Writes

/-!
# Negative entries

A client's lookup that ends with a miss is remembered twice, in memory and in the
table `negative_cache`, and every lookup asks these negatives first. Nothing but time
clears one: a route that a peer's lookup or a merge stores meanwhile is masked by
it until it expires. Only misses of clients are remembered, each of them after the
lookup had found no route of its own in the caches.
-/

namespace Ncro

open Foundation Foundation.Process

/-- Whether `resolve_cached` answers a hash with `NotFound` from a negative. -/
def Instance.negativeLive (s : Instance) (storeHash : Str) : Bool :=
  (s.missLru.get s.clock storeHash).1.isSome || s.negatives.isNegative s.wallClock storeHash

/-- The lookup of a client remembered a miss of a hash: it had found no route in the
caches, and its race had ended with `NotFound`. -/
def RemembersMiss (crypto : Crypto) (storeHash : Str) (entry : LogEntry) (op : Op) : Prop :=
  ∃ hash candidates, entry.kind = .resolve hash candidates .client ∧ hash.val = storeHash ∧
    LookupWrites crypto entry.registry storeHash candidates .client entry.past op

/-- A miss was remembered in memory, less than the lifetime of these negatives ago
and since the last restart. -/
def RememberedInMemory (crypto : Crypto) (s : History) (storeHash : Str) : Prop :=
  ∃ entry ∈ s.log, entry.event = ⟨.missLruInsert storeHash, ()⟩ ∧
    RemembersMiss crypto storeHash entry (.missLruInsert storeHash) ∧
    entry.boot = s.boot ∧ s.inst.clock - entry.clock < s.inst.missLru.ttl

/-- A miss was remembered in the table, less than `negative_ttl` ago. -/
def RememberedInTable (crypto : Crypto) (s : History) (storeHash : Str) : Prop :=
  ∃ entry ∈ s.log,
    entry.event = ⟨.dbSetNegative storeHash entry.registry.negativeTtl, .ok ()⟩ ∧
    RemembersMiss crypto storeHash entry (.dbSetNegative storeHash entry.registry.negativeTtl) ∧
    s.inst.wallClock.asSecond <
      (entry.wallClock.saturatingAdd entry.registry.negativeTtl).asSecond

/-- A lookup that finds a live negative answers with it. -/
theorem Instance.execution_resolve_of_negativeLive {crypto : Crypto} {reg : Registry}
    {s : Instance} {storeHash : Str} {candidates : List Str} {hop : Hop}
    (h : s.negativeLive storeHash = true) :
    ∃ s', Execution (exec reg) (resolve crypto reg storeHash candidates hop) s
      (.error .notFound) s' := by
  have hcached : ∃ s', Execution (exec reg) (resolveCached crypto reg storeHash hop) s
      (.error .notFound) s' := by
    have hget : exec reg (.missLruGet storeHash) s (s.missLru.get s.clock storeHash).1
        { s with missLru := (s.missLru.get s.clock storeHash).2 } := rfl
    cases hmiss : (s.missLru.get s.clock storeHash).1 with
    | some _ =>
        rw [hmiss] at hget
        exact ⟨_, .call_bind hget (.ret _ _)⟩
    | none =>
        rw [hmiss] at hget
        have hnegative : s.negatives.isNegative s.wallClock storeHash = true := by
          simpa [negativeLive, hmiss] using h
        have hread : exec reg (.dbIsNegative storeHash)
            { s with missLru := (s.missLru.get s.clock storeHash).2 } (.ok true)
            { s with missLru := (s.missLru.get s.clock storeHash).2 } :=
          ⟨.inr (by rw [hnegative]), rfl⟩
        exact ⟨_, .call_bind hget (.call_bind hread (.ret _ _))⟩
  obtain ⟨s', hcached⟩ := hcached
  exact ⟨s', hcached.bind (.ret _ _)⟩

namespace History

variable {crypto : Crypto} {meets : History → HistoryLabel → History → Prop} {s₀ s s' : History}
  {label : HistoryLabel}

/-- A task that remembers a miss is the lookup of a client. -/
theorem remembersMiss_of_taskOp {entry : LogEntry} {op : Op} {storeHash : Str}
    (h : TaskOp crypto entry.registry entry.kind entry.past op)
    (hop : op = .missLruInsert storeHash ∨ ∃ ttl, op = .dbSetNegative storeHash ttl) :
    RemembersMiss crypto storeHash entry op := by
  unfold RemembersMiss
  cases hkind : entry.kind with
  | resolve hash candidates hop' =>
      rw [hkind] at h
      have hwrites : LookupWrites crypto entry.registry hash.val candidates hop' entry.past op := h
      rcases hop with rfl | ⟨ttl, rfl⟩
      · obtain ⟨rfl, rfl, -⟩ := id hwrites
        exact ⟨hash, candidates, rfl, rfl, hwrites⟩
      · obtain ⟨rfl, rfl, -⟩ := id hwrites
        exact ⟨hash, candidates, rfl, rfl, hwrites⟩
  | fallback hash upstream hop' =>
      rw [hkind] at h
      rcases hop with rfl | ⟨ttl, rfl⟩ <;> exact h.elim
  | merge incoming =>
      rw [hkind] at h
      rcases hop with rfl | ⟨ttl, rfl⟩ <;> exact h.elim

/-- Every negative was remembered by the lookup of a client. -/
structure NegativesRemembered (crypto : Crypto) (s : History) : Prop where
  memory : ∀ held ∈ s.inst.missLru.entries.rows, ∃ entry ∈ s.log,
    entry.event = ⟨.missLruInsert held.key, ()⟩ ∧
    RemembersMiss crypto held.key entry (.missLruInsert held.key) ∧
    entry.boot = s.boot ∧ entry.clock = held.inserted
  table : ∀ held ∈ s.inst.negatives.rows, ∃ entry ∈ s.log,
    entry.event = ⟨.dbSetNegative held.1 entry.registry.negativeTtl, .ok ()⟩ ∧
    RemembersMiss crypto held.1 entry (.dbSetNegative held.1 entry.registry.negativeTtl) ∧
    held.2 = (entry.wallClock.saturatingAdd entry.registry.negativeTtl).asSecond

/-- Restarts forget the misses in memory. -/
theorem Step.boot (h : Step crypto s label s') :
    s'.boot = s.boot ∨ s'.inst.missLru.entries.rows = [] := by
  cases h with
  | restart => exact .inr rfl
  | _ => exact .inl rfl

theorem Reached.negativesRemembered (h₀ : s₀.Fresh) (hnegatives : s₀.inst.negatives = ∅)
    (h : Reached crypto meets s₀ s) : s.NegativesRemembered crypto := by
  have hstart : s₀.NegativesRemembered crypto := by
    obtain ⟨maxEntries, inMemoryNegativeTtl, cooldownWindow, maxConcurrentRaces, heq⟩ := h₀.inst
    refine ⟨?_, by simp [hnegatives]⟩
    rw [heq]
    intro held hheld
    cases hheld
  refine h.invariant hstart fun {s label s'} hreached hremembered _ hstep => ?_
  have hsub := hstep.log_suffix.subset
  refine ⟨fun held hheld => ?_, fun held hheld => ?_⟩
  · have hkeep : held ∈ s.inst.missLru.entries.rows → ∃ entry ∈ s'.log,
        entry.event = ⟨.missLruInsert held.key, ()⟩ ∧
        RemembersMiss crypto held.key entry (.missLruInsert held.key) ∧
        entry.boot = s'.boot ∧ entry.clock = held.inserted := by
      intro hold
      obtain ⟨entry, hentry, hevent, hmiss, hboot, hclock⟩ := hremembered.memory held hold
      rcases hstep.boot with hsame | hnone
      · exact ⟨entry, hsub hentry, hevent, hmiss, hboot.trans hsame.symm, hclock⟩
      · rw [hnone] at hheld
        cases hheld
    rcases hstep.missLru with ⟨number, kind, past, key, rfl, hinsert⟩ | hrows
    · rw [hinsert] at hheld
      rcases TtlCache.mem_of_mem_insert hheld with rfl | hold
      · obtain ⟨-, -, hboot, hlog⟩ := hstep.perform_effect
        have hop := (hreached.tasksFollow h₀).taskOp hstep
        refine ⟨s.entry number kind past ⟨.missLruInsert key, ()⟩, hlog ▸ List.mem_cons_self, rfl,
          remembersMiss_of_taskOp hop (.inl rfl), hboot.symm, rfl⟩
      · exact hkeep hold
    · exact hkeep (hrows hheld)
  · have hkeep : held ∈ s.inst.negatives.rows → ∃ entry ∈ s'.log,
        entry.event = ⟨.dbSetNegative held.1 entry.registry.negativeTtl, .ok ()⟩ ∧
        RemembersMiss crypto held.1 entry (.dbSetNegative held.1 entry.registry.negativeTtl) ∧
        held.2 = (entry.wallClock.saturatingAdd entry.registry.negativeTtl).asSecond := by
      intro hold
      obtain ⟨entry, hentry, hrest⟩ := hremembered.table held hold
      exact ⟨entry, hsub hentry, hrest⟩
    rcases hstep.negatives with ⟨number, kind, past, storePath, ttl, rfl, hset⟩ | hrows
    · rw [hset] at hheld
      rcases Table.mem_of_mem_upsert hheld with rfl | hold
      · obtain ⟨-, -, -, hlog⟩ := hstep.perform_effect
        have hop := (hreached.tasksFollow h₀).taskOp hstep
        have hmiss : RemembersMiss crypto storePath
            (s.entry number kind past ⟨.dbSetNegative storePath ttl, .ok ()⟩)
            (.dbSetNegative storePath ttl) := remembersMiss_of_taskOp hop (.inr ⟨ttl, rfl⟩)
        obtain ⟨hash, candidates, -, -, -, -, httl, -⟩ := id hmiss
        obtain rfl : ttl = s.registry.negativeTtl := httl
        exact ⟨_, hlog ▸ List.mem_cons_self, rfl, hmiss, rfl⟩
      · exact hkeep hold
    · exact hkeep (hrows.subset hheld)

end History

/-! ## Conclusion -/

/-- The table holds a route for a hash that can be used. -/
def Instance.HasLiveRoute (s : Instance) (storeHash : Str) : Prop :=
  ∃ entry, s.routes.getRoute storeHash = .ok (some entry) ∧ entry.isValid s.wallClock = true ∧
    s.isDown entry.upstreamUrl = false

namespace History

/-- An instance with an empty database that remembers misses for a second. -/
def forgetful : Instance := .start default ∅ ∅ ∅ 100000 (10 ^ 9) 0 2 default 0

/-- The instance after the lookup of a client whose only candidate does not have the
path. -/
def missedOfU : Instance := forgetful.remembered default zeroHash.val

theorem reached_missedOfU :
    ∃ tasks started log, Reached default (fun _ _ _ => True) ⟨default, forgetful, [], 0, 0, []⟩
      ⟨default, missedOfU, tasks, started, 0, log⟩ := by
  have hmiss : Flights.CachesMiss forgetful zeroHash.val := ⟨rfl, rfl, rfl, rfl⟩
  have hresolve : Execution (Instance.exec default)
      (resolve default default zeroHash.val [['u']] .client) forgetful (.error .notFound)
      missedOfU :=
    Instance.execution_resolve_missed hmiss rfl (by decide) (by decide) rfl rfl
  obtain ⟨events, hreplay⟩ := hresolve.exists_replay
  have htask : Replay (Instance.exec default)
      ((TaskKind.resolve zeroHash [['u']] .client).process default default) forgetful events
      (.lookup (.error .notFound)) missedOfU := hreplay.bind_ret rfl
  have hrefl : Reached default (fun _ _ _ => True) ⟨default, forgetful, [], 0, 0, []⟩ _ := .refl
  obtain ⟨newer, hreached, -⟩ := hrefl.task htask (fun _ => trivial)
    fun _ _ _ _ _ _ _ _ => trivial
  exact ⟨_, _, _, hreached⟩

theorem fresh_forgetful : (⟨default, forgetful, [], 0, 0, []⟩ : History).Fresh :=
  ⟨⟨100000, 10 ^ 9, 0, 2, rfl⟩, rfl, rfl⟩

end History

end Ncro
