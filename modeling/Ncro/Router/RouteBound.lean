import Mathlib.Tactic.Ring
import Ncro.Instance

/-!
# The size of the route table

Every hundredth `set_route` deletes what is above `max_entries`, whether the writes
before it added rows or replaced them. The table is bounded by what the writes since
the last deletion can have added: `sinceEviction`. The counter has 64 bits, and
where it wraps around the deletions are 116 writes apart instead of 100.
-/

namespace Ncro

open Foundation Foundation.Process

/-! ## Runs of the database -/

inductive DbCall
  | setRoute (entry : RouteEntry)
  | expireOldRoutes (now : Timestamp)

/-- The number of calls of `set_route`. -/
def setRoutes : List DbCall → ℕ
  | [] => 0
  | .setRoute _ :: calls => setRoutes calls + 1
  | .expireOldRoutes _ :: calls => setRoutes calls

/-- Some calls, one after the other, whose statements succeed. -/
inductive DbRun (reg : Registry) : Instance → List DbCall → Instance → Prop
  | nil (s : Instance) : DbRun reg s [] s
  | setRoute {s s₁ s' : Instance} {entry : RouteEntry} {calls : List DbCall}
      (h : Execution (Instance.exec reg) (setRoute entry) s (.ok ()) s₁)
      (hrest : DbRun reg s₁ calls s') : DbRun reg s (.setRoute entry :: calls) s'
  | expireOldRoutes {s s' : Instance} {now : Timestamp} {calls : List DbCall}
      (hrest : DbRun reg { s with routes := s.routes.expireOldRoutes now } calls s') :
      DbRun reg s (.expireOldRoutes now :: calls) s'

section Runs

variable {reg : Registry} {s s₁ s' : Instance} {calls calls' : List DbCall}

theorem DbRun.append (h : DbRun reg s calls s₁) (h' : DbRun reg s₁ calls' s') :
    DbRun reg s (calls ++ calls') s' := by
  induction h with
  | nil s => exact h'
  | setRoute h _ ih => exact .setRoute h (ih h')
  | expireOldRoutes _ ih => exact .expireOldRoutes (ih h')

theorem setRoutes_append : setRoutes (calls ++ calls') = setRoutes calls + setRoutes calls' := by
  induction calls with
  | nil => exact (Nat.zero_add _).symm
  | cons call calls ih =>
      cases call with
      | setRoute entry =>
          rw [List.cons_append, setRoutes, setRoutes, ih]
          ring
      | expireOldRoutes now => exact ih

end Runs

/-! ## One call -/

/-- What a deletion leaves of the rows that were written. -/
structure RouteTable.EvictedTo (maxEntries : ℤ) (written kept : RouteTable) : Prop where
  sublist : kept.rows.Sublist written.rows
  removed : (written.rows.length : ℤ) - kept.rows.length =
    max 0 ((written.rows.length : ℤ) - maxEntries)
  oldest : ∀ row ∈ written.rows, row ∉ kept.rows →
    ∀ row' ∈ kept.rows, row.lastVerified ≤ row'.lastVerified

theorem RouteTable.Evicts.evictedTo {maxEntries : ℤ} {written kept : RouteTable}
    (hmax : 0 < maxEntries) (h : written.Evicts maxEntries kept) :
    EvictedTo maxEntries written kept := by
  refine ⟨h.sublist, ?_, h.oldest⟩
  have hlength := h.length
  unfold excess at hlength
  omega

/-- What a call of `set_route` does. -/
structure SetRoute (entry : RouteEntry) (s s' : Instance) : Prop where
  maxEntries : s'.maxEntries = s.maxEntries
  writeCount : s'.writeCount = (s.writeCount + 1) % 2 ^ 64
  evicts : s.writeCount % 100 = 99 →
    RouteTable.EvictedTo s.maxEntries (s.routes.upsert (routeToRow entry)) s'.routes
  keeps : s.writeCount % 100 ≠ 99 → s'.routes = s.routes.upsert (routeToRow entry)

theorem SetRoute.of_execution {reg : Registry} {entry : RouteEntry} {s s' : Instance}
    (hmax : 0 < s.maxEntries)
    (h : Execution (Instance.exec reg) (setRoute entry) s (.ok ()) s') : SetRoute entry s s' := by
  obtain ⟨reply, s₁, hupsert, h⟩ := execution_call_bind_iff.1 h
  rcases hupsert with ⟨rfl, -⟩ | ⟨rfl, rfl⟩
  · cases (execution_ret_iff.1 h).1
  obtain ⟨count, s₂, ⟨rfl, rfl⟩, h⟩ := execution_call_bind_iff.1 h
  split at h
  · next hcount =>
    obtain ⟨reply, s₃, hevict, h⟩ := execution_call_bind_iff.1 h
    obtain ⟨rfl, rfl⟩ := execution_ret_iff.1 h
    rcases hevict with ⟨hreply, -⟩ | ⟨-, routes, hevicts, rfl⟩
    · cases hreply
    · exact ⟨rfl, rfl, fun _ => hevicts.evictedTo hmax, fun hnot => absurd hcount hnot⟩
  · next hcount =>
    obtain ⟨-, rfl⟩ := execution_ret_iff.1 h
    exact ⟨rfl, rfl, fun hevict => absurd hevict hcount, fun _ => rfl⟩

theorem RouteTable.length_upsert_le (routes : RouteTable) (row : RouteRow) :
    (routes.upsert row).rows.length ≤ routes.rows.length + 1 :=
  Nat.succ_le_succ (List.length_filter_le _ _)

/-! ## The counter -/

/-- The number of writes since the last that deleted rows. -/
def sinceEviction : ℕ → ℕ
  | 0 => 0
  | n + 1 => if n % 2 ^ 64 % 100 = 99 then 0 else sinceEviction n + 1

/-- Until the counter has wrapped around the deletions are a hundred writes apart. -/
theorem sinceEviction_eq {n : ℕ} (hn : n ≤ 2 ^ 64 + 83) : sinceEviction n = n % 100 := by
  induction n with
  | zero => rfl
  | succ n ih =>
      have ih := ih (by omega)
      rw [sinceEviction]
      rcases lt_or_ge n (2 ^ 64) with hlt | hge
      · rw [Nat.mod_eq_of_lt hlt]
        split <;> omega
      · rw [Nat.mod_eq_sub_mod hge, Nat.mod_eq_of_lt (by omega)]
        split <;> omega

/-- Where the counter wraps around, the 16 writes before count as well. -/
theorem sinceEviction_le (n : ℕ) : sinceEviction n ≤ 115 := by
  have hphase : sinceEviction n ≤
      if n % 2 ^ 64 < 100 then 16 + n % 2 ^ 64 else n % 2 ^ 64 % 100 := by
    induction n with
    | zero => exact Nat.zero_le _
    | succ n ih =>
        rw [sinceEviction]
        split
        · exact Nat.zero_le _
        · split at ih <;> split <;> omega
  split at hphase <;> omega

/-! ## Every run -/

/-- What `n` writes leave of the bound. -/
structure BoundedAfter (maxEntries : ℤ) (n : ℕ) (s : Instance) : Prop where
  bound : s.maxEntries = maxEntries
  writeCount : s.writeCount = n % 2 ^ 64
  length : (s.routes.rows.length : ℤ) ≤ maxEntries + sinceEviction n

section Bound

variable {reg : Registry} {maxEntries : ℤ} {n : ℕ} {s s' : Instance} {entry : RouteEntry}
  {calls : List DbCall}

theorem BoundedAfter.setRoute (h : BoundedAfter maxEntries n s) (hset : SetRoute entry s s') :
    BoundedAfter maxEntries (n + 1) s' := by
  have hwritten := s.routes.length_upsert_le (routeToRow entry)
  have hlength := h.length
  refine ⟨hset.maxEntries.trans h.bound, ?_, ?_⟩
  · rw [hset.writeCount, h.writeCount]
    omega
  · rw [sinceEviction, ← h.writeCount]
    split
    · next hcount =>
      have hremoved := (hset.evicts hcount).removed
      rw [h.bound] at hremoved
      omega
    · next hcount =>
      rw [hset.keeps hcount]
      push_cast
      omega

theorem BoundedAfter.expireOldRoutes (h : BoundedAfter maxEntries n s) (now : Timestamp) :
    BoundedAfter maxEntries n { s with routes := s.routes.expireOldRoutes now } := by
  refine ⟨h.bound, h.writeCount, le_trans ?_ h.length⟩
  exact_mod_cast List.length_filter_le _ _

theorem BoundedAfter.run (h : BoundedAfter maxEntries n s) (hmax : 0 < maxEntries)
    (hrun : DbRun reg s calls s') : BoundedAfter maxEntries (n + setRoutes calls) s' := by
  induction hrun generalizing n with
  | nil s => exact h
  | setRoute hset _ ih =>
      have hmax' := h.bound ▸ hmax
      have hnext := ih (h.setRoute (.of_execution hmax' hset))
      rw [setRoutes]
      rwa [Nat.add_right_comm] at hnext
  | expireOldRoutes _ ih => exact ih (h.expireOldRoutes _)

end Bound

/-- The table of a database that is opened with at most `max_entries` rows stays bounded. -/
theorem routes_bounded (reg : Registry) (start s : Instance) (calls : List DbCall)
    (hopened : start.writeCount = 0) (hmax : 0 < start.maxEntries)
    (hrows : (start.routes.rows.length : ℤ) ≤ start.maxEntries)
    (hrun : DbRun reg start calls s) :
    (setRoutes calls ≤ 2 ^ 64 + 83 →
      (s.routes.rows.length : ℤ) ≤ start.maxEntries + 99 ∧
        (setRoutes calls % 100 = 0 → (s.routes.rows.length : ℤ) ≤ start.maxEntries)) ∧
      (s.routes.rows.length : ℤ) ≤ start.maxEntries + 115 ∧
      ∀ entry s', Execution (Instance.exec reg) (setRoute entry) s (.ok ()) s' →
        (setRoutes calls % 2 ^ 64 % 100 = 99 →
          RouteTable.EvictedTo start.maxEntries (s.routes.upsert (routeToRow entry)) s'.routes) ∧
        (setRoutes calls % 2 ^ 64 % 100 ≠ 99 →
          s'.routes = s.routes.upsert (routeToRow entry)) := by
  have hstart : BoundedAfter start.maxEntries 0 start :=
    ⟨rfl, hopened, by simpa [sinceEviction] using hrows⟩
  have hbounded := hstart.run hmax hrun
  rw [Nat.zero_add] at hbounded
  have hlength := hbounded.length
  refine ⟨fun hcalls => ?_, ?_, fun entry s' hset => ?_⟩
  · rw [sinceEviction_eq hcalls] at hlength
    constructor
    · omega
    · intro hhundred
      omega
  · have := sinceEviction_le (setRoutes calls)
    omega
  · have hset := SetRoute.of_execution (hbounded.bound ▸ hmax) hset
    rw [← hbounded.writeCount, ← hbounded.bound]
    exact ⟨hset.evicts, hset.keeps⟩

/-! ## The counter wraps around -/

/-- A write that finds room, or is not a hundredth one, only adds its row. -/
theorem execution_setRoute_of_room {reg : Registry} {s : Instance} {entry : RouteEntry}
    (h : s.writeCount % 100 ≠ 99 ∨
      RouteTable.excess (s.routes.upsert (routeToRow entry)) s.maxEntries = 0) :
    Execution (Instance.exec reg) (setRoute entry) s (.ok ()) (s.stored entry) := by
  by_cases hcount : s.writeCount % 100 = 99
  · have hroom := h.resolve_left (not_not.2 hcount)
    have hupsert : Instance.exec reg (.dbUpsertRoute entry) s (.ok ())
        { s with routes := s.routes.upsert (routeToRow entry) } := .inr ⟨rfl, rfl⟩
    have hnext : Instance.exec reg .dbCountWrite
        { s with routes := s.routes.upsert (routeToRow entry) } s.writeCount (s.stored entry) :=
      ⟨rfl, rfl⟩
    have hevict : Instance.exec reg .dbEvictIfNeeded (s.stored entry) (.ok ()) (s.stored entry) := by
      refine .inr ⟨rfl, _, ⟨List.Sublist.refl _, ?_, fun row hrow hnot => absurd hrow hnot⟩, rfl⟩
      exact congrArg _ hroom
    refine .call_bind hupsert (.call_bind hnext ?_)
    rw [if_pos hcount]
    exact .perform hevict (.ret _ _)
  · exact (Instance.replay_setRoute entry hcount).execution

/-- A route for the path of some length. -/
def routeAt (n : ℕ) : RouteEntry where
  storePath := List.replicate n 'a'
  upstreamUrl := []
  latencyMs := .fin 0
  latencyEma := .fin 0
  lastVerified := default
  queryCount := 0
  failureCount := 0
  ttl := default
  narHash := []
  narSize := 0
  narUrl := []
  upstreamNarUrl := []
  narinfoBytes := none

/-- The table holds rows for `n` paths of up to this length. -/
structure Filled (n : ℕ) (s : Instance) : Prop where
  length : s.routes.rows.length = n + 1
  paths : ∀ row ∈ s.routes.rows, row.storePath.length ≤ n
  bound : s.maxEntries = 1

theorem Filled.stored {n : ℕ} {s : Instance} (h : Filled n s) :
    Filled (n + 1) (s.stored (routeAt (n + 1))) := by
  have hkeeps : ∀ row ∈ s.routes.rows,
      decide (row.storePath ≠ (routeAt (n + 1)).storePath) = true := by
    intro row hrow
    apply decide_eq_true
    intro heq
    have hpath := h.paths row hrow
    rw [heq, routeAt, List.length_replicate] at hpath
    omega
  constructor
  · change (_ :: List.filter _ _).length = _
    rw [List.length_cons, routeToRow_storePath, List.filter_eq_self.2 hkeeps, h.length]
  · intro row hrow
    rcases Table.mem_of_mem_upsert hrow with rfl | hrow
    · rw [routeToRow_storePath, routeAt, List.length_replicate]
    · exact (h.paths row hrow).trans (Nat.le_succ n)
  · exact h.bound

/-- Writing the only row again. -/
theorem Filled.overwritten {s : Instance} (h : Filled 0 s) :
    Filled 0 (s.stored (routeAt 0)) := by
  have hdrops : ∀ row ∈ s.routes.rows, ¬decide (row.storePath ≠ (routeAt 0).storePath) = true := by
    intro row hrow
    have hpath := List.length_eq_zero_iff.1 (Nat.le_zero.1 (h.paths row hrow))
    rw [hpath]
    decide
  constructor
  · change (_ :: List.filter _ _).length = _
    rw [List.length_cons, routeToRow_storePath, List.filter_eq_nil_iff.2 hdrops]
    rfl
  · intro row hrow
    rcases Table.mem_of_mem_upsert hrow with rfl | hrow
    · exact le_refl 0
    · exact h.paths row hrow
  · exact h.bound

theorem Filled.runOverwrites (reg : Registry) {s : Instance} (h : Filled 0 s)
    (hcount : s.writeCount < 2 ^ 64) (n : ℕ) :
    ∃ s', DbRun reg s ((List.replicate n (routeAt 0)).map .setRoute) s' ∧ Filled 0 s' ∧
      s'.writeCount = (s.writeCount + n) % 2 ^ 64 := by
  induction n generalizing s with
  | zero => exact ⟨s, .nil s, h, (Nat.mod_eq_of_lt hcount).symm⟩
  | succ n ih =>
      have hroom : RouteTable.excess (s.routes.upsert (routeToRow (routeAt 0))) s.maxEntries = 0 := by
        have hlength := h.overwritten.length
        change (s.routes.upsert (routeToRow (routeAt 0))).rows.length = 1 at hlength
        rw [RouteTable.excess, hlength, h.bound]
        rfl
      have hcount' : (s.stored (routeAt 0)).writeCount < 2 ^ 64 := Nat.mod_lt _ (Nat.two_pow_pos 64)
      obtain ⟨s', hrun, hfilled, hwritten⟩ := ih h.overwritten hcount'
      refine ⟨s', .setRoute (execution_setRoute_of_room (.inr hroom)) hrun, hfilled, ?_⟩
      rw [hwritten]
      change ((s.writeCount + 1) % 2 ^ 64 + n) % 2 ^ 64 = _
      omega

theorem Filled.runFresh (reg : Registry) {s : Instance} {n : ℕ} (h : Filled 0 s)
    (hcount : s.writeCount = 2 ^ 64 - 16) (hn : n ≤ 100) :
    ∃ s', DbRun reg s (((List.range n).map fun k => routeAt (k + 1)).map .setRoute) s' ∧
      Filled n s' ∧ s'.writeCount = (2 ^ 64 - 16 + n) % 2 ^ 64 := by
  induction n with
  | zero =>
      refine ⟨s, .nil s, h, ?_⟩
      rw [hcount]
      rfl
  | succ n ih =>
      obtain ⟨s', hrun, hfilled, hwritten⟩ := ih (by omega)
      have hskips : s'.writeCount % 100 ≠ 99 := by
        rw [hwritten]
        rcases lt_or_ge n 16 with hlt | hge
        · have hmod : (2 ^ 64 - 16 + n) % 2 ^ 64 = 2 ^ 64 - 16 + n := by omega
          omega
        · have hmod : (2 ^ 64 - 16 + n) % 2 ^ 64 = n - 16 := by omega
          omega
      refine ⟨s'.stored (routeAt (n + 1)), ?_, hfilled.stored, ?_⟩
      · rw [List.range_succ, List.map_append, List.map_append]
        exact hrun.append (.setRoute (execution_setRoute_of_room (.inl hskips)) (.nil _))
      · change (s'.writeCount + 1) % 2 ^ 64 = _
        rw [hwritten]
        omega

/-- A database opened with one row, which is all it may hold. -/
def openedFull : Instance :=
  .start default ((∅ : RouteTable).upsert (routeToRow (routeAt 0))) ∅ ∅ 1 0 0 1 default 0

theorem filled_openedFull : Filled 0 openedFull := by
  refine ⟨rfl, fun row hrow => ?_, rfl⟩
  rw [List.mem_singleton.1 hrow]
  exact le_refl 0

theorem routes_bounded_openedFull :
    ((openedFull.stored (routeAt 1)).routes.rows.length : ℤ) ≤ openedFull.maxEntries + 99 := by
  refine ((routes_bounded default openedFull _ [.setRoute (routeAt 1)] rfl (by decide) (by decide)
    (.setRoute (execution_setRoute_of_room (.inl ?_)) (.nil _))).1 ?_).1
  · decide
  · decide

/-- Overwrites of the only row until the counter is about to wrap around, and then a hundred
new rows. -/
def overflowingCalls : List DbCall :=
  (List.replicate (2 ^ 64 - 16) (routeAt 0)).map .setRoute ++
    ((List.range 100).map fun k => routeAt (k + 1)).map .setRoute

theorem setRoutes_map (entries : List RouteEntry) :
    setRoutes (entries.map .setRoute) = entries.length := by
  induction entries with
  | nil => rfl
  | cons entry entries ih => rw [List.map_cons, setRoutes, ih, List.length_cons]

/-- After `2 ^ 64 + 84` writes there are a hundred rows too many. -/
theorem routes_overflow :
    openedFull.writeCount = 0 ∧ openedFull.maxEntries = 1 ∧ openedFull.routes.rows.length = 1 ∧
      setRoutes overflowingCalls = 2 ^ 64 + 84 ∧
      ∃ s, DbRun default openedFull overflowingCalls s ∧
        openedFull.maxEntries + 99 < (s.routes.rows.length : ℤ) := by
  have hcount : openedFull.writeCount < 2 ^ 64 := Nat.two_pow_pos 64
  obtain ⟨s, hrun, hfilled, hwritten⟩ :=
    filled_openedFull.runOverwrites default hcount (2 ^ 64 - 16)
  have hwritten' : s.writeCount = 2 ^ 64 - 16 := by
    rw [hwritten]
    change (0 + (2 ^ 64 - 16)) % 2 ^ 64 = _
    omega
  obtain ⟨s', hrun', hfilled', -⟩ := hfilled.runFresh default hwritten' (le_refl 100)
  refine ⟨rfl, rfl, rfl, ?_, s', hrun.append hrun', ?_⟩
  · rw [overflowingCalls, setRoutes_append, setRoutes_map, setRoutes_map, List.length_replicate,
      List.length_map, List.length_range]
    norm_num
  · rw [hfilled'.length]
    change (1 : ℤ) + 99 < _
    norm_num

end Ncro
