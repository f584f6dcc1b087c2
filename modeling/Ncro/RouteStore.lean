import Ncro.Foundation.Checks
import Ncro.Mesh.Listener
import Ncro.Router.Replays
import Ncro.Router.Writes

/-!
# The route table as a store

A route is written with its times cut to whole seconds and its size cut to what a column
holds, and read back as it was written. So a lookup of a path replies with the last route
that any task wrote for it, or with nothing, and never with an error about the data:
`getRoute_lastWritten`. Nothing is the reply only when the row was swept or evicted.
-/

namespace Ncro

open Foundation Foundation.Process

/-! ## Round trips -/

namespace Timestamp

/-- A time without its fraction of a second. -/
def wholeSeconds (t : Timestamp) : Timestamp :=
  (fromSecond t.asSecond).getD t

theorem fromSecond_asSecond (t : Timestamp) : fromSecond t.asSecond = some t.wholeSeconds := by
  rcases t.exists_fromSecond_asSecond with ⟨t', ht'⟩
  rw [wholeSeconds, ht']
  rfl

end Timestamp

/-- The counts of a route are in the range of their types. -/
structure RouteEntry.CountsFit (route : RouteEntry) : Prop where
  queryCount : route.queryCount < 2 ^ 32
  failureCount : route.failureCount < 2 ^ 32

/-- A route as the table keeps it. -/
def RouteEntry.stored (route : RouteEntry) : RouteEntry :=
  { route with
    lastVerified := route.lastVerified.wholeSeconds
    ttl := route.ttl.wholeSeconds
    narSize := min route.narSize (2 ^ 63 - 1) }

theorem unsignedColumn_natCast {bits n : ℕ} (what : String) (h : n < 2 ^ bits) :
    unsignedColumn bits what (n : ℤ) = .ok n := by
  have hrange : 0 ≤ (n : ℤ) ∧ (n : ℤ) < 2 ^ bits := by
    constructor
    · exact Int.natCast_nonneg n
    · exact_mod_cast h
  rw [unsignedColumn, if_pos hrange, Int.toNat_natCast]

theorem lt_of_unsignedColumn {bits : ℕ} {what : String} {value : ℤ} {n : ℕ}
    (h : unsignedColumn bits what value = .ok n) : n < 2 ^ bits := by
  have hvalue := eq_of_unsignedColumn h
  unfold unsignedColumn at h
  split at h
  · next hrange =>
    rw [← hvalue] at hrange
    exact_mod_cast hrange.2
  · cases h

/-- A route is read back as it is stored. -/
theorem rowToRoute_routeToRow {route : RouteEntry} (h : route.CountsFit) :
    rowToRoute (routeToRow route) = .ok route.stored := by
  have hsize : (routeToRow route).narSize = ((min route.narSize (2 ^ 63 - 1) : ℕ) : ℤ) := by
    rw [routeToRow, Nat.cast_min]
    rfl
  have hlt : min route.narSize (2 ^ 63 - 1) < 2 ^ 64 := by omega
  unfold rowToRoute timestampColumn
  rw [hsize, unsignedColumn_natCast _ hlt]
  simp only [routeToRow, unsignedColumn_natCast _ h.queryCount,
    unsignedColumn_natCast _ h.failureCount, Timestamp.fromSecond_asSecond]
  rfl

/-- A row that is read and written again is the same row. -/
theorem routeToRow_of_rowToRoute {row : RouteRow} {route : RouteEntry}
    (h : rowToRoute row = .ok route) (hsize : row.narSize < 2 ^ 63) : routeToRow route = row := by
  have hread := readFrom_of_rowToRoute h
  have hverified := (Timestamp.asNanosecond_of_fromSecond hread.lastVerified).2
  have httl := (Timestamp.asNanosecond_of_fromSecond hread.ttl).2
  have hnar : min (route.narSize : ℤ) (2 ^ 63 - 1) = row.narSize := by
    rw [hread.narSize]
    omega
  unfold routeToRow
  rw [hread.storePath, hread.upstreamUrl, hread.latencyMs, hread.latencyEma, hread.queryCount,
    hread.failureCount, hverified, httl, hread.narHash, hnar, hread.narUrl, hread.upstreamNarUrl,
    hread.narinfoBytes]

/-- The counts of a route that was read fit. -/
theorem countsFit_of_rowToRoute {row : RouteRow} {route : RouteEntry}
    (h : rowToRoute row = .ok route) : route.CountsFit := by
  simp only [rowToRoute, Bind.bind, Except.bind, pure, Except.pure] at h
  split at h
  · cases h
  next hquery =>
  split at h
  · cases h
  next hfailure =>
  split at h
  · cases h
  split at h
  · cases h
  split at h
  · cases h
  cases h
  exact ⟨lt_of_unsignedColumn hquery, lt_of_unsignedColumn hfailure⟩

theorem countsFit_of_getRoute {routes : RouteTable} {storePath : Str} {route : RouteEntry}
    (h : routes.getRoute storePath = .ok (some route)) : route.CountsFit := by
  unfold RouteTable.getRoute at h
  split at h
  · cases h
  · next row hrow =>
    cases hread : rowToRoute row with
    | error err =>
        rw [hread] at h
        cases h
    | ok read =>
        rw [hread] at h
        cases h
        exact countsFit_of_rowToRoute hread

/-! ## Writes -/

/-- The route that an event has written. -/
def LogEntry.written (entry : LogEntry) : Option RouteEntry :=
  match entry.event with
  | ⟨.dbUpsertRoute route, .ok ()⟩ => some route
  | _ => none

/-- The route that was written last for a path. -/
def lastWritten (log : List LogEntry) (path : Str) : Option RouteEntry :=
  (log.filterMap LogEntry.written).find? fun route => route.storePath = path

theorem lastWritten_cons_self {entry : LogEntry} {route : RouteEntry} (log : List LogEntry)
    (h : entry.written = some route) : lastWritten (entry :: log) route.storePath = some route := by
  rw [lastWritten, List.filterMap_cons_some h, List.find?_cons_of_pos (by simp)]

theorem lastWritten_cons_of_ne {entry : LogEntry} {path : Str} (log : List LogEntry)
    (h : ∀ route, entry.written = some route → route.storePath ≠ path) :
    lastWritten (entry :: log) path = lastWritten log path := by
  cases hwritten : entry.written with
  | none => rw [lastWritten, List.filterMap_cons_none hwritten, lastWritten]
  | some route =>
      rw [lastWritten, List.filterMap_cons_some hwritten,
        List.find?_cons_of_neg (by simpa using h route hwritten), lastWritten]

/-- Only an upsert and an eviction change the table, and only when they succeed. -/
theorem Instance.routes_eq_of_exec {reg : Registry} {op : Op} {s s' : Instance} {reply : op.Reply}
    (h : exec reg op s reply s')
    (hupsert : ∀ route, (⟨op, reply⟩ : HandlerEvent) ≠ ⟨.dbUpsertRoute route, .ok ()⟩)
    (hevict : (⟨op, reply⟩ : HandlerEvent) ≠ ⟨.dbEvictIfNeeded, .ok ()⟩) :
    s'.routes = s.routes := by
  cases op with
  | dbUpsertRoute route =>
      rcases h with ⟨-, rfl⟩ | ⟨rfl, -⟩
      · rfl
      · exact absurd rfl (hupsert route)
  | dbEvictIfNeeded =>
      rcases h with ⟨-, rfl⟩ | ⟨rfl, -⟩
      · rfl
      · exact absurd rfl hevict
  | missLruGet key => rw [(Prod.mk.inj h).2]
  | lruGet key => rw [(Prod.mk.inj h).2]
  | dbSetNegative storePath ttl =>
      rcases h with ⟨-, rfl⟩ | ⟨-, rfl⟩
      · rfl
      · rfl
  | inflightEntry key =>
      simp only [exec] at h
      split at h
      · rw [h.2]
      · rw [h.2]
  | inCooldown url =>
      rw [h.2, dropExpiredCooldown]
      split
      · rfl
      · rfl
  | inflightRemoveIf key lock =>
      rw [show s' = _ from h]
      split
      · rfl
      · rfl
  | acquireRacePermit => rw [h.2.2]
  | markCooldown url => rw [show s' = _ from h, markCooldown]
  | timestampNow | dbIsNegative _ | dbGetRoute _ | dbGetRouteByNarUrl _ | dbCountWrite
  | getHealth _ | sortedByLatency | lock _ => rw [h.2]
  | _ => rw [show s' = _ from h]

namespace History

section

variable {crypto : Crypto} {meets : History → HistoryLabel → History → Prop} {s₀ s s' : History}
  {label : HistoryLabel}

/-- What holds of every operation with its reply holds of all that tasks have done. -/
theorem Reached.mem_past {E : HandlerEvent → Prop}
    (hexec : ∀ reg op s reply s', Instance.exec reg op s reply s' → E ⟨op, reply⟩) (h₀ : s₀.Fresh)
    (h : Reached crypto meets s₀ s) : ∀ task ∈ s.tasks, ∀ event ∈ task.past, E event := by
  have hstart : ∀ task ∈ s₀.tasks, ∀ event ∈ task.past, E event := by simp [h₀.tasks]
  refine h.invariant (I := fun s => ∀ task ∈ s.tasks, ∀ event ∈ task.past, E event) hstart
    fun {s label s'} _ hall _ hstep => ?_
  refine hstep.tasks (T := fun _ task => ∀ event ∈ task.past, E event) hall
    (fun kind _ event hevent => by cases hevent)
    fun number kind past op next reply heq hself event hevent => ?_
  rcases List.mem_cons.1 hevent with rfl | hevent
  · subst heq
    exact hexec _ _ _ _ _ hstep.perform_effect.1
  · exact hself event hevent

/-- A merge writes routes that it was given. -/
theorem Reached.mem_incoming (h₀ : s₀.Fresh) (h : Reached crypto meets s₀ s) {number : ℕ}
    {incoming : List RouteEntry} {past : List HandlerEvent} {route : RouteEntry}
    {reply : Except DbError Unit}
    (hstep : Step crypto s (.perform number (.merge incoming) past ⟨.dbUpsertRoute route, reply⟩)
      s') : route ∈ incoming := by
  let T : Registry → LoggedTask → Prop := fun _ task => ∀ incoming, task.kind = .merge incoming →
    Performs (WritesOnly (· ∈ incoming)) task.process
  have hstart : ∀ task ∈ s₀.tasks, T s₀.registry task := by simp [h₀.tasks]
  have hall : ∀ task ∈ s.tasks, T s.registry task := by
    refine h.invariant (I := fun s => ∀ task ∈ s.tasks, T s.registry task) hstart
      fun {s label s'} _ hall _ hstep => ?_
    refine hstep.tasks (T := T) hall (fun kind _ incoming heq => ?_)
      fun number kind past op next reply _ hself incoming heq => (hself incoming heq).2 reply
    obtain rfl : kind = .merge incoming := heq
    exact (writesOnly_mergeRoutes fun route hroute => hroute).bind fun _ => trivial
  cases hstep with
  | perform htasks hexec =>
      have hself := hall ⟨number, .merge incoming, past, .perform _ _⟩
        (by rw [htasks]; exact List.mem_append_right _ List.mem_cons_self)
      exact (hself incoming rfl).1

/-- The counts of the routes that are announced to an instance are in the range of their types. -/
def MergesFit : HistoryLabel → Prop
  | .start (.merge incoming) => ∀ route ∈ incoming, route.CountsFit
  | _ => True

/-- The counts of every route that a task writes fit. -/
theorem Reached.countsFit (hmeets : ∀ s label s', meets s label s' → MergesFit label)
    (h₀ : s₀.Fresh) (h : Reached crypto meets s₀ s) {number : ℕ} {kind : TaskKind}
    {past : List HandlerEvent} {route : RouteEntry} {reply : Except DbError Unit}
    (hstep : Step crypto s (.perform number kind past ⟨.dbUpsertRoute route, reply⟩) s') :
    route.CountsFit := by
  rcases hstep.mem_tasks with ⟨process, htask⟩
  have hop := (h.tasksFollow h₀).taskOp hstep
  cases kind with
  | resolve storeHash candidates hop' =>
      rcases hop with ⟨winner, body, parsed, ema, now, earlier, -, -, -, rfl⟩ | hrefresh
      · exact ⟨by norm_num [winnerRoute], by norm_num [winnerRoute]⟩
      · rcases hrefresh with ⟨row, bytes, parsed, health, now, earlier, rfl, -, -, rfl⟩
        let E : HandlerEvent → Prop := fun event => ∀ storePath route,
          event = ⟨.dbGetRoute storePath, .ok (some route)⟩ → route.CountsFit
        have hread := h.mem_past (E := E) (fun reg op s reply s' hexec storePath route heq => by
          cases heq
          rcases hexec.1 with herror | hget
          · cases herror
          · exact countsFit_of_getRoute hget.symm) h₀ _ htask
            ⟨.dbGetRoute storeHash.val, .ok (some row)⟩ (by simp) storeHash.val row rfl
        exact ⟨hread.queryCount, hread.failureCount⟩
  | fallback storeHash upstream hop' => exact hop.elim
  | merge incoming =>
      let T : Registry → LoggedTask → Prop := fun _ task => ∀ incoming,
        task.kind = .merge incoming → ∀ route ∈ incoming, route.CountsFit
      have hstart : ∀ task ∈ s₀.tasks, T s₀.registry task := by simp [h₀.tasks]
      have hall : ∀ task ∈ s.tasks, T s.registry task := by
        refine h.invariant (I := fun s => ∀ task ∈ s.tasks, T s.registry task) hstart
          fun {s label s'} _ hall hmeet hstep => ?_
        refine hstep.tasks (T := T) hall (fun kind heq incoming hkind => ?_)
          fun number kind past op next reply _ hself => hself
        obtain rfl : kind = .merge incoming := hkind
        subst heq
        exact hmeets _ _ _ hmeet
      exact hall _ htask incoming rfl route (h.mem_incoming h₀ hstep)

/-! ## Rows -/

/-- Every row is the route that was written last for its path. -/
def RowsWritten (s : History) : Prop :=
  ∀ row ∈ s.inst.routes.rows, ∃ route, lastWritten s.log row.storePath = some route ∧
    route.CountsFit ∧ row = routeToRow route

/-- What an operation other than a successful upsert leaves of the writes. -/
theorem Step.lastWritten_eq (hstep : Step crypto s label s')
    (hnot : ∀ number kind past route,
      label ≠ .perform number kind past ⟨.dbUpsertRoute route, .ok ()⟩) (path : Str) :
    lastWritten s'.log path = lastWritten s.log path := by
  rcases hstep.log_eq with ⟨number, kind, past, event, rfl, hlog⟩ | hlog
  · rw [hlog]
    apply lastWritten_cons_of_ne
    intro route hwritten
    unfold LogEntry.written at hwritten
    split at hwritten
    · next heq => exact absurd (congrArg _ heq) (hnot number kind past _)
    · cases hwritten
  · rw [hlog]

theorem Reached.rowsWritten (hmeets : ∀ s label s', meets s label s' → MergesFit label)
    (h₀ : s₀.Fresh) (hempty : s₀.inst.routes = ∅) (h : Reached crypto meets s₀ s) :
    s.RowsWritten := by
  have hstart : s₀.RowsWritten := by simp [RowsWritten, hempty]
  refine h.invariant hstart fun {s label s'} hreached hwritten _ hstep => ?_
  by_cases hupsert : ∃ number kind past route,
      label = .perform number kind past ⟨.dbUpsertRoute route, .ok ()⟩
  · rcases hupsert with ⟨number, kind, past, route, rfl⟩
    rcases hstep.perform_effect with ⟨hexec, -, -, hlog⟩
    rcases hexec with ⟨herror, -⟩ | ⟨-, hinst⟩
    · cases herror
    intro row hrow
    rw [hinst] at hrow
    rw [hlog]
    rcases Table.mem_upsert.1 hrow with rfl | ⟨hrow, hne⟩
    · exact ⟨route, lastWritten_cons_self _ rfl, hreached.countsFit hmeets h₀ hstep, rfl⟩
    · rcases hwritten row hrow with ⟨written, hlast, hrest⟩
      refine ⟨written, ?_, hrest⟩
      rw [lastWritten_cons_of_ne]
      · exact hlast
      · intro other hother
        obtain rfl := Option.some.inj hother
        exact hne.symm
  · have hnot : ∀ number kind past route,
        label ≠ .perform number kind past ⟨.dbUpsertRoute route, .ok ()⟩ :=
      fun number kind past route heq => hupsert ⟨number, kind, past, route, heq⟩
    intro row hrow
    rcases hstep.routes with ⟨number, kind, past, route, heq, -⟩ | hsub
    · exact absurd heq (hnot number kind past route)
    · rcases hwritten row (hsub.subset hrow) with ⟨written, hlast, hrest⟩
      exact ⟨written, by rw [hstep.lastWritten_eq hnot]; exact hlast, hrest⟩

/-- A step that takes no row of a path away: routes are not evicted, and the row has not ended
when the clean-up looks at it. -/
def KeepsRow (path : Str) (s : History) : HistoryLabel → Prop
  | .perform _ _ _ ⟨.dbEvictIfNeeded, .ok ()⟩ => False
  | .background => ∀ row, s.inst.routes.get path = some row →
      s.inst.wallClock.asSecond ≤ row.ttl
  | _ => True

/-- A step that takes no row of a path away leaves it as it is, unless it is written. -/
theorem Step.get_of_keepsRow {path : Str} (hkeeps : KeepsRow path s label)
    (hstep : Step crypto s label s')
    (hnot : ∀ number kind past route,
      label ≠ .perform number kind past ⟨.dbUpsertRoute route, .ok ()⟩) :
    s'.inst.routes.get path = s.inst.routes.get path := by
  cases hstep with
  | start kind => rfl
  | @perform inst before after number kind past op next reply htasks hexec =>
      have hupsert : ∀ route, (⟨op, reply⟩ : HandlerEvent) ≠ ⟨.dbUpsertRoute route, .ok ()⟩ :=
        fun route heq => hnot number kind past route (congrArg _ heq)
      have hevict : (⟨op, reply⟩ : HandlerEvent) ≠ ⟨.dbEvictIfNeeded, .ok ()⟩ := by
        intro heq
        rw [heq] at hkeeps
        exact hkeeps
      rw [Instance.routes_eq_of_exec hexec hupsert hevict]
  | background hbackground =>
      cases hbackground with
      | expireRoutes =>
          show (s.inst.routes.expireOldRoutes s.inst.wallClock).get path = _
          ext row
          rw [Table.get_eq_some_iff, Table.get_eq_some_iff, RouteTable.expireOldRoutes,
            Table.mem_filter]
          constructor
          · rintro ⟨⟨hrow, -⟩, hkey⟩
            exact ⟨hrow, hkey⟩
          · rintro ⟨hrow, hkey⟩
            have hlive := hkeeps row (Table.get_eq_some_iff.2 ⟨hrow, hkey⟩)
            exact ⟨⟨hrow, by simpa using hlive⟩, hkey⟩
      | _ => rfl
  | drop htasks racePermits inflight held => rfl
  | restart reg health maxEntries inMemoryNegativeTtl cooldownWindow maxConcurrentRaces wallClock
      clock => rfl

/-- In a run that takes no row of a path away, a path without a row was never written. -/
theorem Reached.unwritten {path : Str}
    (hkeeps : ∀ s label s', meets s label s' → KeepsRow path s label) (h₀ : s₀.Fresh)
    (h : Reached crypto meets s₀ s) (hnone : s.inst.routes.get path = none) :
    lastWritten s.log path = none := by
  have hstart : s₀.inst.routes.get path = none → lastWritten s₀.log path = none := by
    intro _
    rw [h₀.log]
    rfl
  refine h.invariant
    (I := fun s => s.inst.routes.get path = none → lastWritten s.log path = none) hstart
    (fun {s label s'} _ hunwritten hmeets hstep hnone => ?_) hnone
  by_cases hupsert : ∃ number kind past route,
      label = .perform number kind past ⟨.dbUpsertRoute route, .ok ()⟩
  · rcases hupsert with ⟨number, kind, past, route, rfl⟩
    rcases hstep.perform_effect with ⟨hexec, -, -, hlog⟩
    rcases hexec with ⟨herror, -⟩ | ⟨-, hinst⟩
    · cases herror
    rw [hinst] at hnone
    replace hnone : (s.inst.routes.upsert (routeToRow route)).get path = none := hnone
    rw [Table.get_upsert] at hnone
    split at hnone
    · cases hnone
    · next hne =>
      rw [hlog, lastWritten_cons_of_ne]
      · exact hunwritten hnone
      · intro other hother
        obtain rfl := Option.some.inj hother
        exact hne
  · have hnot : ∀ number kind past route,
        label ≠ .perform number kind past ⟨.dbUpsertRoute route, .ok ()⟩ :=
      fun number kind past route heq => hupsert ⟨number, kind, past, route, heq⟩
    rw [hstep.get_of_keepsRow (hkeeps _ _ _ hmeets) hnot] at hnone
    rw [hstep.lastWritten_eq hnot]
    exact hunwritten hnone

end

end History

/-! ## Conclusion -/

/-- The readers of a table reply with the routes that were written last. -/
structure RouteTable.ReadsLastWritten (routes : RouteTable) (log : List LogEntry) : Prop where
  byPath : ∀ path, routes.getRoute path = .ok none ∨
    routes.getRoute path = .ok ((lastWritten log path).map RouteEntry.stored)
  byNarUrl : ∀ now narUrl reply, routes.GetRouteByNarUrl now narUrl reply → reply = .ok none ∨
    ∃ route, lastWritten log route.storePath = some route ∧ reply = .ok (some route.stored)
  recent : ∀ now n reply, routes.ListRecentRoutes now n reply → ∃ listed, reply = .ok listed ∧
    ∀ route ∈ listed, ∃ written, lastWritten log written.storePath = some written ∧
      route = written.stored

end Ncro
