import Ncro.Router.Replays
import Ncro.Router.Writes

/-!
# Updates of the route table

A refresh of a cached route and a merge read a row, and write it back later. Each
access to the database is atomic, but the two together are not: what another task
writes to the path in between is lost. When no task writes a path while another
one is updating it, every update replaces the row it has read.
-/

namespace Ncro

open Foundation Foundation.Process

/-- What a task may do between reading a row and writing it back. -/
def BetweenReadAndWrite : Op → Prop
  | .timestampNow | .getHealth _ | .getBytes _ => True
  | _ => False

/-- A past that goes on from reading the row of a path, before which it was
`earlier`. -/
def SinceRead (path : Str) (existing : Option RouteEntry) (earlier past : List HandlerEvent) :
    Prop :=
  ∃ later, past = later ++ ⟨.dbGetRoute path, .ok existing⟩ :: earlier ∧
    ∀ event ∈ later, BetweenReadAndWrite event.1

/-- A task has read the row of a path and may write it back. -/
def LoggedTask.Updates (task : LoggedTask) (path : Str) : Prop :=
  (∀ result, task.process ≠ .ret result) ∧
    ∃ existing earlier, SinceRead path existing earlier task.past

/-- A successful write of a path. -/
def LogEntry.Writes (entry : LogEntry) (path : Str) : Prop :=
  ∃ written, entry.event = ⟨.dbUpsertRoute written, .ok ()⟩ ∧ written.storePath = path

/-- No task writes a path while another one is updating it. -/
def ExclusiveUpdates (s : History) (label : HistoryLabel) (_ : History) : Prop :=
  match label with
  | .perform number _ _ ⟨.dbUpsertRoute written, .ok ()⟩ =>
      ∀ other ∈ s.tasks, other.number ≠ number → ¬other.Updates written.storePath
  | _ => True

/-- No other task has written a path since a task with a past that was then `earlier`
has read it. -/
def NotWrittenSince (log : List LogEntry) (number : ℕ) (path : Str)
    (earlier : List HandlerEvent) : Prop :=
  ∀ newer read older, log = newer ++ read :: older → read.task = number → read.past = earlier →
    ∀ other ∈ newer, other.task ≠ number → ¬other.Writes path

/-- What a write that updates a row does to the row that is there: no other task has
written it since it was read, it is the row that was read, and a merge does not
raise its latency. -/
structure KeepsUpdates (s : History) (number : ℕ) (past : List HandlerEvent)
    (written : RouteEntry) (existing : Option RouteEntry) (earlier : List HandlerEvent) : Prop where
  not_written : NotWrittenSince s.log number written.storePath earlier
  row_read : ∀ row, s.inst.routes.get written.storePath = some row →
    ∃ read, existing = some read ∧ rowToRoute row = .ok read
  latency_le : MergeWrite past written → ∀ row, s.inst.routes.get written.storePath = some row →
    row.latencyEma.lt written.latencyEma = false

section

variable {crypto : Crypto} {reg : Registry} {storeHash path : Str} {hop : Hop}
  {past earlier : List HandlerEvent} {written : RouteEntry} {existing : Option RouteEntry}

/-- A merge has read the row of the path it writes. -/
theorem MergeWrite.sinceRead (h : MergeWrite past written) :
    ∃ existing earlier, SinceRead written.storePath existing earlier past := by
  obtain ⟨existing, earlier, hpast, -⟩ := h
  exact ⟨existing, earlier, [], hpast, by simp⟩

/-- A refresh has read the row of its hash. -/
theorem RefreshWrite.sinceRead (h : RefreshWrite crypto reg storeHash hop past written) :
    ∃ row earlier, SinceRead storeHash (some row) earlier past ∧
      written = { row with narinfoBytes := written.narinfoBytes } := by
  obtain ⟨row, bytes, parsed, health, now, earlier, hpast, -, -, rfl⟩ := h
  refine ⟨row, earlier, ⟨[_, _, _], hpast, ?_⟩, rfl⟩
  intro event hevent
  simp only [List.mem_cons, List.not_mem_nil, or_false] at hevent
  rcases hevent with rfl | rfl | rfl <;> trivial

/-- The read is the last one of its kind. -/
theorem SinceRead.unique {existing' : Option RouteEntry} {earlier' : List HandlerEvent}
    (h : SinceRead path existing earlier past) (h' : SinceRead path existing' earlier' past) :
    existing = existing' ∧ earlier = earlier' := by
  obtain ⟨later, rfl, hlater⟩ := h
  obtain ⟨later', heq, hlater'⟩ := h'
  induction later generalizing later' with
  | nil =>
      cases later' with
      | nil =>
          obtain ⟨heq, rfl⟩ := List.cons.inj heq
          cases heq
          exact ⟨rfl, rfl⟩
      | cons event later' =>
          obtain ⟨rfl, -⟩ := List.cons.inj heq
          exact (hlater' _ List.mem_cons_self).elim
  | cons event later ih =>
      cases later' with
      | nil =>
          obtain ⟨rfl, -⟩ := List.cons.inj heq
          exact (hlater _ List.mem_cons_self).elim
      | cons event' later' =>
          exact ih (fun e he => hlater e (List.mem_cons_of_mem _ he)) later'
            (List.cons.inj heq).2 fun e he => hlater' e (List.mem_cons_of_mem _ he)

/-- A past goes on from a read when it does something in between, or the read is
new. -/
theorem sinceRead_cons {event : HandlerEvent} (h : SinceRead path existing earlier (event :: past)) :
    (event = ⟨.dbGetRoute path, .ok existing⟩ ∧ earlier = past) ∨
      SinceRead path existing earlier past := by
  obtain ⟨later, heq, hlater⟩ := h
  cases later with
  | nil =>
      obtain ⟨rfl, rfl⟩ := List.cons.inj heq
      exact .inl ⟨rfl, rfl⟩
  | cons event' later =>
      exact .inr ⟨later, (List.cons.inj heq).2, fun e he => hlater e (List.mem_cons_of_mem _ he)⟩

end

namespace History

variable {crypto : Crypto} {meets : History → HistoryLabel → History → Prop} {s₀ s s' : History}
  {label : HistoryLabel}

/-! ## Rows and reads -/

/-- Since a row was read, it is the one that was read, unless the log has a write of
its path. -/
theorem Reached.row_since_read (h : Reached crypto meets s₀ s) (h₀ : s₀.Fresh) :
    ∀ newer read older path existing, s.log = newer ++ read :: older →
      read.event = ⟨.dbGetRoute path, .ok existing⟩ →
      ∀ row, s.inst.routes.get path = some row →
        (∃ other ∈ newer, other.Writes path) ∨ ∃ entry, existing = some entry ∧
          rowToRoute row = .ok entry := by
  let I : History → Prop := fun s => ∀ newer read older path existing,
    s.log = newer ++ read :: older → read.event = ⟨.dbGetRoute path, .ok existing⟩ →
      ∀ row, s.inst.routes.get path = some row →
        (∃ other ∈ newer, other.Writes path) ∨ ∃ entry, existing = some entry ∧
          rowToRoute row = .ok entry
  have hstart : I s₀ := by simp [I, h₀.log]
  refine h.invariant (I := I) hstart fun {s label s'} _ hrows _ hstep => ?_
  intro newer read older path existing hlog hread row hrow
  -- a row that was there before, or is written now
  have hbefore : (∃ number kind past written,
        label = .perform number kind past ⟨.dbUpsertRoute written, .ok ()⟩ ∧
          written.storePath = path) ∨ s.inst.routes.get path = some row := by
    rcases hstep.routes with ⟨number, kind, past, written, rfl, hroutes⟩ | hsub
    · by_cases hpath : written.storePath = path
      · exact .inl ⟨_, _, _, written, rfl, hpath⟩
      · have hne : path ≠ (routeToRow written).storePath := Ne.symm hpath
        rw [hroutes, Table.get_upsert_of_ne hne] at hrow
        exact .inr hrow
    · have hkey := Table.key_of_get hrow
      have hmem := hsub.subset (Table.mem_of_get hrow)
      exact .inr (hkey ▸ Table.mem_rows_iff.1 hmem)
  rcases hstep.log_eq with ⟨number, kind, past, event, rfl, hnew⟩ | hsame
  · rw [hnew] at hlog
    cases newer with
    | nil =>
        obtain ⟨rfl, rfl⟩ := List.cons.inj hlog
        obtain rfl : event = ⟨.dbGetRoute path, .ok existing⟩ := hread
        obtain ⟨hexec, -⟩ := hstep.perform_effect
        rcases hexec.1 with herror | hget
        · cases herror
        · rcases hbefore with ⟨_, _, _, _, heq, -⟩ | hbefore
          · cases heq
          · rw [RouteTable.getRoute, hbefore] at hget
            replace hget : .ok existing = (rowToRoute row).map some := hget
            refine .inr ?_
            cases hstored : rowToRoute row with
            | error err =>
                rw [hstored] at hget
                cases hget
            | ok entry =>
                rw [hstored] at hget
                cases hget
                exact ⟨entry, rfl, rfl⟩
    | cons first newer =>
        obtain ⟨hfirst, hlog⟩ := List.cons.inj hlog
        rcases hbefore with ⟨_, _, _, written, heq, hpath⟩ | hbefore
        · cases heq
          exact .inl ⟨first, List.mem_cons_self, written, hfirst ▸ rfl, hpath⟩
        · refine (hrows newer read older path existing hlog hread row hbefore).imp_left ?_
          rintro ⟨other, hother, hwrites⟩
          exact ⟨other, List.mem_cons_of_mem _ hother, hwrites⟩
  · rcases hbefore with ⟨_, _, _, _, rfl, -⟩ | hbefore
    · obtain ⟨-, -, -, hnew⟩ := hstep.perform_effect
      have hlength := congrArg List.length (hnew.symm.trans hsame)
      simp at hlength
    · exact hrows newer read older path existing (hsame ▸ hlog) hread row hbefore

/-! ## Exclusive updates -/

/-- While a task updates a path, no other task writes it. -/
theorem Reached.not_written (h₀ : s₀.Fresh) (h : Reached crypto ExclusiveUpdates s₀ s) :
    ∀ task ∈ s.tasks, (∀ result, task.process ≠ .ret result) → ∀ path existing earlier,
      SinceRead path existing earlier task.past →
      NotWrittenSince s.log task.number path earlier := by
  let I : History → Prop := fun s => ∀ task ∈ s.tasks, (∀ result, task.process ≠ .ret result) →
    ∀ path existing earlier, SinceRead path existing earlier task.past →
      NotWrittenSince s.log task.number path earlier
  have hstart : I s₀ := by simp [I, h₀.tasks]
  refine h.invariant (I := I) hstart fun {s label s'} hreached hnot hmeets hstep => ?_
  have haccounted := hreached.accounted h₀
  -- a step of another task keeps what was so
  have hkeep : ∀ task ∈ s.tasks, (∀ result, task.process ≠ .ret result) →
      ∀ path existing earlier, SinceRead path existing earlier task.past →
        NotWrittenSince s'.log task.number path earlier := by
    intro task htask hrunning path existing earlier hsince newer read older hlog hnumber hearlier
    rcases hstep.log_eq with ⟨number, kind, past, event, rfl, hnew⟩ | hsame
    · rw [hnew] at hlog
      cases newer with
      | nil => exact fun other hother => by cases hother
      | cons first newer =>
          obtain ⟨rfl, hrest⟩ := List.cons.inj hlog
          intro other hother hne
          rcases List.mem_cons.1 hother with rfl | hother
          · rintro ⟨written, hevent, rfl⟩
            obtain rfl : event = ⟨.dbUpsertRoute written, .ok ()⟩ := hevent
            exact hmeets task htask (Ne.symm hne) ⟨hrunning, existing, earlier, hsince⟩
          · exact hnot task htask hrunning path existing earlier hsince newer read older hrest hnumber
              hearlier other hother hne
    · exact hnot task htask hrunning path existing earlier hsince newer read older (hsame ▸ hlog)
        hnumber hearlier
  refine hstep.tasks (T := fun _ task => (∀ result, task.process ≠ .ret result) →
      ∀ path existing earlier, SinceRead path existing earlier task.past →
        NotWrittenSince s'.log task.number path earlier) hkeep
    (fun kind _ _ path existing earlier hsince => ?_)
    fun number kind past op next reply heq hself _ path existing earlier hsince => ?_
  · obtain ⟨later, heq, -⟩ := hsince
    simp at heq
  · rcases sinceRead_cons hsince with ⟨-, rfl⟩ | hsince
    · -- the read has just been made
      subst heq
      obtain ⟨process, htask⟩ := hstep.mem_tasks
      obtain ⟨-, -, -, hnew⟩ := hstep.perform_effect
      intro newer read older hlog hnumber hearlier
      rw [hnew] at hlog
      cases newer with
      | nil => exact fun other hother => by cases hother
      | cons first newer =>
          have hsplit : s.log = newer ++ read :: older := (List.cons.inj hlog).2
          have hentry := hreached.entry_past h₀ newer read older hsplit
          have hpast : earlier = eventsOf s.log number := haccounted.past_eq _ htask
          have hlt := length_eventsOf_lt newer read older
          rw [← hsplit, ← hentry, hearlier, show read.task = number from hnumber, ← hpast] at hlt
          exact absurd hlt (Nat.lt_irrefl _)
    · exact hself (fun result => nofun) path existing earlier hsince

/-- A task that has just read a row finds its read in the log. -/
theorem Reached.exists_read (h₀ : s₀.Fresh) {meets : History → HistoryLabel → History → Prop}
    (h : Reached crypto meets s₀ s) {task : LoggedTask} (htask : task ∈ s.tasks) {path : Str}
    {existing : Option RouteEntry} {earlier : List HandlerEvent}
    (hsince : SinceRead path existing earlier task.past) :
    ∃ newer read older, s.log = newer ++ read :: older ∧ read.task = task.number ∧
      read.past = earlier ∧ read.event = ⟨.dbGetRoute path, .ok existing⟩ ∧
      ∀ other ∈ newer, other.task = task.number → ¬other.Writes path := by
  have hpast : task.past = eventsOf s.log task.number := (h.accounted h₀).past_eq task htask
  obtain ⟨later, heq, hlater⟩ := hsince
  obtain ⟨read, hread, hnumber, hearlier, hevent⟩ := h.exists_entry h₀ task htask
    ⟨.dbGetRoute path, .ok existing⟩ earlier ⟨later, heq.symm⟩
  obtain ⟨newer, older, hlog⟩ := List.append_of_mem hread
  refine ⟨newer, read, older, hlog, hnumber, hearlier, hevent, ?_⟩
  have hentry := h.entry_past h₀ newer read older hlog
  have hnewer : eventsOf newer task.number = later := by
    have hsplit : eventsOf newer task.number ++ (read.event :: eventsOf older task.number)
        = later ++ ⟨.dbGetRoute path, .ok existing⟩ :: earlier := by
      rw [← heq, hpast, hlog, eventsOf_append, ← hnumber, eventsOf_cons_self]
    rw [← hnumber, ← hentry, hearlier, hevent, hnumber] at hsplit
    exact List.append_cancel_right hsplit
  rintro other hother hself ⟨written, hwritten, -⟩
  have hmem : other.event ∈ eventsOf newer task.number :=
    List.mem_map_of_mem (List.mem_filter.2 ⟨hother, by simpa using hself⟩)
  rw [hnewer] at hmem
  have hbetween := hlater _ hmem
  rw [hwritten] at hbetween
  exact hbetween

/-- What an update finds when it writes. -/
theorem Reached.keepsUpdates (h₀ : s₀.Fresh) (h : Reached crypto ExclusiveUpdates s₀ s)
    {number : ℕ} {kind : TaskKind} {past earlier : List HandlerEvent} {written : RouteEntry}
    {existing : Option RouteEntry} {reply : Except DbError Unit}
    (hstep : Step crypto s (.perform number kind past ⟨.dbUpsertRoute written, reply⟩) s')
    (hsince : SinceRead written.storePath existing earlier past) :
    KeepsUpdates s number past written existing earlier := by
  have hnot : NotWrittenSince s.log number written.storePath earlier := by
    cases hstep with
    | perform htasks hexec =>
        exact h.not_written h₀ ⟨number, kind, past, .perform _ _⟩
          (by rw [htasks]; exact List.mem_append_right _ List.mem_cons_self) (fun result => nofun)
          _ _ _ hsince
  obtain ⟨process, htask⟩ := hstep.mem_tasks
  obtain ⟨newer, read, older, hlog, hnumber, hearlier, hevent, hown⟩ :=
    h.exists_read h₀ htask hsince
  have hrow : ∀ row, s.inst.routes.get written.storePath = some row →
      ∃ entry, existing = some entry ∧ rowToRoute row = .ok entry := by
    intro row hget
    refine (h.row_since_read h₀ newer read older _ existing hlog hevent row hget).resolve_left ?_
    rintro ⟨other, hother, hwrites⟩
    by_cases hself : other.task = number
    · exact hown other hother hself hwrites
    · exact hnot newer read older hlog hnumber hearlier other hother hself hwrites
  refine ⟨hnot, hrow, ?_⟩
  rintro ⟨existing', earlier', hpast, hset⟩ row hget
  obtain ⟨rfl, -⟩ := hsince.unique ⟨[], hpast, by simp⟩
  obtain ⟨entry, rfl, hread⟩ := hrow row hget
  rw [← (readFrom_of_rowToRoute hread).latencyEma]
  simp only [shouldSetRoute, Bool.and_eq_true, Bool.not_eq_true'] at hset
  exact hset.1

/-- A row that was read is the row of its path. -/
theorem Reached.storePath_of_read (h₀ : s₀.Fresh) {meets : History → HistoryLabel → History → Prop}
    (h : Reached crypto meets s₀ s) :
    ∀ entry ∈ s.log, ∀ path row, entry.event = ⟨.dbGetRoute path, .ok (some row)⟩ →
      row.storePath = path := by
  let I : History → Prop := fun s => ∀ entry ∈ s.log, ∀ path row,
    entry.event = ⟨.dbGetRoute path, .ok (some row)⟩ → row.storePath = path
  have hstart : I s₀ := by simp [I, h₀.log]
  refine h.invariant (I := I) hstart fun {s label s'} _ hpaths _ hstep => ?_
  intro entry hentry path row hevent
  rcases hstep.log_eq with ⟨number, kind, past, event, rfl, hlog⟩ | hlog
  · rw [hlog] at hentry
    rcases List.mem_cons.1 hentry with rfl | hentry
    · obtain rfl : event = ⟨.dbGetRoute path, .ok (some row)⟩ := hevent
      rcases hstep.perform_effect.1.1 with herror | hget
      · cases herror
      · obtain ⟨stored, hstored, hread⟩ := RouteTable.exists_row_of_getRoute hget.symm
        exact hread.storePath.trans (Table.key_of_get hstored)
    · exact hpaths entry hentry path row hevent
  · rw [hlog] at hentry
    exact hpaths entry hentry path row hevent

end History

/-! ## Conclusion -/

/-- No update is lost. In every run in which no task writes a path while another one
is updating it, a refresh or a merge replaces the row it has read, no other task
having written the path in between. A refresh then changes the bytes alone, and a
merge does not put a higher latency in place of a lower one. -/
theorem no_lost_update (crypto : Crypto) (s₀ s s' : History) (h₀ : s₀.Fresh)
    (h : History.Reached crypto ExclusiveUpdates s₀ s) (number : ℕ) (kind : TaskKind)
    (past : List HandlerEvent) (written : RouteEntry) (reply : Except DbError Unit)
    (hstep : History.Step crypto s (.perform number kind past ⟨.dbUpsertRoute written, reply⟩) s') :
    (∀ storeHash hop, RefreshWrite crypto s.registry storeHash hop past written →
      ∃ row earlier, written = { row with narinfoBytes := written.narinfoBytes } ∧
        KeepsUpdates s number past written (some row) earlier) ∧
    (MergeWrite past written →
      ∃ existing earlier, KeepsUpdates s number past written existing earlier) := by
  refine ⟨fun storeHash hop hrefresh => ?_, fun hmerge => ?_⟩
  · obtain ⟨row, earlier, hsince, hwritten⟩ := hrefresh.sinceRead
    obtain ⟨process, htask⟩ := hstep.mem_tasks
    obtain ⟨newer, read, older, hlog, -, -, hevent, -⟩ := h.exists_read h₀ htask hsince
    have hrow := h.storePath_of_read h₀ read (by rw [hlog]; simp) _ _ hevent
    have hpath : written.storePath = storeHash :=
      (congrArg RouteEntry.storePath hwritten).trans hrow
    subst hpath
    exact ⟨row, earlier, hwritten, h.keepsUpdates h₀ hstep hsince⟩
  · obtain ⟨existing, earlier, hsince⟩ := hmerge.sinceRead
    exact ⟨existing, earlier, h.keepsUpdates h₀ hstep hsince⟩

/-! ## Merges of one path -/

theorem Quiet.exclusiveUpdates {s s' : History} {number : ℕ} {kind : TaskKind}
    {past : List HandlerEvent} {op : Op} {reply : op.Reply} (h : Quiet op) :
    ExclusiveUpdates s (.perform number kind past ⟨op, reply⟩) s' := by
  unfold ExclusiveUpdates
  split
  · next heq =>
    cases heq
    exact h.elim
  · trivial

namespace History

/-- A merge that has read a row comes to write its route. -/
theorem reached_beforeWrite (meets : History → HistoryLabel → History → Prop) {inst : Instance}
    {route : RouteEntry} {existing : Option RouteEntry}
    (hstart : ∀ t t', meets t (.start (.merge [route])) t')
    (hquiet : ∀ t past op reply t', Quiet op →
      meets t (.perform 0 (.merge [route]) past ⟨op, reply⟩) t')
    (husable : usableRoute inst.wallClock route = true)
    (hread : inst.routes.getRoute route.storePath = .ok existing)
    (hset : shouldSetRoute route existing = true) :
    ∃ next log, Reached default meets ⟨default, inst, [], 0, 0, []⟩
      ⟨default, inst, [⟨0, .merge [route], [⟨.dbGetRoute route.storePath, .ok existing⟩,
        ⟨.timestampNow, inst.wallClock⟩], .perform (.dbUpsertRoute route) next⟩], 1, 0, log⟩ := by
  have hrefl : Reached default meets ⟨default, inst, [], 0, 0, []⟩ _ := .refl
  have hstarted := hrefl.step (hstart _ _) (.start _ (.merge [route]))
  have hnow : Instance.exec default .timestampNow inst inst.wallClock inst := ⟨rfl, rfl⟩
  have hget : Instance.exec default (.dbGetRoute route.storePath) inst (.ok existing) inst :=
    ⟨.inr hread.symm, rfl⟩
  let rest : Handler TaskResult :=
    mergeEach ([route].filter (usableRoute inst.wallClock)) >>= fun _ => .ret .merged
  obtain ⟨next, hnext, next', hnext'⟩ : ∃ next, rest = .perform (.dbGetRoute route.storePath) next ∧
      ∃ next', next (.ok existing) = .perform (.dbUpsertRoute route) next' := by
    have hfilter : [route].filter (usableRoute inst.wallClock) = [route] :=
      List.filter_cons_of_pos husable
    show ∃ next, mergeEach ([route].filter (usableRoute inst.wallClock)) >>= _ = _ ∧ _
    rw [hfilter]
    refine ⟨_, rfl, ?_⟩
    show ∃ next', (ite (shouldSetRoute route existing = true) (setRoute route >>= fun _ => mergeEach [])
      (mergeEach [])).bind _ = _
    rw [if_pos hset]
    exact ⟨_, rfl⟩
  have hclock : Reached default meets _ ⟨default, inst, [⟨0, .merge [route],
      [⟨.timestampNow, inst.wallClock⟩], rest⟩], 1, 0, _⟩ :=
    hstarted.perform hnow fun t t' _ _ => hquiet t _ _ _ t' trivial
  rw [hnext] at hclock
  have hwrite := hclock.perform hget fun t t' _ _ => hquiet t _ _ _ t' trivial
  rw [hnext'] at hwrite
  exact ⟨next', _, hwrite⟩

/-- A write that a task is about to perform can be performed. -/
theorem exists_write {crypto : Crypto} {s : History} (before after : List LoggedTask) {number : ℕ}
    {kind : TaskKind} {past : List HandlerEvent} {written : RouteEntry}
    {next : Except DbError Unit → Handler TaskResult}
    (htasks : s.tasks =
      before ++ ⟨number, kind, past, .perform (.dbUpsertRoute written) next⟩ :: after) :
    ∃ s', Step crypto s (.perform number kind past ⟨.dbUpsertRoute written, .ok ()⟩) s' := by
  have hexec : Instance.exec s.registry (.dbUpsertRoute written) s.inst (.ok ())
      { s.inst with routes := s.inst.routes.upsert (routeToRow written) } := .inr ⟨rfl, rfl⟩
  exact ⟨_, .perform htasks hexec⟩

/-- The route of `rowOfU` when its upstream is slow. -/
def slowRoute : RouteEntry := { rowOfU with latencyEma := .fin 40 }

/-- A merge on its own replaces a slow route. -/
theorem no_lost_update_slowRoute :
    ∃ (s : History) (past : List HandlerEvent), MergeWrite past rowOfU ∧
      ∃ existing earlier, KeepsUpdates s 0 past rowOfU existing earlier := by
  let inst : Instance :=
    .start default ((∅ : RouteTable).upsert (routeToRow slowRoute)) ∅ ∅ 100000 0 0 2 default 0
  have husable : usableRoute inst.wallClock rowOfU = true := by decide
  have hread : inst.routes.getRoute rowOfU.storePath = .ok (some slowRoute) := by decide
  have hset : shouldSetRoute rowOfU (some slowRoute) = true := by decide
  have hfresh : (⟨default, inst, [], 0, 0, []⟩ : History).Fresh := ⟨⟨100000, 0, 0, 2, rfl⟩, rfl, rfl⟩
  obtain ⟨next, log, hreached⟩ := reached_beforeWrite ExclusiveUpdates (fun _ _ => trivial)
    (fun _ _ _ _ _ hquiet => hquiet.exclusiveUpdates) husable hread hset
  let past : List HandlerEvent := [⟨.dbGetRoute rowOfU.storePath, .ok (some slowRoute)⟩,
    ⟨.timestampNow, inst.wallClock⟩]
  have hmerge : MergeWrite past rowOfU := ⟨_, _, rfl, hset⟩
  obtain ⟨s', hstep⟩ : ∃ s', Step default ⟨default, inst,
      [⟨0, .merge [rowOfU], past, .perform (.dbUpsertRoute rowOfU) next⟩], 1, 0, log⟩
      (.perform 0 (.merge [rowOfU]) past ⟨.dbUpsertRoute rowOfU, .ok ()⟩) s' :=
    exists_write [] [] rfl
  exact ⟨_, _, hmerge, (no_lost_update default _ _ _ hfresh hreached 0 _ _ _ _ hstep).2 hmerge⟩

/-- An update is lost: two merges find no row for a path, and the one with the slow
route writes last. -/
theorem slower_merge_written :
    ∃ s s' number kind past written,
      Reached default (fun _ _ _ => True) empty s ∧
      Step default s (.perform number kind past ⟨.dbUpsertRoute written, .ok ()⟩) s' ∧
      MergeWrite past written ∧ ¬∃ existing earlier,
        KeepsUpdates s number past written existing earlier := by
  have hslow : usableRoute default slowRoute = true := by decide
  have hfast : usableRoute default rowOfU = true := by decide
  have hnone : Flights.emptyCaches.routes.getRoute zeroHash.val = .ok none := rfl
  obtain ⟨next, log, hfirst⟩ := reached_beforeWrite (fun _ _ _ => True) (fun _ _ => trivial)
    (fun _ _ _ _ _ _ => trivial) hslow hnone (rfl : shouldSetRoute slowRoute none = true)
  -- the fast route is merged meanwhile
  have hmerge : Replay (Instance.exec default)
      ((TaskKind.merge [rowOfU]).process default default) Flights.emptyCaches _ _ _ :=
    (Instance.replay_mergeRoutes hfast hnone (by decide)).bind_ret rfl
  obtain ⟨newer, hsecond, -⟩ := hfirst.task hmerge (fun _ => trivial)
    fun _ _ _ _ _ _ _ _ => trivial
  let past : List HandlerEvent :=
    [⟨.dbGetRoute zeroHash.val, .ok none⟩, ⟨.timestampNow, default⟩]
  have hwrite : MergeWrite past slowRoute := ⟨none, _, rfl, rfl⟩
  obtain ⟨s, hreached, hinst, finished, htasks⟩ : ∃ s : History,
      Reached default (fun _ _ _ => True) empty s ∧
      s.inst = Flights.emptyCaches.stored rowOfU ∧ ∃ finished, s.tasks =
        [finished] ++ ⟨0, .merge [slowRoute], past, .perform (.dbUpsertRoute slowRoute) next⟩ :: [] :=
    ⟨_, hsecond, rfl, _, rfl⟩
  obtain ⟨s', hstep⟩ := exists_write [finished] [] htasks
  refine ⟨s, s', 0, _, past, slowRoute, hreached, hstep, hwrite, ?_⟩
  rintro ⟨existing, earlier, hkeeps⟩
  have hrow : s.inst.routes.get slowRoute.storePath = some (routeToRow rowOfU) := by
    rw [hinst]
    decide
  have hfaster : (routeToRow rowOfU).latencyEma.lt slowRoute.latencyEma = true := by decide
  rw [hkeeps.latency_le hwrite _ hrow] at hfaster
  cases hfaster

end History

end Ncro
