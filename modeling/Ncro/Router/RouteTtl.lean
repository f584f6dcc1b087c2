import Ncro.Router.Replays
import Ncro.Router.Writes

/-!
# How long a route is trusted

`commit_winner` puts a route into the table, with the time it expires at, and an
answer into the LRU, which drops it after the same span. A lookup that finds the
row still valid inserts its answer into the LRU again, with a new span, and the
LRU is not checked against the row: the route may then be used for up to twice its
TTL. It is used no longer than it should be when the rows behind such answers are
still valid whenever the LRU yields them.

The wall clock and the monotonic clock are taken to advance together, and not to
stand before the epoch.
-/

namespace Ncro

open Foundation Foundation.Process

/-! ## Commits and uses -/

/-- `commit_winner` stored an upstream as the winner for a hash, in the table or in
the LRU. -/
def Commits (crypto : Crypto) (storeHash url : Str) (entry : LogEntry) : Prop :=
  (∃ written, entry.event = ⟨.dbUpsertRoute written, .ok ()⟩ ∧ written.upstreamUrl = url ∧
    CommitWrite crypto entry.registry storeHash entry.past written) ∨
  ∃ value, entry.event = ⟨.lruInsert storeHash value, ()⟩ ∧ value.url = url ∧
    CommitInsert crypto entry.registry storeHash entry.past value

/-- A lookup takes its route from a cache: the LRU yields it, or its row is found to
be valid. -/
def TakesRoute (storeHash url : Str) (entry : LogEntry) : Prop :=
  (∃ value, value.url = url ∧ entry.event = ⟨.lruGet storeHash, some value⟩) ∨
  ∃ row now earlier, row.upstreamUrl = url ∧ row.isValid now = true ∧
    entry.event = ⟨.timestampNow, now⟩ ∧
    entry.past = ⟨.dbGetRoute storeHash, .ok (some row)⟩ :: earlier

/-- A commit that is younger than the TTL it was made with. -/
def CommittedBefore (crypto : Crypto) (log : List LogEntry) (storeHash url : Str)
    (time : Timestamp) : Prop :=
  ∃ commit ∈ log, Commits crypto storeHash url commit ∧ commit.wallClock ≤ time ∧
    time.asNanosecond < commit.wallClock.asNanosecond + commit.registry.routeTtl

/-- Every answer from a cache was taken while a commit of its upstream was younger
than the TTL. -/
def AnswersInTime (crypto : Crypto) (s : History) : Prop :=
  ∀ number storeHash candidates hop past result,
    ⟨number, .resolve storeHash candidates hop, past, .ret (.lookup (.ok result))⟩ ∈ s.tasks →
    result.cacheHit = true →
    ∃ taken ∈ s.log, taken.task = number ∧ TakesRoute storeHash.val result.url taken ∧
      CommittedBefore crypto s.log storeHash.val result.url taken.wallClock

/-! ## The condition -/

/-- The clocks advance together, also across a restart. -/
def ClocksTogether (s : History) (label : HistoryLabel) (s' : History) : Prop :=
  0 ≤ s.inst.wallClock.asNanosecond ∧
  match label with
  | .background =>
      s'.inst.wallClock.asNanosecond - s.inst.wallClock.asNanosecond =
        (s'.inst.clock : ℤ) - s.inst.clock
  | .restart _ => s.inst.wallClock ≤ s'.inst.wallClock
  | _ => True

/-- What the runs of one instance without mesh keep to. -/
def KeepsTime (s : History) (label : HistoryLabel) (s' : History) : Prop :=
  History.WithoutMesh label ∧ ClocksTogether s label s'

/-- When the LRU yields an answer that was not put there by a commit, the row of the
hash still names its upstream and is valid. -/
def ReinsertedIsValid (s : History) : HistoryLabel → Prop
  | .perform _ _ _ ⟨.lruGet storeHash, some value⟩ => value.cacheHit = true →
      ∃ row, s.inst.routes.getRoute storeHash = .ok (some row) ∧ row.upstreamUrl = value.url ∧
        row.isValid s.inst.wallClock = true
  | _ => True

/-- What keeps routes from being used past their TTL in a run without mesh. -/
def TrustsValidRows (s : History) (label : HistoryLabel) (s' : History) : Prop :=
  History.WithoutMesh label ∧ ClocksTogether s label s' ∧ ReinsertedIsValid s label

theorem CommittedBefore.mono {crypto : Crypto} {log log' : List LogEntry} {storeHash url : Str}
    {time : Timestamp} (h : CommittedBefore crypto log storeHash url time) (hsub : log ⊆ log') :
    CommittedBefore crypto log' storeHash url time := by
  obtain ⟨commit, hcommit, hrest⟩ := h
  exact ⟨commit, hsub hcommit, hrest⟩

/-- An expiry that some commit of the upstream accounts for. -/
def Sourced (crypto : Crypto) (log : List LogEntry) (storeHash url : Str) (expiry : ℤ) : Prop :=
  ∃ commit ∈ log, Commits crypto storeHash url commit ∧
    expiry ≤ commit.wallClock.asNanosecond + commit.registry.routeTtl

theorem Sourced.mono {crypto : Crypto} {log log' : List LogEntry} {storeHash url : Str}
    {expiry : ℤ} (h : Sourced crypto log storeHash url expiry) (hsub : log ⊆ log') :
    Sourced crypto log' storeHash url expiry := by
  obtain ⟨commit, hcommit, hrest⟩ := h
  exact ⟨commit, hsub hcommit, hrest⟩

namespace History

variable {crypto : Crypto} {s₀ s s' : History} {label : HistoryLabel}

/-! ## Clocks -/

theorem Step.wallClock_le (hclocks : ClocksTogether s label s') (h : Step crypto s label s') :
    s.inst.wallClock ≤ s'.inst.wallClock := by
  cases h with
  | start kind => exact le_refl _
  | perform htasks hexec => exact (Instance.effect_of_exec hexec).wallClock.ge
  | background hbackground =>
      have htogether := hclocks.2
      cases hbackground with
      | tick wallClock clock hle =>
          show s.inst.wallClock.asNanosecond ≤ wallClock.asNanosecond
          have hadvance : (s.inst.clock : ℤ) ≤ (clock : ℤ) := Int.ofNat_le.2 hle
          simp only at htogether
          omega
      | _ => exact le_refl _
  | drop htasks racePermits inflight held => exact le_refl _
  | restart reg health maxEntries inMemoryNegativeTtl cooldownWindow maxConcurrentRaces wallClock
      clock => exact hclocks.2

/-- Nothing in the log happened later than now. -/
theorem Reached.log_wallClock_le (h₀ : s₀.Fresh) (h : Reached crypto TrustsValidRows s₀ s) :
    ∀ entry ∈ s.log, entry.wallClock ≤ s.inst.wallClock := by
  have hstart : ∀ entry ∈ s₀.log, entry.wallClock ≤ s₀.inst.wallClock := by simp [h₀.log]
  refine h.invariant (I := fun s => ∀ entry ∈ s.log, entry.wallClock ≤ s.inst.wallClock) hstart
    fun {s label s'} _ hle hmeets hstep => ?_
  have hnow := hstep.wallClock_le hmeets.2.1
  intro entry hentry
  rcases hstep.log_eq with ⟨number, kind, past, event, -, hlog⟩ | hlog
  · rw [hlog] at hentry
    rcases List.mem_cons.1 hentry with rfl | hentry
    · exact hnow
    · exact le_trans (hle entry hentry) hnow
  · rw [hlog] at hentry
    exact le_trans (hle entry hentry) hnow

/-- The entries of the LRU live as long as routes do. -/
theorem Reached.lru_ttl {meets : History → HistoryLabel → History → Prop} (h₀ : s₀.Fresh)
    (h : Reached crypto meets s₀ s) : s.inst.lru.ttl = s.registry.routeTtl := by
  have hstart : s₀.inst.lru.ttl = s₀.registry.routeTtl := by
    obtain ⟨maxEntries, inMemoryNegativeTtl, cooldownWindow, maxConcurrentRaces, heq⟩ := h₀.inst
    rw [heq]
    rfl
  refine h.invariant (I := fun s => s.inst.lru.ttl = s.registry.routeTtl) hstart
    fun {s label s'} _ heq _ hstep => ?_
  cases hstep with
  | perform htasks hexec => exact (Instance.effect_of_exec hexec).lru_ttl.trans heq
  | background hbackground => cases hbackground <;> exact heq
  | restart => rfl
  | _ => exact heq

/-- A time that was just read from the clock. -/
theorem Reached.clock_read (h₀ : s₀.Fresh) (h : Reached crypto TrustsValidRows s₀ s) :
    ∀ task ∈ s.tasks, ∀ now earlier, task.past = ⟨.timestampNow, now⟩ :: earlier →
      0 ≤ now.asNanosecond ∧ now ≤ s.inst.wallClock := by
  let I : History → Prop := fun s => ∀ task ∈ s.tasks, ∀ now earlier,
    task.past = ⟨.timestampNow, now⟩ :: earlier →
      0 ≤ now.asNanosecond ∧ now ≤ s.inst.wallClock
  have hstart : I s₀ := by simp [I, h₀.tasks]
  refine h.invariant (I := I) hstart fun {s label s'} _ hread hmeets hstep => ?_
  have hstill := hstep.tasks
    (T := fun _ task => ∀ now earlier, task.past = ⟨.timestampNow, now⟩ :: earlier →
      0 ≤ now.asNanosecond ∧ now ≤ s.inst.wallClock) hread
    (fun kind _ now earlier hpast => by cases hpast)
    fun number kind past op next reply heq _ now earlier hpast => by
      subst heq
      obtain ⟨heq, -⟩ := List.cons.inj hpast
      cases heq
      obtain rfl : now = s.inst.wallClock := hstep.perform_effect.1.1
      exact ⟨hmeets.2.1.1, le_refl _⟩
  intro task htask now earlier hpast
  obtain ⟨hnonneg, hle⟩ := hstill task htask now earlier hpast
  exact ⟨hnonneg, le_trans hle (hstep.wallClock_le hmeets.2.1)⟩

/-! ## Rows -/

/-- The expiry of every row is that of a commit, and so is that of every row that was
read. -/
structure RowsSourced (crypto : Crypto) (s : History) : Prop where
  rows : ∀ row ∈ s.inst.routes.rows,
    Sourced crypto s.log row.storePath row.upstreamUrl (row.ttl * 10 ^ 9)
  read : ∀ task ∈ s.tasks, ∀ storeHash row,
    (⟨.dbGetRoute storeHash, .ok (some row)⟩ : HandlerEvent) ∈ task.past →
      row.storePath = storeHash ∧ row.ttl.asNanosecond = row.ttl.asSecond * 10 ^ 9 ∧
        Sourced crypto s.log storeHash row.upstreamUrl row.ttl.asNanosecond

/-- A row that is found has the expiry of a commit. -/
theorem RowsSourced.getRoute (h : s.RowsSourced crypto) {storeHash : Str} {row : RouteEntry}
    (hget : s.inst.routes.getRoute storeHash = .ok (some row)) :
    row.storePath = storeHash ∧ row.ttl.asNanosecond = row.ttl.asSecond * 10 ^ 9 ∧
      Sourced crypto s.log storeHash row.upstreamUrl row.ttl.asNanosecond := by
  obtain ⟨stored, hstored, hread⟩ := RouteTable.exists_row_of_getRoute hget
  have hkey := Table.key_of_get hstored
  obtain ⟨httl, hsecond⟩ := Timestamp.asNanosecond_of_fromSecond hread.ttl
  have hsourced := h.rows stored (Table.mem_of_get hstored)
  refine ⟨hread.storePath.trans hkey, by rw [httl, hsecond], ?_⟩
  rw [httl, hread.upstreamUrl, ← hkey]
  exact hsourced

/-- What `commit_winner` writes has the expiry of its commit. -/
theorem sourced_of_commitWrite {reg : Registry} {storeHash : Str} {past : List HandlerEvent}
    {written : RouteEntry} (h : CommitWrite crypto reg storeHash past written)
    (hclock : ∀ now earlier, past = ⟨.timestampNow, now⟩ :: earlier →
      0 ≤ now.asNanosecond ∧ now ≤ s.inst.wallClock)
    {entry : LogEntry} (hentry : entry ∈ s'.log)
    (hevent : entry.event = ⟨.dbUpsertRoute written, .ok ()⟩) (hpast : entry.past = past)
    (hreg : entry.registry = reg) (hwall : entry.wallClock = s.inst.wallClock) :
    Sourced crypto s'.log written.storePath written.upstreamUrl
      (written.ttl.asSecond * 10 ^ 9) := by
  have hcommit := h
  obtain ⟨winner, body, parsed, ema, now, earlier, rfl, -, -, rfl⟩ := h
  obtain ⟨hnonneg, hle⟩ := hclock now earlier rfl
  refine ⟨entry, hentry, .inl ⟨_, hevent, rfl, ?_⟩, ?_⟩
  · rw [hreg, hpast]
    exact hcommit
  · have hstored := Timestamp.asSecond_mul_le
      (le_trans hnonneg (now.le_saturatingAdd reg.routeTtl))
    have hadd := now.saturatingAdd_le reg.routeTtl
    have hnow : now.asNanosecond ≤ s.inst.wallClock.asNanosecond := hle
    rw [hwall, hreg]
    show (now.saturatingAdd reg.routeTtl).asSecond * 10 ^ 9 ≤ _
    omega

theorem Reached.rowsSourced (h₀ : s₀.Fresh) (hrows : s₀.inst.routes = ∅)
    (h : Reached crypto TrustsValidRows s₀ s) : s.RowsSourced crypto := by
  have hstart : s₀.RowsSourced crypto := ⟨by simp [hrows], by simp [h₀.tasks]⟩
  refine h.invariant hstart fun {s label s'} hreached hsourced hmeets hstep => ?_
  have hsub := hstep.log_suffix.subset
  refine ⟨?_, ?_⟩
  · rcases hstep.routes with ⟨number, kind, past, written, rfl, hroutes⟩ | hrest
    · intro row hrow
      rw [hroutes] at hrow
      rcases Table.mem_of_mem_upsert hrow with rfl | hrow
      · obtain ⟨process, htask⟩ := hstep.mem_tasks
        obtain ⟨-, -, -, hlog⟩ := hstep.perform_effect
        obtain ⟨storeHash, candidates, hop, rfl, hcommit | hrefresh⟩ :=
          hreached.lookupWrites (fun _ _ _ hmeets => hmeets.1) h₀ hstep
        · exact sourced_of_commitWrite hcommit (hreached.clock_read h₀ _ htask)
            (hlog ▸ List.mem_cons_self) rfl rfl rfl rfl
        · obtain ⟨read, bytes, parsed, health, now, earlier, hpast, -, -, rfl⟩ := hrefresh
          obtain ⟨hpath, hexact, hread⟩ := hsourced.read _ htask storeHash.val read
            (by rw [hpast]; simp)
          rw [hexact, ← hpath] at hread
          exact hread.mono hsub
      · exact (hsourced.rows row hrow).mono hsub
    · exact fun row hrow => (hsourced.rows row (hrest.subset hrow)).mono hsub
  · refine hstep.tasks (T := fun _ task => ∀ storeHash row,
        (⟨.dbGetRoute storeHash, .ok (some row)⟩ : HandlerEvent) ∈ task.past →
          row.storePath = storeHash ∧ row.ttl.asNanosecond = row.ttl.asSecond * 10 ^ 9 ∧
            Sourced crypto s'.log storeHash row.upstreamUrl row.ttl.asNanosecond)
      (fun task htask storeHash row hmem => ?_) (fun kind _ storeHash row hmem => ?_)
      fun number kind past op next reply heq hself storeHash row hmem => ?_
    · obtain ⟨hpath, hexact, hread⟩ := hsourced.read task htask storeHash row hmem
      exact ⟨hpath, hexact, hread.mono hsub⟩
    · cases hmem
    · rcases List.mem_cons.1 hmem with hhead | hmem
      · subst heq
        cases hhead
        rcases hstep.perform_effect.1.1 with herror | hget
        · cases herror
        · obtain ⟨hpath, hexact, hread⟩ := hsourced.getRoute hget.symm
          exact ⟨hpath, hexact, hread.mono hsub⟩
      · exact hself storeHash row hmem

/-! ## The LRU -/

/-- An answer that a commit has put into the LRU is as old as the commit. -/
def LruSourced (crypto : Crypto) (s : History) : Prop :=
  ∀ held ∈ s.inst.lru.entries.rows, held.value.cacheHit = false →
    ∃ commit ∈ s.log, Commits crypto held.key held.value.url commit ∧
      commit.registry.routeTtl = s.registry.routeTtl ∧
      commit.wallClock.asNanosecond - (held.inserted : ℤ) =
        s.inst.wallClock.asNanosecond - (s.inst.clock : ℤ)

theorem LruSourced.insert (h : s.LruSourced crypto) {number : ℕ} {kind : TaskKind}
    {past : List HandlerEvent} {key : Str} {value : ResolveResult}
    (hop : TaskOp crypto s.registry kind past (.lruInsert key value))
    (hstep : Step crypto s (.perform number kind past ⟨.lruInsert key value, ()⟩) s') :
    s'.LruSourced crypto := by
  obtain ⟨hexec, hreg, -, hlog⟩ := hstep.perform_effect
  have hinst : s'.inst = { s.inst with lru := s.inst.lru.insert s.inst.clock key value } := hexec
  intro held hheld hfresh
  rw [hinst] at hheld ⊢
  rw [hreg, hlog]
  rcases TtlCache.mem_of_mem_insert hheld with rfl | hheld
  · refine ⟨_, List.mem_cons_self, .inr ⟨value, rfl, rfl, ?_⟩, rfl, rfl⟩
    cases kind with
    | resolve storeHash candidates hop' =>
        obtain ⟨rfl, hcached | hinsert⟩ := hop
        · rw [hcached] at hfresh
          cases hfresh
        · exact hinsert
    | fallback storeHash upstream hop' => exact hop.elim
    | merge incoming => exact hop.elim
  · obtain ⟨commit, hcommit, hcommits, httl, hage⟩ := h held hheld hfresh
    exact ⟨commit, List.mem_cons_of_mem _ hcommit, hcommits, httl, hage⟩

/-- A step that keeps the settings and the age of what the LRU holds. -/
theorem LruSourced.of_subset (h : s.LruSourced crypto) (hlog : s.log ⊆ s'.log)
    (hreg : s'.registry = s.registry)
    (hage : s'.inst.wallClock.asNanosecond - (s'.inst.clock : ℤ) =
      s.inst.wallClock.asNanosecond - (s.inst.clock : ℤ))
    (hsub : s'.inst.lru.entries.rows ⊆ s.inst.lru.entries.rows) : s'.LruSourced crypto := by
  intro held hheld hfresh
  obtain ⟨commit, hcommit, hcommits, httl, hold⟩ := h held (hsub hheld) hfresh
  exact ⟨commit, hlog hcommit, hcommits, by rw [hreg]; exact httl, by rw [hage]; exact hold⟩

theorem Reached.lruSourced (h₀ : s₀.Fresh) (h : Reached crypto TrustsValidRows s₀ s) :
    s.LruSourced crypto := by
  have hstart : s₀.LruSourced crypto := by
    obtain ⟨maxEntries, inMemoryNegativeTtl, cooldownWindow, maxConcurrentRaces, heq⟩ := h₀.inst
    rw [LruSourced, heq]
    intro held hheld
    cases hheld
  refine h.invariant hstart fun {s label s'} hreached hsourced hmeets hstep => ?_
  have hsub := hstep.log_suffix.subset
  rcases hstep.lru with ⟨number, kind, past, key, value, rfl, -⟩ | hrows
  · exact hsourced.insert ((hreached.tasksFollow h₀).taskOp hstep) hstep
  · have htogether := hmeets.2.1.2
    cases hstep with
    | start kind => exact hsourced.of_subset hsub rfl rfl hrows
    | perform htasks hexec =>
        have heffect := Instance.effect_of_exec hexec
        refine hsourced.of_subset hsub rfl ?_ hrows
        rw [heffect.wallClock, heffect.clock]
    | @background inst hbackground =>
        have hadvance : inst.wallClock.asNanosecond - s.inst.wallClock.asNanosecond =
          (inst.clock : ℤ) - s.inst.clock := htogether
        refine hsourced.of_subset hsub rfl ?_ hrows
        show inst.wallClock.asNanosecond - (inst.clock : ℤ) = _
        omega
    | drop htasks racePermits inflight held => exact hsourced.of_subset hsub rfl rfl hrows
    | restart => exact fun held hheld => by cases hheld

/-! ## Uses -/

/-- Whatever a lookup takes from a cache was committed in time. -/
theorem Reached.takesRoute (h₀ : s₀.Fresh) (hrows : s₀.inst.routes = ∅)
    (h : Reached crypto TrustsValidRows s₀ s) :
    ∀ entry ∈ s.log, ∀ storeHash url, TakesRoute storeHash url entry →
      CommittedBefore crypto s.log storeHash url entry.wallClock := by
  let I : History → Prop := fun s => ∀ entry ∈ s.log, ∀ storeHash url,
    TakesRoute storeHash url entry → CommittedBefore crypto s.log storeHash url entry.wallClock
  have hstart : I s₀ := by simp [I, h₀.log]
  refine h.invariant (I := I) hstart fun {s label s'} hreached htaken hmeets hstep => ?_
  have hsub := hstep.log_suffix.subset
  have hle := hreached.log_wallClock_le h₀
  have hrowsSourced := hreached.rowsSourced h₀ hrows
  -- an expiry that has not passed belongs to a commit in time
  have hsourced : ∀ {storeHash url : Str} {expiry : Timestamp},
      Sourced crypto s.log storeHash url expiry.asNanosecond → s.inst.wallClock < expiry →
      CommittedBefore crypto s.log storeHash url s.inst.wallClock := by
    rintro storeHash url expiry ⟨commit, hcommit, hcommits, hexpiry⟩ hlive
    exact ⟨commit, hcommit, hcommits, hle commit hcommit, lt_of_lt_of_le hlive hexpiry⟩
  intro entry hentry storeHash url htakes
  rcases hstep.log_eq with ⟨number, kind, past, event, rfl, hlog⟩ | hlog
  · rw [hlog] at hentry
    rcases List.mem_cons.1 hentry with rfl | hentry
    · refine CommittedBefore.mono ?_ hsub
      have hexec := hstep.perform_effect.1
      obtain ⟨process, htask⟩ := hstep.mem_tasks
      rcases htakes with ⟨value, rfl, heq⟩ | ⟨row, now, earlier, rfl, hvalid, heq, hpast⟩
      · obtain rfl : event = ⟨.lruGet storeHash, some value⟩ := heq
        have hhit : (s.inst.lru.get s.inst.clock storeHash).1 = some value :=
          (Prod.mk.inj hexec).1.symm
        obtain ⟨held, hheld, rfl, rfl, hlive⟩ := TtlCache.exists_of_get_eq_some hhit
        cases hcached : held.value.cacheHit with
        | true =>
            obtain ⟨row, hget, hurl, hvalid⟩ := hmeets.2.2 hcached
            rw [← hurl]
            exact hsourced (hrowsSourced.getRoute hget).2.2 (of_decide_eq_true hvalid)
        | false =>
            obtain ⟨commit, hcommit, hcommits, httl, hage⟩ :=
              hreached.lruSourced h₀ held hheld hcached
            refine ⟨commit, hcommit, hcommits, hle commit hcommit, ?_⟩
            rw [hreached.lru_ttl h₀, ← httl] at hlive
            have hcast : ∀ a b c : ℕ, a - b < c → (a : ℤ) - b < c := by omega
            have hyoung := hcast _ _ _ hlive
            show s.inst.wallClock.asNanosecond < _
            omega
      · obtain rfl : event = ⟨.timestampNow, now⟩ := heq
        obtain rfl : now = s.inst.wallClock := hexec.1
        have hread := hrowsSourced.read _ htask storeHash row
          (by rw [show past = _ from hpast]; exact List.mem_cons_self)
        exact hsourced hread.2.2 (of_decide_eq_true hvalid)
    · exact (htaken entry hentry storeHash url htakes).mono hsub
  · rw [hlog] at hentry
    exact (htaken entry hentry storeHash url htakes).mono hsub

end History

/-! ## Conclusion -/

/-- A route is not used past its TTL. In every run without mesh from an empty route
table whose clocks advance together, and in which the LRU yields answers that were
taken from rows only while the rows are valid, every answer from a cache was taken
while a commit of its upstream for the hash was younger than the route TTL. -/
theorem route_ttl (crypto : Crypto) (s₀ s : History) (h₀ : s₀.Fresh)
    (hrows : s₀.inst.routes = ∅) (h : History.Reached crypto TrustsValidRows s₀ s) :
    AnswersInTime crypto s := by
  intro number storeHash candidates hop past result htask hcached
  have hends : LookupEnds storeHash.val past (.ok result) := h.tasksFollow h₀ _ htask
  have hlogged := h.exists_entry h₀ _ htask
  have hinTime := h.takesRoute h₀ hrows
  rcases hends hcached with ⟨value, earlier, hurl, hsuffix⟩ | ⟨row, now, earlier, hurl, hvalid, hsuffix⟩
  · obtain ⟨entry, hentry, hnumber, -, hevent⟩ := hlogged _ _ hsuffix
    have htakes : TakesRoute storeHash.val result.url entry := .inl ⟨value, hurl, hevent⟩
    exact ⟨entry, hentry, hnumber, htakes, hinTime entry hentry _ _ htakes⟩
  · obtain ⟨entry, hentry, hnumber, hpast, hevent⟩ := hlogged _ _ hsuffix
    have htakes : TakesRoute storeHash.val result.url entry :=
      .inr ⟨row, now, earlier, hurl, hvalid, hevent, hpast⟩
    exact ⟨entry, hentry, hnumber, htakes, hinTime entry hentry _ _ htakes⟩

/-! ## A route in time and a route past its TTL -/

/-- What a task does that at most puts answers from rows into the LRU. -/
def OnlyRefills : HandlerEvent → Prop
  | ⟨.dbUpsertRoute _, _⟩ => False
  | ⟨.lruInsert _ value, _⟩ => value.cacheHit = true
  | _ => True

theorem OnlyRefills.not_commits {crypto : Crypto} {storeHash url : Str} {entry : LogEntry}
    (h : OnlyRefills entry.event) : ¬Commits crypto storeHash url entry := by
  rintro (⟨written, hevent, -⟩ | ⟨value, hevent, -, hfresh, -⟩)
  · rw [hevent] at h
    exact h
  · rw [hevent] at h
    exact absurd (h.symm.trans hfresh) (by decide)

/-- A time after the epoch. -/
def secondsAfterEpoch (n : Fin 10000) : Timestamp :=
  ⟨n * 10 ^ 9, by omega, by omega⟩

theorem secondsAfterEpoch_nonneg (n : Fin 10000) : 0 ≤ (secondsAfterEpoch n).asNanosecond := by
  show (0 : ℤ) ≤ (n : ℕ) * 10 ^ 9
  omega

namespace History

/-- The answer that the first commit leaves in the LRU. -/
def answerOfU : ResolveResult := Instance.winnerAnswer default winnerOfU zeroHash.val bodyOfU

/-- The events of a task meet the condition, when its LRU hits do. -/
theorem trustsValidRows_perform {events before after : List HandlerEvent} {event : HandlerEvent}
    {t t' : History} {number : ℕ} {kind : TaskKind} (h : events = before ++ event :: after)
    (hnonneg : 0 ≤ t.inst.wallClock.asNanosecond)
    (hall : ∀ event ∈ events, ∀ storeHash value, event = ⟨.lruGet storeHash, some value⟩ →
      value.cacheHit = false) :
    TrustsValidRows t (.perform number kind before.reverse event) t' := by
  refine ⟨trivial, ⟨hnonneg, trivial⟩, ?_⟩
  have hevent := hall event (by rw [h]; simp)
  unfold ReinsertedIsValid
  split
  · next heq =>
    cases heq
    intro hcached
    rw [hevent _ _ rfl] at hcached
    cases hcached
  · trivial

/-- A lookup that is answered from the LRU, a thousand seconds after the commit. -/
theorem route_ttl_lruHit :
    ∃ s : History, (∃ task ∈ s.tasks, ∃ result, task.process = .ret (.lookup (.ok result)) ∧
      result.cacheHit = true) ∧ AnswersInTime default s := by
  have hfirst : ∀ event ∈ firstEvents, ∀ storeHash value,
      event = ⟨.lruGet storeHash, some value⟩ → value.cacheHit = false := by
    simp [firstEvents, Instance.wonEvents, Flights.missedEvents, Instance.commitEvents]
  obtain ⟨log, hcommitted, -⟩ := reached_committedOfU TrustsValidRows
    (fun t => ⟨trivial, ⟨le_refl _, trivial⟩, trivial⟩)
    fun t before event after t' hsplit _ hclock =>
      trustsValidRows_perform hsplit (by rw [hclock]; exact le_refl 0) hfirst
  let inst : Instance := { committedOfU with
    wallClock := secondsAfterEpoch 1000
    clock := 1000 * 10 ^ 9 }
  have hlater := hcommitted.tick (secondsAfterEpoch 1000)
    (Nat.zero_le _) ⟨trivial, ⟨le_refl _, rfl⟩, trivial⟩
  have hnonneg := secondsAfterEpoch_nonneg 1000
  have hget : (inst.lru.get inst.clock zeroHash.val).1 = some answerOfU := by decide
  have hresolve : Replay (Instance.exec default)
      ((TaskKind.resolve zeroHash [] .client).process default default) inst _ _ _ :=
    (Instance.replay_resolve_of_lru rfl rfl hget rfl).bind_ret rfl
  obtain ⟨newer, hreached, -⟩ := hlater.task hresolve
    (fun t => ⟨trivial, ⟨hnonneg, trivial⟩, trivial⟩)
    fun t before event after t' hsplit _ hclock =>
      trustsValidRows_perform hsplit (by rw [hclock]; exact hnonneg)
        (by simp [answerOfU, Instance.winnerAnswer])
  exact ⟨_, ⟨_, List.mem_cons_self, _, rfl, rfl⟩, route_ttl default _ _ fresh_empty rfl hreached⟩

/-- The instance after its restart. -/
def restartedOfU : Instance :=
  .start default committedOfU.routes ∅ ∅ 100000 0 0 2 (secondsAfterEpoch 3000) 0

/-- The answer from the row. -/
def answerOfRow : ResolveResult :=
  Instance.rowAnswer default zeroHash.val rowOfWinner bodyOfU

/-- A route is used after its TTL: it is committed, the instance restarts, and a
lookup puts it into the LRU again shortly before its row expires. A lookup
shortly before the LRU drops it is still answered from there. -/
theorem route_used_past_ttl :
    ∃ s, Reached default KeepsTime empty s ∧ ¬AnswersInTime default s := by
  have hlater := secondsAfterEpoch_nonneg 3000
  have hlatest := secondsAfterEpoch_nonneg 6000
  obtain ⟨log, hcommitted, hlog⟩ := reached_committedOfU KeepsTime
    (fun t => ⟨trivial, le_refl _, trivial⟩)
    fun t before event after t' _ _ hclock =>
      ⟨trivial, by rw [hclock]; exact le_refl 0, trivial⟩
  -- the instance restarts, and the row is read
  have hrestarted : Reached default KeepsTime empty ⟨default, restartedOfU, [], 1, 1, log⟩ :=
    hcommitted.restart default ∅ 100000 0 0 2 (secondsAfterEpoch 3000) 0 rfl
      ⟨trivial, le_refl _, hlater⟩
  have hrow : restartedOfU.routes.getRoute zeroHash.val = .ok (some rowOfWinner) := by decide
  have hvalid : rowOfWinner.isValid restartedOfU.wallClock = true := by decide
  have hread : Replay (Instance.exec default)
      ((TaskKind.resolve zeroHash [] .client).process default default) restartedOfU _
      (.lookup (.ok answerOfRow)) _ :=
    (Instance.replay_resolve_of_row rfl rfl rfl hrow hvalid rfl rfl rfl).bind_ret rfl
  obtain ⟨reads, hrefilled, hreads⟩ := hrestarted.task hread
    (fun t => ⟨trivial, hlater, trivial⟩)
    fun t before event after t' _ _ hclock => ⟨trivial, by rw [hclock]; exact hlater, trivial⟩
  -- the LRU is asked when the row has expired
  let inst : Instance := { restartedOfU with
    lru := restartedOfU.lru.insert 0 zeroHash.val answerOfRow
    wallClock := secondsAfterEpoch 6000
    clock := 3000 * 10 ^ 9 }
  have hadvance : (secondsAfterEpoch 6000).asNanosecond - (secondsAfterEpoch 3000).asNanosecond
      = ((3000 * 10 ^ 9 : ℕ) : ℤ) - (0 : ℕ) := by decide
  have htick := hrefilled.tick (secondsAfterEpoch 6000) (Nat.zero_le (3000 * 10 ^ 9))
    ⟨trivial, hlater, hadvance⟩
  have hget : (inst.lru.get inst.clock zeroHash.val).1 = some answerOfRow := by decide
  have hhit : Replay (Instance.exec default)
      ((TaskKind.resolve zeroHash [] .client).process default default) inst _ _ _ :=
    (Instance.replay_resolve_of_lru rfl rfl hget rfl).bind_ret rfl
  obtain ⟨hits, hanswered, hhits⟩ := htick.task hhit
    (fun t => ⟨trivial, hlatest, trivial⟩)
    fun t before event after t' _ _ hclock => ⟨trivial, by rw [hclock]; exact hlatest, trivial⟩
  refine ⟨_, hanswered, fun h => ?_⟩
  obtain ⟨taken, htaken, hnumber, -, commit, hcommit, hcommits, -, htime⟩ :=
    h _ zeroHash [] .client _ _ List.mem_cons_self rfl
  have hnow : taken.wallClock = secondsAfterEpoch 6000 := by
    rcases List.mem_append.1 htaken with htaken | htaken
    · exact (hhits taken htaken).2.2.1
    · rcases List.mem_append.1 htaken with htaken | htaken
      · cases hnumber.symm.trans (hreads taken htaken).1
      · cases hnumber.symm.trans (hlog taken htaken).1
  rcases List.mem_append.1 hcommit with hcommit | hcommit
  · refine OnlyRefills.not_commits ?_ hcommits
    have hmem := (hhits commit hcommit).2.2.2
    simp only [List.mem_cons, List.not_mem_nil, or_false] at hmem
    rcases hmem with hmem | hmem | hmem <;> rw [hmem] <;> trivial
  · rcases List.mem_append.1 hcommit with hcommit | hcommit
    · refine OnlyRefills.not_commits ?_ hcommits
      have hmem := (hreads commit hcommit).2.2.2
      simp only [Instance.rowEvents, List.mem_cons, List.not_mem_nil, or_false] at hmem
      rcases hmem with hmem | hmem | hmem | hmem | hmem | hmem | hmem <;> rw [hmem] <;> trivial
    · obtain ⟨-, hreg, hthen, -⟩ := hlog commit hcommit
      rw [hnow, hthen, hreg] at htime
      exact absurd htime (by decide)

end History

end Ncro
