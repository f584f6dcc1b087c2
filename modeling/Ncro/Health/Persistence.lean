import Ncro.Config.Upstream
import Ncro.Foundation.Machine
import Ncro.Health

/-!
# Saving the health of upstreams

A call that records a latency or a failure changes the entry of its upstream and
takes a snapshot of it, and sends the snapshot after it has let go of the table.
A worker keeps the last row it receives for each URL and writes the rows to the
database, again when that fails; the rows seed the entries at the next start.

Two calls for one upstream may send in the other order than they recorded.
`health_kept` says that the worker keeps every entry as it is as long as the calls
for an upstream send in the order in which they recorded. Upstreams that are added
to or removed from a running instance are left out.
-/

namespace Ncro

open Foundation

/-! ## Rows -/

structure HealthRow where
  url : Str
  emaLatency : Double
  consecutiveFails : ℤ
  totalQueries : ℤ
  deriving DecidableEq

/-- The rows of `upstream_health`, or those the worker holds. -/
abbrev HealthRows := Table HealthRow.url

/-- What a call reads off the entry that it has changed. -/
structure Snapshot where
  url : Str
  emaLatency : Double
  consecutiveFails : ℕ
  totalQueries : ℕ
  deriving DecidableEq

def UpstreamHealth.snapshot (h : UpstreamHealth) : Snapshot where
  url := h.url
  emaLatency := h.emaLatency
  consecutiveFails := h.consecutiveFails
  totalQueries := h.totalQueries

/-- The row that the persistence callback sends. -/
def Snapshot.row (snapshot : Snapshot) : HealthRow where
  url := snapshot.url
  emaLatency := snapshot.emaLatency
  consecutiveFails := snapshot.consecutiveFails
  totalQueries := min snapshot.totalQueries (2 ^ 63 - 1)

@[simp] theorem UpstreamHealth.snapshot_url (h : UpstreamHealth) : h.snapshot.url = h.url := rfl

@[simp] theorem Snapshot.row_url (snapshot : Snapshot) : snapshot.row.url = snapshot.url := rfl

/-- The row of an entry. -/
def UpstreamHealth.row (h : UpstreamHealth) : HealthRow :=
  h.snapshot.row

/-- The counts of a row are those of some entry. -/
structure HealthRow.Fits (row : HealthRow) : Prop where
  consecutiveFails : 0 ≤ row.consecutiveFails ∧ row.consecutiveFails < 2 ^ 32
  totalQueries : 0 ≤ row.totalQueries ∧ row.totalQueries < 2 ^ 63

theorem UpstreamHealth.row_fits {h : UpstreamHealth} (hfails : h.consecutiveFails < 2 ^ 32) :
    h.row.Fits := by
  constructor
  · show 0 ≤ (h.consecutiveFails : ℤ) ∧ (h.consecutiveFails : ℤ) < 2 ^ 32
    omega
  · show 0 ≤ min (h.totalQueries : ℤ) (2 ^ 63 - 1) ∧ min (h.totalQueries : ℤ) (2 ^ 63 - 1) < 2 ^ 63
    omega

/-- An entry agrees with the row kept for it. Without a row it was never recorded. -/
def UpstreamHealth.Agrees (h : UpstreamHealth) : Option HealthRow → Prop
  | some row => row = h.row
  | none => h = .new h.url h.priority

/-! ## The table at a start -/

/-- The entry with what a row says about it. -/
def UpstreamHealth.seeded (h : UpstreamHealth) (row : HealthRow) : UpstreamHealth :=
  let consecutiveFails := min row.consecutiveFails.toNat (2 ^ 32 - 1)
  { h with
    emaLatency := row.emaLatency
    totalQueries := row.totalQueries.toNat
    consecutiveFails := consecutiveFails
    status := computeStatus consecutiveFails }

@[simp] theorem UpstreamHealth.seeded_url (h : UpstreamHealth) (row : HealthRow) :
    (h.seeded row).url = h.url := rfl

/-- An entry that is seeded from a row has that row. -/
theorem HealthRow.Fits.row_seeded {row : HealthRow} (hfits : row.Fits) {h : UpstreamHealth}
    (hurl : h.url = row.url) : (h.seeded row).row = row := by
  obtain ⟨⟨hfails, hfails'⟩, ⟨hqueries, hqueries'⟩⟩ := hfits
  have hfails'' : ((min row.consecutiveFails.toNat (2 ^ 32 - 1) : ℕ) : ℤ)
      = row.consecutiveFails := by omega
  have hqueries'' : min (row.totalQueries.toNat : ℤ) (2 ^ 63 - 1) = row.totalQueries := by omega
  cases row
  simp only [UpstreamHealth.row, Snapshot.row, UpstreamHealth.snapshot, UpstreamHealth.seeded,
    HealthRow.mk.injEq]
  exact ⟨hurl, trivial, hfails'', hqueries''⟩

namespace HealthTable

def initUpstream (health : HealthTable) (upstream : UpstreamConfig) : HealthTable :=
  if (health.get upstream.url).isSome then health
  else health.upsert (.new upstream.url upstream.priority)

def initUpstreams (health : HealthTable) (upstreams : List UpstreamConfig) : HealthTable :=
  upstreams.foldl initUpstream health

def seed (health : HealthTable) (row : HealthRow) : HealthTable :=
  match health.get row.url with
  | none => health
  | some h => health.upsert (h.seeded row)

/-- The entries after a start that has read the rows saved before. -/
def atStart (upstreams : List UpstreamConfig) (saved : HealthRows) : HealthTable :=
  saved.rows.foldl seed (initUpstreams ∅ upstreams)

theorem initUpstreams_new {health : HealthTable} {upstreams : List UpstreamConfig}
    (hnew : ∀ h ∈ health.rows, h = .new h.url h.priority) :
    ∀ h ∈ (health.initUpstreams upstreams).rows, h = .new h.url h.priority := by
  induction upstreams generalizing health with
  | nil => exact hnew
  | cons upstream upstreams ih =>
      apply ih
      intro h hmem
      by_cases htracked : (health.get upstream.url).isSome
      · rw [initUpstream, if_pos htracked] at hmem
        exact hnew h hmem
      · rw [initUpstream, if_neg htracked] at hmem
        rcases Table.mem_of_mem_upsert hmem with rfl | hold
        · rfl
        · exact hnew h hold

theorem get_seed (health : HealthTable) (row : HealthRow) (url : Str) :
    (health.seed row).get url =
      if row.url = url then (health.get url).map (·.seeded row) else health.get url := by
  rw [seed]
  cases hold : health.get row.url with
  | none =>
      by_cases hurl : row.url = url
      · subst hurl
        rw [if_pos rfl, hold]
        rfl
      · rw [if_neg hurl]
  | some h =>
      have hkey : (h.seeded row).url = row.url := (h.seeded_url row).trans (Table.key_of_get hold)
      rw [Table.get_upsert, hkey]
      by_cases hurl : row.url = url
      · subst hurl
        rw [if_pos rfl, if_pos rfl, hold]
        rfl
      · rw [if_neg hurl, if_neg hurl]

/-- Each entry agrees with what `rows` has for it. -/
def Agrees (health : HealthTable) (rows : HealthRows) : Prop :=
  ∀ url h, health.get url = some h → h.Agrees (rows.get url)

theorem Agrees.seed {health : HealthTable} {rows : HealthRows} (hagrees : health.Agrees rows)
    {row : HealthRow} (hfits : row.Fits) : (health.seed row).Agrees (rows.upsert row) := by
  intro url h hget
  rw [get_seed] at hget
  rw [Table.get_upsert]
  by_cases hurl : row.url = url
  · rw [if_pos hurl] at hget ⊢
    obtain ⟨old, hold, rfl⟩ := Option.map_eq_some_iff.1 hget
    exact (hfits.row_seeded ((Table.key_of_get hold).trans hurl.symm)).symm
  · rw [if_neg hurl] at hget ⊢
    exact hagrees url h hget

theorem Agrees.seedAll {rows : List HealthRow} {health : HealthTable} {held : HealthRows}
    (hagrees : health.Agrees held) (hfits : ∀ row ∈ rows, row.Fits) :
    (rows.foldl HealthTable.seed health).Agrees (held.extend rows) := by
  induction rows generalizing health held with
  | nil => exact hagrees
  | cons row rows ih =>
      exact ih (hagrees.seed (hfits row (.head _))) fun r hr => hfits r (.tail _ hr)

/-- After a start the entries agree with the rows it has read. -/
theorem atStart_agrees (upstreams : List UpstreamConfig) {saved : HealthRows}
    (hfits : ∀ row ∈ saved.rows, row.Fits) : (atStart upstreams saved).Agrees saved := by
  have hinit : (initUpstreams ∅ upstreams).Agrees ∅ := by
    intro url h hget
    have hnone : ∀ h ∈ (∅ : HealthTable).rows, h = .new h.url h.priority := nofun
    exact initUpstreams_new hnone h (Table.mem_of_get hget)
  intro url h hget
  have hagrees := hinit.seedAll hfits url h hget
  rwa [Table.get_extend_rows, Table.get_empty, Option.or_none] at hagrees

end HealthTable

/-! ## Calls that record -/

inductive RecordCall
  | latency (now : Instant) (url : Str) (ms : Double)
  | failure (url : Str)
  deriving DecidableEq

def RecordCall.url : RecordCall → Str
  | .latency _ url _ => url
  | .failure url => url

/-- What a call makes of the table. -/
def RecordCall.apply (alpha : Double) (health : HealthTable) : RecordCall → HealthTable
  | .latency now url ms => health.recordLatency alpha now url ms
  | .failure url => health.recordFailure url

/-- A call replaces the entry of its upstream, if there is one, with one that fits its row. -/
theorem RecordCall.apply_cases (alpha : Double) (health : HealthTable) (call : RecordCall) :
    (health.get call.url = none ∧ call.apply alpha health = health) ∨
      ∃ h : UpstreamHealth, h.url = call.url ∧ h.row.Fits ∧
        call.apply alpha health = health.upsert h := by
  cases call with
  | latency now url ms =>
      cases hget : health.get url with
      | none =>
          left
          exact ⟨hget, by rw [apply, HealthTable.recordLatency, hget]⟩
      | some h =>
          right
          have hkey : h.url = url := Table.key_of_get hget
          refine ⟨_, ?_, ?_, by rw [apply, HealthTable.recordLatency, hget]⟩
          · exact hkey
          · exact UpstreamHealth.row_fits (Nat.two_pow_pos 32)
  | failure url =>
      cases hget : health.get url with
      | none =>
          left
          exact ⟨hget, by rw [apply, HealthTable.recordFailure, hget]⟩
      | some h =>
          right
          have hkey : h.url = url := Table.key_of_get hget
          refine ⟨_, ?_, ?_, by rw [apply, HealthTable.recordFailure, hget]⟩
          · exact hkey
          · exact UpstreamHealth.row_fits (Nat.mod_lt _ (Nat.two_pow_pos 32))

/-! ## The worker -/

/-- The worker receives rows into its map `pending`, or waits for the database to save
the rows it has taken out of it. -/
inductive Worker
  | collecting (pending : HealthRows)
  | saving (rows : HealthRows)
  deriving DecidableEq

/-- The rows that are still to be saved. -/
def Worker.pending : Worker → HealthRows
  | .collecting pending => pending
  | .saving rows => rows

/-- The health of the upstreams, on its way from the table to the database. -/
structure HealthStore where
  health : HealthTable
  /-- The snapshots of the calls that have recorded and not sent yet, the oldest first. -/
  unsent : List Snapshot
  channel : List HealthRow
  worker : Worker
  saved : HealthRows

inductive HealthEvent
  | record (call : RecordCall)
  | send (snapshot : Snapshot)
  | receive
  | flush
  | flushed
  | flushFailed
  | start (upstreams : List UpstreamConfig)

namespace HealthStore

/-- Before the first start. -/
def empty : HealthStore where
  health := ∅
  unsent := []
  channel := []
  worker := .collecting ∅
  saved := ∅

/-- The first half of a call, under the lock of the table. -/
def record (alpha : Double) (s : HealthStore) (call : RecordCall) : HealthStore :=
  let health := call.apply alpha s.health
  match health.get call.url with
  | none => s
  | some h => { s with health, unsent := s.unsent ++ [h.snapshot] }

def step (alpha : Double) (s : HealthStore) : HealthEvent → Option HealthStore
  | .record call => some (s.record alpha call)
  | .send snapshot =>
      if snapshot ∈ s.unsent then
        some { s with unsent := s.unsent.erase snapshot, channel := s.channel ++ [snapshot.row] }
      else none
  | .receive =>
      match s.worker, s.channel with
      | .collecting pending, row :: channel =>
          some { s with channel, worker := .collecting (pending.upsert row) }
      | _, _ => none
  | .flush =>
      match s.worker with
      | .collecting pending => some { s with worker := .saving pending }
      | .saving _ => none
  | .flushed =>
      match s.worker with
      | .collecting _ => none
      | .saving rows => some { s with worker := .collecting ∅, saved := s.saved.extend rows.rows }
  | .flushFailed =>
      match s.worker with
      | .collecting _ => none
      -- the map was taken, and nothing is received before the rows are back in it
      | .saving rows => some { s with worker := .collecting (Table.extend ∅ rows.rows) }
  | .start upstreams => some { empty with health := .atStart upstreams s.saved, saved := s.saved }

/-- What a step can do. -/
inductive Stepped (alpha : Double) (s : HealthStore) : HealthEvent → HealthStore → Prop
  | record (call : RecordCall) : Stepped alpha s (.record call) (s.record alpha call)
  | send {snapshot : Snapshot} (hmem : snapshot ∈ s.unsent) : Stepped alpha s (.send snapshot)
      { s with unsent := s.unsent.erase snapshot, channel := s.channel ++ [snapshot.row] }
  | receive {pending : HealthRows} {row : HealthRow} {channel : List HealthRow}
      (hworker : s.worker = .collecting pending) (hchannel : s.channel = row :: channel) :
      Stepped alpha s .receive { s with channel, worker := .collecting (pending.upsert row) }
  | flush {pending : HealthRows} (hworker : s.worker = .collecting pending) :
      Stepped alpha s .flush { s with worker := .saving pending }
  | flushed {rows : HealthRows} (hworker : s.worker = .saving rows) : Stepped alpha s .flushed
      { s with worker := .collecting ∅, saved := s.saved.extend rows.rows }
  | flushFailed {rows : HealthRows} (hworker : s.worker = .saving rows) :
      Stepped alpha s .flushFailed { s with worker := .collecting (Table.extend ∅ rows.rows) }
  | start (upstreams : List UpstreamConfig) : Stepped alpha s (.start upstreams)
      { empty with health := .atStart upstreams s.saved, saved := s.saved }

theorem stepped_of_step {alpha : Double} {s s' : HealthStore} {event : HealthEvent}
    (hstep : s.step alpha event = some s') : Stepped alpha s event s' := by
  cases event with
  | record call =>
      cases hstep
      exact .record call
  | send snapshot =>
      rw [step] at hstep
      split at hstep
      · next hmem =>
        cases hstep
        exact .send hmem
      · cases hstep
  | receive =>
      rw [step] at hstep
      split at hstep
      · next pending row channel hworker hchannel =>
        cases hstep
        exact .receive hworker hchannel
      · cases hstep
  | flush =>
      rw [step] at hstep
      split at hstep
      · next pending hworker =>
        cases hstep
        exact .flush hworker
      · cases hstep
  | flushed =>
      rw [step] at hstep
      split at hstep
      · cases hstep
      · next rows hworker =>
        cases hstep
        exact .flushed hworker
  | flushFailed =>
      rw [step] at hstep
      split at hstep
      · cases hstep
      · next rows hworker =>
        cases hstep
        exact .flushFailed hworker
  | start upstreams =>
      cases hstep
      exact .start upstreams

/-- A call for an untracked upstream changes nothing, and another one takes a snapshot. -/
theorem record_cases (alpha : Double) (s : HealthStore) (call : RecordCall) :
    (s.health.get call.url = none ∧ s.record alpha call = s) ∨
      ∃ h : UpstreamHealth, h.url = call.url ∧ h.row.Fits ∧
        s.record alpha call =
          { s with health := s.health.upsert h, unsent := s.unsent ++ [h.snapshot] } := by
  rcases call.apply_cases alpha s.health with ⟨hnone, happly⟩ | ⟨h, hurl, hfits, happly⟩
  · left
    exact ⟨hnone, by rw [record, happly, hnone]⟩
  · right
    refine ⟨h, hurl, hfits, ?_⟩
    rw [record, happly, ← hurl, Table.get_upsert, if_pos rfl]

/-- The states of a store whose steps meet a condition. -/
abbrev Reached (alpha : Double) (meets : HealthStore → HealthEvent → Prop) :
    HealthStore → Prop :=
  Reachable (fun s event s' => s.step alpha event = some s') meets empty

/-! ## Rows on their way -/

/-- All rows on their way or saved fit. -/
structure Fits (s : HealthStore) : Prop where
  unsent : ∀ snapshot ∈ s.unsent, snapshot.row.Fits
  channel : ∀ row ∈ s.channel, row.Fits
  pending : ∀ row ∈ s.worker.pending.rows, row.Fits
  saved : ∀ row ∈ s.saved.rows, row.Fits

theorem Fits.step {alpha : Double} {s s' : HealthStore} {event : HealthEvent} (hfits : s.Fits)
    (hstep : s.step alpha event = some s') : s'.Fits := by
  cases stepped_of_step hstep with
  | record call =>
      rcases s.record_cases alpha call with ⟨-, hsame⟩ | ⟨h, -, hrow, hrecord⟩
      · rw [hsame]
        exact hfits
      · rw [hrecord]
        refine { hfits with unsent := ?_ }
        intro snapshot hmem
        rcases List.mem_append.1 hmem with hold | hnew
        · exact hfits.unsent snapshot hold
        · rw [List.mem_singleton.1 hnew]
          exact hrow
  | @send snapshot hmem =>
      refine { hfits with unsent := ?_, channel := ?_ }
      · exact fun other hother => hfits.unsent other (List.mem_of_mem_erase hother)
      · intro row hrow
        rcases List.mem_append.1 hrow with hold | hnew
        · exact hfits.channel row hold
        · rw [List.mem_singleton.1 hnew]
          exact hfits.unsent snapshot hmem
  | receive hworker hchannel =>
      have hpending := hfits.pending
      have hrows := hfits.channel
      rw [hworker] at hpending
      rw [hchannel] at hrows
      refine { hfits with channel := ?_, pending := ?_ }
      · exact fun other hother => hrows other (.tail _ hother)
      · intro other hother
        rcases Table.mem_of_mem_upsert hother with rfl | hold
        · exact hrows _ (.head _)
        · exact hpending other hold
  | flush hworker =>
      have hpending := hfits.pending
      rw [hworker] at hpending
      exact { hfits with pending := hpending }
  | flushed hworker =>
      have hpending := hfits.pending
      rw [hworker] at hpending
      refine { hfits with pending := nofun, saved := ?_ }
      intro row hrow
      rcases Table.mem_of_mem_extend hrow with hnew | hold
      · exact hpending row hnew
      · exact hfits.saved row hold
  | flushFailed hworker =>
      have hpending := hfits.pending
      rw [hworker] at hpending
      refine { hfits with pending := ?_ }
      intro row hrow
      rcases Table.mem_of_mem_extend hrow with hnew | hold
      · exact hpending row hnew
      · cases hold
  | start upstreams => exact ⟨nofun, nofun, nofun, hfits.saved⟩

/-- The row that the database has for an upstream when nothing more is received: the one
that is still to be saved, or else the saved one. -/
def keptRow (s : HealthStore) (url : Str) : Option HealthRow :=
  (s.worker.pending.get url).or (s.saved.get url)

/-- The last row on its way from an upstream's entry. -/
def latestRow (s : HealthStore) (url : Str) : Option HealthRow :=
  ((s.unsent.reverse.find? fun snapshot => snapshot.url = url).map Snapshot.row).or
    ((s.channel.reverse.find? fun row => row.url = url).or (s.keptRow url))

/-- Of the calls for `url` in progress, the one that recorded first sends first. -/
def InOrder (url : Str) (s : HealthStore) : HealthEvent → Prop
  | .send snapshot => snapshot.url = url →
      (s.unsent.find? fun snapshot => snapshot.url = url) = some snapshot
  | _ => True

/-- The last row on its way agrees with the entry. -/
def Consistent (url : Str) (s : HealthStore) : Prop :=
  ∀ h, s.health.get url = some h → h.Agrees (s.latestRow url)

variable {alpha : Double} {url : Str} {s : HealthStore}

/-- A call that sends in its turn puts its row behind those of the calls before it. -/
theorem latestRow_send {snapshot : Snapshot} (hmem : snapshot ∈ s.unsent)
    (horder : InOrder url s (.send snapshot)) :
    { s with unsent := s.unsent.erase snapshot,
             channel := s.channel ++ [snapshot.row] }.latestRow url = s.latestRow url := by
  obtain ⟨before, after, hbefore, hunsent, herase⟩ := List.exists_erase_eq hmem
  rw [latestRow, latestRow, herase, hunsent, List.reverse_append, List.reverse_append,
    List.reverse_append, List.find?_append, List.find?_append, List.find?_append, List.reverse_cons]
  by_cases hurl : snapshot.url = url
  · have hnone : (before.find? fun snapshot => snapshot.url = url) = none := by
      have hfirst := horder hurl
      rw [hunsent, List.find?_append] at hfirst
      cases hfind : before.find? fun snapshot => snapshot.url = url with
      | none => rfl
      | some other =>
          rw [hfind] at hfirst
          cases hfirst
          exact absurd (List.mem_of_find?_eq_some hfind) hbefore
    have hnone' : (before.reverse.find? fun snapshot => snapshot.url = url) = none := by
      simpa [List.find?_eq_none] using hnone
    rw [hnone', List.find?_append]
    cases hafter : after.reverse.find? fun snapshot => snapshot.url = url with
    | none => simp [hafter, hurl, keptRow]
    | some last => simp [hafter]
  · simp [hurl, keptRow]

/-- A row that is received replaces what the worker has for its upstream. -/
theorem latestRow_receive {pending : HealthRows} {row : HealthRow} {channel : List HealthRow}
    (hworker : s.worker = .collecting pending) (hchannel : s.channel = row :: channel) :
    { s with channel, worker := .collecting (pending.upsert row) }.latestRow url =
      s.latestRow url := by
  rw [latestRow, latestRow, keptRow, keptRow, hworker, hchannel, List.reverse_cons,
    List.find?_append, Option.or_assoc]
  congr 2
  show ((pending.upsert row).get url).or _ = _
  rw [Table.get_upsert]
  by_cases hurl : row.url = url
  · simp [hurl]
  · simp [hurl, Worker.pending]

theorem Consistent.record (h : Consistent url s) (call : RecordCall) :
    Consistent url (s.record alpha call) := by
  rcases s.record_cases alpha call with ⟨-, hsame⟩ | ⟨entry, -, -, hrecord⟩
  · rw [hsame]
    exact h
  rw [hrecord]
  intro held hget
  rw [latestRow, List.reverse_append, List.find?_append]
  by_cases hentry : entry.url = url
  · rw [Table.get_upsert, if_pos hentry] at hget
    cases hget
    simp [hentry, UpstreamHealth.Agrees, UpstreamHealth.row]
  · rw [Table.get_upsert, if_neg hentry] at hget
    have hnone : ([entry.snapshot].reverse.find? fun snapshot => snapshot.url = url) = none := by
      simp [hentry]
    rw [hnone, Option.none_or]
    exact h held hget

/-- What the worker and the database do matters only for the row they keep. -/
theorem Consistent.of_kept (h : Consistent url s) {worker : Worker} {saved : HealthRows}
    (hkept : (worker.pending.get url).or (saved.get url) = s.keptRow url) :
    Consistent url { s with worker, saved } := by
  intro held hget
  rw [latestRow, keptRow, hkept]
  exact h held hget

theorem Consistent.step {s' : HealthStore} {event : HealthEvent} (h : Consistent url s)
    (hfits : s.Fits) (horder : InOrder url s event) (hstep : s.step alpha event = some s') :
    Consistent url s' := by
  cases stepped_of_step hstep with
  | record call => exact h.record call
  | send hmem =>
      intro held hget
      rw [latestRow_send hmem horder]
      exact h held hget
  | receive hworker hchannel =>
      intro held hget
      rw [latestRow_receive hworker hchannel]
      exact h held hget
  | flush hworker =>
      apply h.of_kept
      rw [keptRow, hworker]
      rfl
  | flushed hworker =>
      apply h.of_kept
      rw [keptRow, hworker, Table.get_extend_rows]
      rfl
  | @flushFailed rows hworker =>
      apply h.of_kept
      show ((Table.extend ∅ rows.rows).get url).or _ = _
      rw [keptRow, hworker, Table.get_extend_rows, Table.get_empty, Option.or_none]
      rfl
  | start upstreams => exact HealthTable.atStart_agrees upstreams hfits.saved url

theorem consistent_of_reached (h : Reached alpha (InOrder url) s) : Consistent url s ∧ s.Fits := by
  apply h.invariant
  · exact ⟨nofun, nofun, nofun, nofun, nofun⟩
  · intro s event s' hs horder hstep
    exact ⟨hs.1.step hs.2 horder hstep, hs.2.step hstep⟩

/-- In every run in which the calls for an upstream send in the order in which they
recorded, whenever none of them is in progress and no row of it is in the channel, the row
that is kept is that of its entry. -/
theorem health_kept (alpha : Double) (url : Str) (s : HealthStore)
    (h : Reached alpha (InOrder url) s) (hsent : ∀ snapshot ∈ s.unsent, snapshot.url ≠ url)
    (hreceived : ∀ row ∈ s.channel, row.url ≠ url) (entry : UpstreamHealth)
    (hentry : s.health.get url = some entry) : entry.Agrees (s.keptRow url) := by
  have hagrees := (consistent_of_reached h).1 entry hentry
  have hunsent : (s.unsent.reverse.find? fun snapshot => snapshot.url = url) = none := by
    simpa [List.find?_eq_none] using hsent
  have hchannel : (s.channel.reverse.find? fun row => row.url = url) = none := by
    simpa [List.find?_eq_none] using hreceived
  rwa [latestRow, hunsent, hchannel] at hagrees

/-! ## Two calls -/

/-- An upstream, and the entry it has after `fails` failures in a row. -/
def upstreamU : UpstreamConfig := { (default : UpstreamConfig) with url := "https://u".toList }

def failedU (fails : ℕ) : UpstreamHealth :=
  { UpstreamHealth.new upstreamU.url 0 with
    consecutiveFails := fails
    status := computeStatus fails }

/-- Two failures of the upstream that overlap and send in their order, and a flush that
has to be tried again. -/
def orderedFailures : List HealthEvent :=
  [.start [upstreamU],
    .record (.failure upstreamU.url), .record (.failure upstreamU.url),
    .send (failedU 1).snapshot, .receive, .flush,
    .send (failedU 2).snapshot, .flushFailed, .receive, .flush, .flushed]

/-- Two failures of the upstream that overlap, where the second one sends first. -/
def swappedFailures : List HealthEvent :=
  [.start [upstreamU],
    .record (.failure upstreamU.url), .record (.failure upstreamU.url),
    .send (failedU 2).snapshot, .send (failedU 1).snapshot,
    .receive, .receive, .flush, .flushed]

/-- Where both lists of events end, apart from the row that is saved. -/
def savedU (fails : ℕ) : HealthStore where
  health := Table.upsert ∅ (failedU 2)
  unsent := []
  channel := []
  worker := .collecting ∅
  saved := Table.upsert ∅ (failedU fails).row

theorem health_kept_orderedFailures :
    Reached (.fin (3 / 10)) (InOrder upstreamU.url) (savedU 2) ∧
      (savedU 2).health.get upstreamU.url = some (failedU 2) ∧
      (failedU 2).Agrees ((savedU 2).keptRow upstreamU.url) := by
  have hrun : Reachable.run (step (.fin (3 / 10))) empty orderedFailures = some (savedU 2) := rfl
  have hmeets : Reachable.RunMeets (step (.fin (3 / 10))) (InOrder upstreamU.url) empty
      orderedFailures :=
    ⟨trivial, trivial, trivial, fun _ => rfl, trivial, trivial, fun _ => rfl, trivial, trivial,
      trivial, trivial, trivial⟩
  have hreached := Reachable.of_run .start hmeets hrun
  exact ⟨hreached, rfl, health_kept (.fin (3 / 10)) upstreamU.url (savedU 2) hreached nofun nofun
    (failedU 2) rfl⟩

/-- Calls that overlap may leave the older row: the worker receives it last. -/
theorem older_row_kept :
    ¬∀ (alpha : Double) (url : Str) (s : HealthStore), Reached alpha (fun _ _ => True) s →
      s.unsent = [] → s.channel = [] → ∀ entry, s.health.get url = some entry →
      entry.Agrees (s.keptRow url) := by
  intro hclaim
  have hrun : Reachable.run (step (.fin (3 / 10))) empty swappedFailures = some (savedU 1) := rfl
  have hreached := Reachable.of_run .start (Reachable.runMeets_of_forall fun _ _ => trivial) hrun
  have hagrees := hclaim _ upstreamU.url _ hreached rfl rfl (failedU 2) rfl
  exact absurd hagrees (by decide : ¬(failedU 1).row = (failedU 2).row)

end HealthStore

end Ncro
