import Ncro.Health.Persistence

/-!
# The health worker until its end

The worker collects rows in its map `pending` and flushes the map to the database at each
tick. `flush_health` empties the map before it writes, and fills it again when the write fails.
When the instance stops, the worker drains its channel and tries to flush three times before
it gives up the rows. Until then every row that is received is held in one place or the other:
`overlay_received`.
-/

namespace Ncro

open Foundation

/-- Where the worker is in its program. -/
inductive WorkerPoint
  /-- At the `select!` of its loop. -/
  | select
  /-- Draining the channel, once the instance stops. -/
  | drain
  /-- In `flush_health`, waiting for `save_health` of the rows it has taken out of the map. When
  the instance stops, `attempt` counts the attempts before this one. -/
  | flush (rows : List HealthRow) (attempt : Option ℕ)
  /-- Asleep after a failed attempt, with the number of attempts made. -/
  | sleep (attempts : ℕ)
  | returned
  | gaveUp
  deriving DecidableEq

/-- The rows that `flush_health` has taken out of the map. -/
def WorkerPoint.taken : WorkerPoint → List HealthRow
  | .flush rows _ => rows
  | _ => []

/-- Whether the map holds the rows: the worker is not in `flush_health`, and has not given up. -/
def WorkerPoint.holding : WorkerPoint → Bool
  | .flush _ _ | .gaveUp => false
  | _ => true

theorem WorkerPoint.taken_of_holding {point : WorkerPoint} (h : point.holding = true) :
    point.taken = [] := by
  cases point with
  | flush rows attempt => cases h
  | _ => rfl

structure HealthWorker where
  point : WorkerPoint
  pending : HealthRows
  channel : List HealthRow
  /-- The table `upstream_health`. -/
  saved : HealthRows
  /-- The rows that the worker has received, the oldest first. -/
  received : List HealthRow

inductive WorkerEvent
  | send (row : HealthRow)
  | receive
  /-- A flush begins, with the order in which the map gives up its values. -/
  | tick (rows : List HealthRow)
  | stop
  | tryReceive
  | drained (rows : List HealthRow)
  | saved
  | saveFailed
  | wake (rows : List HealthRow)

namespace HealthWorker

/-- At its start the worker holds nothing. -/
def start (saved : HealthRows) : HealthWorker where
  point := .select
  pending := ∅
  channel := []
  saved := saved
  received := []

/-- Move a row from the channel to the map. -/
def insert (s : HealthWorker) (row : HealthRow) (channel : List HealthRow) : HealthWorker :=
  { s with
    pending := s.pending.upsert row
    channel := channel
    received := s.received ++ [row] }

/-- `flush_health` up to its write. -/
def take (s : HealthWorker) (rows : List HealthRow) (attempt : Option ℕ) : Option HealthWorker :=
  if rows.Perm s.pending.rows then some { s with point := .flush rows attempt, pending := ∅ }
  else none

/-- `save_health` writes all rows or none, and cannot fail without rows. -/
def step (s : HealthWorker) : WorkerEvent → Option HealthWorker
  | .send row => some { s with channel := s.channel ++ [row] }
  | .receive =>
      match s.point, s.channel with
      | .select, row :: channel => some (s.insert row channel)
      | _, _ => none
  | .tick rows => if s.point = .select then s.take rows none else none
  | .stop => if s.point = .select then some { s with point := .drain } else none
  | .tryReceive =>
      match s.point, s.channel with
      | .drain, row :: channel => some (s.insert row channel)
      | _, _ => none
  | .drained rows => if s.point = .drain ∧ s.channel = [] then s.take rows (some 0) else none
  | .saved =>
      match s.point with
      | .flush rows attempt =>
          some { s with
            point := if attempt = none then .select else .returned
            saved := s.saved.extend rows }
      | _ => none
  | .saveFailed =>
      match s.point with
      | .flush [] _ => none
      | .flush rows attempt =>
          some { s with
            point := attempt.elim .select fun attempt => .sleep (attempt + 1)
            pending := s.pending.extend rows }
      | _ => none
  | .wake rows =>
      match s.point with
      | .sleep attempts =>
          if attempts < 3 then s.take rows (some attempts)
          else some { s with point := .gaveUp, pending := ∅ }
      | _ => none

/-- The states that a worker comes to over the rows saved before. -/
abbrev Reached (saved : HealthRows) : HealthWorker → Prop :=
  Reachable (fun s event s' => s.step event = some s') (fun _ _ => True) (start saved)

/-! ## What a step does -/

/-- What a step of the worker does to the rows, with the point that it leads to. -/
inductive Moved (s : HealthWorker) : HealthWorker → Prop
  | sent (row : HealthRow) : Moved s { s with channel := s.channel ++ [row] }
  | received (row : HealthRow) (channel : List HealthRow) (hpoint : s.point.holding = true) :
      Moved s (s.insert row channel)
  | stopped (hpoint : s.point.holding = true) : Moved s { s with point := .drain }
  | took {rows : List HealthRow} (attempt : Option ℕ) (hpoint : s.point.holding = true)
      (hrows : rows.Perm s.pending.rows) :
      Moved s { s with point := .flush rows attempt, pending := ∅ }
  | saved {rows : List HealthRow} {attempt : Option ℕ} (point : WorkerPoint)
      (hpoint : s.point = .flush rows attempt) (hnext : point.holding = true) :
      Moved s { s with point, saved := s.saved.extend rows }
  | failed {rows : List HealthRow} {attempt : Option ℕ} (point : WorkerPoint)
      (hpoint : s.point = .flush rows attempt) (hnext : point.holding = true) :
      Moved s { s with point, pending := s.pending.extend rows }
  | gaveUp : Moved s { s with point := .gaveUp, pending := ∅ }

variable {s s' : HealthWorker}

theorem moved_of_take {rows : List HealthRow} {attempt : Option ℕ} (hpoint : s.point.holding = true)
    (h : s.take rows attempt = some s') : Moved s s' := by
  unfold take at h
  split at h
  · next hrows =>
    cases h
    exact .took attempt hpoint hrows
  · cases h

theorem moved_of_step {event : WorkerEvent} (h : s.step event = some s') : Moved s s' := by
  cases event with
  | send row =>
      cases h
      exact .sent row
  | receive =>
      simp only [step] at h
      split at h
      · next row channel hpoint hchannel =>
        cases h
        exact .received row channel (by rw [hpoint]; rfl)
      · cases h
  | tick rows =>
      simp only [step] at h
      split at h
      · next hpoint => exact moved_of_take (by rw [hpoint]; rfl) h
      · cases h
  | stop =>
      simp only [step] at h
      split at h
      · next hpoint =>
        cases h
        exact .stopped (by rw [hpoint]; rfl)
      · cases h
  | tryReceive =>
      simp only [step] at h
      split at h
      · next row channel hpoint hchannel =>
        cases h
        exact .received row channel (by rw [hpoint]; rfl)
      · cases h
  | drained rows =>
      simp only [step] at h
      split at h
      · next hpoint => exact moved_of_take (by rw [hpoint.1]; rfl) h
      · cases h
  | saved =>
      simp only [step] at h
      split at h
      · next rows attempt hpoint =>
        cases h
        exact .saved _ hpoint (by cases attempt <;> rfl)
      · cases h
  | saveFailed =>
      simp only [step] at h
      split at h
      · cases h
      · next rows attempt _ hpoint =>
        cases h
        exact .failed _ hpoint (by cases attempt <;> rfl)
      · cases h
  | wake rows =>
      simp only [step] at h
      split at h
      · next attempts hpoint =>
        split at h
        · exact moved_of_take (by rw [hpoint]; rfl) h
        · cases h
          exact .gaveUp
      · cases h

/-! ## The overlay -/

/-- The table, overlaid with the rows that are being written and with the map. -/
def overlay (s : HealthWorker) : HealthRows :=
  (s.saved.extend s.point.taken).extend s.pending.rows

/-- Outside of `flush_health` these are the table and the map. -/
theorem get_overlay_of_holding (h : s.point.holding = true) (url : Str) :
    s.overlay.get url = (s.pending.get url).or (s.saved.get url) := by
  rw [overlay, WorkerPoint.taken_of_holding h, Table.extend_nil, Table.get_extend_rows]

/-- The row of an upstream that was received last, or else saved before. -/
def lastRow (saved : HealthRows) (s : HealthWorker) (url : Str) : Option HealthRow :=
  (s.received.reverse.find? fun row => row.url = url).or (saved.get url)

theorem lastRow_insert (saved : HealthRows) (s : HealthWorker) (row : HealthRow)
    (channel : List HealthRow) (url : Str) :
    lastRow saved (s.insert row channel) url =
      if row.url = url then some row else lastRow saved s url := by
  rw [lastRow, insert, List.reverse_append, List.find?_append, Option.or_assoc]
  by_cases hurl : row.url = url
  · simp [hurl]
  · simp [hurl, lastRow]

/-- The map is empty while its rows are being written, and the overlay has the last rows. -/
structure Kept (saved : HealthRows) (s : HealthWorker) : Prop where
  pending : ∀ rows attempt, s.point = .flush rows attempt → s.pending = ∅
  overlay : s.point ≠ .gaveUp → ∀ url, s.overlay.get url = lastRow saved s url

variable {saved : HealthRows}

/-- While the map holds the rows, nothing has to be known about it but its overlay. -/
theorem Kept.of_holding (hpoint : s.point.holding = true)
    (hoverlay : ∀ url, (s.pending.get url).or (s.saved.get url) = lastRow saved s url) :
    Kept saved s where
  pending rows attempt hflush := by
    rw [hflush] at hpoint
    cases hpoint
  overlay _ url := (get_overlay_of_holding hpoint url).trans (hoverlay url)

theorem Kept.get_of_holding (h : Kept saved s) (hpoint : s.point.holding = true) (url : Str) :
    (s.pending.get url).or (s.saved.get url) = lastRow saved s url := by
  have hlive : s.point ≠ .gaveUp := by
    intro hgave
    rw [hgave] at hpoint
    cases hpoint
  rw [← get_overlay_of_holding hpoint, h.overlay hlive]

/-- While rows are being written, they and the table make the overlay. -/
theorem Kept.get_of_flush (h : Kept saved s) {rows : List HealthRow} {attempt : Option ℕ}
    (hpoint : s.point = .flush rows attempt) (url : Str) :
    (s.saved.extend rows).get url = lastRow saved s url := by
  have hlive : s.point ≠ .gaveUp := by
    rw [hpoint]
    exact nofun
  have hoverlay := h.overlay hlive url
  rw [HealthWorker.overlay, hpoint, h.pending rows attempt hpoint] at hoverlay
  exact hoverlay

/-- A row that is received is the last one of its upstream. A flush does not change the
overlay, whether its write succeeds or fails. -/
theorem Kept.moved (h : Kept saved s) (hmoved : Moved s s') : Kept saved s' := by
  cases hmoved with
  | sent row => exact ⟨h.pending, h.overlay⟩
  | received row channel hpoint =>
      have hnext : (s.insert row channel).point.holding = true := hpoint
      apply Kept.of_holding hnext
      intro url
      rw [lastRow_insert, ← h.get_of_holding hpoint]
      show ((s.pending.upsert row).get url).or (s.saved.get url) = _
      rw [Table.get_upsert]
      by_cases hurl : row.url = url
      · rw [if_pos hurl, if_pos hurl, Option.some_or]
      · rw [if_neg hurl, if_neg hurl]
  | stopped hpoint => exact Kept.of_holding rfl (h.get_of_holding hpoint)
  | @took rows attempt hpoint hrows =>
      constructor
      · exact fun _ _ _ => rfl
      · intro _ url
        exact (Table.get_extend_of_perm s.saved hrows url).trans (h.get_of_holding hpoint url)
  | @saved rows attempt point hpoint hnext =>
      apply Kept.of_holding hnext
      intro url
      show (s.pending.get url).or ((s.saved.extend rows).get url) = _
      rw [h.pending rows attempt hpoint, Table.get_empty, Option.none_or]
      exact h.get_of_flush hpoint url
  | @failed rows attempt point hpoint hnext =>
      apply Kept.of_holding hnext
      intro url
      show ((s.pending.extend rows).get url).or (s.saved.get url) = _
      rw [h.pending rows attempt hpoint, Table.get_extend, Table.get_empty, Option.or_none,
        ← Table.get_extend]
      exact h.get_of_flush hpoint url
  | gaveUp => exact ⟨nofun, fun hlive => absurd rfl hlive⟩

theorem Reached.kept (h : Reached saved s) : Kept saved s := by
  apply h.invariant
  · exact ⟨nofun, fun _ url => rfl⟩
  · intro s event s' hkept _ hstep
    exact hkept.moved (moved_of_step hstep)

/-- Over every sequence of rows that the worker receives and of flushes that succeed or fail,
the drain and the attempts at the end included, until it gives up the table overlaid with the
map (and with the rows that are being written) has for each upstream the row that was received
last, or else the one saved before. A flush that succeeds leaves the map empty, so that the
table has these rows itself. -/
theorem overlay_received (saved : HealthRows) (s : HealthWorker) (h : Reached saved s) :
    (s.point ≠ .gaveUp → ∀ url, s.overlay.get url = lastRow saved s url) ∧
      (s.point.holding = true → ∀ url,
        (s.saved.extend s.pending.rows).get url = lastRow saved s url) ∧
      ∀ s', s.step .saved = some s' →
        s'.pending = ∅ ∧ ∀ url, s'.saved.get url = lastRow saved s' url := by
  have hkept := h.kept
  refine ⟨hkept.overlay, ?_, ?_⟩
  · intro hpoint url
    rw [Table.get_extend_rows]
    exact hkept.get_of_holding hpoint url
  · intro s' hstep
    have hstep' := hstep
    simp only [step] at hstep'
    split at hstep'
    · next rows attempt hpoint =>
      cases hstep'
      constructor
      · exact hkept.pending rows attempt hpoint
      · exact hkept.get_of_flush hpoint
    · cases hstep'

open HealthStore (failedU upstreamU)

/-- A flush that fails, a row that supersedes the one held, and a second attempt at the end. -/
def retriedFlush : List WorkerEvent :=
  [.send (failedU 1).row, .receive, .tick [(failedU 1).row], .saveFailed,
    .send (failedU 2).row, .receive, .stop, .drained [(failedU 2).row], .saveFailed,
    .wake [(failedU 2).row]]

/-- Where these events end. -/
def retriedU : HealthWorker where
  point := .flush [(failedU 2).row] (some 1)
  pending := ∅
  channel := []
  saved := ∅
  received := [(failedU 1).row, (failedU 2).row]

theorem overlay_received_retriedU :
    Reached ∅ retriedU ∧ (∀ url, retriedU.overlay.get url = lastRow ∅ retriedU url) ∧
      ∃ s', retriedU.step .saved = some s' ∧ s'.pending = ∅ ∧
        s'.saved.get upstreamU.url = some (failedU 2).row := by
  have hrun : Reachable.run step (start ∅) retriedFlush = some retriedU := rfl
  have hreached : Reached ∅ retriedU :=
    Reachable.of_run .start (Reachable.runMeets_of_forall fun _ _ => trivial) hrun
  rcases overlay_received ∅ retriedU hreached with ⟨hoverlay, -, hsaved⟩
  rcases hsaved _ rfl with ⟨hpending, hrow⟩
  exact ⟨hreached, hoverlay nofun, _, rfl, hpending, hrow upstreamU.url⟩

end HealthWorker

end Ncro
