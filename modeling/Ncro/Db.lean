import Ncro.Clock
import Ncro.Foundation.Double
import Ncro.Foundation.Table
import Ncro.Narinfo

/-!
# The route database

The table `routes` holds one row per store hash and `negative_cache` one expiry
per missing path. Columns are SQLite values: counts and sizes are signed, times
are whole seconds. `rowToRoute` reads a row back, and `Evicts` is the deletion
that bounds the table. The columns nothing reads back (`created_at`) are left
out.
-/

namespace Ncro

open Foundation

/-! ## Rows -/

inductive DbError
  | sqlx
  | invalidData (message : Str)
  deriving DecidableEq, Repr

structure RouteEntry where
  storePath : Str
  upstreamUrl : Str
  latencyMs : Double
  latencyEma : Double
  lastVerified : Timestamp
  queryCount : ℕ
  failureCount : ℕ
  ttl : Timestamp
  narHash : Str
  narSize : ℕ
  narUrl : Str
  /-- The upstream's own path, since `narUrl` is canonical. -/
  upstreamNarUrl : Str
  narinfoBytes : Option Octets
  deriving DecidableEq

/-- `RouteEntry::is_valid` at the time it reads from the clock. -/
def RouteEntry.isValid (entry : RouteEntry) (now : Timestamp) : Bool :=
  now < entry.ttl

/-- A row of the table `routes`. -/
structure RouteRow where
  storePath : Str
  upstreamUrl : Str
  latencyMs : Double
  latencyEma : Double
  queryCount : ℤ
  failureCount : ℤ
  lastVerified : ℤ
  ttl : ℤ
  narHash : Str
  narSize : ℤ
  narUrl : Str
  upstreamNarUrl : Str
  narinfoBytes : Option Octets
  deriving DecidableEq

/-- A text after a prefix, with a number behind it. -/
def outOfRange (what : String) (value : ℤ) : DbError :=
  .invalidData (what.toList ++ " out of range: ".toList ++ (toString value).toList)

/-- An unsigned integer of `bits` bits from a column. -/
def unsignedColumn (bits : ℕ) (what : String) (value : ℤ) : Except DbError ℕ :=
  if 0 ≤ value ∧ value < 2 ^ bits then .ok value.toNat else .error (outOfRange what value)

def timestampColumn (field : String) (value : ℤ) : Except DbError Timestamp :=
  match Timestamp.fromSecond value with
  | some t => .ok t
  | none => .error (outOfRange (field ++ " timestamp") value)

def rowToRoute (row : RouteRow) : Except DbError RouteEntry := do
  let queryCount ← unsignedColumn 32 "query_count" row.queryCount
  let failureCount ← unsignedColumn 32 "failure_count" row.failureCount
  let lastVerified ← timestampColumn "last_verified" row.lastVerified
  let ttl ← timestampColumn "ttl" row.ttl
  let narSize ← unsignedColumn 64 "nar_size" row.narSize
  return {
    storePath := row.storePath
    upstreamUrl := row.upstreamUrl
    latencyMs := row.latencyMs
    latencyEma := row.latencyEma
    lastVerified, queryCount, failureCount, ttl
    narHash := row.narHash
    narSize
    narUrl := row.narUrl
    upstreamNarUrl := row.upstreamNarUrl
    narinfoBytes := row.narinfoBytes }

/-- The values `set_route` binds. -/
def routeToRow (entry : RouteEntry) : RouteRow where
  storePath := entry.storePath
  upstreamUrl := entry.upstreamUrl
  latencyMs := entry.latencyMs
  latencyEma := entry.latencyEma
  queryCount := entry.queryCount
  failureCount := entry.failureCount
  lastVerified := entry.lastVerified.asSecond
  ttl := entry.ttl.asSecond
  narHash := entry.narHash
  narSize := min entry.narSize (2 ^ 63 - 1)
  narUrl := entry.narUrl
  upstreamNarUrl := entry.upstreamNarUrl
  narinfoBytes := entry.narinfoBytes

@[simp] theorem routeToRow_storePath (entry : RouteEntry) :
    (routeToRow entry).storePath = entry.storePath := rfl

@[simp] theorem routeToRow_latencyEma (entry : RouteEntry) :
    (routeToRow entry).latencyEma = entry.latencyEma := rfl

@[simp] theorem routeToRow_lastVerified (entry : RouteEntry) :
    (routeToRow entry).lastVerified = entry.lastVerified.asSecond := rfl

theorem eq_of_unsignedColumn {bits : ℕ} {what : String} {value : ℤ} {n : ℕ}
    (h : unsignedColumn bits what value = .ok n) : (n : ℤ) = value := by
  unfold unsignedColumn at h
  split at h
  · next hrange =>
    cases h
    exact Int.toNat_of_nonneg hrange.1
  · cases h

theorem fromSecond_of_timestampColumn {field : String} {value : ℤ} {t : Timestamp}
    (h : timestampColumn field value = .ok t) : Timestamp.fromSecond value = some t := by
  unfold timestampColumn at h
  split at h
  · next heq =>
    cases h
    exact heq
  · cases h

/-- What a row that can be read says about each column of the route. -/
structure ReadFrom (row : RouteRow) (entry : RouteEntry) : Prop where
  storePath : entry.storePath = row.storePath
  upstreamUrl : entry.upstreamUrl = row.upstreamUrl
  latencyMs : entry.latencyMs = row.latencyMs
  latencyEma : entry.latencyEma = row.latencyEma
  queryCount : (entry.queryCount : ℤ) = row.queryCount
  failureCount : (entry.failureCount : ℤ) = row.failureCount
  lastVerified : Timestamp.fromSecond row.lastVerified = some entry.lastVerified
  ttl : Timestamp.fromSecond row.ttl = some entry.ttl
  narHash : entry.narHash = row.narHash
  narSize : (entry.narSize : ℤ) = row.narSize
  narUrl : entry.narUrl = row.narUrl
  upstreamNarUrl : entry.upstreamNarUrl = row.upstreamNarUrl
  narinfoBytes : entry.narinfoBytes = row.narinfoBytes

theorem readFrom_of_rowToRoute {row : RouteRow} {entry : RouteEntry}
    (h : rowToRoute row = .ok entry) : ReadFrom row entry := by
  simp only [rowToRoute, bind, Except.bind, pure, Except.pure] at h
  split at h
  · cases h
  next hquery =>
  split at h
  · cases h
  next hfailure =>
  split at h
  · cases h
  next hverified =>
  split at h
  · cases h
  next httl =>
  split at h
  · cases h
  next hsize =>
  cases h
  exact ⟨rfl, rfl, rfl, rfl, eq_of_unsignedColumn hquery, eq_of_unsignedColumn hfailure,
    fromSecond_of_timestampColumn hverified, fromSecond_of_timestampColumn httl, rfl,
    eq_of_unsignedColumn hsize, rfl, rfl, rfl⟩

/-- The bytes of a row are read back as they are. -/
theorem rowToRoute_narinfoBytes (row : RouteRow) (bytes : Option Octets) :
    rowToRoute { row with narinfoBytes := bytes } =
      (rowToRoute row).map fun entry => { entry with narinfoBytes := bytes } := by
  unfold rowToRoute
  cases unsignedColumn 32 "query_count" row.queryCount with
  | error err => rfl
  | ok queryCount =>
      cases unsignedColumn 32 "failure_count" row.failureCount with
      | error err => rfl
      | ok failureCount =>
          cases timestampColumn "last_verified" row.lastVerified with
          | error err => rfl
          | ok lastVerified =>
              cases timestampColumn "ttl" row.ttl with
              | error err => rfl
              | ok ttl => cases unsignedColumn 64 "nar_size" row.narSize <;> rfl

/-! ## Tables -/

abbrev RouteTable := Table RouteRow.storePath

/-- Store paths with the second their absence expires at. -/
abbrev NegativeTable := Table (Prod.fst : Str × ℤ → Str)

namespace RouteTable

/-- `SELECT … WHERE store_path = ?`. -/
def getRoute (routes : RouteTable) (storePath : Str) : Except DbError (Option RouteEntry) :=
  match routes.get storePath with
  | none => .ok none
  | some row => (rowToRoute row).map some

/-- A route that is found was read from the row of its path. -/
theorem exists_row_of_getRoute {routes : RouteTable} {storePath : Str} {entry : RouteEntry}
    (h : routes.getRoute storePath = .ok (some entry)) :
    ∃ row, routes.get storePath = some row ∧ ReadFrom row entry := by
  unfold getRoute at h
  split at h
  · cases h
  · next row hrow =>
    cases hread : rowToRoute row with
    | error err =>
        rw [hread] at h
        cases h
    | ok read =>
        rw [hread] at h
        cases h
        exact ⟨row, hrow, readFrom_of_rowToRoute hread⟩

/-- Whether `reply` is a result of `SELECT … WHERE nar_url = ? AND ttl > ?`,
which may pick any matching row. -/
def GetRouteByNarUrl (routes : RouteTable) (now : Timestamp) (narUrl : Str)
    (reply : Except DbError (Option RouteEntry)) : Prop :=
  (∃ row ∈ routes.rows, row.narUrl = narUrl ∧ now.asSecond < row.ttl ∧
    reply = (rowToRoute row).map some) ∨
  (∀ row ∈ routes.rows, ¬(row.narUrl = narUrl ∧ now.asSecond < row.ttl)) ∧ reply = .ok none

/-- How many rows `evict_if_needed` deletes. -/
def excess (routes : RouteTable) (maxEntries : ℤ) : ℕ :=
  min routes.rows.length (routes.rows.length - maxEntries).toNat

/-- `evict_if_needed`: the least recently verified rows above `maxEntries` are
deleted. -/
structure Evicts (maxEntries : ℤ) (routes routes' : RouteTable) : Prop where
  sublist : routes'.rows.Sublist routes.rows
  length : routes'.rows.length + routes.excess maxEntries = routes.rows.length
  oldest : ∀ row ∈ routes.rows, row ∉ routes'.rows →
    ∀ row' ∈ routes'.rows, row.lastVerified ≤ row'.lastVerified

/-- `expire_old_routes`. -/
def expireOldRoutes (routes : RouteTable) (now : Timestamp) : RouteTable :=
  routes.filter fun row => ¬row.ttl < now.asSecond

end RouteTable

namespace NegativeTable

/-- `is_negative`. -/
def isNegative (negatives : NegativeTable) (now : Timestamp) (storePath : Str) : Bool :=
  match negatives.get storePath with
  | some (_, expiresAt) => now.asSecond < expiresAt
  | none => false

/-- `set_negative`. -/
def setNegative (negatives : NegativeTable) (now : Timestamp) (storePath : Str) (ttl : Duration) :
    NegativeTable :=
  negatives.upsert (storePath, (now.saturatingAdd ttl).asSecond)

/-- `expire_negatives`. -/
def expireNegatives (negatives : NegativeTable) (now : Timestamp) : NegativeTable :=
  negatives.filter fun entry => ¬entry.2 < now.asSecond

end NegativeTable

end Ncro
