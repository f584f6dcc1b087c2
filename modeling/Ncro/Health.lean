import Ncro.Clock
import Ncro.Foundation.Double
import Ncro.Foundation.Table
import Ncro.Narinfo

/-!
# Upstream health

The prober keeps a health entry for every tracked upstream: its priority, an
exponential moving average of its latency, and a status derived from how many
failures in a row it has had.
-/

namespace Ncro

open Foundation

inductive Status
  | active
  | degraded
  | down
  deriving DecidableEq, Repr

structure UpstreamHealth where
  url : Str
  priority : ℤ
  emaLatency : Double
  lastProbe : Option Instant
  consecutiveFails : ℕ
  totalQueries : ℕ
  status : Status
  deriving DecidableEq

/-- A fresh health record for an upstream that has not been probed yet. -/
def UpstreamHealth.new (url : Str) (priority : ℤ) : UpstreamHealth where
  url := url
  priority := priority
  emaLatency := .fin 0
  lastProbe := none
  consecutiveFails := 0
  totalQueries := 0
  status := .active

def computeStatus (consecutiveFails : ℕ) : Status :=
  if 10 ≤ consecutiveFails then .down
  else if 3 ≤ consecutiveFails then .degraded
  else .active

/-- The health entries of the tracked upstreams. -/
abbrev HealthTable := Table UpstreamHealth.url

/-- `alpha.mul_add(ms, (1.0 - alpha) * ema)`. -/
def nextEma (alpha ms ema : Double) : Double :=
  alpha.mulAdd ms ((Double.sub (.fin 1) alpha).mul ema)

/-- The comparison `sorted_by_latency` sorts with. -/
def latencyOrder (a b : UpstreamHealth) : Ordering :=
  if a.status = .down ∧ b.status ≠ .down then .gt
  else if a.status ≠ .down ∧ b.status = .down then .lt
  else if Double.lt (.fin 0) b.emaLatency ∧
      (((a.emaLatency.sub b.emaLatency).abs.div b.emaLatency).lt (.fin (1 / 10))) ∧
      a.priority ≠ b.priority then
    compare a.priority b.priority
  else if a.emaLatency.beq (.fin 0) ∧ ¬b.emaLatency.beq (.fin 0) then .gt
  else if ¬a.emaLatency.beq (.fin 0) ∧ b.emaLatency.beq (.fin 0) then .lt
  else (a.emaLatency.partialCmp b.emaLatency).getD .eq

namespace HealthTable

/-- `record_latency` at the instant it reads from the clock. -/
def recordLatency (alpha : Double) (health : HealthTable) (now : Instant) (url : Str)
    (ms : Double) : HealthTable :=
  match health.get url with
  | none => health
  | some h => health.upsert
      { h with
        emaLatency := if h.totalQueries = 0 then ms else nextEma alpha ms h.emaLatency
        consecutiveFails := 0
        totalQueries := (h.totalQueries + 1) % 2 ^ 64
        status := .active
        lastProbe := some now }

/-- `record_failure`. -/
def recordFailure (health : HealthTable) (url : Str) : HealthTable :=
  match health.get url with
  | none => health
  | some h =>
      let consecutiveFails := (h.consecutiveFails + 1) % 2 ^ 32
      health.upsert
        { h with
          consecutiveFails := consecutiveFails
          status := computeStatus consecutiveFails }

/-- Whether `sorted` is a result of `sorted_by_latency`. The entries come out of
a hash map, and the sort promises an order only when the comparison is one. -/
structure SortedByLatency (health : HealthTable) (sorted : List UpstreamHealth) : Prop where
  perm : sorted.Perm health.rows
  ordered : (∀ a ∈ sorted, ∀ b ∈ sorted, latencyOrder a b = (latencyOrder b a).swap) →
    (∀ a ∈ sorted, ∀ b ∈ sorted, ∀ c ∈ sorted,
      latencyOrder a b ≠ .gt → latencyOrder b c ≠ .gt → latencyOrder a c ≠ .gt) →
    sorted.Pairwise fun a b => latencyOrder a b ≠ .gt

end HealthTable

end Ncro
